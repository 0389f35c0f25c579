import Feat.Agents.SolverContracts

/- What brothers agree on (`System.step`).

   A brother counts as not there when its contract has expired without a bid. So a
   brother that is reachable but whose bid is late is removed as well, and two agents
   may solve the problem (`both_solve`). As long as the bids of all reachable brothers
   are in time (`InTime`), a list loses only brothers that are not reachable, each one
   when a contract with it has failed, and of the reachable agents the first one alone
   solves the problem itself: `brothers_agree`. -/
namespace Feat.Agents.CollectiveSolver
open Hash Transition Feat.Agencies Feat.Agencies.Contracts

variable {Key : Type}

/-! ## Lists of brothers -/

/-- One brother comes before another. -/
def Before (brothers : List Key) (b a : Key) : Prop := [b, a].Sublist brothers

theorem Before.sublist {l l' : List Key} {b a : Key} (h : Before l b a) (hl : l.Sublist l') :
    Before l' b a := h.trans hl

theorem Before.mem {l : List Key} {b a : Key} (h : Before l b a) : b ∈ l ∧ a ∈ l :=
  ⟨h.subset (by simp), h.subset (by simp)⟩

theorem Before.ne {l : List Key} {b a : Key} (hl : l.Nodup) (h : Before l b a) : b ≠ a := by
  have hpair := hl.sublist h
  simpa using hpair

/-- No two brothers come before each other. -/
theorem Before.asymm {l : List Key} {b a : Key} (hl : l.Nodup) (h : Before l b a) :
    ¬ Before l a b := by
  induction l with
  | nil => cases h
  | cons x l ih =>
    have hx : x ∉ l := (List.nodup_cons.mp hl).1
    intro h'
    cases h with
    | cons _ h =>
      cases h' with
      | cons _ h' => exact ih (List.nodup_cons.mp hl).2 h h'
      | cons_cons _ h' => exact hx (h.subset (by simp))
    | cons_cons _ h =>
      cases h' with
      | cons _ h' => exact hx (h'.subset (by simp))
      | cons_cons _ h' => exact hx (h.subset (by simp))

theorem before_of_get {l : List Key} {b a : Key} {i : Nat} (hb : l[i]? = some b)
    (ha : l[i + 1]? = some a) : Before l b a := by
  obtain ⟨hi, hb⟩ := List.getElem?_eq_some_iff.mp hb
  obtain ⟨hi', ha⟩ := List.getElem?_eq_some_iff.mp ha
  have hdrop : l.drop i = b :: a :: l.drop (i + 2) := by
    rw [List.drop_eq_getElem_cons hi, List.drop_eq_getElem_cons hi', hb, ha]
  have hpair : [b, a].Sublist (l.drop i) := by
    rw [hdrop]
    exact ((List.nil_sublist _).cons_cons a).cons_cons b
  exact hpair.trans (List.drop_sublist i l)

/-- Nobody comes before the first of a list. -/
theorem not_before_head {l l' : List Key} {b a : Key} (hl : l.Nodup) (hsub : l'.Sublist l)
    (ha : l'.head? = some a) (h : Before l b a) : b ∉ l' := by
  intro hb
  obtain ⟨rest, rfl⟩ := List.head?_eq_some_iff.mp ha
  obtain rfl | hb := List.mem_cons.mp hb
  · exact h.ne hl rfl
  · have hafter : Before (a :: rest) a b := (List.singleton_sublist.mpr hb).cons_cons a
    exact h.asymm hl (hafter.sublist hsub)

/-! ## One solver -/

variable [DecidableEq Key] (order : HashOrder Key) {brothers : List Key} {reachable : Key → Bool}
  {own : Key}

/-- A contract with a brother that is reachable and bids in time, or with one that sends nothing. -/
def Fair (reachable : Key → Bool) (resolver : Key) (m : AgencyManager Key)
    (result : Option (Outcome Key)) : Prop :=
  if reachable resolver then Alive m ∧ ∀ recipient, result ≠ some (.failed (some recipient))
  else Silent m ∧ Unheard resolver m.medium result

/-- What holds where a solver is. -/
def Placed (reachable : Key → Bool) (own : Key) (s : Solver Key) : Prop :=
  match s.phase with
  | .waiting | .expired => True
  | .asking resolver m result => Before s.brothers resolver own ∧ Fair reachable resolver m result
  | .solvedLocally => s.brothers.head? = some own
  | .answered => ∃ resolver, Before s.brothers resolver own ∧ reachable resolver = true
  | .failed => False

/-- What holds of a solver: only brothers that are not reachable have gone from its list. -/
structure Sound (brothers : List Key) (reachable : Key → Bool) (own : Key) (s : Solver Key) :
    Prop where
  sub : s.brothers.Sublist brothers
  mem : own ∈ s.brothers
  gone : ∀ b ∈ brothers, b ∉ s.brothers → reachable b = false
  placed : Placed reachable own s

theorem start_fair (resolver : Key) :
    Fair reachable resolver (AgencyManager.start (some 1)) none := by
  unfold Fair
  split
  · exact ⟨start_alive (some 1), fun _ h => by cases h⟩
  · exact ⟨⟨rfl, rfl⟩, start_unheard (some 1) resolver⟩

/-- To start over with a list that still has the agent keeps what holds. -/
theorem iterate_sound {l : List Key} (hsub : l.Sublist brothers) (hmem : own ∈ l)
    (hgone : ∀ b ∈ brothers, b ∉ l → reachable b = false) :
    Sound brothers reachable own (iterate own l) := by
  refine ⟨hsub, hmem, hgone, ?_⟩
  have hown : l[l.idxOf own]? = some own := by
    rw [List.getElem?_eq_getElem (List.idxOf_lt_length_of_mem hmem)]
    exact congrArg some (List.getElem_idxOf _)
  unfold iterate Placed
  dsimp only
  rw [if_pos hmem]
  cases hi : l.idxOf own with
  | zero =>
    rw [hi] at hown
    rw [List.head?_eq_getElem?]
    exact hown
  | succ i =>
    rw [hi] at hown
    dsimp only
    cases hresolver : l[i]? with
    | none =>
      have hlt := (List.getElem?_eq_some_iff.mp hown).1
      have hle := List.getElem?_eq_none_iff.mp hresolver
      omega
    | some resolver => exact ⟨before_of_get hresolver hown, start_fair resolver⟩

/-- The condition on a step of one solver. -/
def OwnInTime (reachable : Key → Bool) (s : Solver Key) : Event → Prop
  | .contract e =>
    match s.phase with
    | .asking resolver m _ => reachable resolver = true → Bids m e
    | _ => True
  | _ => True

instance (s : Solver Key) : ∀ e, Decidable (OwnInTime reachable s e)
  | .contract e => by
    unfold OwnInTime
    cases s.phase <;> infer_instance
  | .initiate | .finished | .expire => .isTrue trivial

theorem fair_step {resolver : Key} {m m' : AgencyManager Key} {e : ContractEvent}
    {result : Option (Outcome Key)} (h : Fair reachable resolver m result)
    (hsent : ¬ Unsent reachable resolver e) (hbids : reachable resolver = true → Bids m e)
    (hstep : contractStep order resolver m e = some m') :
    Fair reachable resolver m' (resulting resolver m m' e result) := by
  unfold Fair at h ⊢
  cases hreach : reachable resolver with
  | true =>
    rw [if_pos hreach] at h
    rw [if_pos rfl]
    refine ⟨alive_step order h.1 (hbids hreach) hstep, fun recipient => ?_⟩
    unfold resulting
    split
    · exact fun hres => alive_outcome order h.1 hstep recipient (Option.some.inj hres)
    · exact h.2 recipient
  | false =>
    rw [hreach, if_neg Bool.false_ne_true] at h
    rw [if_neg Bool.false_ne_true]
    exact unheard_step order h.1 h.2 (fun msg hmsg => hsent ⟨hreach, msg, hmsg⟩) hstep

/-- The list after a contract that failed: a brother that is not reachable is gone from it, and
nobody else. -/
theorem newList_eq {s : Solver Key} {resolver : Key} {m : AgencyManager Key} {result : Outcome Key}
    (h : Fair reachable resolver m (some result)) : newList s.brothers result =
      if reachable resolver then s.brothers else s.brothers.erase resolver := by
  unfold Fair at h
  split
  · rename_i hreach
    rw [if_pos hreach] at h
    unfold newList
    split
    · rename_i recipient
      exact absurd rfl (h.2 recipient)
    · rfl
  · rename_i hreach
    rw [if_neg hreach] at h
    cases h.2
    rfl

/-- A brother that sends nothing does not complete a contract. -/
theorem completed_reachable {resolver : Key} {m : AgencyManager Key}
    (h : Fair reachable resolver m (some .completed)) : reachable resolver = true := by
  by_contra hreach
  unfold Fair at h
  rw [if_neg hreach] at h
  cases h.2

theorem step_sound {s t : Solver Key} {e : Event} (hnodup : brothers.Nodup)
    (h : Sound brothers reachable own s) (htime : OwnInTime reachable s e)
    (hstep : s.step order reachable own e = some t) : Sound brothers reachable own t := by
  have hplaced := h.placed
  unfold Placed at hplaced
  cases e with
  | initiate =>
    dsimp only [Solver.step] at hstep
    split at hstep
    · obtain rfl := Option.some.inj hstep
      exact iterate_sound h.sub h.mem h.gone
    · cases hstep
  | contract e =>
    dsimp only [Solver.step] at hstep
    split at hstep
    · rename_i resolver m result hphase
      rw [hphase] at hplaced
      unfold OwnInTime at htime
      dsimp only at htime
      rw [hphase] at htime
      split at hstep
      · cases hstep
      · rename_i hsent
        obtain ⟨m', hm', rfl⟩ := Option.map_eq_some_iff.mp hstep
        exact ⟨h.sub, h.mem, h.gone, hplaced.1, fair_step order hplaced.2 hsent htime hm'⟩
    · cases hstep
  | finished =>
    dsimp only [Solver.step] at hstep
    split at hstep
    · rename_i resolver m hphase
      rw [hphase] at hplaced
      obtain rfl := Option.some.inj hstep
      exact ⟨h.sub, h.mem, h.gone, resolver, hplaced.1, completed_reachable hplaced.2⟩
    · rename_i resolver m result _ hphase
      rw [hphase] at hplaced
      obtain rfl := Option.some.inj hstep
      rw [newList_eq hplaced.2]
      split
      · exact iterate_sound h.sub h.mem h.gone
      · rename_i hreach
        have hne : own ≠ resolver := (hplaced.1.ne (hnodup.sublist h.sub)).symm
        refine iterate_sound (List.erase_sublist.trans h.sub)
          ((List.mem_erase_of_ne hne).mpr h.mem) fun b hb hnot => ?_
        by_cases hb' : b ∈ s.brothers
        · by_cases hbr : b = resolver
          · rw [hbr]
            simpa using hreach
          · exact absurd ((List.mem_erase_of_ne hbr).mpr hb') hnot
        · exact h.gone b hb hb'
    · cases hstep
  | expire =>
    dsimp only [Solver.step] at hstep
    split at hstep
    · obtain rfl := Option.some.inj hstep
      exact ⟨h.sub, h.mem, h.gone, trivial⟩
    · cases hstep

/-! ## All solvers -/

/-- A solver has come to its end: nothing can happen but that its task expires. -/
def Done (reachable : Key → Bool) (own : Key) (s : Solver Key) : Prop :=
  ∀ e, e ≠ .expire → s.step order reachable own e = none

/-- A solver has started over. -/
def Retried (s : Solver Key) : Prop :=
  (∃ resolver m, s.phase = .asking resolver m none) ∨ s.phase = .solvedLocally

/-- What the brothers agree on: nobody's list loses its owner or a brother that is reachable, an
agent solves the problem itself only if all brothers before it are not reachable, so at most one
of those that are reachable does, and the first of these does unless its task expires. -/
structure Agreement (brothers : List Key) (reachable : Key → Bool) (t : System Key) : Prop where
  kept : ∀ a ∈ brothers, ∀ b ∈ brothers, b = a ∨ reachable b = true → b ∈ (t a).brothers
  ordered : ∀ a ∈ brothers, (t a).brothers.Sublist brothers
  locally : ∀ a ∈ brothers, (t a).phase = .solvedLocally →
    ∀ b, Before brothers b a → reachable b = false
  alone : ∀ a ∈ brothers, ∀ b ∈ brothers, reachable a = true → reachable b = true →
    (t a).phase = .solvedLocally → (t b).phase = .solvedLocally → a = b
  first : ∀ a ∈ brothers, (∀ b, Before brothers b a → reachable b = false) →
    Done order reachable a (t a) → (t a).phase = .solvedLocally ∨ (t a).phase = .expired

/-- What one step does to the lists: the only brother to go is one that is not reachable and whose
contract has failed, and it goes before the solver starts over. -/
structure Narrows (brothers : List Key) (reachable : Key → Bool) (s t : System Key) : Prop where
  removes : ∀ a ∈ brothers, (t a).brothers = (s a).brothers ∨
    ∃ resolver m result, (s a).phase = .asking resolver m (some result) ∧
      reachable resolver = false ∧ (t a).brothers = (s a).brothers.erase resolver
  retries : ∀ a ∈ brothers, ∀ resolver m result, (s a).phase = .asking resolver m (some result) →
    Retried (t a) → reachable resolver = false →
      (t a).brothers = (s a).brothers.erase resolver ∧
        (t a).brothers.length < (s a).brothers.length

/-- The condition on a step: as long as the contract with a brother that is reachable runs, its bid
is in before the announce timeout fires and granted before it expires, and it does not refuse. -/
def InTime (reachable : Key → Bool) (s : System Key) (e : Key × Event) : Prop :=
  OwnInTime reachable (s e.1) e.2

instance (s : System Key) (e : Key × Event) : Decidable (InTime reachable s e) :=
  inferInstanceAs (Decidable (OwnInTime reachable (s e.1) e.2))

omit [DecidableEq Key] in
/-- Of two brothers one comes before the other. -/
theorem before_total {l : List Key} {a b : Key} (ha : a ∈ l) (hb : b ∈ l) (hne : a ≠ b) :
    Before l a b ∨ Before l b a := by
  induction l with
  | nil => cases ha
  | cons x l ih =>
    obtain rfl | hal := List.mem_cons.mp ha
    · obtain rfl | hbl := List.mem_cons.mp hb
      · exact absurd rfl hne
      · exact .inl ((List.singleton_sublist.mpr hbl).cons_cons a)
    · obtain rfl | hbl := List.mem_cons.mp hb
      · exact .inr ((List.singleton_sublist.mpr hal).cons_cons b)
      · exact (ih hal hbl).imp (fun h => h.cons x) (fun h => h.cons x)

theorem sound_agreement {t : System Key} (hnodup : brothers.Nodup)
    (h : ∀ a ∈ brothers, Sound brothers reachable a (t a)) :
    Agreement order brothers reachable t := by
  have hlocally : ∀ a ∈ brothers, (t a).phase = .solvedLocally →
      ∀ b, Before brothers b a → reachable b = false := by
    intro a ha hphase b hb
    have hplaced := (h a ha).placed
    unfold Placed at hplaced
    rw [hphase] at hplaced
    exact (h a ha).gone b hb.mem.1 (not_before_head hnodup (h a ha).sub hplaced hb)
  refine ⟨fun a ha b hb hstays => ?_, fun a ha => (h a ha).sub, hlocally, ?_, ?_⟩
  · obtain rfl | hreach := hstays
    · exact (h b hb).mem
    · by_contra hnot
      rw [(h a ha).gone b hb hnot] at hreach
      cases hreach
  · intro a ha b hb hra hrb hsa hsb
    by_contra hne
    obtain hab | hba := before_total ha hb hne
    · rw [hlocally b hb hsb a hab] at hra
      cases hra
    · rw [hlocally a ha hsa b hba] at hrb
      cases hrb
  · intro a ha hfirst hdone
    have hplaced := (h a ha).placed
    unfold Placed at hplaced
    cases hphase : (t a).phase with
    | solvedLocally => exact .inl rfl
    | expired => exact .inr rfl
    | waiting =>
      have hnone := hdone .initiate (fun he => by cases he)
      simp only [Solver.step, hphase] at hnone
      cases hnone
    | failed =>
      rw [hphase] at hplaced
      exact hplaced.elim
    | answered =>
      rw [hphase] at hplaced
      obtain ⟨resolver, hbefore, hreach⟩ := hplaced
      rw [hfirst resolver (hbefore.sublist (h a ha).sub)] at hreach
      cases hreach
    | asking resolver m result =>
      rw [hphase] at hplaced
      obtain ⟨hbefore, hfair⟩ := hplaced
      have hreach := hfirst resolver (hbefore.sublist (h a ha).sub)
      cases result with
      | some result =>
        have hnone := hdone .finished (fun he => by cases he)
        cases result <;> simp only [Solver.step, hphase] at hnone <;> cases hnone
      | none =>
        unfold Fair at hfair
        rw [hreach, if_neg Bool.false_ne_true] at hfair
        obtain ⟨e, hunsent, hlive⟩ := unheard_live order hfair.2
        have hnone := hdone (.contract e) (fun he => by cases he)
        simp only [Solver.step, hphase] at hnone
        rw [if_neg fun hs => hunsent _ hs.2.choose_spec, Option.map_eq_none_iff] at hnone
        rw [hnone] at hlive
        cases hlive

/-- What one step of a solver does to its list. -/
theorem step_narrows {s t : Solver Key} {e : Event} (h : Sound brothers reachable own s)
    (hstep : s.step order reachable own e = some t) :
    (t.brothers = s.brothers ∨ ∃ resolver m result, s.phase = .asking resolver m (some result) ∧
      reachable resolver = false ∧ t.brothers = s.brothers.erase resolver) ∧
    ∀ resolver m result, s.phase = .asking resolver m (some result) → Retried t →
      reachable resolver = false → t.brothers = s.brothers.erase resolver ∧
        t.brothers.length < s.brothers.length := by
  have hplaced := h.placed
  unfold Placed at hplaced
  cases e with
  | initiate =>
    dsimp only [Solver.step] at hstep
    split at hstep
    · rename_i hphase
      obtain rfl := Option.some.inj hstep
      refine ⟨.inl rfl, fun resolver m result hask => ?_⟩
      rw [hphase] at hask
      cases hask
    · cases hstep
  | contract e =>
    dsimp only [Solver.step] at hstep
    split at hstep
    · rename_i resolver m result hphase
      split at hstep
      · cases hstep
      · obtain ⟨m', -, rfl⟩ := Option.map_eq_some_iff.mp hstep
        refine ⟨.inl rfl, fun r m₀ res hask hretried => ?_⟩
        rw [hphase] at hask
        cases hask
        have hsome : resulting resolver m m' e (some res) ≠ none := by
          unfold resulting
          split
          · exact Option.some_ne_none _
          · exact Option.some_ne_none _
        obtain ⟨r', m₁, hnone⟩ | hsolved := hretried
        · exact absurd (Phase.asking.inj hnone).2.2 hsome
        · cases hsolved
    · cases hstep
  | finished =>
    dsimp only [Solver.step] at hstep
    split at hstep
    · rename_i resolver m hphase
      obtain rfl := Option.some.inj hstep
      refine ⟨.inl rfl, fun r m₀ res _ hretried => ?_⟩
      obtain ⟨r', m₁, hnone⟩ | hsolved := hretried
      · cases hnone
      · cases hsolved
    · rename_i resolver m result _ hphase
      obtain rfl := Option.some.inj hstep
      rw [hphase] at hplaced
      rw [newList_eq hplaced.2]
      cases hreach : reachable resolver with
      | true =>
        refine ⟨.inl rfl, fun r m₀ res hask _ hnot => ?_⟩
        rw [hphase] at hask
        cases hask
        rw [hreach] at hnot
        cases hnot
      | false =>
        refine ⟨.inr ⟨resolver, m, result, hphase, hreach, rfl⟩, fun r m₀ res hask _ _ => ?_⟩
        rw [hphase] at hask
        cases hask
        refine ⟨rfl, ?_⟩
        have hmem := hplaced.1.mem.1
        have hpos := List.length_pos_of_mem hmem
        show (s.brothers.erase resolver).length < s.brothers.length
        rw [List.length_erase_of_mem hmem]
        omega
    · cases hstep
  | expire =>
    dsimp only [Solver.step] at hstep
    split at hstep
    · obtain rfl := Option.some.inj hstep
      refine ⟨.inl rfl, fun r m₀ res _ hretried => ?_⟩
      obtain ⟨r', m₁, hnone⟩ | hsolved := hretried
      · cases hnone
      · cases hsolved
    · cases hstep

theorem system_sound {s t : System Key} {e : Key × Event} (hnodup : brothers.Nodup)
    (h : ∀ a ∈ brothers, Sound brothers reachable a (s a)) (htime : InTime reachable s e)
    (hstep : s.step order reachable e = some t) :
    ∀ a ∈ brothers, Sound brothers reachable a (t a) := by
  intro a ha
  obtain ⟨u, hu, rfl⟩ := Option.map_eq_some_iff.mp hstep
  by_cases he : a = e.1
  · subst he
    rw [Function.update_self]
    exact step_sound order hnodup (h _ ha) htime hu
  · rw [Function.update_of_ne he]
    exact h a ha

theorem system_narrows {s t : System Key} {e : Key × Event}
    (h : ∀ a ∈ brothers, Sound brothers reachable a (s a))
    (hstep : s.step order reachable e = some t) : Narrows brothers reachable s t := by
  obtain ⟨u, hu, rfl⟩ := Option.map_eq_some_iff.mp hstep
  refine ⟨fun a ha => ?_, fun a ha resolver m result hask hretried hreach => ?_⟩
  · by_cases he : a = e.1
    · subst he
      rw [Function.update_self]
      exact (step_narrows order (h _ ha) hu).1
    · rw [Function.update_of_ne he]
      exact .inl rfl
  · by_cases he : a = e.1
    · subst he
      rw [Function.update_self] at hretried ⊢
      exact (step_narrows order (h _ ha) hu).2 resolver m result hask hretried hreach
    · rw [Function.update_of_ne he] at hretried
      obtain ⟨r, m₀, hnone⟩ | hsolved := hretried
      · rw [hask] at hnone
        cases hnone
      · rw [hask] at hsolved
        cases hsolved

theorem start_sound : ∀ a ∈ brothers, Sound brothers reachable a (System.start brothers a) :=
  fun _ ha => ⟨.refl _, ha, fun _ hb hnot => absurd hb hnot, trivial⟩

/-- In every run in which the bids of the brothers that are reachable are in time, lists lose only
brothers that are not reachable, one for each contract that fails, and of the agents that are
reachable the first alone solves the problem itself. -/
theorem brothers_agree (hnodup : brothers.Nodup) {es : List (Key × Event)} {t : System Key}
    (hrun : Run (Guarded (InTime reachable) (Defined (System.step order reachable)))
      (.start brothers) es t) :
    Agreement order brothers reachable t ∧
      Run (Relating (Narrows brothers reachable)
        (Guarded (InTime reachable) (Defined (System.step order reachable))))
        (.start brothers) es t := by
  have hkeep : ∀ (s : System Key) (e : Key × Event) (t : System Key),
      (∀ a ∈ brothers, Sound brothers reachable a (s a)) →
        Guarded (InTime reachable) (Defined (System.step order reachable)) s e t →
          ∀ a ∈ brothers, Sound brothers reachable a (t a) :=
    fun _ _ _ h hstep => system_sound order hnodup h hstep.1 hstep.2
  exact ⟨sound_agreement order hnodup (hrun.preserves hkeep start_sound),
    hrun.relating hkeep (fun _ _ _ h hstep => system_narrows order h hstep.2) start_sound⟩

/-- Of three brothers the first is not reachable. The second asks it in vain and solves the problem,
the third asks the second, which bids, is granted, and reports. -/
theorem brothers_agree_three :
    let reachable : Nat → Bool := fun a => a ≠ 0
    let silence : List Event :=
      [.contract (.start (initiateJob false)), .contract .fire,
        .contract (.start announceExpireJob), .contract (.start (expiredJob false)),
        .contract (.finish (expiredJob true))]
    let answer : List Event :=
      [.contract (.start (initiateJob false)), .contract (.message .bid),
        .contract (.start ⟨.agent .closed, some .closed, false, false⟩),
        .contract (.message .finalReport), .contract .completed]
    let events : List (Nat × Event) := (2, .initiate) :: (1, .initiate) ::
      silence.map (Prod.mk 1) ++ answer.map (Prod.mk 2) ++ [(2, .finished), (1, .finished)]
    ∃ t, [0, 1, 2].Nodup ∧
      Run (Guarded (InTime reachable) (Defined (System.step .stored reachable))) (.start [0, 1, 2])
        events t ∧
      (t 1).phase = .solvedLocally ∧ (t 1).brothers = [1, 2] ∧ (t 2).phase = .answered ∧
      Agreement .stored [0, 1, 2] reachable t := by
  intro reachable silence answer events
  obtain ⟨t, ht, h⟩ : ∃ t, events.foldlM
        (checked (InTime reachable) (System.step .stored reachable)) (.start [0, 1, 2]) = some t ∧
      ((match (t 1).phase, (t 2).phase with
        | .solvedLocally, .answered => true
        | _, _ => false) && decide ((t 1).brothers = [1, 2])) = true := by
    apply Option.map_eq_some_iff.mp
    decide +kernel
  obtain ⟨hphases, hlist⟩ := Bool.and_eq_true_iff.mp h
  have hrun := run_checked ht
  have hnodup : [0, 1, 2].Nodup := by decide
  refine ⟨t, hnodup, hrun, ?_, of_decide_eq_true hlist, ?_, (brothers_agree .stored hnodup hrun).1⟩
  · split at hphases
    · assumption
    · cases hphases
  · split at hphases
    · assumption
    · cases hphases

/-- Two brothers that are reachable both solve the problem, because the bid of the first is late for
the contract of the second, which removes the first from its list. And where the task of the only
one that is reachable expires, nobody solves it. -/
theorem both_solve :
    (∃ (es : List (Nat × Event)) (t : System Nat),
      Run (Defined (System.step .stored fun _ => true)) (.start [0, 1]) es t ∧
      (t 0).phase = .solvedLocally ∧ (t 1).phase = .solvedLocally ∧ 0 ∉ (t 1).brothers ∧
      ¬ Agreement .stored [0, 1] (fun _ => true) t) ∧
    ∃ (es : List (Nat × Event)) (t : System Nat),
      Run (Defined (System.step .stored fun a => a ≠ 0)) (.start [0, 1]) es t ∧
      (t 1).phase = .expired ∧ Done .stored (fun a => a ≠ 0) 1 (t 1) := by
  refine ⟨?_, ?_⟩
  · obtain ⟨t, ht, h⟩ : ∃ t, ([(1, .initiate), (1, .contract (.start (initiateJob false))),
          (1, .contract .fire), (1, .contract (.start announceExpireJob)),
          (1, .contract (.start (expiredJob false))), (1, .contract (.finish (expiredJob true))),
          (1, .finished), (0, .initiate)] : List (Nat × Event)).foldlM
          (System.step .stored fun _ => true) (.start [0, 1]) = some t ∧
        ((match (t 0).phase, (t 1).phase with
          | .solvedLocally, .solvedLocally => true
          | _, _ => false) && decide (0 ∉ (t 1).brothers)) = true := by
      apply Option.map_eq_some_iff.mp
      decide +kernel
    obtain ⟨hphases, hgone⟩ := Bool.and_eq_true_iff.mp h
    split at hphases
    · rename_i h0 h1
      refine ⟨_, t, run_defined ht, h0, h1, of_decide_eq_true hgone, fun hagree => ?_⟩
      exact of_decide_eq_true hgone (hagree.kept 1 (by simp) 0 (by simp) (.inr rfl))
    · cases hphases
  · obtain ⟨t, ht, h⟩ : ∃ t, ([(1, .initiate), (1, .expire)] : List (Nat × Event)).foldlM
          (System.step .stored fun a => a ≠ 0) (.start [0, 1]) = some t ∧
        (match (t 1).phase with
          | .expired => true
          | _ => false) = true := by
      apply Option.map_eq_some_iff.mp
      decide +kernel
    split at h
    · rename_i hexpired
      refine ⟨_, t, run_defined ht, hexpired, fun e _ => ?_⟩
      cases e <;> simp [Solver.step, hexpired]
    · cases h

end Feat.Agents.CollectiveSolver
