import Mathlib.Data.List.Chain
import Feat.Agents.IntensiveCare

/- What the doctor hears of a patient from its addition to its removal.

   `Told` is the whole story of one patient: what may follow what (`Report.Follows`),
   and that the last thing heard is the state the patient is in. Every change that a
   check may find keeps it (`Told.changed`), but for the one from dead to dying, which
   nobody is told and after which it is lost (`Told.not_dying`). -/
namespace Feat.Agents.Monitor.IntensiveCare
open Hash Transition

/-- What the doctor heard of a patient. -/
def heard (key : String) (reports : List Report) : List Report :=
  reports.filter fun e => e.key = key

/-- The report that has to be the last one of a patient in some state. -/
def Report.Tells (key : String) (e : Report) : PatientState → Prop
  | .alive => e = .added key ∨ e = .resurrected key
  | .dying => e = .dying key
  | .dead => e = .died key

/-- The doctor hears a consistent story of every patient. -/
structure Consistent (s : IntensiveCare) : Prop where
  died_once : ∀ key xs ys zs, heard key s.reports = xs ++ .died key :: (ys ++ .died key :: zs) →
    .resurrected key ∈ ys ∨ .added key ∈ ys
  resurrected_after : ∀ key xs zs, heard key s.reports = xs ++ .resurrected key :: zs →
    xs.getLast? = some (.dying key) ∨ xs.getLast? = some (.died key)
  agrees : ∀ key p, s.patients.lookup key = some p →
    ∃ e, (heard key s.reports).getLast? = some e ∧ e.Tells key p.state

/-- A check that is not skipped finds no patient dying that the last one found dead. -/
def Unrelapsed (s : IntensiveCare) : Event → Prop
  | .checked time => (detectWakeup time s).skipChecks = 0 →
    ∀ key p, s.patients.lookup key = some p → p.state = .dead → p.verdict time ≠ .dying
  | _ => True

@[simp] theorem heard_append (key : String) (xs ys : List Report) :
    heard key (xs ++ ys) = heard key xs ++ heard key ys := List.filter_append _ _

/-! ## The story of one patient -/

/-- What may be heard after a report. -/
def Report.Follows : Report → Report → Prop
  | .added _, .dying _ => True
  | .added _, .died _ => True
  | .added _, .removed _ => True
  | .resurrected _, .dying _ => True
  | .resurrected _, .died _ => True
  | .resurrected _, .removed _ => True
  | .dying _, .died _ => True
  | .dying _, .resurrected _ => True
  | .dying _, .removed _ => True
  | .died _, .resurrected _ => True
  | .died _, .removed _ => True
  | .removed _, .added _ => True
  | _, _ => False

/-- The story of a patient that is in some state, or not in the care. -/
structure Told (key : String) (state : Option PatientState) (l : List Report) : Prop where
  about : ∀ e ∈ l, e.key = key
  chain : l.IsChain Report.Follows
  first : ∀ e, l.head? = some e → e = .added key
  inside : ∀ st, state = some st → ∃ e, l.getLast? = some e ∧ e.Tells key st
  outside : state = none → ∀ e, l.getLast? = some e → e = .removed key

variable {key : String} {l xs ys zs : List Report} {e : Report} {st before after : PatientState}

/-- One more report of a patient that is in the care. -/
theorem Told.more (h : Told key (some st) l) (hkey : e.key = key)
    (he : ∀ d : Report, d.Tells key st → d.Follows e) :
    (∀ d ∈ l ++ [e], d.key = key) ∧ (l ++ [e]).IsChain Report.Follows ∧
      ∀ d, (l ++ [e]).head? = some d → d = .added key := by
  obtain ⟨d, hd, htells⟩ := h.inside st rfl
  refine ⟨?_, ?_, ?_⟩
  · simp only [List.mem_append, List.mem_singleton]
    intro d hd
    obtain hd | rfl := hd
    · exact h.about d hd
    · exact hkey
  · refine h.chain.append (.singleton e) fun x hx y hy => ?_
    obtain rfl : x = d := by
      rw [hd] at hx
      exact (Option.mem_some_iff.mp hx).symm
    obtain rfl : y = e := by simpa [eq_comm] using hy
    exact he x htells
  · intro x hx
    have hne : l ≠ [] := by
      intro hnil
      rw [hnil] at hd
      cases hd
    rw [List.head?_append_of_ne_nil _ hne] at hx
    exact h.first x hx

theorem Told.added (h : Told key none l) : Told key (some .alive) (l ++ [.added key]) := by
  refine ⟨?_, ?_, ?_, ?_, fun hn => by cases hn⟩
  · simp only [List.mem_append, List.mem_singleton]
    intro d hd
    obtain hd | rfl := hd
    · exact h.about d hd
    · rfl
  · refine h.chain.append (.singleton _) fun x hx y hy => ?_
    obtain rfl := h.outside rfl x hx
    obtain rfl : y = .added key := by simpa [eq_comm] using hy
    exact trivial
  · intro d hd
    cases l with
    | nil =>
      cases hd
      rfl
    | cons x l =>
      apply h.first d
      exact hd
  · intro st hst
    cases hst
    exact ⟨.added key, by simp, .inl rfl⟩

theorem Told.removed (h : Told key (some st) l) : Told key none (l ++ [.removed key]) := by
  have hfollows : ∀ d : Report, d.Tells key st → d.Follows (.removed key) := by
    intro d hd
    cases st with
    | alive => obtain rfl | rfl := hd <;> exact trivial
    | dying => subst hd; exact trivial
    | dead => subst hd; exact trivial
  obtain ⟨habout, hchain, hfirst⟩ := h.more rfl hfollows
  refine ⟨habout, hchain, hfirst, fun st hst => by (cases hst), fun _ e he => ?_⟩
  simpa [eq_comm] using he

/-- A change that a check may find, other than the one from dead to dying. -/
theorem Told.changed (h : Told key (some before) l) (hne : before = .dead → after ≠ .dying) :
    Told key (some after) (l ++ changes key before after) := by
  by_cases hsame : before = after
  · subst hsame
    simpa [changes] using h
  · -- the one report told, and why it may follow what was heard before
    have hnot : before = .dead → after = .alive := by
      intro hd
      cases after with
      | alive => rfl
      | dying => exact absurd rfl (hne hd)
      | dead => exact absurd hd hsame
    obtain ⟨e, he, hkey, htells, hfollows⟩ : ∃ e, changes key before after = [e] ∧ e.key = key ∧
        e.Tells key after ∧ ∀ d : Report, d.Tells key before → d.Follows e := by
      cases before with
      | alive =>
        have hfollows : ∀ d : Report, d.Tells key .alive →
            d.Follows (.dying key) ∧ d.Follows (.died key) := by
          intro d hd
          obtain rfl | rfl := hd
          · exact ⟨trivial, trivial⟩
          · exact ⟨trivial, trivial⟩
        cases after with
        | alive => exact absurd rfl hsame
        | dying => exact ⟨.dying key, rfl, rfl, rfl, fun d hd => (hfollows d hd).1⟩
        | dead => exact ⟨.died key, rfl, rfl, rfl, fun d hd => (hfollows d hd).2⟩
      | dying =>
        have hfollows : ∀ d : Report, d.Tells key .dying →
            d.Follows (.resurrected key) ∧ d.Follows (.died key) := by
          intro d hd
          subst hd
          exact ⟨trivial, trivial⟩
        cases after with
        | alive => exact ⟨.resurrected key, rfl, rfl, .inr rfl, fun d hd => (hfollows d hd).1⟩
        | dying => exact absurd rfl hsame
        | dead => exact ⟨.died key, rfl, rfl, rfl, fun d hd => (hfollows d hd).2⟩
      | dead =>
        obtain rfl := hnot rfl
        refine ⟨.resurrected key, rfl, rfl, .inr rfl, fun d hd => ?_⟩
        subst hd
        exact trivial
    rw [he]
    obtain ⟨habout, hchain, hfirst⟩ := h.more hkey hfollows
    refine ⟨habout, hchain, hfirst, fun st hst => ?_, fun hn => by cases hn⟩
    cases hst
    exact ⟨e, by simp, htells⟩

/-- What was heard of a dead patient does not say that it is dying. -/
theorem Told.not_dying (h : Told key (some .dead) l) :
    ¬ ∃ e, l.getLast? = some e ∧ e.Tells key .dying := by
  intro hdying
  obtain ⟨e, he, htells⟩ := hdying
  obtain ⟨d, hd, hdead⟩ := h.inside .dead rfl
  rw [he] at hd
  cases hd
  cases htells
  cases hdead

variable {state : Option PatientState}

/-- After a death comes a resurrection or a removal, and after a removal an addition. -/
theorem Told.died_once (h : Told key state (xs ++ .died key :: (ys ++ .died key :: zs))) :
    .resurrected key ∈ ys ∨ .added key ∈ ys := by
  have hchain := (List.isChain_append.mp h.chain).2.1
  have habout : ∀ e ∈ ys, e.key = key := fun e he => h.about e (by simp [he])
  cases ys with
  | nil => exact absurd (List.isChain_cons_cons.mp hchain).1 not_false
  | cons y ys =>
    obtain ⟨hy, hchain⟩ := List.isChain_cons_cons.mp hchain
    have hk := habout y (by simp)
    cases y with
    | resurrected k =>
      obtain rfl : k = key := hk
      exact .inl (by simp)
    | removed k =>
      cases ys with
      | nil => exact absurd (List.isChain_cons_cons.mp hchain).1 not_false
      | cons z ys =>
        have hz := (List.isChain_cons_cons.mp hchain).1
        have hkz := habout z (by simp)
        cases z with
        | added k =>
          obtain rfl : k = key := hkz
          exact .inr (by simp)
        | removed k => exact absurd hz not_false
        | dying k => exact absurd hz not_false
        | died k => exact absurd hz not_false
        | resurrected k => exact absurd hz not_false
    | added k => exact absurd hy not_false
    | dying k => exact absurd hy not_false
    | died k => exact absurd hy not_false

theorem Told.resurrected_after (h : Told key state (xs ++ .resurrected key :: zs)) :
    xs.getLast? = some (.dying key) ∨ xs.getLast? = some (.died key) := by
  obtain ⟨-, -, hlink⟩ := List.isChain_append.mp h.chain
  cases hlast : xs.getLast? with
  | none =>
    rw [List.getLast?_eq_none_iff] at hlast
    subst hlast
    have hfirst := h.first _ rfl
    cases hfirst
  | some d =>
    have hd := hlink d hlast (.resurrected key) rfl
    have hk : d.key = key := h.about d (List.mem_append_left _ (List.mem_of_getLast? hlast))
    cases d with
    | dying k =>
      obtain rfl : k = key := hk
      exact .inl rfl
    | died k =>
      obtain rfl : k = key := hk
      exact .inr rfl
    | added k => exact absurd hd not_false
    | removed k => exact absurd hd not_false
    | resurrected k => exact absurd hd not_false

/-! ## Every patient -/

/-- The story of every patient. -/
def Story (s : IntensiveCare) : Prop :=
  ∀ key, Told key ((s.patients.lookup key).map Patient.state) (heard key s.reports)

theorem Story.consistent {s : IntensiveCare} (h : Story s) : Consistent s where
  died_once key xs ys zs he := by
    have hkey := h key
    rw [he] at hkey
    exact hkey.died_once
  resurrected_after key xs zs he := by
    have hkey := h key
    rw [he] at hkey
    exact hkey.resurrected_after
  agrees key p hp := (h key).inside p.state (by rw [hp]; rfl)

/-- What changes neither who is in the care, nor their states, nor what was told. -/
theorem Story.same {s t : IntensiveCare} (h : Story s) (hreports : t.reports = s.reports)
    (hstate : ∀ key, (t.patients.lookup key).map Patient.state =
      (s.patients.lookup key).map Patient.state) : Story t := by
  intro key
  rw [hreports, hstate]
  exact h key

/-- What a report about one patient changes. -/
theorem Story.told {s t : IntensiveCare} (h : Story s) (key : String) (es : List Report)
    (hes : ∀ e ∈ es, e.key = key) (hreports : t.reports = s.reports ++ es)
    (hothers : ∀ k, k ≠ key → t.patients.lookup k = s.patients.lookup k)
    (hkey : Told key ((s.patients.lookup key).map Patient.state) (heard key s.reports) →
      Told key ((t.patients.lookup key).map Patient.state) (heard key s.reports ++ es)) :
    Story t := by
  intro k
  rw [hreports, heard_append]
  by_cases hk : k = key
  · subst hk
    have hall : heard k es = es := List.filter_eq_self.mpr (by simpa using hes)
    rw [hall]
    exact hkey (h k)
  · have hnone : heard k es = [] := by
      refine List.filter_eq_nil_iff.mpr fun e he => ?_
      rw [hes e he]
      simpa using Ne.symm hk
    rw [hnone, List.append_nil, hothers k hk]
    exact h k

theorem changes_key (key : String) (before after : PatientState) :
    ∀ e ∈ changes key before after, e.key = key := by
  intro e he
  unfold changes at he
  repeat' split at he
  all_goals simp at he; try (subst he; rfl)

/-- The loop of a check: the patients in it are checked, and told of, once each. -/
theorem checkLoop (time : ℚ) (l : List (String × Patient)) (s : IntensiveCare)
    (hkeys : (l.map Prod.fst).Nodup) (hl : ∀ q ∈ l, s.patients.lookup q.1 = some q.2)
    (key : String) :
    (key ∉ l.map Prod.fst →
      (l.foldl (fun s p => checkPatient time s p.1 p.2) s).patients.lookup key =
        s.patients.lookup key ∧
      heard key (l.foldl (fun s p => checkPatient time s p.1 p.2) s).reports =
        heard key s.reports) ∧
    ∀ p, (key, p) ∈ l →
      (l.foldl (fun s p => checkPatient time s p.1 p.2) s).patients.lookup key =
        some (p.check time) ∧
      heard key (l.foldl (fun s p => checkPatient time s p.1 p.2) s).reports =
        heard key s.reports ++ changes key p.state (p.verdict time) := by
  induction l generalizing s with
  | nil => exact ⟨fun _ => ⟨rfl, rfl⟩, fun p hp => by cases hp⟩
  | cons q l ih =>
    obtain ⟨k, p⟩ := q
    rw [List.map_cons, List.nodup_cons] at hkeys
    obtain ⟨hk, hkeys⟩ := hkeys
    -- one turn touches the patient of its key only
    have hother : ∀ k', k' ≠ k →
        (checkPatient time s k p).patients.lookup k' = s.patients.lookup k' ∧
        heard k' (checkPatient time s k p).reports = heard k' s.reports := by
      intro k' hne
      refine ⟨AList.lookup_insert_ne hne, ?_⟩
      have hnone : heard k' (changes k p.state (p.check time).state) = [] := by
        refine List.filter_eq_nil_iff.mpr fun e he => ?_
        rw [changes_key _ _ _ e he]
        simpa using Ne.symm hne
      unfold checkPatient tell
      rw [heard_append, hnone, List.append_nil]
    have hrest : ∀ q ∈ l, (checkPatient time s k p).patients.lookup q.1 = some q.2 := by
      intro q hq
      have hne : q.1 ≠ k := by
        intro he
        exact hk (List.mem_map.mpr ⟨q, hq, he⟩)
      rw [(hother q.1 hne).1]
      exact hl q (List.mem_cons_of_mem _ hq)
    obtain ⟨hout, hin⟩ := ih (checkPatient time s k p) hkeys hrest
    rw [List.foldl_cons]
    refine ⟨fun hnot => ?_, fun p' hp' => ?_⟩
    · rw [List.map_cons, List.mem_cons, not_or] at hnot
      rw [(hout hnot.2).1, (hout hnot.2).2]
      exact hother key hnot.1
    · obtain he | hp' := List.mem_cons.mp hp'
      · obtain ⟨rfl, rfl⟩ := Prod.mk.injEq .. ▸ he
        rw [(hout hk).1, (hout hk).2]
        refine ⟨AList.lookup_insert _, ?_⟩
        unfold checkPatient tell
        rw [heard_append]
        congr 1
        refine List.filter_eq_self.mpr ?_
        simpa using changes_key key p'.state (p'.check time).state
      · have hne : key ≠ k := by
          intro he
          exact hk (List.mem_map.mpr ⟨_, hp', he⟩)
        rw [(hin p' hp').1, (hin p' hp').2, (hother key hne).2]
        exact ⟨rfl, rfl⟩

/-- A check that is not skipped. -/
theorem checkPatients_spec (order : HashOrder String) {time : ℚ} {s : IntensiveCare}
    (hskip : (detectWakeup time s).skipChecks = 0) (key : String) :
    (checkPatients order time s).patients.lookup key =
      (s.patients.lookup key).map (fun p => p.check time) ∧
    heard key (checkPatients order time s).reports = heard key s.reports ++
      ((s.patients.lookup key).map fun p => changes key p.state (p.verdict time)).getD [] := by
  have hitems : ∀ k p, (k, p) ∈ Dict.items order (detectWakeup time s).patients ↔
      s.patients.lookup k = some p := fun k p => Dict.mem_items
  obtain ⟨hout, hin⟩ := checkLoop time (Dict.items order (detectWakeup time s).patients)
    (detectWakeup time s) (Dict.keys_nodup_items _ _) (fun q hq => (hitems q.1 q.2).mp hq) key
  unfold checkPatients
  dsimp only
  rw [if_neg (by simpa using hskip)]
  cases hp : s.patients.lookup key with
  | some p =>
    rw [(hin p ((hitems key p).mpr hp)).1, (hin p ((hitems key p).mpr hp)).2]
    exact ⟨rfl, rfl⟩
  | none =>
    have hnot : key ∉ (Dict.items order (detectWakeup time s).patients).map Prod.fst := by
      intro hmem
      obtain ⟨⟨k, p⟩, hq, rfl⟩ := List.mem_map.mp hmem
      rw [(hitems k p).mp hq] at hp
      cases hp
    rw [(hout hnot).1, (hout hnot).2]
    exact ⟨hp, (List.append_nil _).symm⟩

/-! ## Steps and runs -/

theorem story_new (controlPeriod : Option ℚ) : Story (new controlPeriod) := by
  intro key
  refine ⟨?_, .nil, ?_, ?_, ?_⟩
  · intro e he
    cases he
  · intro e he
    cases he
  · intro st hst
    cases hst
  · intro _ e he
    cases he

/-- What one event keeps, unless a check finds a dead patient dying. -/
theorem step_story {order : HashOrder String} {s t : IntensiveCare} {e : Event} (h : Story s)
    (hguard : Unrelapsed s e) (hstep : Steps (step order) s e t) : Story t := by
  subst hstep
  cases e with
  | beat key time =>
    dsimp only [step, beat]
    split
    · rename_i p hp
      refine h.same rfl fun k => ?_
      by_cases hk : k = key
      · subst hk
        rw [AList.lookup_insert, hp]
        dsimp only [Patient.beat]
        split <;> rfl
      · rw [AList.lookup_insert_ne hk]
    · exact h
  | checked time =>
    by_cases hskip : (detectWakeup time s).skipChecks = 0
    · intro key
      obtain ⟨hlookup, hheard⟩ := checkPatients_spec order hskip key
      dsimp only [step]
      rw [hlookup, hheard]
      have hkey := h key
      cases hp : s.patients.lookup key with
      | none =>
        rw [hp] at hkey
        simpa using hkey
      | some p =>
        rw [hp] at hkey
        exact hkey.changed (hguard hskip key p hp)
    · dsimp only [step, checkPatients]
      rw [if_pos hskip]
      exact h.same rfl fun _ => rfl
  | paused =>
    dsimp only [step, pause]
    split
    · exact h.same rfl fun _ => rfl
    · exact h
  | resumed time =>
    dsimp only [step, resume]
    split
    · exact h
    · refine h.same rfl fun key => ?_
      rw [Dict.lookup_map, Option.map_map]
      rfl
  | added key location period dyingSkips deathSkips time =>
    dsimp only [step, addPatient]
    split
    · exact h
    · rename_i hnot
      cases hnew : Patient.new location time period dyingSkips deathSkips with
      | none => exact h
      | some p =>
        have hstate : p.state = .alive := by
          unfold Patient.new at hnew
          dsimp only at hnew
          split at hnew
          · cases hnew
            rfl
          · cases hnew
        refine h.told key [.added key] (by simp [Report.key]) rfl
          (fun k hk => AList.lookup_insert_ne hk) fun htold => ?_
        rw [AList.lookup_eq_none.mpr hnot] at htold
        change Told key (((s.patients.insert key p).lookup key).map Patient.state) _
        rw [AList.lookup_insert, Option.map_some, hstate]
        exact htold.added
  | removed key =>
    dsimp only [step, removePatient]
    split
    · rename_i hin
      obtain ⟨p, hp⟩ := Option.isSome_iff_exists.mp (AList.lookup_isSome.mpr hin)
      refine h.told key [.removed key] (by simp [Report.key]) rfl
        (fun k hk => AList.lookup_erase_ne hk) fun htold => ?_
      rw [hp] at htold
      change Told key (((s.patients.erase key).lookup key).map Patient.state) _
      rw [AList.lookup_erase]
      exact htold.removed
    · exact h

/-- A check that finds a dead patient dying leaves the doctor with a wrong story. -/
theorem step_inconsistent {order : HashOrder String} {s t : IntensiveCare} {e : Event}
    (h : Story s) (hguard : ¬ Unrelapsed s e) (hstep : Steps (step order) s e t) :
    ¬ Consistent t := by
  subst hstep
  cases e with
  | checked time =>
    simp only [Unrelapsed, not_forall, not_not] at hguard
    obtain ⟨hskip, key, p, hp, hdead, hdying⟩ := hguard
    intro hcons
    obtain ⟨hlookup, hheard⟩ := checkPatients_spec order hskip key
    rw [hp] at hlookup hheard
    have hagrees := hcons.agrees key (p.check time) hlookup
    have hkey := h key
    rw [hp, Option.map_some, hdead] at hkey
    -- nothing was told, and the state is the one found
    have hsilent : changes key p.state (p.verdict time) = [] := by
      rw [hdead, hdying]
      rfl
    dsimp only [step] at hagrees
    rw [hheard, Option.map_some, Option.getD_some, hsilent, List.append_nil] at hagrees
    have hstate : (p.check time).state = .dying := hdying
    rw [hstate] at hagrees
    exact hkey.not_dying hagrees
  | beat key time => exact absurd trivial hguard
  | paused => exact absurd trivial hguard
  | resumed time => exact absurd trivial hguard
  | added key location period dyingSkips deathSkips time => exact absurd trivial hguard
  | removed key => exact absurd trivial hguard

/-- The doctor hears a consistent story throughout a run of the intensive care if and only
    if no check of it finds a dead patient dying. -/
theorem story_consistent_iff {order : HashOrder String} {controlPeriod : Option ℚ}
    {es : List Event} {s : IntensiveCare} :
    Run (Ending Consistent (Steps (step order))) (new controlPeriod) es s ↔
      Run (Guarded Unrelapsed (Steps (step order))) (new controlPeriod) es s := by
  symm
  exact run_guarded_iff (fun s (h : Story s) => h.consistent)
    (fun _ _ _ h hguard hstep => step_story h hguard hstep)
    (fun _ _ _ h hguard hstep => step_inconsistent h hguard hstep) (story_new controlPeriod)

/-- A patient with a short period: dead at one check, dying at the next, and dead again. -/
theorem died_twice : ∃ s, Run (Steps (step .stored)) (new none)
      [.resumed 0, .added "a" "l" (some 1) none none 0, .checked 0, .checked 4, .beat "a" (11 / 2),
        .checked 8, .checked 12] s ∧
    ¬ Consistent s := by
  refine ⟨_, run_steps _ _ _, fun h => ?_⟩
  have htwice := h.died_once "a" [.added "a"] [] [] (by decide +kernel)
  simp at htwice

end Feat.Agents.Monitor.IntensiveCare
