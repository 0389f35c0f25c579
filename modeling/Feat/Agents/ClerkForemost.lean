import Feat.Agents.ClerkWithheld

/- The first isolated location.

   Resuming the locations isolates the clerk at the first isolated one, if nobody else is seen
   alive. Whatever is paused and resumed in between, that location is paused in the end when
   the clerk is isolated (`resting_locResumeAll`, `resting_locPauseAll`). Those after it are
   resumed all the same. -/
namespace Feat.Agents.Monitor
open Hash Transition

variable {c : Config} {s t : Clerk} {r x : Ref}

/-- The first isolated location, in the order of the clerk. -/
def Foremost (c : Config) (s : Clerk) (r : Ref) : Prop :=
  (iterLocations c s).find? (fun l => (s.heap l).state = .isolated) = some r

instance (s : Clerk) (r : Ref) : Decidable (Foremost c s r) := inferInstanceAs (Decidable (_ = _))

/-- The first isolated location, where none comes twice. -/
structure Leading (c : Config) (s : Clerk) (x : Ref) : Prop where
  nodup : (iterLocations c s).Nodup
  foremost : Foremost c s x

/-- An isolated clerk has paused the location. -/
def Resting (s : Clerk) (x : Ref) : Prop := s.state = .isolated → (s.heap x).paused = true

theorem iterLocations_nodup (hnamed : ∀ name r, s.locations.lookup name = some r →
    (s.heap r).name = name) : (iterLocations c s).Nodup := by
  have hitems : (Dict.items c.order s.locations).Nodup :=
    (Dict.keys_nodup_items c.order s.locations).of_map
  refine hitems.map_on fun p hp q hq he => ?_
  have hname := hnamed p.1 p.2 (Dict.mem_items.mp hp)
  rw [he, hnamed q.1 q.2 (Dict.mem_items.mp hq)] at hname
  exact Prod.ext hname.symm he

theorem Leading.isolated (h : Leading c s x) : (s.heap x).state = .isolated := by
  have hfound := List.find?_some h.foremost
  simpa using hfound

theorem Leading.mem (h : Leading c s x) : x ∈ iterLocations c s :=
  List.mem_of_find?_eq_some h.foremost

theorem Settled.isolated_iff (h : Settled s t) (r : Ref) :
    (t.heap r).state = .isolated ↔ (s.heap r).state = .isolated := by
  obtain hsame | ⟨hrec, hnormal⟩ := h.located r
  · rw [hsame]
  · rw [hrec, hnormal]
    simp

theorem Settled.leading (h : Settled s t) (hs : Leading c s x) : Leading c t x := by
  refine ⟨by rw [h.frame.iterLocations]; exact hs.nodup, ?_⟩
  unfold Foremost
  rw [h.frame.iterLocations]
  simp only [h.isolated_iff]
  exact hs.foremost

/-- The locations before it are not isolated, and it does not come again. -/
theorem Leading.split (h : Leading c s x) : ∃ pre post, iterLocations c s = pre ++ x :: post ∧
    (∀ r ∈ pre, (s.heap r).state ≠ .isolated) ∧ x ∉ post := by
  obtain ⟨-, pre, post, hsplit, hpre⟩ := List.find?_eq_some_iff_append.mp h.foremost
  refine ⟨pre, post, hsplit, fun r hr => by simpa using hpre r hr, ?_⟩
  have hnodup := h.nodup
  rw [hsplit] at hnodup
  exact (List.nodup_cons.mp (List.nodup_append.mp hnodup).2.1).1

theorem Rescheduled.resting (h : Rescheduled s t) (hs : Resting s x) : Resting t x := by
  obtain ⟨calls, lc, ic, n, rfl⟩ := h
  exact hs

theorem resting_of_state (h : s.state ≠ .isolated) : Resting s x := fun hs => absurd hs h

/-- A location other than it is assigned, or it is paused. -/
theorem Resting.update (h : Resting s x) (r : Ref) (f : Location → Location)
    (hf : r = x → (s.heap x).paused = true → (f (s.heap x)).paused = true) :
    Resting (s.update r f) x := by
  intro hs
  by_cases hr : x = r
  · subst hr
    rw [update_heap_self]
    exact hf rfl (h hs)
  · rw [update_heap_ne _ _ hr]
    exact h hs

/-- A callback that settles and leaves the first isolated location paused. -/
structure Restful (c : Config) (x : Ref) (depth : Nat) (k : Ref → Clerk → Clerk) : Prop where
  settled : ∀ r s, recoveringCount c s < depth → Settled s (k r s)
  rests : ∀ r s, recoveringCount c s < depth → Leading c s x → Resting s x → Resting (k r s) x

section Callbacks
variable {k : Ref → Clerk → Clerk} {depth : Nat}

theorem resting_pause (hk : Restful c x depth k) (hr : r ∈ iterLocations c s)
    (hs : recoveringCount c s ≤ depth) (hx : Leading c s x) (h : Resting s x) :
    Resting (pause k r s) x := by
  have hpaused := settled_paused s r true
  have hrests := h.update r (fun l => { l with paused := true }) fun _ _ => rfl
  unfold pause
  dsimp only
  generalize s.update r (fun l => { l with paused := true }) = u at hpaused hrests ⊢
  split
  · rename_i hrec
    have hnormal := settled_update u r (fun l => { l with state := .normal }) rfl rfl
      (.inr ⟨hrec, rfl⟩) fun _ h => h
    have hru : r ∈ iterLocations c u := by
      rw [hpaused.frame.iterLocations]
      exact hr
    have hlt := hnormal.recoveringCount_lt hru hrec (by rw [update_heap_self])
    refine hk.rests r _ (Nat.lt_of_lt_of_le hlt (hpaused.recoveringCount_le.trans hs))
      (hnormal.leading (hpaused.leading hx)) ?_
    exact hrests.update r (fun l => { l with state := .normal }) fun _ hp => hp
  · exact hrests

/-- It is isolated, and so it is paused without a callback. -/
theorem resting_pause_self (hx : Leading c s x) : Resting (pause k x s) x := by
  have hstate : ((s.update x fun l => { l with paused := true }).heap x).state = .isolated := by
    rw [update_heap_self]
    exact hx.isolated
  unfold pause
  dsimp only
  rw [if_neg (by rw [hstate]; exact fun he => by cases he)]
  intro _
  rw [update_heap_self]

theorem resting_locPauseAll (hk : Restful c x depth k) (hs : recoveringCount c s ≤ depth)
    (hx : Leading c s x) : Resting (locPauseAll c k s) x := by
  have hstep : ∀ (r : Ref) (u : Clerk), r ∈ iterLocations c u → recoveringCount c u ≤ depth →
      Settled u (pause k r (locCancelCall r u)) := by
    intro r u hr hu
    have hcancel := (rescheduled_locCancelCall r u).settled
    refine hcancel.trans (settled_pause hk.settled ?_ (hcancel.recoveringCount_le.trans hu))
    rw [hcancel.frame.iterLocations]
    exact hr
  -- once it is paused, the rest of the loop leaves it so
  have hrest : ∀ (l : List Ref) (u : Clerk), (∀ r ∈ l, r ∈ iterLocations c u) →
      recoveringCount c u ≤ depth → Leading c u x → Resting u x →
      Resting (l.foldl (fun s r => pause k r (locCancelCall r s)) u) x := by
    intro l
    induction l with
    | nil => exact fun _ _ _ _ h => h
    | cons r l ih =>
      intro u hl hu hlead hrests
      have hsettled := hstep r u (hl r List.mem_cons_self) hu
      have hcancel := rescheduled_locCancelCall r u
      refine ih _ (fun r' hr' => ?_) (hsettled.recoveringCount_le.trans hu)
        (hsettled.leading hlead) ?_
      · rw [hsettled.frame.iterLocations]
        exact hl r' (List.mem_cons_of_mem _ hr')
      · refine resting_pause hk ?_ (hcancel.settled.recoveringCount_le.trans hu)
          (hcancel.settled.leading hlead) (hcancel.resting hrests)
        rw [hcancel.settled.frame.iterLocations]
        exact hl r List.mem_cons_self
  -- whatever happens before it is reached
  have hfirst : ∀ (pre : List Ref) (u : Clerk) (post : List Ref),
      (∀ r ∈ pre ++ x :: post, r ∈ iterLocations c u) → recoveringCount c u ≤ depth →
      Leading c u x →
      Resting ((pre ++ x :: post).foldl (fun s r => pause k r (locCancelCall r s)) u) x := by
    intro pre
    induction pre with
    | nil =>
      intro u post hl hu hlead
      have hsettled := hstep x u hlead.mem hu
      have hcancel := rescheduled_locCancelCall x u
      refine hrest post _ (fun r' hr' => ?_) (hsettled.recoveringCount_le.trans hu)
        (hsettled.leading hlead) (resting_pause_self (hcancel.settled.leading hlead))
      rw [hsettled.frame.iterLocations]
      exact hl r' (List.mem_cons_of_mem _ hr')
    | cons r pre ih =>
      intro u post hl hu hlead
      have hsettled := hstep r u (hl r List.mem_cons_self) hu
      refine ih _ post (fun r' hr' => ?_) (hsettled.recoveringCount_le.trans hu)
        (hsettled.leading hlead)
      rw [hsettled.frame.iterLocations]
      exact hl r' (List.mem_cons_of_mem _ hr')
  obtain ⟨pre, post, hsplit, -, -⟩ := hx.split
  unfold locPauseAll
  rw [hsplit]
  refine hfirst pre s post (fun r hr => ?_) hs hx
  rw [hsplit]
  exact hr

theorem resting_checkIsolated (hk : Restful c x depth k) (hs : recoveringCount c s ≤ depth)
    (hx : Leading c s x) (h : Resting s x) : Resting (checkIsolated c k s).2 x := by
  unfold checkIsolated
  split
  · exact h
  · split
    · exact h
    · have hisolated := (settled_monitored s .isolated).trans
        (rescheduled_isoScheduleCall c.selfQuarantineLength { s with state := .isolated }).settled
      exact resting_locPauseAll hk (hisolated.recoveringCount_le.trans hs) (hisolated.leading hx)

theorem resting_needQuarantine (hk : Restful c x depth k) (hr : (s.heap r).state = .isolated)
    (hs : recoveringCount c s ≤ depth) (hx : Leading c s x) (h : Resting s x) :
    Resting (needQuarantine c k r s) x := by
  obtain ⟨u, hu, hneed⟩ := needQuarantine_isolated (c := c) (k := k) hr
  have hchecked := resting_checkIsolated hk hs hx h
  have hrests : Resting u x := by
    obtain rfl | ⟨-, rfl⟩ := hu
    · exact hchecked
    · exact (rescheduled_locCancelCall _ _).resting hchecked
  rw [hneed]
  split
  · exact (rescheduled_locScheduleCall _ _ _).resting hrests
  · exact hrests

/-- Resuming from where it is paused, or the clerk is not isolated. -/
theorem resting_resumed (hk : Restful c x depth k) (hs : recoveringCount c s ≤ depth)
    (hx : Leading c s x) (h : Resting (s.update r fun l => { l with paused := false }) x) :
    Resting (resume c k r s) x := by
  have hresumed := settled_paused s r false
  unfold resume
  dsimp only
  generalize s.update r (fun l => { l with paused := false }) = u at hresumed h ⊢
  have hxu := hresumed.leading hx
  have hsu := hresumed.recoveringCount_le.trans hs
  split
  · intro hstate
    obtain ⟨-, hsame, hpaused⟩ := bringOutYourDead_same (c := c) r u
    rw [(hpaused x).1]
    exact h (hsame.symm.trans hstate)
  · split
    · rename_i hisolated
      exact resting_needQuarantine hk hisolated hsu hxu h
    · rename_i hrecovering
      exact (rescheduled_locationRecovering hrecovering).resting h
    · exact h

/-- A location that is not isolated is resumed, and the clerk stays as it is. -/
theorem resume_state (hr : (s.heap r).state ≠ .isolated) : (resume c k r s).state = s.state := by
  have hstate : ((s.update r fun l => { l with paused := false }).heap r).state ≠ .isolated := by
    rw [update_heap_self]
    exact hr
  have hsame : (s.update r fun l => { l with paused := false }).state = s.state := rfl
  unfold resume
  dsimp only
  generalize s.update r (fun l => { l with paused := false }) = u at hstate hsame ⊢
  split
  · exact (bringOutYourDead_same r u).2.1.trans hsame
  · split
    · rename_i hisolated
      exact absurd hisolated hstate
    · rename_i hrecovering
      exact (rescheduled_locationRecovering hrecovering).steady.monitored.trans hsame
    · exact hsame

theorem resting_locResumeAll (hk : Restful c x depth k) (hs : recoveringCount c s ≤ depth)
    (hx : Leading c s x) (hstate : s.state ≠ .isolated) : Resting (locResumeAll c k s) x := by
  -- after it, locations are resumed that are other ones
  have hrest : ∀ (l : List Ref) (u : Clerk), x ∉ l → recoveringCount c u ≤ depth →
      Leading c u x → Resting u x → Resting (l.foldl (fun s r => resume c k r s) u) x := by
    intro l
    induction l with
    | nil => exact fun _ _ _ _ h => h
    | cons r l ih =>
      intro u hl hu hlead hrests
      have hsettled := settled_resume hk.settled r hu
      have hne : r ≠ x := fun he => hl (he ▸ List.mem_cons_self)
      exact ih _ (fun hin => hl (List.mem_cons_of_mem _ hin))
        (hsettled.recoveringCount_le.trans hu) (hsettled.leading hlead)
        (resting_resumed hk hu hlead (hrests.update r _ fun he => absurd he hne))
  -- before it, the clerk does not change
  have hfirst : ∀ (pre : List Ref) (u : Clerk) (post : List Ref),
      (∀ r ∈ pre, (u.heap r).state ≠ .isolated) → x ∉ post → recoveringCount c u ≤ depth →
      Leading c u x → u.state ≠ .isolated →
      Resting ((pre ++ x :: post).foldl (fun s r => resume c k r s) u) x := by
    intro pre
    induction pre with
    | nil =>
      intro u post _ hpost hu hlead hstate
      have hsettled := settled_resume hk.settled x hu
      exact hrest post _ hpost (hsettled.recoveringCount_le.trans hu) (hsettled.leading hlead)
        (resting_resumed hk hu hlead (resting_of_state hstate))
    | cons r pre ih =>
      intro u post hpre hpost hu hlead hstate
      have hsettled := settled_resume hk.settled r hu
      refine ih _ post (fun r' hr' => ?_) hpost (hsettled.recoveringCount_le.trans hu)
        (hsettled.leading hlead) ?_
      · rw [ne_eq, hsettled.isolated_iff]
        exact hpre r' (List.mem_cons_of_mem _ hr')
      · rw [resume_state (hpre r List.mem_cons_self)]
        exact hstate
  obtain ⟨pre, post, hsplit, hpre, hpost⟩ := hx.split
  unfold locResumeAll
  rw [hsplit]
  exact hfirst pre s post hpre hpost hs hx hstate

theorem resting_stateChanged (hk : Restful c x depth k) (hs : recoveringCount c s ≤ depth)
    (hx : Leading c s x) (h : Resting s x) : Resting (stateChanged c k r s) x := by
  obtain ⟨v, hv, -, -, -, heq⟩ | ⟨u, -, -, -, heq⟩ | ⟨hsame, -⟩ :=
    stateChanged_cases (c := c) k r s
  · have hsettled := (settled_monitored s .normal).trans hv.settled
    have hstate : v.state = .normal := hv.steady.monitored
    rw [heq]
    refine resting_locResumeAll hk (hsettled.recoveringCount_le.trans hs) (hsettled.leading hx) ?_
    rw [hstate]
    exact fun he => by cases he
  · rw [heq]
    exact resting_of_state fun he => by cases he
  · exact hsame.resting h

end Callbacks

theorem restful_locationStateChanged (x : Ref) (depth : Nat) :
    Restful c x depth (locationStateChanged c depth) := by
  refine ⟨fun r _ hs => settled_locationStateChanged depth r hs, ?_⟩
  induction depth with
  | zero => exact fun _ _ hs => absurd hs (Nat.not_lt_zero _)
  | succ depth ih =>
    exact fun r s hs hx h => resting_stateChanged
      ⟨fun r _ hs => settled_locationStateChanged depth r hs, ih⟩ (Nat.le_of_lt_succ hs) hx h

end Feat.Agents.Monitor
