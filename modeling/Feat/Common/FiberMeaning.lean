import Feat.Common.FiberRuns

/- What can be told of a fiber before it is started: that it does what its calls mean, that
   its snapshot says as much as long as no fiber chained to it is triggered, and that it
   cannot be brought back once it is cancelled. -/
namespace Feat.Fibers
open Transition

variable {C V E K W : Type} {F : Functions C V E K W}

namespace Calls

/-- The fibers that are chained have no trigger of their own, and a canceller with `p`. -/
def Untriggered (p : Option K → Prop) : Calls C V E K → Prop
  | .nil => True
  | .callbacks _ _ rest => rest.Untriggered p
  | .chain trigger canceller inner rest =>
    trigger = none ∧ p canceller ∧ inner.Untriggered p ∧ rest.Untriggered p

theorem ofSnapshot_append (l l' : List (Option C × Option C)) :
    (ofSnapshot (l ++ l') : Calls C V E K) = (ofSnapshot l).append (ofSnapshot l') := by
  induction l with
  | nil => rfl
  | cons pair l ih =>
    obtain ⟨callback, errback⟩ := pair
    exact congrArg (Calls.callbacks callback errback) ih

end Calls

/-! ## One part after the other -/

section Parts
variable {canceller : Option K} {result result' : Result V E} {w w' : W}
  {events : List (Result V E × W)} {called : List (C × Result V E)}

/-- What two lists of calls do, one after the other. -/
def Sequel (F : Functions C V E K W) (canceller : Option K) (calls calls' : Calls C V E K)
    (result : Result V E) (w : W) (events : List (Result V E × W)) (called : List (C × Result V E))
    (result' : Result V E) (w' : W) : Prop :=
  ∃ events₁ events₂ called₁ called₂ result₁ w₁, events = events₁ ++ events₂ ∧
    called = called₁ ++ called₂ ∧ Means F canceller calls result w events₁ called₁ result₁ w₁ ∧
    Means F canceller calls' result₁ w₁ events₂ called₂ result' w'

theorem Means.append {calls calls' : Calls C V E K} {events₁ events₂ : List (Result V E × W)}
    {called₁ called₂ : List (C × Result V E)} {result₁ : Result V E} {w₁ : W}
    (h : Means F canceller calls result w events₁ called₁ result₁ w₁)
    (h' : Means F canceller calls' result₁ w₁ events₂ called₂ result' w') :
    Means F canceller (calls.append calls') result w (events₁ ++ events₂) (called₁ ++ called₂)
      result' w' := by
  induction h generalizing calls' with
  | nil => exact h'
  | now hattend _ ih =>
    rw [List.append_assoc]
    exact .now hattend (ih h')
  | deferred hattend _ ih =>
    rw [List.append_assoc]
    exact .deferred hattend (ih h')
  | fiber hattend htrigger hinner _ _ ih =>
    rw [List.append_assoc, List.append_assoc]
    exact .fiber hattend htrigger hinner (ih h')
  | untriggered hattend htrigger _ ih =>
    rw [List.append_assoc]
    exact .untriggered hattend htrigger (ih h')
  | chain hinner _ _ ih =>
    rw [List.append_assoc, List.append_assoc]
    exact .chain hinner (ih h')

/-- What comes before the first part is part of it. -/
theorem Sequel.behind {first calls calls' : Calls C V E K} {result₁ : Result V E} {w₁ : W}
    {called₁ : List (C × Result V E)} (events₁ : List (Result V E × W))
    (h : Sequel F canceller calls calls' result₁ w₁ events called result' w')
    (hmeans : ∀ {events called result' w'},
      Means F canceller calls result₁ w₁ events called result' w' →
        Means F canceller first result w (events₁ ++ events) (called₁ ++ called) result' w') :
    Sequel F canceller first calls' result w (events₁ ++ events) (called₁ ++ called) result'
      w' := by
  obtain ⟨events₂, events₃, called₂, called₃, result₂, w₂, rfl, rfl, hfirst, hsecond⟩ := h
  exact ⟨_, events₃, _, called₃, result₂, w₂, (List.append_assoc _ _ _).symm,
    (List.append_assoc _ _ _).symm, hmeans hfirst, hsecond⟩

theorem Means.sequel {calls calls' : Calls C V E K}
    (h : Means F canceller (calls.append calls') result w events called result' w') :
    Sequel F canceller calls calls' result w events called result' w' := by
  induction calls generalizing result w events called with
  | nil => exact ⟨[], events, [], called, result, w, rfl, rfl, .nil _ _ _, h⟩
  | callbacks callback errback rest ih =>
    cases h with
    | now hattend hrest => exact Sequel.behind [] (ih hrest) (.now hattend)
    | deferred hattend hrest => exact Sequel.behind [_] (ih hrest) (.deferred hattend)
    | fiber hattend htrigger hinner hrest =>
      exact Sequel.behind _ (ih hrest) (.fiber hattend htrigger hinner)
    | untriggered hattend htrigger hrest =>
      exact Sequel.behind [] (ih hrest) (.untriggered hattend htrigger)
  | chain trigger canceller' inner rest _ ih =>
    cases h with
    | chain hinner hrest => exact Sequel.behind _ (ih hrest) (.chain hinner)

/-- Two lists of calls that mean the same also do so behind a callback. -/
theorem Means.behind {callback errback : Option C} {rest rest' : Calls C V E K}
    (hsame : ∀ {result w events called},
      Means F canceller rest result w events called result' w' →
        Means F canceller rest' result w events called result' w')
    (h : Means F canceller (.callbacks callback errback rest) result w events called result' w') :
    Means F canceller (.callbacks callback errback rest') result w events called result' w' := by
  cases h with
  | now hattend hrest => exact .now hattend (hsame hrest)
  | deferred hattend hrest => exact .deferred hattend (hsame hrest)
  | fiber hattend htrigger hinner hrest => exact .fiber hattend htrigger hinner (hsame hrest)
  | untriggered hattend htrigger hrest => exact .untriggered hattend htrigger (hsame hrest)

/-! ## The snapshot -/

theorem means_snapshot {calls : Calls C V E K} (huntriggered : calls.Untriggered (· = canceller)) :
    Means F canceller calls result w events called result' w' ↔
      Means F canceller (.ofSnapshot calls.snapshotCallbacks) result w events called result'
        w' := by
  induction calls generalizing result result' w w' events called with
  | nil => rfl
  | callbacks callback errback rest ih =>
    exact ⟨fun h => h.behind fun hrest => (ih huntriggered).mp hrest,
      fun h => h.behind fun hrest => (ih huntriggered).mpr hrest⟩
  | chain trigger canceller' inner rest ihinner ihrest =>
    obtain ⟨rfl, rfl, hinner, hrest⟩ := huntriggered
    rw [Calls.snapshotCallbacks, Calls.ofSnapshot_append]
    constructor
    · intro h
      cases h with
      | chain h₁ h₂ => exact ((ihinner hinner).mp h₁).append ((ihrest hrest).mp h₂)
    · intro h
      obtain ⟨events₁, events₂, called₁, called₂, result₁, w₁, rfl, rfl, h₁, h₂⟩ := h.sequel
      exact .chain ((ihinner hinner).mpr h₁) ((ihrest hrest).mpr h₂)

/-! ## Cancelling -/

/-- Where no callback is called, none of a fiber is. -/
theorem means_quiet {p : Option K → Prop} {q : Result V E → Prop}
    (hquiet : ∀ canceller, p canceller → ∀ callback errback result, q result → ∃ result₁,
      attend F canceller callback errback result w = (w, [], .now result₁) ∧ q result₁)
    {calls : Calls C V E K} (huntriggered : calls.Untriggered p) (hp : p canceller)
    (hq : q result) (h : Means F canceller calls result w events called result' w') :
    events = [] ∧ called = [] ∧ w' = w ∧ q result' := by
  induction calls generalizing canceller result result' w' events called with
  | nil =>
    cases h
    exact ⟨rfl, rfl, rfl, hq⟩
  | callbacks callback errback rest ih =>
    obtain ⟨result₁, hattended, hq₁⟩ := hquiet canceller hp callback errback result hq
    cases h with
    | now hattend hrest =>
      rw [hattended] at hattend
      cases hattend
      exact ih huntriggered hp hq₁ hrest
    | deferred hattend hrest =>
      rw [hattended] at hattend
      cases hattend
    | fiber hattend htrigger hinner hrest =>
      rw [hattended] at hattend
      cases hattend
    | untriggered hattend htrigger hrest =>
      rw [hattended] at hattend
      cases hattend
  | chain trigger canceller' inner rest ihinner ihrest =>
    obtain ⟨rfl, hp', hinner, hrest⟩ := huntriggered
    cases h with
    | chain h₁ h₂ =>
      obtain ⟨rfl, rfl, rfl, hq₁⟩ := ihinner hinner hp' hq h₁
      exact ihrest hrest hp hq₁ h₂

theorem attend_cancelled (canceller : Option K) (callback errback : Option C) (w : W) :
    attend F canceller callback errback (.failure .cancelled) w =
      (w, [], .now (.failure .cancelled)) := by
  cases errback with
  | none => rfl
  | some errback => rfl

theorem attend_inactive {k : K} (hinactive : F.isActive k w = false) (callback errback : Option C)
    (result : Result V E) :
    ∃ result₁, attend F (some k) callback errback result w = (w, [], .now result₁) ∧
      (result₁ = result ∨ result₁ = .failure .cancelled) := by
  have hwrapped : ∀ callback, ∃ result₁,
      callbackWrapper F (some k) callback result w = (w, [], .now result₁) ∧
        (result₁ = result ∨ result₁ = .failure .cancelled) := by
    intro callback
    unfold callbackWrapper
    split
    · exact ⟨result, rfl, .inl rfl⟩
    · rw [if_pos (by simp [hinactive])]
      exact ⟨_, rfl, .inr rfl⟩
  cases result with
  | value value =>
    cases callback with
    | none => exact ⟨_, rfl, .inl rfl⟩
    | some callback => exact hwrapped callback
  | failure failure =>
    cases errback with
    | none => exact ⟨_, rfl, .inl rfl⟩
    | some errback => exact hwrapped errback

end Parts

/-! ## A fiber that is started -/

/-- The Deferreds of a fiber do what its calls mean, whenever those they wait for are fired. In the
    middle of other fibers the ones below go on with the result, and no Deferred that was there
    before is touched. -/
theorem start_does_what_it_means (f : Fiber C V E K) (trigger : Result V E)
    (m : Machine C V E K W) :
    (∀ w events called result w', Ends F f trigger w events called result w' ↔
      Means F f.canceller f.calls trigger w events called result w') ∧
    ∀ events called result w',
      Means F f.canceller f.calls trigger m.world events called result w' →
        ∃ heap' acts, fires acts = events ∧ m.heap.length ≤ heap'.length ∧
          (∀ i, i < m.heap.length → heap'[i]? = m.heap[i]?) ∧
          Run (Defined (Machine.step F)) (m.start f trigger) acts
            ⟨heap', m.stack, .running result, w', m.log ++ called⟩ := by
  refine ⟨fun w events called result w' => ends_iff f trigger w events called result w',
    fun events called result w' hmeans => ?_⟩
  obtain ⟨hready, hsame⟩ := Ready.start m.heap f
  obtain ⟨heap', acts, huntouched, hfires, hrun⟩ := means_works hmeans m.stack m.log hready
  have hwithin := hready.within
  have hgrown := huntouched.grown
  refine ⟨heap', acts, hfires, by omega, fun i hi => ?_, hrun⟩
  rw [huntouched.same i (by omega) (by omega) (.inl (by omega)), hsame i hi]

/-- Where the fibers chained to a fiber are not triggered and share its canceller, a fiber with the
    callbacks of its snapshot and nothing chained to it does the same. -/
theorem snapshot_tells_all (f : Fiber C V E K)
    (huntriggered : f.calls.Untriggered (· = f.canceller)) (trigger : Result V E) (w : W)
    (events : List (Result V E × W)) (called : List (C × Result V E)) (result : Result V E)
    (w' : W) :
    Ends F f trigger w events called result w' ↔
      Ends F ⟨f.trigger, f.canceller, .ofSnapshot f.calls.snapshotCallbacks⟩ trigger w events called
        result w' := by
  rw [ends_iff, ends_iff]
  exact means_snapshot huntriggered

/-- At any place in the calls of a fiber that came to its end: if the result there was
    `FiberCancelled` and no fiber that is chained behind has a trigger of its own, no callback or
    errback behind was called, and the fiber ended with `FiberCancelled`. If its canceller was not
    active there any more, and the fibers behind share it, none was called either, and it ended
    with the result it had there or with `FiberCancelled`. -/
theorem cancelled_for_good {f : Fiber C V E K} (before behind : Calls C V E K)
    {trigger result : Result V E} {w w' : W} {events : List (Result V E × W)}
    {called : List (C × Result V E)} (hcalls : f.calls = before.append behind)
    (hends : Ends F f trigger w events called result w') :
    ∃ events₁ events₂ called₁ called₂ result₁ w₁,
      events = events₁ ++ events₂ ∧ called = called₁ ++ called₂ ∧
      Means F f.canceller before trigger w events₁ called₁ result₁ w₁ ∧
      (result₁ = .failure .cancelled → behind.Untriggered (fun _ => True) →
        events₂ = [] ∧ called₂ = [] ∧ w' = w₁ ∧ result = .failure .cancelled) ∧
      (∀ k, f.canceller = some k → F.isActive k w₁ = false → behind.Untriggered (· = some k) →
        events₂ = [] ∧ called₂ = [] ∧ w' = w₁ ∧
          (result = result₁ ∨ result = .failure .cancelled)) := by
  have hmeans := (ends_iff f trigger w events called result w').mp hends
  rw [hcalls] at hmeans
  obtain ⟨events₁, events₂, called₁, called₂, result₁, w₁, hevents, hcalled, hbefore, hbehind⟩ :=
    hmeans.sequel
  refine ⟨events₁, events₂, called₁, called₂, result₁, w₁, hevents, hcalled, hbefore,
    fun hcancelled huntriggered => ?_, fun k hk hinactive huntriggered => ?_⟩
  · refine means_quiet (q := (· = .failure .cancelled)) ?_ huntriggered trivial hcancelled hbehind
    rintro canceller - callback errback result rfl
    exact ⟨_, attend_cancelled canceller callback errback w₁, rfl⟩
  · refine means_quiet (q := fun r => r = result₁ ∨ r = .failure .cancelled) ?_ huntriggered hk
      (.inl rfl) hbehind
    rintro canceller rfl callback errback result hq
    obtain ⟨result₂, hattended, hresult₂⟩ := attend_inactive hinactive callback errback result
    refine ⟨result₂, hattended, ?_⟩
    rcases hresult₂ with rfl | rfl
    · exact hq
    · exact .inr rfl

/-! A fiber that waits while it is cancelled, and one that is chained to another. -/

/-- Callback 0 returns a Deferred and the others add their number. The world is whether the
    canceller is active. -/
def adding : Functions Nat Nat Unit Unit Bool where
  call
    | 0, _, w => (w, .deferred)
    | n, .value v, w => (w, .now (.value (v + n)))
    | _, .failure failure, w => (w, .now (.failure failure))
  isActive _ w := w

def waiting : Fiber Nat Nat Unit Unit :=
  (Fiber.addCallbacks ⟨some (.value 1), some (), .nil⟩ (some 0) none).addCallbacks (some 1) (some 1)

def chained : Fiber Nat Nat Unit Unit :=
  (Fiber.addCallbacks ⟨some (.value 1), none, .nil⟩ (some 1) none).chain
    (Fiber.addCallbacks ⟨none, none, .nil⟩ (some 2) none)

theorem snapshot_tells_all_chained :
    Ends adding chained (.value 1) true [] [(1, .value 1), (2, .value 2)] (.value 4) true ↔
      Ends adding ⟨some (.value 1), none, .callbacks (some 1) none (.callbacks (some 2) none .nil)⟩
        (.value 1) true [] [(1, .value 1), (2, .value 2)] (.value 4) true :=
  snapshot_tells_all chained ⟨rfl, rfl, trivial, trivial⟩ _ _ _ _ _ _

theorem waiting_ends :
    Ends adding waiting (.value 1) true [(.value 7, false)] [(0, .value 1)] (.failure .cancelled)
      false :=
  ⟨[none, some (.value 7, false), none, none], _, rfl, ⟨_, rfl⟩, run_defined (by rfl)⟩

theorem cancelled_for_good_waiting :
    ∃ events₁ events₂ called₁ called₂ result₁ w₁,
      [((.value 7 : Result Nat Unit), false)] = events₁ ++ events₂ ∧
      [(0, (.value 1 : Result Nat Unit))] = called₁ ++ called₂ ∧
      Means adding (some ()) (.callbacks (some 0) none .nil) (.value 1) true events₁ called₁ result₁
        w₁ ∧ (adding.isActive () w₁ = false → called₂ = []) := by
  obtain ⟨events₁, events₂, called₁, called₂, result₁, w₁, hevents, hcalled, hbefore, -, hlater⟩ :=
    cancelled_for_good (.callbacks (some 0) none .nil) (.callbacks (some 1) (some 1) .nil) rfl
      waiting_ends
  exact ⟨events₁, events₂, called₁, called₂, result₁, w₁, hevents, hcalled, hbefore,
    fun hinactive => (hlater () rfl hinactive trivial).2.1⟩

end Feat.Fibers
