import Feat.Agencies.DescriptorUpdates

/- The updates of a descriptor that have been called and have not finished
   (`inFlight`), those that were saved (`committed`), and what an event does to both
   (`step_moves`): a call puts its update at the end; the first update in flight
   fails and leaves no trace, or is saved, and the descriptor is then what its
   function made of the one before; anything else moves nothing.

   What is built on `AgencyAgent` needs no more than this of it. -/
namespace Feat.Agencies
namespace AgencyAgent
open Transition
variable {U D R E V : Type}

/-- The update whose function was run without an end so far, and those in the queue. -/
def inFlight (s : AgencyAgent U D R E) : List (Nat × U) :=
  (s.history.filter fun r => r.outcome.isNone).map (fun r => (r.no, r.update)) ++ s.updateQueue

/-- A function that was run and saved, with the descriptor before and the one that was saved. -/
def Record.commit (r : Record U D) : Option (U × D × D) :=
  match r.outcome with
  | some (some desc) => some (r.update, r.input, desc)
  | _ => none

/-- The updates that were saved. -/
def committed (s : AgencyAgent U D R E) : List (U × D × D) := s.history.filterMap Record.commit

/-- What an event does to the updates in flight. -/
inductive Moves (exec : U → D → Except E (D × R)) (withRev : D → V → D)
    (s : AgencyAgent U D R E) : Event U V E → AgencyAgent U D R E → Prop where
  | call {t : AgencyAgent U D R E} (update : U) :
      t.inFlight = s.inFlight ++ [(s.calls.length, update)] → t.descriptor = s.descriptor →
      t.fired = s.fired → t.committed = s.committed → t.calls = s.calls ++ [update] →
      Moves exec withRev s (.call update) t
  | stay {t : AgencyAgent U D R E} {event : Event U V E} :
      t.inFlight = s.inFlight → t.descriptor = s.descriptor → t.fired = s.fired →
      t.committed = s.committed → t.calls = s.calls → Moves exec withRev s event t
  | fail {t : AgencyAgent U D R E} {event : Event U V E} {no : Nat} {update : U} {e : E} :
      s.inFlight = (no, update) :: t.inFlight → t.descriptor = s.descriptor →
      t.fired = s.fired ++ [(no, .error e)] → t.committed = s.committed → t.calls = s.calls →
      (event = .run ∧ exec update s.descriptor = .error e ∨
        (∃ k, event = .failed k e) ∧ ∃ r, exec update s.descriptor = .ok r) →
      Moves exec withRev s event t
  | commit {t : AgencyAgent U D R E} {k no : Nat} {update : U} {out : D} {result : R} {rev : V} :
      s.inFlight = (no, update) :: t.inFlight → exec update s.descriptor = .ok (out, result) →
      t.descriptor = withRev out rev → t.fired = s.fired ++ [(no, .ok result)] →
      t.committed = s.committed ++ [(update, s.descriptor, t.descriptor)] → t.calls = s.calls →
      Moves exec withRev s (.saved k rev) t

section Steps
variable {exec : U → D → Except E (D × R)} {withRev : D → V → D}
  {desc : D} {s t : AgencyAgent U D R E}

theorem filter_open {before : List (Record U D)} (h : Settled before) :
    (before.filter fun r => r.outcome.isNone) = [] := by
  rw [List.filter_eq_nil_iff]
  intro r hr
  have hsome := h r hr
  cases hout : r.outcome with
  | none => simp [hout] at hsome
  | some _ => simp

/-- With one function under way, that is the first in flight. -/
theorem inFlight_running {before : List (Record U D)} {no : Nat} {update : U} {input : D}
    (hbefore : Settled before) (hhistory : s.history = before ++ [⟨no, update, input, none⟩]) :
    s.inFlight = (no, update) :: s.updateQueue := by
  unfold inFlight
  rw [hhistory, List.filter_append, filter_open hbefore]
  rfl

/-- With none under way, only the queue is in flight. -/
theorem inFlight_settled (h : Settled s.history) : s.inFlight = s.updateQueue := by
  unfold inFlight
  rw [filter_open h]
  rfl

/-- `_next_update` takes nothing out of flight. -/
theorem nextUpdate_moves (s : AgencyAgent U D R E) :
    s.nextUpdate.inFlight = s.inFlight ∧ s.nextUpdate.descriptor = s.descriptor ∧
      s.nextUpdate.fired = s.fired ∧ s.nextUpdate.committed = s.committed ∧
      s.nextUpdate.calls = s.calls := by
  unfold AgencyAgent.nextUpdate
  split
  · exact ⟨rfl, rfl, rfl, rfl, rfl⟩
  · split
    · exact ⟨rfl, rfl, rfl, rfl, rfl⟩
    · rename_i no update rest hqueue
      refine ⟨?_, rfl, rfl, ?_, rfl⟩
      · simp [inFlight, List.filter_append, hqueue]
      · simp [committed, List.filterMap_append, Record.commit]

/-- What firing the Deferred of the update under way does. -/
theorem fire_moves (h : Logged exec withRev desc s) {before : List (Record U D)} {no : Nat}
    {update : U} (hbefore : Settled before)
    (hhistory : s.history = before ++ [⟨no, update, s.descriptor, none⟩]) (result : Except E R)
    (outcome : Option D) :
    s.inFlight = (no, update) :: (s.fire no result outcome).inFlight ∧
      (s.fire no result outcome).committed =
        s.committed ++ (outcome.map fun d => (update, s.descriptor, d)).toList := by
  have hfired : (s.fire no result outcome).history =
      before ++ [⟨no, update, s.descriptor, some outcome⟩] := by
    show s.history.map _ = _
    rw [hhistory, map_settle (h.fresh hhistory) rfl]
  constructor
  · rw [inFlight_running hbefore hhistory, inFlight_settled]
    · rfl
    · rw [hfired]
      exact settled_concat.mpr ⟨hbefore, rfl⟩
  · unfold committed
    rw [hfired, hhistory, List.filterMap_append, List.filterMap_append]
    cases outcome with
    | none =>
      rw [Option.map_none, Option.toList_none, List.append_nil]
      rfl
    | some d =>
      rw [List.append_assoc]
      rfl

/-- Every event moves the updates in flight as described. -/
theorem step_moves {event : Event U V E} (hinv : UpdateInv exec withRev desc s)
    (hstep : s.step exec withRev event = some t) : Moves exec withRev s event t := by
  obtain ⟨h, hphase⟩ := hinv
  cases event with
  | call update =>
    cases hstep
    obtain ⟨hflight, hdesc, hfired, hcommitted, hcalls⟩ := nextUpdate_moves { s with
      updateQueue := s.updateQueue ++ [(s.calls.length, update)], calls := s.calls ++ [update] }
    refine .call update ?_ hdesc hfired hcommitted hcalls
    exact hflight.trans (List.append_assoc _ _ _).symm
  | next =>
    simp only [step] at hstep
    split at hstep
    · cases hstep
      obtain ⟨hflight, hdesc, hfired, hcommitted, hcalls⟩ := nextUpdate_moves
        { s with scheduled := ‹Nat› }
      exact .stay hflight hdesc hfired hcommitted hcalls
    · cases hstep
  | run =>
    cases hphase with
    | idle _ hactive _ _ _ => simp [step, hactive] at hstep
    | saving _ hactive _ _ _ _ => simp [step, hactive] at hstep
    | firing _ hactive _ _ =>
      simp only [step, hactive] at hstep
      cases hstep
      exact .stay rfl rfl rfl rfl rfl
    | @running before no update _ hactive _ hbefore hhistory =>
      simp only [step, hactive] at hstep
      split at hstep
      · cases hstep
        exact .stay rfl rfl rfl rfl rfl
      · rename_i e hexec
        cases hstep
        obtain ⟨hflight, hcommitted⟩ := fire_moves h hbefore hhistory (.error e) none
        exact .fail hflight rfl rfl (hcommitted.trans (List.append_nil _)) rfl
          (Or.inl ⟨rfl, hexec⟩)
  | saved k rev =>
    cases hphase with
    | idle _ hactive hsaves _ _ => simp [step, hactive, hsaves] at hstep
    | running _ hactive _ _ _ => simp [step, hactive] at hstep
    | firing _ hactive _ _ => simp [step, hactive] at hstep
    | @saving before no update out result _ hactive hsaves hbefore hhistory hexec =>
      cases k with
      | succ k => simp [step, hactive, hsaves] at hstep
      | zero =>
        simp only [step, hactive, hsaves, List.getElem?_cons_zero] at hstep
        cases hstep
        obtain ⟨hflight, hcommitted⟩ :=
          fire_moves h hbefore hhistory (.ok result) (some (withRev out rev))
        exact .commit hflight hexec rfl rfl hcommitted rfl
  | failed k e =>
    cases hphase with
    | idle _ hactive hsaves _ _ => simp [step, hactive, hsaves] at hstep
    | running _ hactive _ _ _ => simp [step, hactive] at hstep
    | firing _ hactive _ _ => simp [step, hactive] at hstep
    | @saving before no update out result _ hactive hsaves hbefore hhistory hexec =>
      cases k with
      | succ k => simp [step, hactive, hsaves] at hstep
      | zero =>
        simp only [step, hactive, hsaves, List.getElem?_cons_zero] at hstep
        cases hstep
        obtain ⟨hflight, hcommitted⟩ := fire_moves h hbefore hhistory (.error e) none
        exact .fail hflight rfl rfl (hcommitted.trans (List.append_nil _)) rfl
          (Or.inr ⟨⟨0, rfl⟩, (out, result), hexec⟩)

/-- What was saved is what its function made of the descriptor before. -/
theorem committed_exec (h : UpdateInv exec withRev desc s) {update : U} {before after : D}
    (hcommitted : (update, before, after) ∈ s.committed) :
    ∃ out result rev, exec update before = .ok (out, result) ∧ after = withRev out rev := by
  obtain ⟨r, hr, hcommit⟩ := List.mem_filterMap.mp hcommitted
  unfold Record.commit at hcommit
  split at hcommit
  · rename_i saved hsaved
    cases hcommit
    exact h.logged.outcome r hr after hsaved
  · cases hcommit

/-- The number of an update in flight is its place among the calls. -/
theorem inFlight_calls (h : UpdateInv exec withRev desc s) {no : Nat} {update : U}
    (hflight : (no, update) ∈ s.inFlight) : s.calls[no]? = some update := by
  have hall : (s.history.map fun r => (r.no, r.update)) ++ s.updateQueue =
      (List.range s.calls.length).zip s.calls := by
    calc (s.history.map fun r => (r.no, r.update)) ++ s.updateQueue
        = (s.history.map Record.no ++ s.updateQueue.map Prod.fst).zip
            (s.history.map Record.update ++ s.updateQueue.map Prod.snd) := by
          rw [List.zip_append (by simp), List.zip_map', List.zip_map']
          simp
      _ = (List.range s.calls.length).zip s.calls := by rw [h.logged.numbered, h.logged.order]
  have hin : (no, update) ∈ (List.range s.calls.length).zip s.calls := by
    rw [← hall]
    unfold inFlight at hflight
    rcases List.mem_append.mp hflight with hopen | hqueue
    · obtain ⟨r, hr, heq⟩ := List.mem_map.mp hopen
      exact List.mem_append_left _ (List.mem_map.mpr ⟨r, (List.mem_filter.mp hr).1, heq⟩)
    · exact List.mem_append_right _ hqueue
  obtain ⟨k, hk, hget⟩ := List.getElem_of_mem hin
  rw [List.getElem_zip, List.getElem_range] at hget
  obtain ⟨rfl, rfl⟩ := Prod.mk.inj hget
  rw [List.length_zip, List.length_range, Nat.min_self] at hk
  exact List.getElem?_eq_getElem hk

end Steps
end AgencyAgent
end Feat.Agencies
