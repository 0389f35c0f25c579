import Mathlib.Algebra.BigOperators.Group.List.Basic
import Mathlib.Algebra.GroupWithZero.Nat
import Feat.Lib.Run
import Feat.Agencies.ManagerTurns

/- Whether cancelling a contract runs to its end.

   `cancel` tells the agent's side with the message its loop made last. Where the loop
   finds no contractor granted or completed there is no such message, and the call fails
   with an `UnboundLocalError` before `cancelled()` is scheduled. That is so of a contract
   that granted nobody, and of every call after the first one, although the state is
   admitted: the first call has left nobody to cancel (`again_fails`).

   A call is watched from outside: the manager it finds, the manager it leaves and the
   error it raises. `runs_to_end_iff` says which runs have good calls only. -/
namespace Feat.Agencies.Contracts
open Hash Transition

variable {Key : Type} [DecidableEq Key]

/-- What `cancel` can raise: the name `cancellation` is unbound, or the agent's side is
    called after `finalize`. -/
inductive CancelError where
  | unboundLocal
  | assertion
  deriving DecidableEq

namespace AgencyManager
variable (order : HashOrder Key)

/-- `cancel`, with the error it raises. -/
def tryCancel (m : AgencyManager Key) : AgencyManager Key × Option CancelError :=
  if m.medium.state ∈ [.granted, .cancelled] then
    let m := { m with medium := m.medium.setState .cancelled }
    let toCancel := m.withState order [.granted, .completed]
    let m := toCancel.foldl (onEvent .cancellation) m
    if toCancel = [] then (m, some .unboundLocal)
    else if m.medium.finalized then (m, some .assertion)
    else ({ m with medium := m.medium.runAndTerminate .cancelled (some .cancelled) }, none)
  else (m, none)

/-- The states `cancel` is admitted in. -/
def Cancellable (m : AgencyManager Key) : Prop :=
  m.medium.state = .granted ∨ m.medium.state = .cancelled

instance (m : AgencyManager Key) : Decidable m.Cancellable := inferInstanceAs (Decidable (_ ∨ _))

/-- The error aside, `tryCancel` is the step. -/
theorem tryCancel_fst (m : AgencyManager Key) : (m.tryCancel order).1 = m.cancel order := by
  unfold tryCancel cancel
  split
  · dsimp only
    split
    · rfl
    · split
      · rename_i hf
        simp [Medium.runAndTerminate, Medium.callAgentSide, hf]
      · rfl
  · rfl

/-- The manager as `cancel` finds it, where an event calls it: the agent does, or a
    contractor that is known cancels a granted contract. -/
def calling (m : AgencyManager Key) : Event Key → Option (AgencyManager Key)
  | .cancel => some m
  | .message key .cancellation =>
    if m.medium.state = .granted ∧ key ∈ m.contractors then
      some { m with
        medium := (m.medium.record [.received (key, .cancellation)]).setState .cancelled }
    else none
  | _ => none

/-- An event that calls `cancel` does what the call does. -/
theorem step_calling {m found : AgencyManager Key} {e : Event Key} (h : m.calling e = some found) :
    step order m e = some (found.tryCancel order).1 := by
  rw [tryCancel_fst]
  cases e with
  | cancel =>
    obtain rfl := Option.some.inj h
    rfl
  | message key msg =>
    cases msg with
    | cancellation =>
      dsimp only [calling] at h
      split at h
      · rename_i hs
        obtain rfl := Option.some.inj h
        dsimp only [step, onMessage]
        rw [if_pos (by simpa using hs.1)]
        unfold onCancel
        rw [if_pos hs.2]
      · cases h
    | _ => cases h
  | _ => cases h

/-! ## One call -/

/-- A call of `cancel`, seen from outside. -/
structure CancelCall (Key : Type) [DecidableEq Key] where
  found : AgencyManager Key
  left : AgencyManager Key
  raised : Option CancelError

/-- The call `cancel` makes of a manager. -/
def cancelCall (m : AgencyManager Key) : CancelCall Key :=
  ⟨m, (m.tryCancel order).1, (m.tryCancel order).2⟩

/-- How many cancellations one contractor was sent. -/
def cancellations (key : Key) (m : AgencyManager Key) : Nat :=
  m.medium.log.count (.sent (.to key .cancellation))

/-- How many calls of `cancelled()` are scheduled. -/
def toldCancelled (m : AgencyManager Key) : Nat :=
  m.medium.jobs.countP (·.method = .agent .cancelled)

namespace CancelCall

/-- How many cancellations the call sent to one contractor. -/
def sent (c : CancelCall Key) (key : Key) : Nat :=
  c.left.cancellations key - c.found.cancellations key

/-- How often the call scheduled `cancelled()`. -/
def scheduled (c : CancelCall Key) : Nat := c.left.toldCancelled - c.found.toldCancelled

/-- Whether a contractor is granted or completed when the contract is cancelled. -/
def Due (c : CancelCall Key) (key : Key) : Prop :=
  c.found.Cancellable ∧ ∃ st, c.found.contractors.lookup key = some st ∧
    (st = .granted ∨ st = .completed)

end CancelCall

/-- Whoever is to be cancelled is sent one message, in the order of the loop. -/
theorem record_foldl_onEvent {msg : ToContractor} {keys : List Key} {m : AgencyManager Key}
    (hnodup : keys.Nodup)
    (hsend : ∀ k ∈ keys, ∃ st, (m.contractors.lookup k).bind (·.send msg) = some st) :
    (keys.foldl (onEvent msg) m).medium =
      m.medium.record (keys.map fun k => .sent (.to k msg)) := by
  induction keys generalizing m with
  | nil => exact Medium.record_nil.symm
  | cons key keys ih =>
    obtain ⟨hkey, hnodup⟩ := List.nodup_cons.mp hnodup
    obtain ⟨st, hst⟩ := hsend key (by simp)
    have hfirst : (m.onEvent msg key).medium = m.medium.record [.sent (.to key msg)] := by
      unfold onEvent
      rw [hst]
    -- the other records are as they were
    have hrest : ∀ k ∈ keys, ∃ st,
        ((m.onEvent msg key).contractors.lookup k).bind (·.send msg) = some st := by
      intro k hk
      have hne : k ≠ key := fun he => hkey (he ▸ hk)
      rw [lookup_onEvent]
      simpa [hne] using hsend k (by simp [hk])
    rw [List.foldl_cons, ih hnodup hrest, hfirst, Medium.record_record]
    rfl

theorem count_cancellations {keys : List Key} (hnodup : keys.Nodup) (key : Key) :
    (keys.map fun k => (.sent (.to k .cancellation) : ManagerEntry Key)).count
      (.sent (.to key .cancellation)) = if key ∈ keys then 1 else 0 := by
  have hinj : Function.Injective
      fun k => (.sent (.to k .cancellation) : ManagerEntry Key) := by
    intro k k' h
    injection h with h
    injection h
  rw [List.count_map_of_injective keys _ hinj key]
  split
  · rename_i hkey
    exact List.count_eq_one_of_mem hnodup hkey
  · rename_i hkey
    exact List.count_eq_zero.mpr hkey

/-- The contractors a call cancels. -/
def toCancel (m : AgencyManager Key) : List Key := m.withState order [.granted, .completed]

theorem nodup_toCancel (m : AgencyManager Key) : (m.toCancel order).Nodup := by
  have hkeys := Dict.keys_nodup_items order m.contractors
  unfold toCancel withState
  exact hkeys.sublist (List.filter_sublist.map Prod.fst)

theorem mem_toCancel {m : AgencyManager Key} {key : Key} :
    key ∈ m.toCancel order ↔
      ∃ st, m.contractors.lookup key = some st ∧ (st = .granted ∨ st = .completed) := by
  unfold toCancel
  rw [mem_withState]
  exact ⟨fun ⟨st, hst, hk⟩ => ⟨st, hk, by simpa using hst⟩,
    fun ⟨st, hk, hst⟩ => ⟨st, by simpa using hst, hk⟩⟩

/-- The loop of a call: the state entered, and a message to each contractor to cancel. -/
theorem record_toCancel (m : AgencyManager Key) :
    ((m.toCancel order).foldl (onEvent .cancellation)
        { m with medium := m.medium.setState .cancelled }).medium =
      (m.medium.setState .cancelled).record
        ((m.toCancel order).map fun k => .sent (.to k .cancellation)) := by
  refine record_foldl_onEvent (nodup_toCancel order m) fun k hk => ⟨.cancelled, ?_⟩
  obtain ⟨st, hlook, hst⟩ := (mem_toCancel order).mp hk
  show (m.contractors.lookup k).bind _ = _
  rw [hlook]
  obtain rfl | rfl := hst
  · rfl
  · rfl

/-- A call that is admitted: what it raises, and the medium it leaves. -/
theorem tryCancel_admitted {m : AgencyManager Key} (hm : m.Cancellable) :
    let medium := (m.medium.setState .cancelled).record
      ((m.toCancel order).map fun k => .sent (.to k .cancellation))
    (m.toCancel order = [] → (m.tryCancel order).2 = some .unboundLocal ∧
        (m.tryCancel order).1.medium = medium) ∧
      (m.toCancel order ≠ [] → m.medium.finalized = true →
        (m.tryCancel order).2 = some .assertion ∧ (m.tryCancel order).1.medium = medium) ∧
      (m.toCancel order ≠ [] → m.medium.finalized = false → (m.tryCancel order).2 = none ∧
        (m.tryCancel order).1.medium = medium.runAndTerminate .cancelled (some .cancelled)) := by
  have hloop := record_toCancel order m
  have hkeys : withState order [.granted, .completed]
      { m with medium := m.medium.setState .cancelled } = m.toCancel order := rfl
  unfold tryCancel
  rw [if_pos (by simpa [Cancellable] using hm)]
  dsimp only
  rw [hkeys, hloop]
  refine ⟨fun he => ?_, fun hne hf => ?_, fun hne hf => ?_⟩
  · rw [if_pos he]
    exact ⟨rfl, hloop⟩
  · rw [if_neg hne, if_pos (by simpa using hf)]
    exact ⟨rfl, hloop⟩
  · rw [if_neg hne, if_neg (by simpa using hf)]
    exact ⟨rfl, rfl⟩

theorem tryCancel_refused {m : AgencyManager Key} (hm : ¬ m.Cancellable) :
    m.tryCancel order = (m, none) := by
  unfold tryCancel
  rw [if_neg (by simpa [Cancellable] using hm)]

/-- Whatever a call raises, it sends one message to each contractor that is granted or
    completed, and none to others. -/
theorem sent_cancelCall (m : AgencyManager Key) (key : Key) :
    ((m.cancelCall order).Due key → (m.cancelCall order).sent key = 1) ∧
      (¬ (m.cancelCall order).Due key → (m.cancelCall order).sent key = 0) := by
  by_cases hm : m.Cancellable
  · obtain ⟨hnone, hfin, htold⟩ := tryCancel_admitted order hm
    -- all ends of a call leave the same log
    have hlog : (m.tryCancel order).1.medium.log = (m.medium.setState .cancelled).log ++
        (m.toCancel order).map fun k => .sent (.to k .cancellation) := by
      by_cases he : m.toCancel order = []
      · rw [(hnone he).2]
        rfl
      · cases hf : m.medium.finalized with
        | true =>
          rw [(hfin he hf).2]
          rfl
        | false =>
          rw [(htold he hf).2]
          exact Medium.callAgentSide_log
    have hcount : (m.cancelCall order).sent key = if key ∈ m.toCancel order then 1 else 0 := by
      obtain ⟨es, hes, hentered⟩ := m.medium.setState_entries .cancelled
      have hzero : es.count (.sent (.to key .cancellation)) = 0 := by
        apply List.count_eq_zero.mpr
        intro hin
        cases hentered _ hin
      unfold CancelCall.sent cancellations cancelCall
      dsimp only
      rw [hlog, hes, List.count_append, List.count_append, hzero,
        count_cancellations (nodup_toCancel order m)]
      omega
    have hdue : (m.cancelCall order).Due key ↔ key ∈ m.toCancel order := by
      rw [mem_toCancel]
      exact ⟨fun h => h.2, fun h => ⟨hm, h⟩⟩
    rw [hcount, hdue]
    exact ⟨fun h => if_pos h, fun h => if_neg h⟩
  · refine ⟨fun h => absurd h.1 hm, fun _ => ?_⟩
    unfold CancelCall.sent cancelCall
    rw [tryCancel_refused order hm]
    exact Nat.sub_self _

theorem scheduled_of_jobs {c : CancelCall Key} (h : c.left.medium.jobs = c.found.medium.jobs) :
    c.scheduled = 0 := by
  unfold CancelCall.scheduled toldCancelled
  rw [h]
  exact Nat.sub_self _

/-- Once the contract was cancelled, another call fails: the first one left nobody to
    cancel. -/
theorem again_fails {m : AgencyManager Key} (hm : m.Cancellable) :
    ((m.cancel order).tryCancel order).2 = some .unboundLocal := by
  have hloop := clear_cancelled order m (m.medium.setState .cancelled)
  have hstate : ((m.toCancel order).foldl (onEvent .cancellation)
      { m with medium := m.medium.setState .cancelled }).medium.state = .cancelled := by
    rw [record_toCancel, Medium.record_state, Medium.setState_state]
  have hafter : (m.cancel order).Clear ∧ (m.cancel order).Cancellable := by
    unfold cancel
    rw [if_pos (by simpa [Cancellable] using hm)]
    dsimp only
    split
    · exact ⟨hloop, .inr hstate⟩
    · exact ⟨hloop, .inr (Medium.callAgentSide_state.trans hstate)⟩
  have hnone : (m.cancel order).toCancel order = [] := by
    apply List.eq_nil_iff_forall_not_mem.mpr
    intro k hk
    obtain ⟨st, hlook, hst⟩ := (mem_toCancel order).mp hk
    obtain ⟨hg, hc⟩ := hafter.1 k st hlook
    exact hst.elim hg hc
  exact ((tryCancel_admitted order hafter.2).1 hnone).1

/-- A call goes well: where it is admitted, there is somebody to cancel and the agent's side
    can still be called. -/
def Serves (m : AgencyManager Key) : Prop := m.toCancel order ≠ [] ∧ m.medium.finalized = false

instance (m : AgencyManager Key) : Decidable (m.Serves order) :=
  inferInstanceAs (Decidable (_ ∧ _))

theorem cancelCall_refused {m : AgencyManager Key} (hm : ¬ m.Cancellable) :
    (m.cancelCall order).raised = none ∧ (m.cancelCall order).scheduled = 0 := by
  unfold cancelCall
  rw [tryCancel_refused order hm]
  exact ⟨rfl, scheduled_of_jobs rfl⟩

theorem cancelCall_served {m : AgencyManager Key} (hm : m.Cancellable) (hs : m.Serves order) :
    (m.cancelCall order).raised = none ∧ (m.cancelCall order).scheduled = 1 := by
  obtain ⟨-, -, htold⟩ := tryCancel_admitted order hm
  obtain ⟨hraised, hmed⟩ := htold hs.1 hs.2
  refine ⟨hraised, ?_⟩
  unfold CancelCall.scheduled toldCancelled cancelCall
  dsimp only
  rw [hmed, Medium.runAndTerminate, Medium.callAgentSide_jobs (by simpa using hs.2)]
  simp

theorem cancelCall_failed {m : AgencyManager Key} (hm : m.Cancellable) (hs : ¬ m.Serves order) :
    (m.cancelCall order).raised ≠ none := by
  obtain ⟨hnone, hfin, -⟩ := tryCancel_admitted order hm
  show (m.tryCancel order).2 ≠ none
  by_cases he : m.toCancel order = []
  · rw [(hnone he).1]
    simp
  · have hf : m.medium.finalized = true := by
      cases hf : m.medium.finalized with
      | true => rfl
      | false => exact absurd ⟨he, hf⟩ hs
    rw [(hfin he hf).1]
    simp

/-! ## Runs -/

/-- A manager, and the calls of `cancel` so far. -/
structure Watched (Key : Type) [DecidableEq Key] where
  manager : AgencyManager Key
  calls : List (CancelCall Key)

namespace Watched

def start (expectedBids : Option Nat) : Watched Key := ⟨.start expectedBids, []⟩

/-- One event, with the call of `cancel` it makes. -/
def step (w : Watched Key) (e : Event Key) : Option (Watched Key) :=
  (w.manager.step order e).map fun m =>
    ⟨m, w.calls ++ (w.manager.calling e).toList.map (cancelCall order)⟩

/-- How often the contract was cancelled: the calls that were admitted. -/
def admitted (w : Watched Key) : Nat := w.calls.countP (·.found.Cancellable)

/-- How often `cancelled()` was scheduled. -/
def told (w : Watched Key) : Nat := (w.calls.map CancelCall.scheduled).sum

/-- All calls of `cancel` ran to their end: none raised, each sent one message to whoever was
    granted or completed and none to others, and `cancelled()` was scheduled once if the
    contract was cancelled at all. -/
structure RunsToEnd (w : Watched Key) : Prop where
  raised : ∀ c ∈ w.calls, c.raised = none
  sent : ∀ c ∈ w.calls, ∀ key, (c.Due key → c.sent key = 1) ∧ (¬ c.Due key → c.sent key = 0)
  told : w.told = if w.admitted = 0 then 0 else 1

/-- The condition on an event: where it cancels the contract, the contract was not cancelled
    before, somebody is granted or completed, and the manager is not finalized. -/
def CancelsOnce (w : Watched Key) (e : Event Key) : Prop :=
  ∀ m ∈ w.manager.calling e, m.Cancellable → w.admitted = 0 ∧ m.Serves order

/-- What holds as long as the condition does. -/
structure Good (w : Watched Key) : Prop where
  end_ : w.RunsToEnd
  told : w.told = w.admitted

theorem step_cases {w w' : Watched Key} {e : Event Key} (h : w.step order e = some w') :
    (w.manager.calling e = none ∧ w'.calls = w.calls) ∨
      ∃ m, w.manager.calling e = some m ∧ w'.calls = w.calls ++ [m.cancelCall order] := by
  obtain ⟨m', -, rfl⟩ := Option.map_eq_some_iff.mp h
  cases hc : w.manager.calling e with
  | none => exact .inl ⟨rfl, by simp⟩
  | some m => exact .inr ⟨m, rfl, by simp⟩

theorem good_step {w w' : Watched Key} {e : Event Key} (hgood : w.Good)
    (honce : w.CancelsOnce order e) (hstep : w.step order e = some w') : w'.Good := by
  obtain ⟨⟨hraised, hsent, htold⟩, heq⟩ := hgood
  obtain ⟨-, hcalls⟩ | ⟨m, hm, hcalls⟩ := step_cases order hstep
  · have hadm : w'.admitted = w.admitted := by
      unfold admitted
      rw [hcalls]
    have htold' : w'.told = w.told := by
      unfold told
      rw [hcalls]
    exact ⟨⟨hcalls ▸ hraised, hcalls ▸ hsent, by rw [htold', hadm, htold]⟩, by
      rw [htold', hadm, heq]⟩
  · have htold' : w'.told = w.told + (m.cancelCall order).scheduled := by
      unfold told
      rw [hcalls]
      simp
    have hadm : w'.admitted = w.admitted + (if m.Cancellable then 1 else 0) := by
      unfold admitted
      rw [hcalls, List.countP_append, List.countP_singleton]
      simp only [decide_eq_true_eq]
      rfl
    have hone : (m.cancelCall order).raised = none ∧
        (m.cancelCall order).scheduled = if m.Cancellable then 1 else 0 := by
      split
      · rename_i hc
        exact cancelCall_served order hc (honce m hm hc).2
      · rename_i hc
        exact cancelCall_refused order hc
    have hle : w'.admitted ≤ 1 := by
      rw [hadm]
      split
      · rename_i hc
        rw [(honce m hm hc).1]
      · rw [← heq, htold]
        split <;> omega
    have heq' : w'.told = w'.admitted := by rw [htold', hadm, hone.2, heq]
    refine ⟨⟨fun c hc => ?_, fun c hc => ?_, ?_⟩, heq'⟩
    · rw [hcalls] at hc
      obtain hc | hc := List.mem_append.mp hc
      · exact hraised c hc
      · rw [List.mem_singleton.mp hc]
        exact hone.1
    · rw [hcalls] at hc
      obtain hc | hc := List.mem_append.mp hc
      · exact hsent c hc
      · rw [List.mem_singleton.mp hc]
        exact sent_cancelCall order m
    · rw [heq']
      split
      · assumption
      · omega

/-- A call outside the condition raises, or schedules `cancelled()` again. -/
theorem not_good_step {w w' : Watched Key} {e : Event Key} (hgood : w.Good)
    (honce : ¬ w.CancelsOnce order e) (hstep : w.step order e = some w') : ¬ w'.RunsToEnd := by
  intro hend
  apply honce
  intro m hm hc
  obtain ⟨hno, -⟩ | ⟨m', hm', hcalls⟩ := step_cases order hstep
  · rw [hno] at hm
    cases hm
  · obtain rfl : m = m' := Option.some.inj (hm.symm.trans hm')
    have hs : m.Serves order := by
      by_contra hs
      exact cancelCall_failed order hc hs (hend.raised _ (by rw [hcalls]; simp))
    have htold' : w'.told = w.told + (m.cancelCall order).scheduled := by
      unfold told
      rw [hcalls]
      simp
    have hle : w'.told ≤ 1 := by
      rw [hend.told]
      split <;> omega
    have hone := (cancelCall_served order hc hs).2
    have heq := hgood.told
    exact ⟨by omega, hs⟩

theorem start_good (expected : Option Nat) : (start expected : Watched Key).Good :=
  ⟨⟨by simp [start], by simp [start], rfl⟩, rfl⟩

/-- Cancelling runs to its end in a run if and only if the contract is cancelled once at
    most, and then finds somebody granted or completed and the manager not finalized. -/
theorem runs_to_end_iff (expected : Option Nat) (es : List (Event Key)) (w : Watched Key) :
    Run (Guarded (CancelsOnce order) (Defined (step order))) (start expected) es w ↔
      Run (Ending RunsToEnd (Defined (step order))) (start expected) es w :=
  run_guarded_iff (fun _ h => Good.end_ h) (fun _ _ _ h hg hs => good_step order h hg hs)
    (fun _ _ _ h hg hs => not_good_step order h hg hs) (start_good expected)

/-- The agent cancels a contract it granted to one contractor, and then cancels again. -/
theorem nobody_left_to_cancel :
    ¬ ∀ (order : HashOrder Nat) (expected : Option Nat) (es : List (Event Nat))
        (w : Watched Nat), Run (Defined (step order)) (start expected) es w → w.RunsToEnd := by
  intro h
  obtain ⟨w, hw, hraised⟩ : ∃ w, ([.announce, .message 1 .bid, .bidHandled, .grant [1], .cancel,
        .cancel] : List (Event Nat)).foldlM (step .stored) (start (some 1)) = some w ∧
      w.calls.map CancelCall.raised = [none, some .unboundLocal] := by
    apply Option.map_eq_some_iff.mp
    decide +kernel
  have hnone := (h .stored (some 1) _ w (run_defined hw)).raised
  have hmem : some CancelError.unboundLocal ∈ w.calls.map CancelCall.raised := by
    rw [hraised]
    simp
  obtain ⟨c, hc, hcr⟩ := List.mem_map.mp hmem
  rw [hnone c hc] at hcr
  cases hcr

-- nor is there a message to tell the agent with where no bid was granted
example : (([.announce, .message 1 .bid, .bidHandled, .grant [], .cancel] :
      List (Event Nat)).foldlM (step .stored) (start (some 1))).map
        (fun w => w.calls.map CancelCall.raised) = some [some .unboundLocal] := by
  decide +kernel

end Watched

end AgencyManager
end Feat.Agencies.Contracts
