import Mathlib.Logic.Function.Basic
import Feat.Agencies.ManagerLog
import Feat.Agencies.Contractor

/- A manager and its contractors, one for each key, and the messages between them.

   A message that was sent may arrive at any later moment, any number of times or never, so
   messages are lost, delayed, duplicated and reordered. A `Duplicate` comes from the
   messaging layer of an agent that knows the announcement already, so it may arrive at any
   time. Handing a bid over, which brings in contractors of another contract, is left out.

   `all_or_nothing`: the manager does not both acknowledge and cancel, acknowledges once
   and only when all that it granted was reported, and a contractor is acknowledged only by
   a manager that has completed. `half_granted` is a run in which a grant has failed half
   way and the contract is closed again. -/
namespace Feat.Agencies.Contracts
open Hash Transition Traces

structure Network (Key : Type) [DecidableEq Key] where
  manager : AgencyManager Key
  contractors : Key → AgencyContractor

namespace Network
variable {Key : Type} [DecidableEq Key] (order : HashOrder Key)

inductive Event (Key : Type) where
  | manager (e : AgencyManager.Event Key)
  | contractor (key : Key) (e : AgencyContractor.Event)
  | toManager (key : Key) (msg : ToManager)
  | toContractor (key : Key) (msg : FromManager)

/-- The manager before its agent announces, and contractors that wait for it. -/
def start (expectedBids : Option Nat) : Network Key where
  manager := .start expectedBids
  contractors _ := .initiated

/-- A message of the manager that is on its way to a contractor. -/
def Underway (n : Network Key) (key : Key) : FromManager → Prop
  | .announcement => .sent .announcement ∈ n.manager.medium.log
  | .of msg => .sent (.to key msg) ∈ n.manager.medium.log

instance (n : Network Key) (key : Key) : ∀ msg, Decidable (n.Underway key msg)
  | .announcement => inferInstanceAs (Decidable (_ ∈ _))
  | .of _ => inferInstanceAs (Decidable (_ ∈ _))

def step (n : Network Key) : Event Key → Option (Network Key)
  | .manager (.message _ _) => none
  | .manager e => (n.manager.step order e).map fun m => { n with manager := m }
  | .contractor _ (.message _) | .contractor _ .handover => none
  | .contractor key e => ((n.contractors key).step e).map fun c =>
    { n with contractors := Function.update n.contractors key c }
  | .toManager key msg =>
    if .sent msg ∈ (n.contractors key).log ∨ msg = .duplicate then
      some { n with manager := n.manager.onMessage order key msg }
    else none
  | .toContractor key msg =>
    if n.Underway key msg then
      some { n with
        contractors := Function.update n.contractors key ((n.contractors key).onMessage msg) }
    else none

/-- What the agent's side of the manager may do: it elects no bid that was granted. -/
def Electing (n : Network Key) : Event Key → Prop
  | .manager e => n.manager.Electing e
  | _ => True

instance (n : Network Key) : ∀ e, Decidable (n.Electing e)
  | .manager e => inferInstanceAs (Decidable (n.manager.Electing e))
  | .contractor _ _ | .toManager _ _ | .toContractor _ _ => inferInstanceAs (Decidable True)

/-- The condition on an event of the manager. -/
def Settled (n : Network Key) : Event Key → Prop
  | .manager e => n.manager.Settled order e
  | _ => True

instance (n : Network Key) : ∀ e, Decidable (n.Settled order e)
  | .manager e => inferInstanceAs (Decidable (n.manager.Settled order e))
  | .contractor _ _ | .toManager _ _ | .toContractor _ _ => inferInstanceAs (Decidable True)

end Network

/-! ## A contractor -/

namespace AgencyContractor

/-- No timeout sets the state `acknowledged`. -/
def Timed (c : AgencyContractor) : Prop :=
  ∀ t, c.timeout = some t → t.state ≠ some .acknowledged

/-- An entry that is not the acknowledgement. -/
def Unacknowledged (e : Entry ContractState ContractorCallback ToManager FromManager) : Prop :=
  e ≠ .entered .acknowledged

theorem Timed.of_timeout {c c' : AgencyContractor} (h : Timed c)
    (ht : c'.timeout = none ∨ c'.timeout = c.timeout) : Timed c' := by
  intro t htime
  obtain ht | ht := ht
  · rw [ht] at htime
    cases htime
  · exact h t (ht ▸ htime)

theorem Timed.finalize {c : AgencyContractor} (h : Timed c) : Timed c.finalize := by
  apply h.of_timeout
  unfold Medium.finalize
  split
  · exact .inr rfl
  · exact .inl rfl

theorem Timed.call {c : AgencyContractor} (h : Timed c) (method : Method ContractorCallback Empty)
    (ensure : Option ContractState) (terminates : Bool) :
    Timed (c.callAgentSide method ensure terminates) :=
  h.of_timeout (.inr Medium.callAgentSide_timeout)

theorem Timed.setState {c : AgencyContractor} (h : Timed c) (st : ContractState) :
    Timed (c.setState st) := h.of_timeout (.inr Medium.setState_timeout)

theorem timed_setTimeout (c : AgencyContractor) {st : ContractState} (hst : st ≠ .acknowledged)
    (callback : Method ContractorCallback Empty) : Timed (c.setTimeout (some st) callback) := by
  intro t ht he
  obtain rfl := Option.some.inj ht
  exact hst (Option.some.inj he)

theorem timed_message {c : AgencyContractor} (h : Timed c) (msg : FromManager) :
    Timed (c.onMessage msg) := by
  have hrec : Timed (c.record [.received msg]) := h
  unfold onMessage
  dsimp only
  generalize c.record [.received msg] = c at hrec
  cases hhandler : handler msg c.state with
  | none => exact hrec
  | some after =>
    obtain ⟨after, handle⟩ := after
    dsimp only
    unfold handler at hhandler
    split at hhandler <;> cases hhandler
    · exact (timed_setTimeout _ (by decide) _).call _ _ _
    · exact (hrec.setState _).call _ _ _
    · exact (timed_setTimeout _ (by decide) _).call _ _ _
    · exact (hrec.setState _).call _ _ _
    · exact (hrec.setState _).call _ _ _
    · exact (hrec.setState _).call _ _ _

theorem grows_message (c : AgencyContractor) {msg : FromManager}
    (hmsg : msg ≠ .of .acknowledgement) : c.Grows Unacknowledged (c.onMessage msg) := by
  have hrec : c.Grows Unacknowledged (c.record [.received msg]) :=
    Medium.grows_record (by simp [Unacknowledged])
  unfold onMessage
  dsimp only
  generalize c.record [.received msg] = c' at hrec
  cases hhandler : handler msg c'.state with
  | none => exact hrec
  | some after =>
    have hset : ∀ st, st ≠ .acknowledged → c.Grows Unacknowledged (c'.setState st) :=
      fun st hst => hrec.trans (Medium.grows_setState (by simpa [Unacknowledged] using hst))
    obtain ⟨after, handle⟩ := after
    dsimp only
    unfold handler at hhandler
    split at hhandler <;> cases hhandler
    · exact (hset _ (by decide)).trans (.of_log Medium.callAgentSide_log)
    · exact (hset _ (by decide)).trans (.of_log Medium.callAgentSide_log)
    · exact (hset _ (by decide)).trans (.of_log Medium.callAgentSide_log)
    · exact (hset _ (by decide)).trans (.of_log Medium.callAgentSide_log)
    · exact (hset _ (by decide)).trans (.of_log Medium.callAgentSide_log)
    · exact absurd rfl hmsg

/-- Only an acknowledgement acknowledges a contractor. -/
theorem step_acks {c c' : AgencyContractor} {e : Event} (h : Timed c)
    (he : ∀ msg, e ≠ .message msg) (hstep : step c e = some c') :
    Timed c' ∧ c.Grows Unacknowledged c' := by
  have hsay : ∀ st msg, st ≠ .acknowledged →
      c.Grows Unacknowledged ((c.setState st).record [.sent msg]) := by
    intro st msg hst
    have hset : c.Grows Unacknowledged (c.setState st) :=
      Medium.grows_setState (by simpa [Unacknowledged] using hst)
    exact hset.trans (Medium.grows_record (by simp [Unacknowledged]))
  have hleave : ∀ st msg, st ≠ .acknowledged →
      Timed ((c.setState st).record [.sent msg]).finalize ∧
        c.Grows Unacknowledged ((c.setState st).record [.sent msg]).finalize := by
    intro st msg hst
    have htimed : Timed ((c.setState st).record [.sent msg]) := h.setState st
    exact ⟨htimed.finalize, (hsay st msg hst).trans (.of_log Medium.finalize_log)⟩
  cases e with
  | bid =>
    obtain rfl := Option.some.inj hstep
    unfold bid
    split
    · exact ⟨timed_setTimeout _ (by decide) _, (hsay _ _ (by decide)).trans (.of_log rfl)⟩
    · exact ⟨h, .of_log rfl⟩
  | handover =>
    obtain rfl := Option.some.inj hstep
    unfold handover
    split
    · exact hleave _ _ (by decide)
    · exact ⟨h, .of_log rfl⟩
  | refuse =>
    obtain rfl := Option.some.inj hstep
    unfold refuse
    split
    · exact hleave _ _ (by decide)
    · exact ⟨h, .of_log rfl⟩
  | defect =>
    obtain rfl := Option.some.inj hstep
    unfold defect
    split
    · exact hleave _ _ (by decide)
    · exact ⟨h, .of_log rfl⟩
  | complete =>
    obtain rfl := Option.some.inj hstep
    unfold complete
    split
    · exact ⟨timed_setTimeout _ (by decide) _, (hsay _ _ (by decide)).trans (.of_log rfl)⟩
    · exact ⟨h, .of_log rfl⟩
  | message msg => exact absurd rfl (he msg)
  | fire =>
    refine ⟨?_, Medium.grows_fire (by simp [Unacknowledged]) (fun t ht st hst => ?_) hstep⟩
    · obtain ⟨t, -, ⟨-, rfl⟩ | ⟨st, -, rfl⟩⟩ := Medium.fire_cases hstep
      · exact h.of_timeout (.inl Medium.callAgentSide_timeout)
      · refine h.of_timeout (.inl ?_)
        rw [Medium.callAgentSide_timeout, Medium.setState_timeout]
        rfl
    · have hne := h t ht
      rw [hst] at hne
      simpa [Unacknowledged] using hne
  | start job =>
    refine ⟨?_, Medium.grows_start (by simp [Unacknowledged]) (fun method => nomatch method) hstep⟩
    obtain ⟨-, -, ⟨-, ⟨_, -, rfl⟩ | ⟨_, -, rfl⟩ | ⟨method, -, -⟩⟩ | rfl⟩ := Medium.start_cases hstep
    · exact h
    · exact h.of_timeout (.inr Medium.callAgentSide_timeout)
    · cases method
    · split
      · exact Timed.finalize (c := c.drop job) h
      · exact h
  | finish job failed =>
    refine ⟨?_, Medium.grows_finish (by simp [Unacknowledged]) hstep⟩
    obtain ⟨-, -, rfl | rfl⟩ := Medium.finish_cases hstep
    · exact (Timed.setState (c := c.drop job) h .wtf).finalize
    · split
      · exact Timed.finalize (c := c.drop job) h
      · exact h

end AgencyContractor

/-! ## Runs -/

namespace Network
variable {Key : Type} [DecidableEq Key] (order : HashOrder Key)

/-- The manager agrees with what it told, and has acknowledged all that are acknowledged. -/
structure Sound (n : Network Key) : Prop where
  deals : Deals n.manager.contractors n.manager.medium
  timed : ∀ key, (n.contractors key).Timed
  told : ∀ key, .entered .acknowledged ∈ (n.contractors key).log →
    .sent (.to key .acknowledgement) ∈ n.manager.medium.log

theorem start_sound (expectedBids : Option Nat) : (start expectedBids : Network Key).Sound := by
  refine ⟨AgencyManager.start_deals expectedBids, fun key t ht => ?_, fun key hin => ?_⟩
  · cases ht
  · simp [start, AgencyContractor.initiated] at hin

/-- An event of the manager, of whatever it is about. -/
theorem Sound.manager {n : Network Key} (h : n.Sound) {e : AgencyManager.Event Key}
    {m : AgencyManager Key} (helect : n.manager.Electing e) (hsettled : n.manager.Settled order e)
    (hstep : n.manager.step order e = some m) : Sound { n with manager := m } where
  deals := AgencyManager.step_deals order h.deals helect hsettled hstep
  timed := h.timed
  told key hin := AgencyManager.step_subset order h.deals hstep (h.told key hin)

theorem Sound.contractor {n : Network Key} (h : n.Sound) {key : Key} {c : AgencyContractor}
    (htimed : c.Timed) (hacks : .entered .acknowledged ∈ c.log →
      .sent (.to key .acknowledgement) ∈ n.manager.medium.log) :
    Sound { n with contractors := Function.update n.contractors key c } := by
  refine ⟨h.deals, fun k => ?_, fun k hin => ?_⟩
  · by_cases hk : k = key
    · subst hk
      simpa using htimed
    · simpa [hk] using h.timed k
  · by_cases hk : k = key
    · subst hk
      exact hacks (by simpa using hin)
    · exact h.told k (by simpa [hk] using hin)

theorem step_manager {n n' : Network Key} {e : AgencyManager.Event Key}
    (hstep : step order n (.manager e) = some n') :
    ∃ m, n.manager.step order e = some m ∧ n' = { n with manager := m } := by
  cases e with
  | message key msg => cases hstep
  | _ =>
    dsimp only [step] at hstep
    obtain ⟨m, hm, he⟩ := Option.map_eq_some_iff.mp hstep
    exact ⟨m, hm, he.symm⟩

theorem step_contractor {n n' : Network Key} {key : Key} {e : AgencyContractor.Event}
    (hstep : step order n (.contractor key e) = some n') :
    ∃ c, (∀ msg, e ≠ .message msg) ∧ (n.contractors key).step e = some c ∧
      n' = { n with contractors := Function.update n.contractors key c } := by
  cases e with
  | message msg => cases hstep
  | handover => cases hstep
  | _ =>
    dsimp only [step] at hstep
    obtain ⟨c, hc, he⟩ := Option.map_eq_some_iff.mp hstep
    exact ⟨c, by simp, hc, he.symm⟩

theorem step_sound {n n' : Network Key} {e : Event Key} (h : n.Sound) (helect : n.Electing e)
    (hsettled : n.Settled order e) (hstep : step order n e = some n') : n'.Sound := by
  cases e with
  | manager e =>
    obtain ⟨m, hm, rfl⟩ := step_manager order hstep
    exact h.manager order helect hsettled hm
  | contractor key e =>
    obtain ⟨c, he, hc, rfl⟩ := step_contractor order hstep
    obtain ⟨htimed, hgrows⟩ := AgencyContractor.step_acks (h.timed key) he hc
    refine h.contractor htimed fun hin => h.told key ((hgrows.mem_iff ?_).mp hin)
    simp [AgencyContractor.Unacknowledged]
  | toManager key msg =>
    dsimp only [step] at hstep
    split at hstep
    · obtain rfl := Option.some.inj hstep
      exact h.manager order (e := .message key msg) trivial trivial rfl
    · cases hstep
  | toContractor key msg =>
    dsimp only [step] at hstep
    split at hstep
    · rename_i hsent
      obtain rfl := Option.some.inj hstep
      refine h.contractor (AgencyContractor.timed_message (h.timed key) msg) fun hin => ?_
      by_cases hmsg : msg = .of .acknowledgement
      · subst hmsg
        exact hsent
      · have hgrows := AgencyContractor.grows_message (n.contractors key) hmsg
        refine h.told key ((hgrows.mem_iff ?_).mp hin)
        simp [AgencyContractor.Unacknowledged]
    · cases hstep

/-- What a contract says of itself: not both acknowledged and cancelled, acknowledged once
    and only after a report of everybody granted, and acknowledged contractors only with a
    manager that has completed. -/
structure AllOrNothing (n : Network Key) : Prop where
  exclusive : ∀ key key', .sent (.to key .acknowledgement) ∈ n.manager.medium.log →
    .sent (.to key' .cancellation) ∉ n.manager.medium.log
  reported : ∀ key', .sent (.to key' .grant) ∈ n.manager.medium.log →
    Preceded (fun e => ∃ key, e = .sent (.to key .acknowledgement))
      (· = .received (key', .finalReport)) n.manager.medium.log
  once : ∀ key, n.manager.medium.log.count (.sent (.to key .acknowledgement)) ≤ 1
  completed : ∀ key, .entered .acknowledged ∈ (n.contractors key).log →
    .entered .completed ∈ n.manager.medium.log

theorem Sound.allOrNothing {n : Network Key} (h : n.Sound) : n.AllOrNothing where
  exclusive := h.deals.exclusive
  reported := h.deals.final
  once key := by
    rw [h.deals.once key]
    split <;> decide
  completed key hin := (h.deals.acknowledged key (h.told key hin)).2.1

/-- All or nothing, in every run in which no bid handler ends with a bid left open by a
    grant. -/
theorem all_or_nothing (expectedBids : Option Nat) (es : List (Event Key)) (n : Network Key)
    (hrun : Run (Guarded (fun n e => Electing n e ∧ Settled order n e) (Defined (step order)))
      (start expectedBids) es n) : n.AllOrNothing := by
  have hsound : n.Sound :=
    hrun.preserves (fun _ _ _ h hstep => step_sound order h hstep.1.1 hstep.1.2 hstep.2)
      (start_sound expectedBids)
  exact hsound.allOrNothing

/-- One bid, granted, reported and acknowledged. -/
def acknowledgedRun : List (Event Nat) :=
  [.manager .announce, .toContractor 1 .announcement, .contractor 1 .bid, .toManager 1 .bid,
    .manager .bidHandled, .manager (.grant [1]), .toContractor 1 (.of .grant),
    .contractor 1 .complete, .toManager 1 .finalReport, .toContractor 1 (.of .acknowledgement)]

theorem all_or_nothing_acknowledged :
    ∃ n, acknowledgedRun.foldlM (checked (fun n e => Electing n e ∧ Settled .stored n e)
        (step .stored)) (start (some 1)) = some n ∧
      .entered .acknowledged ∈ (n.contractors 1).log ∧
      .entered .completed ∈ n.manager.medium.log := by
  obtain ⟨n, hn, hin⟩ : ∃ n, acknowledgedRun.foldlM
        (checked (fun n e => Electing n e ∧ Settled .stored n e) (step .stored))
        (start (some 1)) = some n ∧
      decide (.entered .acknowledged ∈ (n.contractors 1).log) = true := by
    apply Option.map_eq_some_iff.mp
    decide +kernel
  have hacknowledged := of_decide_eq_true hin
  have hall := all_or_nothing .stored (some 1) acknowledgedRun n (run_checked hn)
  exact ⟨n, hn, hacknowledged, hall.completed 1 hacknowledged⟩

/-- Two bids. The grant of the first one also names a bid of nobody known, and fails before
    it comes to the second, which stays open. The first contractor reports and is
    acknowledged; then a bid handler ends, the contract is closed again, the second bid is
    granted and cancelled. -/
def halfGrantedRun : List (Event Nat) :=
  [.manager .announce, .toContractor 1 .announcement, .toContractor 2 .announcement,
    .contractor 1 .bid, .contractor 2 .bid, .toManager 1 .bid, .toManager 2 .bid,
    .manager (.grant [1, 3]), .toContractor 1 (.of .grant), .contractor 1 .complete,
    .toManager 1 .finalReport, .manager .bidHandled, .manager (.grant [2]), .manager .cancel]

theorem half_granted :
    ¬ ∀ (order : HashOrder Nat) (expectedBids : Option Nat) (es : List (Event Nat))
        (n : Network Nat), Run (Guarded Electing (Defined (step order))) (start expectedBids) es n →
      n.AllOrNothing := by
  intro h
  obtain ⟨n, hn, hin⟩ : ∃ n, halfGrantedRun.foldlM (checked Electing (step .stored))
        (start (some 2)) = some n ∧
      decide (.sent (.to 1 .acknowledgement) ∈ n.manager.medium.log ∧
        .sent (.to 2 .cancellation) ∈ n.manager.medium.log) = true := by
    apply Option.map_eq_some_iff.mp
    decide +kernel
  obtain ⟨hacknowledged, hcancelled⟩ := of_decide_eq_true hin
  have hall := h .stored (some 2) halfGrantedRun n (run_checked hn)
  exact hall.exclusive 1 2 hacknowledged hcancelled

/-! ## Grants of bids that were received -/

/-- The agent's side grants only bids that were received. -/
def Known (n : Network Key) : Event Key → Prop
  | .manager e => n.manager.Known e
  | _ => True

/-- Where grants name bids that were received, nothing is left half granted. -/
theorem all_or_nothing_of_known (expectedBids : Option Nat) (es : List (Event Key))
    (n : Network Key)
    (hrun : Run (Guarded (fun n e => Electing n e ∧ Known n e) (Defined (step order)))
      (start expectedBids) es n) : n.AllOrNothing := by
  have hone : ∀ n e n', (n.Sound ∧ n.manager.Tidy) →
      Guarded (fun n e => Electing n e ∧ Known n e) (Defined (step order)) n e n' →
      n'.Sound ∧ n'.manager.Tidy := by
    intro n e n' h hstep
    obtain ⟨⟨helect, hknown⟩, hstep⟩ := hstep
    have hsettled : n.Settled order e := by
      cases e with
      | manager e => exact h.2.settled order e
      | _ => trivial
    refine ⟨step_sound order h.1 helect hsettled hstep, ?_⟩
    cases e with
    | manager e =>
      obtain ⟨m, hm, rfl⟩ := step_manager order hstep
      exact AgencyManager.step_tidy order h.1.deals h.2 hknown hm
    | contractor key e =>
      obtain ⟨c, -, -, rfl⟩ := step_contractor order hstep
      exact h.2
    | toManager key msg =>
      dsimp only [Defined, step] at hstep
      split at hstep
      · obtain rfl := Option.some.inj hstep
        exact AgencyManager.step_tidy order (e := .message key msg) h.1.deals h.2 trivial rfl
      · cases hstep
    | toContractor key msg =>
      dsimp only [Defined, step] at hstep
      split at hstep
      · obtain rfl := Option.some.inj hstep
        exact h.2
      · cases hstep
  have htidy : (start expectedBids : Network Key).manager.Tidy := by
    intro hin
    simp [start, AgencyManager.start] at hin
  exact (hrun.preserves hone ⟨start_sound expectedBids, htidy⟩).1.allOrNothing

instance (m : AgencyManager Key) : ∀ e, Decidable (m.Known e)
  | .grant keys => inferInstanceAs (Decidable (∀ key ∈ keys, key ∈ m.contractors))
  | .announce | .reject _ | .elect _ | .cancel | .terminate | .bidHandled | .completedHandled |
    .message _ _ | .fire | .start _ | .finish _ _ => inferInstanceAs (Decidable True)

instance (n : Network Key) : ∀ e, Decidable (n.Known e)
  | .manager e => inferInstanceAs (Decidable (n.manager.Known e))
  | .contractor _ _ | .toManager _ _ | .toContractor _ _ => inferInstanceAs (Decidable True)

theorem all_or_nothing_of_known_acknowledged :
    ∃ n, acknowledgedRun.foldlM (checked (fun n e => Electing n e ∧ Known n e) (step .stored))
        (start (some 1)) = some n ∧ n.AllOrNothing := by
  obtain ⟨n, hn⟩ := Option.isSome_iff_exists.mp (show (acknowledgedRun.foldlM
    (checked (fun n e => Electing n e ∧ Known n e) (step .stored)) (start (some 1))).isSome by
      decide +kernel)
  exact ⟨n, hn, all_or_nothing_of_known .stored (some 1) acknowledgedRun n (run_checked hn)⟩

end Network
end Feat.Agencies.Contracts
