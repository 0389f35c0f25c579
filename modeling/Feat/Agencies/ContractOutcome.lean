import Feat.Agencies.ManagerForward
import Feat.Agencies.Outcome
import Feat.Agencies.Contractor

/- Each side of a contract has one outcome.

   A terminal callback runs as a job, and only `finalize`, when that job is done, cancels
   the timeout armed for the phase before. Until then the timeout fires into the outcome:
   it sets another state and calls another terminal callback. `Undisturbed` excludes that
   on either side, `one_outcome` is the result about the runs it leaves, and
   `rejected_bid_expires` a run it does not. -/
namespace Feat.Agencies.Contracts
open Hash Transition Traces

/-! ## The manager -/

namespace AgencyManager

/-- The terminal callbacks of a manager. -/
def isOutcome : ManagerCallback → Bool
  | .expired | .cancelled | .aborted | .completed => true
  | _ => false

def leadsToOutcome : Method ManagerCallback ManagerMethod → Bool
  | .agent callback | .runAndTerminate callback => isOutcome callback
  | .own .onGrantExpire => true
  | .own _ => false

variable {Key : Type}

/-- No terminal callback is queued or under way. -/
def Open (m : ManagerMedium Key) : Prop := ∀ job ∈ m.jobs, leadsToOutcome job.method = false

instance (m : ManagerMedium Key) : Decidable (Open m) := inferInstanceAs (Decidable (∀ _ ∈ _, _))

/-- The outcomes called or to be called. -/
def outcomes (m : ManagerMedium Key) : Nat := m.calls isOutcome leadsToOutcome

/-- At most one outcome, and none of a contract that is live, or cancelled with nobody to
    cancel. -/
structure Outcome (m : ManagerMedium Key) : Prop where
  outcome : OneOutcome isOutcome leadsToOutcome m
  live : m.state.Live → outcomes m = 0
  untold : m.state = .cancelled → (∀ k, .sent (.to k .cancellation) ∉ m.log) → outcomes m = 0

/-- A contract that is over and was not cancelled. -/
theorem Outcome.ended {m : ManagerMedium Key} (h : OneOutcome isOutcome leadsToOutcome m)
    (hs : ¬ m.state.Live) (hc : m.state ≠ .cancelled) : Outcome m :=
  ⟨h, fun hl => absurd hl hs, fun he => absurd he hc⟩

/-- What has no outcome at all. -/
theorem Outcome.none {m : ManagerMedium Key} (h : OneOutcome isOutcome leadsToOutcome m)
    (hzero : outcomes m = 0) : Outcome m := ⟨h, fun _ => hzero, fun _ _ => hzero⟩

theorem outcomes_record {m : ManagerMedium Key} {es : List (ManagerEntry Key)}
    (h : ∀ callback, .called callback ∈ es → isOutcome callback = false) :
    outcomes (m.record es) = outcomes m := Medium.calls_record es h

theorem outcomes_setState (m : ManagerMedium Key) (st : ContractState) :
    outcomes (m.setState st) = outcomes m := Medium.calls_setState st

theorem idle_callback {es : List (ManagerEntry Key)} (h : ∀ e ∈ es, Idle e)
    (callback : ManagerCallback) (hm : .called callback ∈ es) : isOutcome callback = false := by
  have hidle := h _ hm
  cases callback <;> first | rfl | exact hidle.elim

theorem idle_timed {es : List (ManagerEntry Key)} (h : ∀ e ∈ es, Idle e) :
    ∀ e ∈ es, e ≠ .timedOut := by
  intro e he hne
  rw [hne] at he
  exact h _ he

/-- The state, the calls and the cancellations stay as they are. -/
theorem Outcome.keep {m m' : ManagerMedium Key} (h : Outcome m)
    (hout : OneOutcome isOutcome leadsToOutcome m') (hs : m'.state = m.state)
    (hle : outcomes m' ≤ outcomes m) (hlog : ∀ e ∈ m.log, e ∈ m'.log) : Outcome m' := by
  refine ⟨hout, fun hl => ?_, fun hc hno => ?_⟩
  · have hzero := h.live (hs ▸ hl)
    omega
  · have hzero := h.untold (hs ▸ hc) fun k hk => hno k (hlog _ hk)
    omega

/-- Closing the announce period: it goes on, or the contract has expired. -/
theorem outcome_close {m : ManagerMedium Key} (h : OneOutcome isOutcome leadsToOutcome m)
    (hzero : outcomes m = 0) (hf : m.finalized = false) (ht : m.timeout = none) (bids : Nat) :
    Outcome (gotoClosedOrExpired bids m) := by
  unfold gotoClosedOrExpired
  split
  · unfold closeAnnouncePeriod
    have hset := (h.setTimeout hzero hf (some .expired) (.runAndTerminate .expired)).setState
      ContractState.closed
    refine .none (hset.call rfl _ _) ?_
    have hcall := Medium.calls_callAgentSide (p := isOutcome) (q := leadsToOutcome)
      (m := (m.setTimeout (some .expired) (.runAndTerminate .expired)).setState .closed)
      (.agent .closed) (some .closed) false
    have hstate := outcomes_setState (m.setTimeout (some .expired) (.runAndTerminate .expired))
      .closed
    refine Nat.le_zero.mp (hcall.trans ?_)
    exact (hstate.trans hzero).le
  · refine .ended ((h.setState .expired).callOutcome ?_ _ _ _ (.inl ?_)) ?_ ?_
    · rw [Medium.calls_setState]
      exact hzero
    · rw [Medium.setState_timeout, ht]
    · simp [Medium.runAndTerminate, ContractState.Live]
    · simp [Medium.runAndTerminate]

theorem outcome_start {m m' : ManagerMedium Key} {bids : Nat} {job : ManagerJob} (hp : Phased m)
    (h : Outcome m) (hstart : m.start (own bids) job = some m') : Outcome m' := by
  have hout : OneOutcome isOutcome leadsToOutcome m' := by
    refine h.outcome.start (fun callback => ⟨rfl, rfl⟩) (fun method hm hdrop hzero => ?_) hstart
    obtain ⟨hjob, hqueued, -⟩ := Medium.start_cases hstart
    cases method with
    | finalize => exact hdrop.finalize
    | onAnnounceExpire =>
      dsimp only [own]
      split
      · rename_i ha
        have hlive : m.state.Live := .inr (.inl ha)
        have hle : outcomes (m.drop job) ≤ outcomes m := Medium.calls_drop_le
        have hnone := h.live hlive
        refine (outcome_close hdrop (by omega) (hp.live hlive).1 ?_ bids).outcome
        exact (hp.announceExpiring job hjob hm).2 ha
      · exact hdrop
    | onGrantExpire =>
      refine (hdrop.setState .aborted).callOutcome ?_ _ _ _ (.inr ⟨rfl, rfl⟩)
      rw [Medium.calls_setState]
      apply hzero
      rw [hm]
      rfl
  obtain ⟨hjob, hqueued, ⟨-, ⟨callback, hm, rfl⟩ | ⟨callback, hm, rfl⟩ | ⟨method, hm, rfl⟩⟩ |
    rfl⟩ := Medium.start_cases hstart
  · refine h.keep hout rfl (Medium.calls_started hjob hqueued hm rfl).le fun e he => ?_
    exact List.mem_append_left _ he
  · have hdrop := Medium.calls_drop (p := isOutcome) (q := leadsToOutcome) hjob hqueued
    rw [hm] at hdrop
    refine h.keep hout (by simp [Medium.runAndTerminate]) ?_ (by simp [Medium.runAndTerminate])
    exact (Medium.calls_callAgentSide (.agent callback) none true).trans hdrop.le
  · have hle : outcomes (m.drop job) ≤ outcomes m := Medium.calls_drop_le
    cases method with
    | finalize =>
      refine h.keep hout (by simp [own]) (Medium.calls_finalize.trans hle) (by simp [own])
    | onAnnounceExpire =>
      dsimp only [own] at hout ⊢
      split
      · rename_i ha
        have hlive : m.state.Live := .inr (.inl ha)
        have hnone := h.live hlive
        have hdrop := (h.outcome.drop hjob hqueued).1
        refine outcome_close hdrop (by omega) (hp.live hlive).1 ?_ bids
        exact (hp.announceExpiring job hjob hm).2 ha
      · rename_i ha
        rw [if_neg ha] at hout
        exact h.keep hout rfl hle fun e he => he
    | onGrantExpire =>
      refine .ended hout ?_ ?_
      · simp [own, Medium.runAndTerminate, ContractState.Live]
      · simp [own, Medium.runAndTerminate]
  · have hle : outcomes (m.drop job) ≤ outcomes m := Medium.calls_drop_le
    by_cases hterm : job.terminates = true
    · rw [if_pos hterm] at hout ⊢
      exact h.keep hout (by simp) (Medium.calls_finalize.trans hle) (by simp)
    · rw [if_neg hterm] at hout ⊢
      exact h.keep hout rfl hle fun e he => he

theorem outcome_cancel {m : ManagerMedium Key} (h : Outcome m) {pre post : List (ManagerEntry Key)}
    (hpre : ∀ e ∈ pre, Idle e) (hpost : ∀ e ∈ post, ∃ k, e = .sent (.to k .cancellation)) :
    OneOutcome isOutcome leadsToOutcome (((m.record pre).setState .cancelled).record post) ∧
      outcomes (((m.record pre).setState .cancelled).record post) = outcomes m := by
  have hnone : ∀ callback, .called callback ∈ post → isOutcome callback = false := by
    intro callback hm
    obtain ⟨k, hk⟩ := hpost _ hm
    cases hk
  have hrec := h.outcome.record (idle_callback hpre) (idle_timed hpre)
  refine ⟨(hrec.setState .cancelled).record hnone fun e he hne => ?_, ?_⟩
  · obtain ⟨k, hk⟩ := hpost e he
    rw [hk] at hne
    cases hne
  · calc outcomes (((m.record pre).setState .cancelled).record post)
        = outcomes ((m.record pre).setState .cancelled) := outcomes_record hnone
      _ = outcomes (m.record pre) := outcomes_setState _ _
      _ = outcomes m := outcomes_record (idle_callback hpre)

theorem turn_outcome {m m' : ManagerMedium Key} (hp : Phased m) (h : Outcome m)
    (hturn : Turn Open m m') : Outcome m' := by
  cases hturn with
  | idle hes =>
    refine h.keep (h.outcome.record (idle_callback hes) (idle_timed hes)) rfl
      (outcomes_record (idle_callback hes)).le fun e he => ?_
    exact List.mem_append_left _ he
  | @announce es hs hes =>
    have hlive : m.state.Live := .inl hs
    have hset := (h.outcome.setState .announced).record (idle_callback hes) (idle_timed hes)
    have hzero : outcomes ((m.setState .announced).record es) = 0 := by
      rw [outcomes_record (idle_callback hes), outcomes_setState, h.live hlive]
    refine .none (hset.setTimeout hzero ?_ _ _) hzero
    rw [Medium.record_finalized, Medium.setState_finalized, (hp.live hlive).1]
  | @grant es hs hes =>
    have hlive := ContractState.live_of_open hs
    have hcalled : ∀ callback, .called callback ∈ es → isOutcome callback = false := by
      intro callback hm
      obtain hidle | ⟨k, hk⟩ := hes _ hm
      · cases callback <;> first | rfl | exact hidle.elim
      · cases hk
    have htimed : ∀ e ∈ es, e ≠ .timedOut := by
      intro e he hne
      rw [hne] at he
      obtain hidle | ⟨k, hk⟩ := hes _ he
      · exact hidle
      · cases hk
    have hzero : outcomes (m.setState .granted) = 0 := by
      rw [outcomes_setState, h.live hlive]
    have hset := (h.outcome.setState .granted).setTimeout hzero
      (by rw [Medium.setState_finalized, (hp.live hlive).1]) (some .aborted) (.own .onGrantExpire)
    refine .none (hset.record hcalled htimed) ?_
    exact (outcomes_record hcalled).trans hzero
  | cancel hs hpre hpost =>
    obtain ⟨hout, hcount⟩ := outcome_cancel h hpre hpost
    refine ⟨hout, fun hl => ?_, fun _ hno => ?_⟩
    · simp [ContractState.Live] at hl
    · rw [hcount]
      obtain hs | hs := hs
      · exact h.live (.inr (.inr (.inr hs)))
      · refine h.untold hs fun k hk => hno k (List.mem_append_left _ ?_)
        exact (Medium.quiet_setState _).mem_sent.mpr (List.mem_append_left _ hk)
  | @cancelTold pre post hs hpre hpost htold hfirst =>
    obtain ⟨hout, hcount⟩ := outcome_cancel h hpre hpost
    have hzero : outcomes m = 0 := by
      obtain hs | hs := hs
      · exact h.live (.inr (.inr (.inr hs)))
      · exact h.untold hs hfirst
    refine ⟨hout.callOutcome (hcount.trans hzero) _ _ _ (.inr ⟨rfl, rfl⟩), fun hl => ?_,
      fun _ hno => ?_⟩
    · simp [Medium.runAndTerminate, ContractState.Live] at hl
    · obtain ⟨e, he⟩ := List.exists_mem_of_ne_nil post htold
      obtain ⟨k, rfl⟩ := hpost e he
      refine absurd ?_ (hno k)
      simp [Medium.runAndTerminate, he]
  | terminate hs hes =>
    have hrec := h.outcome.record (idle_callback hes) (idle_timed hes)
    exact .ended (hrec.setState .terminated).finalize (by simp [ContractState.Live]) (by simp)
  | @close es bids hs hes =>
    have hlive : m.state.Live := .inr (.inl hs)
    have hrec := h.outcome.record (idle_callback hes) (idle_timed hes)
    refine outcome_close hrec.cancelTimeout ?_ (hp.live hlive).1 rfl bids
    exact (outcomes_record (idle_callback hes)).trans (h.live hlive)
  | @complete pre post hs hpre hpost =>
    have hlive : m.state.Live := .inr (.inr (.inr hs))
    have hrec := h.outcome.record (idle_callback hpre) (idle_timed hpre)
    have hdone := (hrec.setState .completed).cancelTimeout
    have hsent := hdone.record (idle_callback hpost) (idle_timed hpost)
    refine .ended (hsent.called ?_ rfl .completed) (by simp [ContractState.Live]) (by simp)
    calc outcomes (((m.record pre).setState .completed).cancelTimeout.record post)
        = outcomes ((m.record pre).setState .completed) := outcomes_record (idle_callback hpost)
      _ = outcomes (m.record pre) := outcomes_setState _ _
      _ = outcomes m := outcomes_record (idle_callback hpre)
      _ = 0 := h.live hlive
  | completed hs =>
    exact h.keep h.outcome.finalize (by simp) Medium.calls_finalize (by simp)
  | fire hopen hfire =>
    have hout := h.outcome.fire hopen hfire
    obtain ⟨t, ht, hcases⟩ := Medium.fire_cases hfire
    have hzero := h.outcome.pending hopen (by rw [ht]; simp)
    obtain ⟨rfl, -⟩ | ⟨rfl, -⟩ | ⟨rfl, -⟩ | ⟨rfl, -⟩ := hp.timeout t ht
    · obtain ⟨hn, -⟩ | ⟨st, hst, rfl⟩ := hcases
      · cases hn
      · cases hst
        exact .ended hout (by simp [ContractState.Live]) (by simp)
    · obtain ⟨-, rfl⟩ | ⟨st, hst, -⟩ := hcases
      · refine .none hout (Nat.le_zero.mp ?_)
        have hcall := Medium.calls_callAgentSide (p := isOutcome) (q := leadsToOutcome)
          (m := m.cancelTimeout.record [.timedOut]) (.own .onAnnounceExpire) none false
        have hspent : outcomes (m.cancelTimeout.record [.timedOut]) = outcomes m :=
          outcomes_record (by simp)
        exact hcall.trans (hspent.trans hzero).le
      · cases hst
    · obtain ⟨hn, -⟩ | ⟨st, hst, rfl⟩ := hcases
      · cases hn
      · cases hst
        exact .ended hout (by simp [ContractState.Live]) (by simp)
    · obtain ⟨hn, -⟩ | ⟨st, hst, rfl⟩ := hcases
      · cases hn
      · cases hst
        exact .ended hout (by simp [ContractState.Live]) (by simp)
  | start hstart => exact outcome_start hp h hstart
  | @finish m' job failed hfinish =>
    have hout := h.outcome.finish hfinish
    have hle : outcomes (m.drop job) ≤ outcomes m := Medium.calls_drop_le
    obtain ⟨-, -, rfl | rfl⟩ := Medium.finish_cases hfinish
    · exact .ended hout (by simp [ContractState.Live]) (by simp)
    · by_cases hterm : job.terminates = true
      · rw [if_pos hterm] at hout ⊢
        exact h.keep hout (by simp) (Medium.calls_finalize.trans hle) (by simp)
      · rw [if_neg hterm] at hout ⊢
        exact h.keep hout rfl hle fun e he => he

/-- The condition on an event: the timeout fires only while no terminal callback is queued
    or under way, and the announce period is closed in time. -/
def Undisturbed [DecidableEq Key] (m : AgencyManager Key) : Event Key → Prop
  | .fire => Open m.medium
  | e => m.Timely e

instance [DecidableEq Key] (m : AgencyManager Key) : ∀ e, Decidable (m.Undisturbed e)
  | .fire => inferInstanceAs (Decidable (Open _))
  | .bidHandled => inferInstanceAs (Decidable (m.Timely .bidHandled))
  | .announce | .reject _ | .grant _ | .elect _ | .cancel | .terminate | .message _ _
  | .completedHandled | .start _ | .finish _ _ => inferInstanceAs (Decidable True)

theorem Undisturbed.timely [DecidableEq Key] {m : AgencyManager Key} {e : Event Key}
    (h : m.Undisturbed e) : m.Timely e := by
  cases e with
  | fire => trivial
  | _ => exact h

theorem start_outcome [DecidableEq Key] (expected : Option Nat) :
    Outcome (start expected : AgencyManager Key).medium := by
  refine .none ⟨Nat.zero_le 1, fun hne => absurd rfl hne, ?_, fun hf => ?_⟩ rfl
  · exact List.pairwise_singleton _ _
  · cases hf

theorem step_outcome [DecidableEq Key] (order : HashOrder Key) {m m' : AgencyManager Key}
    {e : Event Key} (h : m.Regular ∧ Outcome m.medium) (hcond : m.Undisturbed e)
    (hstep : step order m e = some m') : m'.Regular ∧ Outcome m'.medium := by
  refine ⟨step_regular order h.1 hcond.timely hstep, ?_⟩
  refine turn_outcome h.1.phased h.2 (step_turn order h.1.attended hcond.timely ?_ hstep)
  intro he
  rw [he] at hcond
  exact hcond

end AgencyManager

/-! ## A contractor -/

namespace AgencyContractor

/-- The terminal callbacks of a contractor. -/
def isOutcome : ContractorCallback → Bool
  | .announceExpired | .bidExpired | .rejected | .cancelled | .aborted | .acknowledged => true
  | _ => false

def leadsToOutcome : Method ContractorCallback Empty → Bool
  | .agent callback | .runAndTerminate callback => isOutcome callback

/-- No terminal callback is queued or under way. -/
def Open (m : AgencyContractor) : Prop := ∀ job ∈ m.jobs, leadsToOutcome job.method = false

instance (m : AgencyContractor) : Decidable (Open m) := inferInstanceAs (Decidable (∀ _ ∈ _, _))

def outcomes (m : AgencyContractor) : Nat := m.calls isOutcome leadsToOutcome

/-- The states of a contractor that an outcome is still to come for. -/
def Active (s : ContractState) : Prop :=
  s = .initiated ∨ s = .announced ∨ s = .bid ∨ s = .granted ∨ s = .completed

instance (s : ContractState) : Decidable (Active s) :=
  inferInstanceAs (Decidable (_ ∨ _ ∨ _ ∨ _ ∨ _))

/-- A call that is not terminal. -/
def Plain (job : ContractorJob) : Prop :=
  job.terminates = false ∧ ∃ callback, job.method = .agent callback ∧ isOutcome callback = false

/-- At most one outcome, and none of an active contractor; a timeout ends the contract. -/
structure Outcome (m : AgencyContractor) : Prop where
  outcome : OneOutcome isOutcome leadsToOutcome m
  active : Active m.state → outcomes m = 0 ∧ m.finalized = false ∧
    ∀ job ∈ m.jobs, Plain job
  expiring : ∀ t, m.timeout = some t → ∃ st, t.state = some st ∧ ¬ Active st

/-- A contractor that is active no more, with the timeout it has or without one. -/
theorem Outcome.ended {m m' : AgencyContractor} (h : Outcome m)
    (hout : OneOutcome isOutcome leadsToOutcome m') (hs : ¬ Active m'.state)
    (ht : m'.timeout = none ∨ m'.timeout = m.timeout) : Outcome m' := by
  refine ⟨hout, fun ha => absurd ha hs, fun t htime => ?_⟩
  obtain ht | ht := ht
  · rw [ht] at htime
    cases htime
  · exact h.expiring t (ht ▸ htime)

/-- What an active contractor does to go on: messages, a new state, a new timeout and
    calls that are not terminal. -/
theorem Outcome.goOn {m : AgencyContractor} (h : Outcome m) (ha : Active m.state)
    {es : List (Entry ContractState ContractorCallback ToManager FromManager)}
    {st end' : ContractState} {callback : Method ContractorCallback Empty} (hend : ¬ Active end')
    (hes : ∀ e ∈ es, (∀ callback, e ≠ .called callback) ∧ e ≠ .timedOut) :
    Outcome (((m.setState st).record es).setTimeout (some end') callback) := by
  obtain ⟨hzero, hf, hjobs⟩ := h.active ha
  have hcalled : ∀ callback, .called callback ∈ es → isOutcome callback = false :=
    fun callback hm => absurd rfl ((hes _ hm).1 callback)
  have hrec := (h.outcome.setState st).record hcalled fun e he => (hes e he).2
  have hcalls : outcomes ((m.setState st).record es) = 0 :=
    calc outcomes ((m.setState st).record es)
        = outcomes (m.setState st) := Medium.calls_record es hcalled
      _ = outcomes m := Medium.calls_setState st
      _ = 0 := hzero
  refine ⟨hrec.setTimeout hcalls (by simpa using hf) _ _, fun _ => ⟨hcalls, by simpa using hf, ?_⟩,
    fun t ht => ?_⟩
  · intro job hjob
    exact hjobs job (by simpa using hjob)
  · obtain rfl := Option.some.inj ht
    exact ⟨end', rfl, hend⟩

theorem Outcome.call {m : AgencyContractor} (h : Outcome m) {callback : ContractorCallback}
    (hcb : isOutcome callback = false) (ensure : Option ContractState) :
    Outcome (m.callAgentSide (.agent callback) ensure false) := by
  have hleads : leadsToOutcome (.agent callback) = false := hcb
  refine ⟨h.outcome.call hleads _ _, fun ha => ?_, fun t ht => ?_⟩
  · rw [Medium.callAgentSide_state] at ha
    obtain ⟨hzero, hf, hjobs⟩ := h.active ha
    refine ⟨?_, by simpa using hf, fun job hjob => ?_⟩
    · have hcalls := Medium.calls_callAgentSide (m := m) (p := isOutcome) (q := leadsToOutcome)
        (.agent callback) ensure false
      rw [hleads] at hcalls
      exact Nat.le_zero.mp (hcalls.trans hzero.le)
    · obtain hjob | rfl := Medium.mem_callAgentSide hjob
      · exact hjobs job hjob
      · exact ⟨rfl, callback, rfl, hcb⟩
  · rw [Medium.callAgentSide_timeout] at ht
    exact h.expiring t ht

/-- An active contractor gets a terminal callback with its last state. -/
theorem Outcome.finish {m : AgencyContractor} (h : Outcome m) (ha : Active m.state)
    {st : ContractState} (hst : ¬ Active st) {callback : ContractorCallback}
    (hcb : isOutcome callback = true) (ensure : Option ContractState) :
    Outcome ((m.setState st).callAgentSide (.agent callback) ensure true) := by
  refine h.ended ((h.outcome.setState st).callOutcome ?_ _ _ _ (.inr ⟨hcb, rfl⟩)) ?_ (.inr ?_)
  · rw [Medium.calls_setState]
    exact (h.active ha).1
  · rwa [Medium.callAgentSide_state, Medium.setState_state]
  · rw [Medium.callAgentSide_timeout, Medium.setState_timeout]

/-- A contractor leaves without an outcome. -/
theorem Outcome.leave {m : AgencyContractor} (h : Outcome m) {st : ContractState}
    (hst : ¬ Active st) (msg : ToManager) :
    Outcome ((m.setState st).record [.sent msg]).finalize := by
  have hrec : OneOutcome isOutcome leadsToOutcome ((m.setState st).record [.sent msg]) :=
    (h.outcome.setState st).record (by simp) (by simp)
  refine h.ended hrec.finalize ?_ (.inl ?_)
  · rwa [Medium.finalize_state, Medium.record_state, Medium.setState_state]
  · exact Medium.finalize_timeout hrec.disarmed

theorem Outcome.received {m : AgencyContractor} (h : Outcome m) (msg : FromManager) :
    Outcome (m.record [.received msg]) := by
  refine ⟨h.outcome.record (by simp) (by simp), fun ha => ?_, h.expiring⟩
  obtain ⟨hzero, hrest⟩ := h.active ha
  exact ⟨(Medium.calls_record _ (by simp)).trans hzero, hrest⟩

theorem outcome_message {m : AgencyContractor} (h : Outcome m) (msg : FromManager) :
    Outcome (m.onMessage msg) := by
  have hrec := h.received msg
  unfold onMessage
  dsimp only
  generalize m.record [.received msg] = m at hrec
  cases hhandler : handler msg m.state with
  | none => exact hrec
  | some after =>
    obtain ⟨after, handle⟩ := after
    dsimp only
    unfold handler at hhandler
    split at hhandler <;> cases hhandler
    · rename_i hs
      have hgo : Outcome (((m.setState .announced).record []).setTimeout (some .closed)
          (.runAndTerminate .announceExpired)) := hrec.goOn (.inl hs) (by decide) (by simp)
      rw [Medium.record_nil] at hgo
      exact hgo.call rfl _
    · rename_i hs
      exact hrec.finish (.inr (.inr (.inl hs))) (by decide) rfl _
    · rename_i hs
      have hgo : Outcome (((m.setState .granted).record []).setTimeout (some .expired)
          (.runAndTerminate .cancelled)) :=
        hrec.goOn (.inr (.inr (.inl hs))) (by decide) (by simp)
      rw [Medium.record_nil] at hgo
      exact hgo.call rfl _
    · rename_i hs
      exact hrec.finish (.inr (.inr (.inr (.inl hs)))) (by decide) rfl _
    · rename_i hs
      exact hrec.finish (.inr (.inr (.inr (.inr hs)))) (by decide) rfl _
    · rename_i hs
      exact hrec.finish (.inr (.inr (.inr (.inr hs)))) (by decide) rfl _

/-- What is left when a job is done, or is not to be done. -/
theorem outcome_done {m : AgencyContractor} {job : ContractorJob} (h : Outcome m)
    (hout : OneOutcome isOutcome leadsToOutcome
      (if job.terminates then (m.drop job).finalize else m.drop job)) (hjob : job ∈ m.jobs) :
    Outcome (if job.terminates then (m.drop job).finalize else m.drop job) := by
  by_cases hterm : job.terminates = true
  · have hover : ¬ Active m.state := by
      intro ha
      have hplain := ((h.active ha).2.2 job hjob).1
      rw [hterm] at hplain
      cases hplain
    rw [if_pos hterm] at hout ⊢
    refine h.ended hout ?_ (.inl (Medium.finalize_timeout h.outcome.disarmed))
    rwa [Medium.finalize_state]
  · rw [if_neg hterm] at hout ⊢
    refine ⟨hout, fun ha => ?_, h.expiring⟩
    obtain ⟨hzero, hf, hjobs⟩ := h.active ha
    refine ⟨?_, hf, fun job' hjob' => hjobs job' (List.mem_of_mem_erase hjob')⟩
    exact Nat.le_zero.mp (Medium.calls_drop_le.trans hzero.le)

theorem outcome_start {m m' : AgencyContractor} {job : ContractorJob} (h : Outcome m)
    (hstart : m.start (fun method => nomatch method) job = some m') : Outcome m' := by
  have hout := h.outcome.start (fun callback => ⟨rfl, rfl⟩) (fun method => nomatch method) hstart
  obtain ⟨hjob, hqueued, ⟨-, ⟨callback, hm, rfl⟩ | ⟨callback, hm, rfl⟩ | ⟨method, -, -⟩⟩ | rfl⟩ :=
    Medium.start_cases hstart
  · refine ⟨hout, fun ha => ?_, h.expiring⟩
    obtain ⟨hzero, hf, hjobs⟩ := h.active ha
    refine ⟨?_, hf, fun job' hjob' => ?_⟩
    · exact (Medium.calls_started hjob hqueued hm rfl).trans hzero
    · obtain hjob' | hjob' := List.mem_append.mp hjob'
      · exact hjobs job' (List.mem_of_mem_erase hjob')
      · rw [List.mem_singleton.mp hjob']
        exact hjobs job hjob
  · -- so only an outcome is called, and an active contractor has none
    have hover : ¬ Active m.state := by
      intro ha
      obtain ⟨-, callback', hm', -⟩ := (h.active ha).2.2 job hjob
      rw [hm] at hm'
      cases hm'
    refine h.ended hout ?_ (.inr ?_)
    · simpa [Medium.runAndTerminate] using hover
    · simp [Medium.runAndTerminate]
  · cases method
  · exact outcome_done h hout hjob

theorem outcome_finish {m m' : AgencyContractor} {job : ContractorJob} {failed : Bool}
    (h : Outcome m) (hfinish : m.finish .wtf job failed = some m') : Outcome m' := by
  have hout := h.outcome.finish hfinish
  obtain ⟨hjob, -, rfl | rfl⟩ := Medium.finish_cases hfinish
  · refine h.ended hout ?_ (.inl ?_)
    · rw [Medium.finalize_state, Medium.setState_state]
      decide
    · refine Medium.finalize_timeout fun hf => ?_
      rw [Medium.setState_timeout]
      rw [Medium.setState_finalized] at hf
      exact h.outcome.disarmed hf
  · exact outcome_done h hout hjob

theorem outcome_fire {m m' : AgencyContractor} (h : Outcome m) (hopen : Open m)
    (hfire : m.fire = some m') : Outcome m' := by
  have hout := h.outcome.fire hopen hfire
  obtain ⟨t, ht, hcases⟩ := Medium.fire_cases hfire
  obtain ⟨st, hst, hover⟩ := h.expiring t ht
  obtain ⟨hn, -⟩ | ⟨st', hst', rfl⟩ := hcases
  · rw [hst] at hn
    cases hn
  · obtain rfl := Option.some.inj (hst.symm.trans hst')
    refine h.ended hout ?_ (.inl ?_)
    · rwa [Medium.callAgentSide_state, Medium.setState_state]
    · rw [Medium.callAgentSide_timeout, Medium.setState_timeout]
      rfl

/-- The condition on an event: the timeout fires only while no terminal callback is queued
    or under way. -/
def Undisturbed (m : AgencyContractor) : Event → Prop
  | .fire => Open m
  | _ => True

instance (m : AgencyContractor) : ∀ e, Decidable (Undisturbed m e)
  | .fire => inferInstanceAs (Decidable (Open m))
  | .bid | .handover | .refuse | .defect | .complete | .message _ | .start _ | .finish _ _ =>
    inferInstanceAs (Decidable True)

theorem initiated_outcome : Outcome initiated := by
  refine ⟨⟨Nat.zero_le 1, fun hne => absurd rfl hne, ?_, fun _ => rfl⟩, fun _ => ⟨rfl, rfl, ?_⟩,
    fun t ht => ?_⟩
  · exact List.pairwise_singleton _ _
  · intro job hjob
    obtain rfl := List.mem_singleton.mp hjob
    exact ⟨rfl, .initiate, rfl, rfl⟩
  · cases ht

theorem step_outcome {m m' : AgencyContractor} {e : Event} (h : Outcome m)
    (hcond : Undisturbed m e) (hstep : step m e = some m') : Outcome m' := by
  cases e with
  | bid =>
    obtain rfl := Option.some.inj hstep
    unfold bid
    split
    · rename_i hs
      exact h.goOn (.inr (.inl hs)) (by decide) (by simp)
    · exact h
  | handover =>
    obtain rfl := Option.some.inj hstep
    unfold handover
    split
    · exact h.leave (by decide) _
    · exact h
  | refuse =>
    obtain rfl := Option.some.inj hstep
    unfold refuse
    split
    · exact h.leave (by decide) _
    · exact h
  | defect =>
    obtain rfl := Option.some.inj hstep
    unfold defect
    split
    · exact h.leave (by decide) _
    · exact h
  | complete =>
    obtain rfl := Option.some.inj hstep
    unfold complete
    split
    · rename_i hs
      exact h.goOn (.inr (.inr (.inr (.inl hs)))) (by decide) (by simp)
    · exact h
  | message msg =>
    obtain rfl := Option.some.inj hstep
    exact outcome_message h msg
  | fire => exact outcome_fire h hcond hstep
  | start job => exact outcome_start h hstep
  | finish job failed => exact outcome_finish h hstep

end AgencyContractor

/-! ## Both sides -/

/-- At most one terminal callback is called on a side of a contract, and no timeout fires
    once one was: in every run of that side whose events are undisturbed. -/
theorem one_outcome (Key : Type) [DecidableEq Key] (order : HashOrder Key)
    (expected : Option Nat) :
    (∀ (es : List (AgencyManager.Event Key)) (m : AgencyManager Key),
        Run (Guarded AgencyManager.Undisturbed (Defined (AgencyManager.step order)))
          (AgencyManager.start expected) es m →
        m.medium.made AgencyManager.isOutcome ≤ 1 ∧
          Never (fun e => ∃ callback, e = .called callback ∧
            AgencyManager.isOutcome callback = true) (· = .timedOut) m.medium.log) ∧
      ∀ (es : List AgencyContractor.Event) (m : AgencyContractor),
        Run (Guarded AgencyContractor.Undisturbed (Defined AgencyContractor.step))
          AgencyContractor.initiated es m →
        m.made AgencyContractor.isOutcome ≤ 1 ∧
          Never (fun e => ∃ callback, e = .called callback ∧
            AgencyContractor.isOutcome callback = true) (· = .timedOut) m.log := by
  refine ⟨fun es m hrun => ?_, fun es m hrun => ?_⟩
  · have hone : ∀ m e m', m.Regular ∧ AgencyManager.Outcome m.medium →
        Guarded AgencyManager.Undisturbed (Defined (AgencyManager.step order)) m e m' →
        m'.Regular ∧ AgencyManager.Outcome m'.medium :=
      fun m e m' h hstep => AgencyManager.step_outcome order h hstep.1 hstep.2
    obtain ⟨-, hout⟩ := hrun.preserves hone
      ⟨AgencyManager.start_regular expected, AgencyManager.start_outcome expected⟩
    exact ⟨(Nat.le_add_right _ _).trans hout.outcome.once, hout.outcome.final⟩
  · have hout : AgencyContractor.Outcome m :=
      hrun.preserves (fun _ _ _ h hstep => AgencyContractor.step_outcome h hstep.1 hstep.2)
        AgencyContractor.initiated_outcome
    exact ⟨(Nat.le_add_right _ _).trans hout.outcome.once, hout.outcome.final⟩

/-- A bid is granted and done on the manager's side; a bid is rejected on a contractor's. -/
theorem one_outcome_reached :
    (∃ m, ([.announce, .message 1 .bid, .bidHandled, .grant [1], .message 1 .finalReport,
          .completedHandled] : List (AgencyManager.Event Nat)).foldlM
        (checked AgencyManager.Undisturbed (AgencyManager.step .stored))
        (AgencyManager.start (some 1)) = some m ∧
      .called .completed ∈ m.medium.log ∧ m.medium.made AgencyManager.isOutcome ≤ 1) ∧
    ∃ m, ([.message .announcement, .bid, .message (.of .rejection),
          .start ⟨.agent .rejected, some .rejected, true, false⟩,
          .finish ⟨.agent .rejected, some .rejected, true, true⟩ false]
          : List AgencyContractor.Event).foldlM
        (checked AgencyContractor.Undisturbed AgencyContractor.step)
        AgencyContractor.initiated = some m ∧
      .called .rejected ∈ m.log ∧ m.made AgencyContractor.isOutcome ≤ 1 := by
  refine ⟨?_, ?_⟩
  · obtain ⟨m, hm, hcalled⟩ : ∃ m, ([.announce, .message 1 .bid, .bidHandled, .grant [1],
          .message 1 .finalReport, .completedHandled] : List (AgencyManager.Event Nat)).foldlM
          (checked AgencyManager.Undisturbed (AgencyManager.step .stored))
          (AgencyManager.start (some 1)) = some m ∧
        decide (.called .completed ∈ m.medium.log) = true := by
      apply Option.map_eq_some_iff.mp
      decide +kernel
    exact ⟨m, hm, of_decide_eq_true hcalled,
      ((one_outcome Nat .stored (some 1)).1 _ m (run_checked hm)).1⟩
  · obtain ⟨m, hm, hcalled⟩ : ∃ m, ([.message .announcement, .bid, .message (.of .rejection),
          .start ⟨.agent .rejected, some .rejected, true, false⟩,
          .finish ⟨.agent .rejected, some .rejected, true, true⟩ false]
          : List AgencyContractor.Event).foldlM
          (checked AgencyContractor.Undisturbed AgencyContractor.step)
          AgencyContractor.initiated = some m ∧
        decide (.called .rejected ∈ m.log) = true := by
      apply Option.map_eq_some_iff.mp
      decide +kernel
    exact ⟨m, hm, of_decide_eq_true hcalled,
      ((one_outcome Nat .stored (some 1)).2 _ m (run_checked hm)).1⟩

/-- The bid of a contractor is rejected, and `rejected()` takes its time. The timeout of the
    bid fires in between, and `bid_expired()` is called as well. -/
theorem rejected_bid_expires :
    ¬ ∀ (es : List AgencyContractor.Event) (m : AgencyContractor),
        Run (Defined AgencyContractor.step) AgencyContractor.initiated es m →
        m.made AgencyContractor.isOutcome ≤ 1 ∧
          Never (fun e => ∃ callback, e = .called callback ∧
            AgencyContractor.isOutcome callback = true) (· = .timedOut) m.log := by
  intro h
  obtain ⟨m, hm, hmade⟩ : ∃ m, ([.message .announcement, .bid, .message (.of .rejection),
        .start ⟨.agent .rejected, some .rejected, true, false⟩, .fire,
        .start ⟨.runAndTerminate .bidExpired, some .expired, false, false⟩,
        .start ⟨.agent .bidExpired, none, true, false⟩] : List AgencyContractor.Event).foldlM
        AgencyContractor.step AgencyContractor.initiated = some m ∧
      m.made AgencyContractor.isOutcome = 2 := by
    apply Option.map_eq_some_iff.mp
    decide +kernel
  have hone := (h _ m (run_defined hm)).1
  omega

end Feat.Agencies.Contracts
