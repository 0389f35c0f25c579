import Feat.Agencies.ManagerForward
import Feat.Agents.CollectiveSolver

/- How a contract of a solver ends (`contractStep`).

   With a brother that bids in time nothing leads to `expired()` (`Alive`), so whatever
   the contract fails with, it is not its recipient. With a brother that sends nothing
   the contract goes one way only, step by step (`Unheard`): its announce timeout fires,
   it expires, and it fails with its recipient. -/
namespace Feat.Agents.CollectiveSolver
open Hash Feat.Agencies Feat.Agencies.Contracts

variable {Key : Type} [DecidableEq Key] (order : HashOrder Key)

/-! ## A brother that bids in time -/

/-- Methods that lead to `expired()`, the announce timeout among them. -/
def expires : Method ManagerCallback ManagerMethod → Bool
  | .own .onAnnounceExpire => true
  | method => leadsToExpired method

structure Answering (m : ManagerMedium Key) : Prop where
  state : m.state ≠ .expired
  jobs : ∀ job ∈ m.jobs, expires job.method = false

/-- The condition on an event of a contract with a brother that is reachable: the only timeout that
fires is the one of the grant, and the brother does not refuse. -/
def Bids (m : AgencyManager Key) : ContractEvent → Prop
  | .fire => m.medium.timeout = some grantTimeout
  | .message msg => msg ≠ .refusal ∧ msg ≠ .duplicate
  | _ => True

instance (m : AgencyManager Key) : ∀ e, Decidable (Bids m e)
  | .fire => inferInstanceAs (Decidable (_ = _))
  | .message _ => inferInstanceAs (Decidable (_ ∧ _))
  | .start _ | .finish _ | .completed => .isTrue trivial

section Medium
omit [DecidableEq Key]
variable {m m' : ManagerMedium Key}

theorem Answering.next (h : Answering m) (hs : m'.state = m.state ∨ m'.state ≠ .expired)
    (hj : ∀ job ∈ m'.jobs, (∃ old ∈ m.jobs, old.method = job.method) ∨
      expires job.method = false) : Answering m' := by
  refine ⟨?_, fun job hjob => ?_⟩
  · obtain hs | hs := hs
    · rw [hs]
      exact h.state
    · exact hs
  · obtain ⟨old, hold, hmethod⟩ | hnot := hj job hjob
    · rw [← hmethod]
      exact h.jobs old hold
    · exact hnot

theorem Answering.same (h : Answering m) (hs : m'.state = m.state ∨ m'.state ≠ .expired)
    (hj : m'.jobs = m.jobs) : Answering m' :=
  h.next hs fun job hjob => .inl ⟨job, hj ▸ hjob, rfl⟩

theorem Answering.record (h : Answering m) (es : List (ManagerEntry Key)) :
    Answering (m.record es) := h.same (.inl rfl) rfl

theorem Answering.finalize (h : Answering m) : Answering m.finalize :=
  h.next (.inl Medium.finalize_state) fun job hjob =>
    .inl ⟨job, Medium.finalize_jobs.subset hjob, rfl⟩

theorem Answering.drop (h : Answering m) (job : AgencyManager.ManagerJob) :
    Answering (m.drop job) :=
  h.next (.inl rfl) fun old hold => .inl ⟨old, List.mem_of_mem_erase hold, rfl⟩

theorem Answering.call (h : Answering m) (method : Method ManagerCallback ManagerMethod)
    (hmethod : expires method = false) (ensure : Option ContractState) (terminates : Bool) :
    Answering (m.callAgentSide method ensure terminates) :=
  h.next (.inl Medium.callAgentSide_state) fun job hjob => by
    obtain hjob | rfl := Medium.mem_callAgentSide hjob
    · exact .inl ⟨job, hjob, rfl⟩
    · exact .inr hmethod

theorem Answering.setState (h : Answering m) (st : ContractState) (hst : st ≠ .expired) :
    Answering (m.setState st) :=
  h.same (.inr (by rw [Medium.setState_state]; exact hst)) Medium.setState_jobs

theorem answering_start {bids : Nat} {job : AgencyManager.ManagerJob} (h : Answering m)
    (hstart : m.start (AgencyManager.own bids) job = some m') : Answering m' := by
  obtain ⟨hjob, -, hcases⟩ := Medium.start_cases hstart
  obtain ⟨-, ⟨callback, -, rfl⟩ | ⟨callback, hmethod, rfl⟩ | ⟨method, hmethod, rfl⟩⟩ | rfl := hcases
  · refine h.next (.inl rfl) fun job' hjob' => ?_
    obtain hjob' | hjob' := List.mem_append.mp hjob'
    · exact .inl ⟨job', List.mem_of_mem_erase hjob', rfl⟩
    · rw [List.mem_singleton.mp hjob']
      exact .inl ⟨job, hjob, rfl⟩
  · have hnot := h.jobs job hjob
    rw [hmethod] at hnot
    refine (h.drop job).call (.agent callback) ?_ none true
    cases callback <;> first | rfl | exact hnot
  · have hnot := h.jobs job hjob
    rw [hmethod] at hnot
    cases method with
    | finalize => exact (h.drop job).finalize
    | onAnnounceExpire => cases hnot
    | onGrantExpire =>
      exact ((h.drop job).setState .aborted (by decide)).call (.agent .aborted) rfl _ true
  · split
    · exact (h.drop job).finalize
    · exact h.drop job

theorem answering_finish {job : AgencyManager.ManagerJob} {failed : Bool} (h : Answering m)
    (hfinish : m.finish .wtf job failed = some m') : Answering m' := by
  obtain ⟨-, -, rfl | rfl⟩ := Medium.finish_cases hfinish
  · exact ((h.drop job).setState .wtf (by decide)).finalize
  · split
    · exact (h.drop job).finalize
    · exact h.drop job

/-- What an event does in a state in which the announce period is not open. -/
theorem answering_turn (h : Answering m) (hs : m.state ≠ .announced)
    (hturn : Turn (fun _ => False) m m') : Answering m' := by
  cases hturn with
  | idle _ => exact h.record _
  | announce _ _ => exact (h.setState .announced (by decide)).same (.inl rfl) rfl
  | grant _ _ => exact (h.setState .granted (by decide)).same (.inl rfl) rfl
  | cancel _ _ _ => exact ((h.record _).setState .cancelled (by decide)).record _
  | cancelTold _ _ _ _ _ =>
    exact Answering.call (((h.record _).setState .cancelled (by decide)).record _)
      (.agent .cancelled) rfl _ true
  | terminate _ _ => exact ((h.record _).setState .terminated (by decide)).finalize
  | close ha _ => exact absurd ha hs
  | complete _ _ _ =>
    exact ((h.record _).setState .completed (by decide)).same (.inl rfl) rfl
  | completed _ => exact h.finalize
  | fire hready _ => exact hready.elim
  | start hstart => exact answering_start h hstart
  | finish hfinish => exact answering_finish h hfinish

end Medium

/-- A contract with a brother that bids in time. -/
structure Alive (m : AgencyManager Key) : Prop where
  regular : m.Regular
  answering : Answering m.medium

section Alive
variable {m m' : AgencyManager Key} {resolver : Key}

theorem start_alive (expected : Option Nat) :
    Alive (AgencyManager.start expected : AgencyManager Key) := by
  have hinitiated : ContractState.initiated ≠ .expired := by decide
  refine ⟨AgencyManager.start_regular expected, hinitiated, fun job hjob => ?_⟩
  obtain hjob | rfl := Medium.mem_callAgentSide hjob
  · cases hjob
  · rfl

theorem alive_announce (h : Alive m) : Alive m.announce := by
  refine ⟨AgencyManager.step_regular .stored h.regular (e := .announce) trivial rfl, ?_⟩
  unfold AgencyManager.announce
  split
  · exact (h.answering.setState .announced (by decide)).same (.inl rfl) rfl
  · exact h.answering

/-- A grant sends messages after it has entered the state. -/
theorem grant_medium (m : AgencyManager Key) (keys : List Key) :
    (m.grant order keys).medium = m.medium ∨
      ∃ es, (m.grant order keys).medium = m.enterGranted.medium.record es := by
  unfold AgencyManager.grant
  split
  · right
    obtain ⟨ks, hks, -⟩ := AgencyManager.sendGrants_eq keys m.enterGranted
    obtain ⟨es, -, hmed, -⟩ := AgencyManager.sends_foldl .grant ks m.enterGranted
    rw [← hks] at hmed
    dsimp only
    split
    · obtain ⟨es', -, hmed', -⟩ := AgencyManager.sends_foldl .rejection
        ((m.enterGranted.sendGrants keys).2.withState order [.bid])
        (m.enterGranted.sendGrants keys).2
      exact ⟨es ++ es', by rw [hmed', hmed, Medium.record_record]⟩
    · exact ⟨es, hmed⟩
  · exact .inl rfl

theorem alive_grant (h : Alive m) (keys : List Key) : Alive (m.grant order keys) := by
  refine ⟨AgencyManager.step_regular order h.regular (e := .grant keys) trivial rfl, ?_⟩
  obtain hmed | ⟨es, hmed⟩ := grant_medium order m keys
  · rw [hmed]
    exact h.answering
  · rw [hmed]
    exact ((h.answering.setState .granted (by decide)).same (.inl rfl) rfl :
      Answering m.enterGranted.medium).record es

theorem alive_agentSide (h : Alive m) (callback : ManagerCallback) :
    Alive (agentSide order callback m) := by
  unfold agentSide
  split
  · exact alive_announce h
  · split
    · exact h
    · exact alive_grant order h _
  · exact h

/-- With a bid the announce period is closed, and the contract does not expire. -/
theorem alive_bid (h : Alive m) (hstep : contractStep order resolver m (.message .bid) = some m') :
    Alive m' := by
  have hregular : (m.onMessage order resolver .bid).Regular :=
    AgencyManager.step_regular order h.regular (e := .message resolver .bid) trivial rfl
  dsimp only [contractStep] at hstep
  by_cases hopen : m.medium.state = .announced ∧ resolver ∉ m.contractors
  · have hmessage : m.onMessage order resolver .bid = { m with
        contractors := m.contractors.insert resolver .bid
        medium := m.medium.record ([.received (resolver, .bid)] ++ [.called .bid])
        bidding := m.bidding + 1 } := by
      simp [AgencyManager.onMessage, AgencyManager.onBid, hopen.1, hopen.2, Medium.setState,
        Medium.record]
    have htimely : (m.onMessage order resolver .bid).Timely .bidHandled := by
      intro _
      rw [hmessage]
      exact hopen.1
    rw [if_pos (by rw [hmessage]; exact Nat.lt_succ_self _)] at hstep
    refine ⟨AgencyManager.step_regular order hregular htimely hstep, ?_⟩
    rw [hmessage] at hstep
    dsimp only [AgencyManager.step] at hstep
    rw [if_pos (Nat.succ_pos _)] at hstep
    obtain rfl := Option.some.inj hstep
    unfold AgencyManager.checkIfShouldGotoClose
    split
    · dsimp only
      have hbids : 0 < (AgencyManager.withState order [.bid] { m with
          contractors := m.contractors.insert resolver .bid
          medium := m.medium.record ([.received (resolver, .bid)] ++ [.called .bid])
          bidding := m.bidding + 1 - 1 }).length := by
        apply List.length_pos_of_mem (a := resolver)
        exact (AgencyManager.mem_withState order).mpr ⟨.bid, by simp, by simp⟩
      unfold AgencyManager.gotoClosedOrExpired
      rw [if_pos hbids]
      unfold AgencyManager.closeAnnouncePeriod
      have htimed : Answering ((m.medium.record ([.received (resolver, .bid)] ++
          [.called .bid])).cancelTimeout.setTimeout (some .expired) (.runAndTerminate .expired)) :=
        h.answering.same (.inl rfl) rfl
      exact (htimed.setState .closed (by decide)).call (.agent .closed) rfl _ false
    · exact h.answering.record _
  · have hmessage : m.onMessage order resolver .bid =
        { m with medium := m.medium.record [.received (resolver, .bid)] } := by
      unfold AgencyManager.onMessage
      dsimp only
      split
      · rename_i hs
        have hknown : resolver ∈ m.contractors := by
          by_contra hnot
          exact hopen ⟨hs, hnot⟩
        rw [Medium.setState_self hs]
        unfold AgencyManager.onBid
        rw [if_pos hknown]
      · rfl
    rw [if_neg (by rw [hmessage]; exact Nat.lt_irrefl _)] at hstep
    obtain rfl := Option.some.inj hstep
    refine ⟨hregular, ?_⟩
    rw [hmessage]
    exact h.answering.record _

/-- Reports and cancellations come to nothing but in the state `granted`. -/
theorem alive_message {msg : ToManager} (h : Alive m) (hbid : msg ≠ .bid)
    (hbids : msg ≠ .refusal ∧ msg ≠ .duplicate) : Alive (m.onMessage order resolver msg) := by
  refine ⟨AgencyManager.step_regular order h.regular (e := .message resolver msg) trivial rfl, ?_⟩
  by_cases hs : m.medium.state = .granted
  · have hturn : Turn (fun _ => False) m.medium (m.onMessage order resolver msg).medium :=
      AgencyManager.turn_message order h.regular.attended resolver msg
    exact answering_turn h.answering (by rw [hs]; decide) hturn
  · have hmessage : m.onMessage order resolver msg =
        { m with medium := m.medium.record [.received (resolver, msg)] } := by
      unfold AgencyManager.onMessage
      cases msg with
      | bid => exact absurd rfl hbid
      | refusal => exact absurd rfl hbids.1
      | duplicate => exact absurd rfl hbids.2
      | finalReport =>
        dsimp only
        exact if_neg hs
      | cancellation =>
        dsimp only
        exact if_neg hs
    rw [hmessage]
    exact h.answering.record _

theorem alive_step {e : ContractEvent} (h : Alive m) (hbids : Bids m e)
    (hstep : contractStep order resolver m e = some m') : Alive m' := by
  cases e with
  | message msg =>
    by_cases hbid : msg = .bid
    · subst hbid
      exact alive_bid order h hstep
    · have hmessage : some (m.onMessage order resolver msg) = some m' := by
        cases msg with
        | bid => exact absurd rfl hbid
        | refusal => exact hstep
        | duplicate => exact hstep
        | finalReport => exact hstep
        | cancellation => exact hstep
      obtain rfl := Option.some.inj hmessage
      exact alive_message order h hbid hbids
  | fire =>
    dsimp only [contractStep] at hstep
    split at hstep
    · cases hstep
    · refine ⟨AgencyManager.step_regular order h.regular (e := .fire) trivial hstep, ?_⟩
      obtain ⟨medium, hfire, rfl⟩ := Option.map_eq_some_iff.mp hstep
      obtain ⟨t, ht, hcases⟩ := Medium.fire_cases hfire
      rw [hbids] at ht
      obtain rfl := Option.some.inj ht
      obtain ⟨hnone, -⟩ | ⟨st, hst, rfl⟩ := hcases
      · cases hnone
      · obtain rfl := Option.some.inj hst
        have hfired : Answering (m.medium.cancelTimeout.record [.timedOut]) :=
          h.answering.same (.inl rfl) rfl
        exact (hfired.setState .aborted (by decide)).call (.own .onGrantExpire) rfl _ false
  | start job =>
    obtain ⟨m₁, hstart, rfl⟩ := Option.map_eq_some_iff.mp hstep
    have halive : Alive m₁ := by
      refine ⟨AgencyManager.step_regular order h.regular (e := .start job) trivial hstart, ?_⟩
      obtain ⟨medium, hmedium, rfl⟩ := Option.map_eq_some_iff.mp hstart
      exact answering_start h.answering hmedium
    split
    · exact alive_agentSide order halive _
    · exact halive
  | finish job =>
    refine ⟨AgencyManager.step_regular order h.regular (e := .finish job false) trivial hstep, ?_⟩
    obtain ⟨medium, hmedium, rfl⟩ := Option.map_eq_some_iff.mp hstep
    exact answering_finish h.answering hmedium
  | completed =>
    refine ⟨AgencyManager.step_regular order h.regular (e := .completedHandled) trivial hstep, ?_⟩
    dsimp only [contractStep, AgencyManager.step] at hstep
    split at hstep
    · obtain rfl := Option.some.inj hstep
      exact h.answering.finalize
    · cases hstep

omit [DecidableEq Key] in
/-- A contract that fails with a recipient has expired. -/
theorem failed_expired {e : ContractEvent} {recipient : Key}
    (h : outcome resolver e = .failed (some recipient)) :
    recipient = resolver ∧ ∃ job, e = .finish job ∧ job.method = .agent .expired := by
  cases e with
  | finish job =>
    dsimp only [outcome] at h
    split at h
    · rename_i callback hmethod
      cases callback <;> cases h
      exact ⟨rfl, job, rfl, hmethod⟩
    · cases h
  | _ => cases h

/-- With a brother that bids in time no contract fails with its recipient. -/
theorem alive_outcome {e : ContractEvent} (h : Alive m)
    (hstep : contractStep order resolver m e = some m') (recipient : Key) :
    outcome resolver e ≠ .failed (some recipient) := by
  intro hfailed
  obtain ⟨-, job, rfl, hmethod⟩ := failed_expired hfailed
  obtain ⟨medium, hmedium, -⟩ := Option.map_eq_some_iff.mp hstep
  have hnot := h.answering.jobs job (Medium.finish_cases hmedium).1
  rw [hmethod] at hnot
  cases hnot

end Alive

/-! ## A brother that sends nothing -/

/-- The call of `initiate`. -/
def initiateJob (underWay : Bool) : AgencyManager.ManagerJob :=
  ⟨.agent .initiate, some .initiated, false, underWay⟩

/-- The call of `_on_announce_expire`. -/
def announceExpireJob : AgencyManager.ManagerJob := ⟨.own .onAnnounceExpire, none, false, false⟩

/-- The call of `expired`. -/
def expiredJob (underWay : Bool) : AgencyManager.ManagerJob :=
  ⟨.agent .expired, some .expired, true, underWay⟩

/-- The call of `initiate` is under way, or done. -/
def Initiating (jobs : List AgencyManager.ManagerJob) : Prop :=
  jobs = [] ∨ jobs = [initiateJob true]

/-- Where a contract that nobody answers can be, and its result. -/
inductive Unheard (resolver : Key) : ManagerMedium Key → Option (Outcome Key) → Prop
  | initiated {m} (hs : m.state = .initiated) (hf : m.finalized = false)
      (hj : m.jobs = [initiateJob false]) : Unheard resolver m none
  | announced {m} (hs : m.state = .announced) (hf : m.finalized = false)
      (ht : m.timeout = some announceTimeout) (hj : Initiating m.jobs) : Unheard resolver m none
  | closing {m jobs} (hs : m.state = .announced) (hf : m.finalized = false) (ht : m.timeout = none)
      (hi : Initiating jobs) (hj : m.jobs = jobs ++ [announceExpireJob]) : Unheard resolver m none
  | expired {m jobs underWay} (hs : m.state = .expired) (hf : m.finalized = false)
      (ht : m.timeout = none) (hi : Initiating jobs) (hj : m.jobs = jobs ++ [expiredJob underWay]) :
      Unheard resolver m none
  | ended {m} (hf : m.finalized = true) (ht : m.timeout = none) (hi : Initiating m.jobs) :
      Unheard resolver m (some (.failed (some resolver)))

/-- A contract that nobody has answered. -/
structure Silent (m : AgencyManager Key) : Prop where
  contractors : m.contractors = ∅
  completing : m.completing = false

section Silent
variable {m m' : AgencyManager Key} {resolver : Key} {result : Option (Outcome Key)}

theorem start_unheard (expected : Option Nat) (resolver : Key) :
    Unheard resolver (AgencyManager.start expected : AgencyManager Key).medium none :=
  .initiated rfl rfl rfl

theorem Silent.no_bids (h : Silent m) : (m.withState order [.bid]).length = 0 := by
  apply List.length_eq_zero_iff.mpr
  apply List.eq_nil_iff_forall_not_mem.mpr
  intro key hkey
  obtain ⟨st, -, hst⟩ := (AgencyManager.mem_withState order).mp hkey
  rw [h.contractors] at hst
  cases hst

/-- A job of a contract that nobody answers. -/
theorem mem_initiating {jobs : List AgencyManager.ManagerJob} (h : Initiating jobs)
    {job : AgencyManager.ManagerJob} (hjob : job ∈ jobs) : job = initiateJob true := by
  obtain rfl | rfl := h
  · cases hjob
  · exact List.mem_singleton.mp hjob

theorem initiating_erase {jobs : List AgencyManager.ManagerJob} (h : Initiating jobs)
    (job : AgencyManager.ManagerJob) : Initiating (jobs.erase job) := by
  obtain rfl | rfl := h
  · exact .inl rfl
  · by_cases hjob : job = initiateJob true
    · subst hjob
      exact .inl (List.erase_cons_head ..)
    · exact .inr (List.erase_of_not_mem fun hmem => hjob (List.mem_singleton.mp hmem))

theorem resulting_same {e : ContractEvent} (h : m'.medium.finalized = m.medium.finalized) :
    resulting resolver m m' e result = result := by
  unfold resulting
  rw [h]
  exact if_neg fun hboth => Bool.false_ne_true (hboth.1.symm.trans hboth.2)

section
variable {own : ManagerMethod → ManagerMedium Key → ManagerMedium Key}
  {job : AgencyManager.ManagerJob}

theorem start_agent {callback : ManagerCallback} (hjob : job ∈ m.medium.jobs)
    (hqueued : job.underWay = false) (hmethod : job.method = .agent callback)
    (hensure : ∀ st ∈ job.ensureState, m.medium.state = st) :
    m.medium.start own job = some (Medium.record [.called callback]
      { m.medium with jobs := m.medium.jobs.erase job ++ [{ job with underWay := true }] }) := by
  unfold Medium.start
  rw [if_pos ⟨hjob, hqueued⟩]
  dsimp only
  rw [if_pos hensure, hmethod]

theorem start_own {method : ManagerMethod} (hjob : job ∈ m.medium.jobs)
    (hqueued : job.underWay = false) (hmethod : job.method = .own method)
    (hensure : ∀ st ∈ job.ensureState, m.medium.state = st) :
    m.medium.start own job = some (own method (m.medium.drop job)) := by
  unfold Medium.start
  rw [if_pos ⟨hjob, hqueued⟩]
  dsimp only
  rw [if_pos hensure, hmethod]
  rfl

theorem calledBack_agent {callback : ManagerCallback} (hmethod : job.method = .agent callback)
    (hensure : ∀ st ∈ job.ensureState, m.medium.state = st) :
    calledBack m job = some callback := by
  unfold calledBack
  rw [hmethod]
  exact if_pos hensure

end

theorem agentSide_initiate (hs : m.medium.state = .initiated) :
    agentSide order .initiate m = { m with
      medium := ((m.medium.setState .announced).record [.sent .announcement]).setTimeout none
        (.own .onAnnounceExpire) } := if_pos hs

omit [DecidableEq Key] in
theorem own_announceExpire {medium : ManagerMedium Key} {bids : Nat}
    (hs : medium.state = .announced) : AgencyManager.own bids .onAnnounceExpire medium =
      AgencyManager.gotoClosedOrExpired bids medium := if_pos hs

/-- Only the announce timeout can fire. -/
theorem unheard_fire (hsilent : Silent m) (h : Unheard resolver m.medium result)
    (hstep : contractStep order resolver m .fire = some m') :
    Silent m' ∧ Unheard resolver m'.medium (resulting resolver m m' .fire result) := by
  dsimp only [contractStep] at hstep
  split at hstep
  · cases hstep
  · rename_i hstarted
    obtain ⟨medium, hfire, rfl⟩ := Option.map_eq_some_iff.mp hstep
    obtain ⟨t, ht, hcases⟩ := Medium.fire_cases hfire
    have hnone : m.medium.timeout ≠ none := by
      rw [ht]
      exact Option.some_ne_none t
    refine ⟨⟨hsilent.contractors, hsilent.completing⟩, ?_⟩
    cases h with
    | initiated hs _ _ => exact absurd hs hstarted
    | closing _ _ hno _ _ => exact absurd hno hnone
    | expired _ _ hno _ _ => exact absurd hno hnone
    | ended _ hno _ => exact absurd hno hnone
    | announced hs hf hannounce hi =>
      rw [hannounce] at ht
      obtain rfl := Option.some.inj ht
      obtain ⟨-, rfl⟩ | ⟨st, hst, -⟩ := hcases
      · rw [resulting_same Medium.callAgentSide_finalized]
        exact .closing (by simpa using hs) (by simpa using hf) (by simp) hi
          (Medium.callAgentSide_jobs hf)
      · cases hst

/-- A job is started: the announcement is sent, the contract expires, or `expired` is called. -/
theorem unheard_start {job : AgencyManager.ManagerJob} (hsilent : Silent m)
    (h : Unheard resolver m.medium result)
    (hstep : contractStep order resolver m (.start job) = some m') :
    Silent m' ∧ Unheard resolver m'.medium (resulting resolver m m' (.start job) result) := by
  obtain ⟨m₁, hstart, rfl⟩ := Option.map_eq_some_iff.mp hstep
  obtain ⟨medium, hmedium, rfl⟩ := Option.map_eq_some_iff.mp hstart
  obtain ⟨hjob, hqueued, -⟩ := Medium.start_cases hmedium
  have hmem := hjob
  have hidle : ∀ {jobs : List AgencyManager.ManagerJob}, Initiating jobs → job ∉ jobs := by
    intro jobs hi hmem
    rw [mem_initiating hi hmem] at hqueued
    cases hqueued
  cases h with
  | initiated hs hf hj =>
    rw [hj] at hjob
    obtain rfl := List.mem_singleton.mp hjob
    have hensure : ∀ st ∈ (initiateJob false).ensureState, m.medium.state = st := fun st hst => by
      rw [← Option.some.inj hst]
      exact hs
    rw [start_agent hmem hqueued rfl hensure] at hmedium
    obtain rfl := Option.some.inj hmedium
    rw [calledBack_agent rfl hensure]
    dsimp only
    rw [agentSide_initiate order]
    · rw [resulting_same (by simp)]
      refine ⟨⟨hsilent.contractors, hsilent.completing⟩,
        .announced (by simp) (by simpa using hf) rfl (.inr ?_)⟩
      simp [hj, initiateJob]
    · exact hs
  | announced hs hf ht hi => exact absurd hjob (hidle hi)
  | closing hs hf ht hi hj =>
    rw [hj] at hjob
    obtain rfl : job = announceExpireJob :=
      List.mem_singleton.mp ((List.mem_append.mp hjob).resolve_left (hidle hi))
    rw [start_own hmem hqueued rfl fun _ hst => by cases hst] at hmedium
    obtain rfl := Option.some.inj hmedium
    have hnone : calledBack m announceExpireJob = none := rfl
    rw [hnone]
    dsimp only
    rw [own_announceExpire, hsilent.no_bids]
    · unfold AgencyManager.gotoClosedOrExpired
      rw [if_neg (Nat.lt_irrefl 0)]
      unfold Medium.runAndTerminate
      rw [resulting_same (by simp)]
      refine ⟨⟨hsilent.contractors, hsilent.completing⟩,
        .expired (by simp) (by simpa using hf) (by simpa using ht) hi
          (?_ : _ = _ ++ [expiredJob false])⟩
      rw [Medium.callAgentSide_jobs (by simpa using hf)]
      simp [hj, List.erase_append_right _ (hidle hi), expiredJob]
    · exact hs
  | @expired jobs underWay hs hf ht hi hj =>
    rw [hj] at hjob
    obtain rfl : job = expiredJob underWay :=
      List.mem_singleton.mp ((List.mem_append.mp hjob).resolve_left (hidle hi))
    have hensure : ∀ st ∈ (expiredJob underWay).ensureState, m.medium.state = st :=
      fun st hst => by
        rw [← Option.some.inj hst]
        exact hs
    rw [start_agent hmem hqueued rfl hensure] at hmedium
    obtain rfl := Option.some.inj hmedium
    rw [calledBack_agent rfl hensure]
    dsimp only [agentSide]
    rw [resulting_same (by simp)]
    refine ⟨⟨hsilent.contractors, hsilent.completing⟩,
      .expired hs hf ht hi (?_ : _ = _ ++ [expiredJob true])⟩
    show m.medium.jobs.erase (expiredJob underWay) ++ [expiredJob true] = _
    rw [hj, List.erase_append_right _ (hidle hi)]
    simp
  | ended hf ht hi => exact absurd hjob (hidle hi)

/-- A job is done: `expired` returns the recipient, with which the contract fails. -/
theorem unheard_finish {job : AgencyManager.ManagerJob} (hsilent : Silent m)
    (h : Unheard resolver m.medium result)
    (hstep : contractStep order resolver m (.finish job) = some m') :
    Silent m' ∧ Unheard resolver m'.medium (resulting resolver m m' (.finish job) result) := by
  obtain ⟨medium, hmedium, rfl⟩ := Option.map_eq_some_iff.mp hstep
  unfold Medium.finish at hmedium
  split at hmedium
  · rename_i hboth
    obtain ⟨hjob, hway⟩ := hboth
    obtain rfl := Option.some.inj hmedium
    refine ⟨⟨hsilent.contractors, hsilent.completing⟩, ?_⟩
    cases h with
    | initiated hs hf hj =>
      rw [hj] at hjob
      obtain rfl := List.mem_singleton.mp hjob
      cases hway
    | announced hs hf ht hi =>
      obtain rfl := mem_initiating hi hjob
      rw [resulting_same (by simp [initiateJob])]
      exact .announced hs hf ht (initiating_erase hi _)
    | closing hs hf ht hi hj =>
      rw [hj] at hjob
      obtain hmem | hmem := List.mem_append.mp hjob
      · obtain rfl := mem_initiating hi hmem
        rw [resulting_same (by simp [initiateJob])]
        refine .closing hs hf ht (initiating_erase hi (initiateJob true)) ?_
        show m.medium.jobs.erase (initiateJob true) = _
        rw [hj, List.erase_append_left _ hmem]
      · rw [List.mem_singleton.mp hmem] at hway
        cases hway
    | @expired jobs underWay hs hf ht hi hj =>
      rw [hj] at hjob
      obtain hmem | hmem := List.mem_append.mp hjob
      · obtain rfl := mem_initiating hi hmem
        rw [resulting_same (by simp [initiateJob])]
        refine .expired hs hf ht (initiating_erase hi (initiateJob true))
          (?_ : _ = _ ++ [expiredJob underWay])
        show m.medium.jobs.erase (initiateJob true) = _
        rw [hj, List.erase_append_left _ hmem]
      · obtain rfl := List.mem_singleton.mp hmem
        obtain rfl : underWay = true := hway
        have hfinal : resulting resolver m
            { m with medium := (m.medium.drop (expiredJob true)).finalize }
            (.finish (expiredJob true)) none = some (.failed (some resolver)) := by
          unfold resulting
          rw [if_pos ⟨hf, Medium.finalize_finalized⟩]
          rfl
        have hended : Unheard resolver (m.medium.drop (expiredJob true)).finalize
            (some (.failed (some resolver))) := by
          refine .ended Medium.finalize_finalized (Medium.finalize_timeout fun _ => ht) ?_
          have hnot : expiredJob true ∉ jobs := fun hin => by cases mem_initiating hi hin
          have hdrop : (m.medium.drop (expiredJob true)).jobs = jobs := by
            rw [Medium.drop_jobs, hj, List.erase_append_right _ hnot]
            simp
          unfold Medium.finalize
          rw [if_neg (by simp [hf])]
          show Initiating ((m.medium.drop (expiredJob true)).jobs.filter (·.underWay))
          rw [hdrop]
          obtain rfl | rfl := hi
          · exact .inl rfl
          · exact .inr rfl
        rw [← hfinal] at hended
        exact hended
    | ended hf ht hi =>
      obtain rfl := mem_initiating hi hjob
      rw [resulting_same (by simp [initiateJob])]
      exact .ended hf ht (initiating_erase hi _)
  · cases hmedium

theorem unheard_step {e : ContractEvent} (hsilent : Silent m)
    (h : Unheard resolver m.medium result) (hunsent : ∀ msg, e ≠ .message msg)
    (hstep : contractStep order resolver m e = some m') :
    Silent m' ∧ Unheard resolver m'.medium (resulting resolver m m' e result) := by
  cases e with
  | message msg => exact absurd rfl (hunsent msg)
  | fire => exact unheard_fire order hsilent h hstep
  | start job => exact unheard_start order hsilent h hstep
  | finish job => exact unheard_finish order hsilent h hstep
  | completed =>
    dsimp only [contractStep, AgencyManager.step] at hstep
    rw [hsilent.completing] at hstep
    cases hstep

/-- A contract that nobody answers and that has no result can go on. -/
theorem unheard_live (h : Unheard resolver m.medium none) :
    ∃ e, (∀ msg, e ≠ .message msg) ∧ (contractStep order resolver m e).isSome = true := by
  have hstart : ∀ job ∈ m.medium.jobs, job.underWay = false →
      (contractStep order resolver m (.start job)).isSome = true := by
    intro job hjob hqueued
    simp only [contractStep, AgencyManager.step, Option.isSome_map, Medium.start]
    rw [if_pos ⟨hjob, hqueued⟩]
    split
    · split <;> rfl
    · rfl
  cases h with
  | initiated hs hf hj =>
    exact ⟨.start (initiateJob false), fun _ h => (by cases h), hstart _ (by simp [hj]) rfl⟩
  | announced hs hf ht hi =>
    refine ⟨.fire, fun _ h => (by cases h), ?_⟩
    simp [contractStep, AgencyManager.step, Medium.fire, hs, ht]
  | closing hs hf ht hi hj =>
    exact ⟨.start announceExpireJob, fun _ h => (by cases h), hstart _ (by simp [hj]) rfl⟩
  | @expired jobs underWay hs hf ht hi hj =>
    cases underWay with
    | false =>
      exact ⟨.start (expiredJob false), fun _ h => (by cases h), hstart _ (by simp [hj]) rfl⟩
    | true =>
      refine ⟨.finish (expiredJob true), fun _ h => (by cases h), ?_⟩
      have hmem : expiredJob true ∈ m.medium.jobs := by simp [hj]
      simp only [contractStep, AgencyManager.step, Option.isSome_map, Medium.finish]
      rw [if_pos ⟨hmem, rfl⟩]
      rfl

end Silent

end Feat.Agents.CollectiveSolver
