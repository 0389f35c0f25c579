import Mathlib.Order.Basic
import Mathlib.Data.Nat.Basic
import Feat.Lib.Run
import Feat.Lib.Traces
import Feat.Agencies.ManagerTurns

/- A contract goes forward only: initiated, announced, closed, granted, and then one of
   the states it does not leave for any of these.

   `_check_if_should_goto_close` runs after the agent's `bid()` handler and looks for one
   state only, `terminated`. Where the handler has granted by then, or another bid has
   closed the announce period, it cancels the timeout and closes or expires the contract
   again. `Timely` excludes that, `forward_only` is the result about timely runs, and
   `grant_in_bid_expires` a run that is not. -/
namespace Feat.Agencies.Contracts
open Hash Transition Traces

variable {Key : Type} {ready : ManagerMedium Key → Prop}

/-! ## Timeouts and jobs of each state -/

def initiateTimeout : Timeout ContractState ManagerCallback ManagerMethod :=
  ⟨some .wtf, .own .finalize⟩

def announceTimeout : Timeout ContractState ManagerCallback ManagerMethod :=
  ⟨none, .own .onAnnounceExpire⟩

def closeTimeout : Timeout ContractState ManagerCallback ManagerMethod :=
  ⟨some .expired, .runAndTerminate .expired⟩

def grantTimeout : Timeout ContractState ManagerCallback ManagerMethod :=
  ⟨some .aborted, .own .onGrantExpire⟩

/-- A timeout belongs to the state it was armed in; the one of `grant` outlives it in
    `cancelled`. -/
def Belongs (t : Timeout ContractState ManagerCallback ManagerMethod) (s : ContractState) : Prop :=
  (t = initiateTimeout ∧ s = .initiated) ∨ (t = announceTimeout ∧ s = .announced) ∨
    (t = closeTimeout ∧ s = .closed) ∨ (t = grantTimeout ∧ (s = .granted ∨ s = .cancelled))

/-- A job that does not end the contract. -/
def Plain (job : AgencyManager.ManagerJob) : Prop :=
  job.terminates = false ∧ (job.method = .agent .initiate ∨ job.method = .agent .closed ∨
    job.method = .own .onAnnounceExpire)

structure Phased (m : ManagerMedium Key) : Prop where
  timeout : ∀ t, m.timeout = some t → Belongs t m.state
  armed : m.state = .granted → m.timeout = some grantTimeout
  disarmed : m.finalized = true → m.timeout = none
  live : m.state.Live → m.finalized = false ∧ ∀ job ∈ m.jobs, Plain job
  announceExpiring : ∀ job ∈ m.jobs, job.method = .own .onAnnounceExpire →
    m.state ≠ .initiated ∧ (m.state = .announced → m.timeout = none)
  grantExpiring : ∀ job ∈ m.jobs, job.method = .own .onGrantExpire → m.timeout = none

/-- What keeps state and timeout, and takes jobs away at most. -/
theorem Phased.shrink {m m' : ManagerMedium Key} (h : Phased m) (hs : m'.state = m.state)
    (ht : m'.timeout = m.timeout) (hf : m'.finalized = m.finalized)
    (hj : ∀ job ∈ m'.jobs, ∃ job' ∈ m.jobs,
      job'.method = job.method ∧ job'.terminates = job.terminates) : Phased m' := by
  refine ⟨fun t => ?_, ?_, ?_, fun hl => ?_, fun job hjob hm => ?_, fun job hjob hm => ?_⟩
  · rw [ht, hs]
    exact h.timeout t
  · rw [ht, hs]
    exact h.armed
  · rw [hf, ht]
    exact h.disarmed
  · rw [hs] at hl
    refine ⟨hf.trans (h.live hl).1, fun job hjob => ?_⟩
    obtain ⟨job', hjob', hm, hte⟩ := hj job hjob
    have hplain := (h.live hl).2 job' hjob'
    exact ⟨hte ▸ hplain.1, hm ▸ hplain.2⟩
  · obtain ⟨job', hjob', hm', -⟩ := hj job hjob
    rw [hs, ht]
    exact h.announceExpiring job' hjob' (hm'.trans hm)
  · obtain ⟨job', hjob', hm', -⟩ := hj job hjob
    rw [ht]
    exact h.grantExpiring job' hjob' (hm'.trans hm)

theorem Phased.record {m : ManagerMedium Key} (h : Phased m) (es : List (ManagerEntry Key)) :
    Phased (m.record es) :=
  h.shrink rfl rfl rfl fun job hjob => ⟨job, hjob, rfl, rfl⟩

/-- A contract that is over, without a timeout. -/
theorem Phased.ended {m : ManagerMedium Key} (hs : ¬ m.state.Live) (ht : m.timeout = none) :
    Phased m := by
  refine ⟨fun t h => ?_, fun hg => absurd (.inr (.inr (.inr hg))) hs, fun _ => ht,
    fun hl => absurd hl hs, fun _ _ _ => ⟨fun hi => hs (.inl hi), fun _ => ht⟩, fun _ _ _ => ht⟩
  rw [ht] at h
  cases h

theorem Phased.finalize {m m' : ManagerMedium Key} (h : Phased m) (hf : m'.finalized = m.finalized)
    (ht : m'.timeout = m.timeout) (hs : ¬ m'.state.Live) : Phased m'.finalize := by
  apply Phased.ended
  · rwa [Medium.finalize_state]
  · apply Medium.finalize_timeout
    intro hfin
    rw [ht]
    exact h.disarmed (hf ▸ hfin)

/-- The announce period is closed, or the contract expires, once its timeout is gone. -/
theorem Phased.close {m : ManagerMedium Key} (h : Phased m) (hs : m.state = .announced)
    (ht : m.timeout = none) (bids : Nat) : Phased (AgencyManager.gotoClosedOrExpired bids m) := by
  have hlive := h.live (.inr (.inl hs))
  unfold AgencyManager.gotoClosedOrExpired
  split
  · unfold AgencyManager.closeAnnouncePeriod
    refine ⟨fun t ht' => ?_, fun hg => ?_, fun hf => ?_, fun _ => ⟨?_, fun job hjob => ?_⟩,
      fun job hjob hm => ⟨?_, fun ha => ?_⟩, fun job hjob hm => ?_⟩
    · simp only [Medium.callAgentSide_timeout, Medium.setState_timeout,
        Medium.setTimeout_timeout, Option.some.injEq] at ht'
      exact .inr (.inr (.inl ⟨ht'.symm, by simp⟩))
    · simp at hg
    · simp [hlive.1] at hf
    · simp [hlive.1]
    · obtain hjob | rfl := Medium.mem_callAgentSide hjob
      · exact hlive.2 job (by simpa using hjob)
      · exact ⟨rfl, .inr (.inl rfl)⟩
    · simp
    · simp at ha
    · obtain hjob | rfl := Medium.mem_callAgentSide hjob
      · have hplain := (hlive.2 job (by simpa using hjob)).2
        rw [hm] at hplain
        simp at hplain
      · cases hm
  · apply Phased.ended
    · simp [Medium.runAndTerminate, ContractState.Live]
    · simp [Medium.runAndTerminate, ht]

/-- In `cancelled` the timeout of `grant` stays. -/
theorem Phased.cancelled {m m' : ManagerMedium Key} (h : Phased m)
    (hs : m.state = .granted ∨ m.state = .cancelled) (hs' : m'.state = .cancelled)
    (ht : m'.timeout = m.timeout) (hf : m'.finalized = m.finalized)
    (hj : ∀ job ∈ m'.jobs, job ∈ m.jobs ∨ job.method = .agent .cancelled) : Phased m' := by
  refine ⟨fun t htm => ?_, fun hg => ?_, ?_, fun hl => ?_, fun job hjob hm => ⟨?_, fun ha => ?_⟩,
    fun job hjob hm => ?_⟩
  · rw [ht] at htm
    obtain ⟨-, hi⟩ | ⟨-, ha⟩ | ⟨-, hc⟩ | ⟨hg, -⟩ := h.timeout t htm
    · rw [hi] at hs
      simp at hs
    · rw [ha] at hs
      simp at hs
    · rw [hc] at hs
      simp at hs
    · exact .inr (.inr (.inr ⟨hg, .inr hs'⟩))
  · rw [hs'] at hg
    cases hg
  · rw [hf, ht]
    exact h.disarmed
  · exact absurd (hs' ▸ hl) (by decide)
  · simp [hs']
  · simp [hs'] at ha
  · obtain hjob | hc := hj job hjob
    · rw [ht]
      exact h.grantExpiring job hjob hm
    · rw [hm] at hc
      cases hc

theorem Phased.untimed {m : ManagerMedium Key} (h : Phased m) (hs : m.state ≠ .granted) :
    Phased m.cancelTimeout where
  timeout t ht := by cases ht
  armed hg := absurd hg hs
  disarmed _ := rfl
  live := h.live
  announceExpiring job hjob hm := ⟨(h.announceExpiring job hjob hm).1, fun _ => rfl⟩
  grantExpiring _ _ _ := rfl

theorem phased_fire {m m' : ManagerMedium Key} (h : Phased m) (hfire : m.fire = some m') :
    Phased m' := by
  obtain ⟨t, ht, hcases⟩ := Medium.fire_cases hfire
  obtain ⟨rfl, -⟩ | ⟨rfl, ha⟩ | ⟨rfl, -⟩ | ⟨rfl, -⟩ := h.timeout t ht
  · obtain ⟨hn, -⟩ | ⟨st, hst, rfl⟩ := hcases
    · cases hn
    · cases hst
      exact .ended (by simp [ContractState.Live]) (by simp)
  · obtain ⟨-, rfl⟩ | ⟨st, hst, -⟩ := hcases
    · have hlive := h.live (.inr (.inl ha))
      refine ⟨fun t ht => ?_, fun hg => ?_, fun _ => ?_, fun _ => ⟨?_, fun job hjob => ?_⟩,
        fun job hjob hm => ⟨?_, fun _ => ?_⟩, fun job hjob hm => ?_⟩
      · simp at ht
      · simp [ha] at hg
      · simp
      · simp [hlive.1]
      · obtain hjob | rfl := Medium.mem_callAgentSide hjob
        · exact hlive.2 job (by simpa using hjob)
        · exact ⟨rfl, .inr (.inr rfl)⟩
      · simp [ha]
      · simp
      · simp
    · cases hst
  · obtain ⟨hn, -⟩ | ⟨st, hst, rfl⟩ := hcases
    · cases hn
    · cases hst
      exact .ended (by simp [ContractState.Live]) (by simp)
  · obtain ⟨hn, -⟩ | ⟨st, hst, rfl⟩ := hcases
    · cases hn
    · cases hst
      exact .ended (by simp [ContractState.Live]) (by simp)

theorem Phased.drop {m : ManagerMedium Key} (h : Phased m) (job : AgencyManager.ManagerJob) :
    Phased (m.drop job) :=
  h.shrink rfl rfl rfl fun job' hjob' => ⟨job', List.mem_of_mem_erase hjob', rfl, rfl⟩

/-- A job that may finalize is one of a contract that is over. -/
theorem Phased.not_live {m : ManagerMedium Key} (h : Phased m) {job : AgencyManager.ManagerJob}
    (hjob : job ∈ m.jobs) (hnot : ¬ Plain job) : ¬ m.state.Live :=
  fun hl => hnot ((h.live hl).2 job hjob)

theorem phased_done {m : ManagerMedium Key} (h : Phased m) {job : AgencyManager.ManagerJob}
    (hjob : job ∈ m.jobs) :
    Phased (if job.terminates then (m.drop job).finalize else m.drop job) := by
  split
  · rename_i ht
    refine h.finalize rfl rfl (h.not_live hjob fun hplain => ?_)
    rw [hplain.1] at ht
    cases ht
  · exact h.drop job

theorem phased_start {m m' : ManagerMedium Key} {bids : Nat} {job : AgencyManager.ManagerJob}
    (h : Phased m) (hstart : m.start (AgencyManager.own bids) job = some m') : Phased m' := by
  obtain ⟨hjob, -, ⟨hensure, ⟨callback, -, rfl⟩ | ⟨callback, hm, rfl⟩ | ⟨method, hm, rfl⟩⟩ | rfl⟩ :=
    Medium.start_cases hstart
  · refine h.shrink rfl rfl rfl fun job' hjob' => ?_
    obtain hjob' | hjob' := List.mem_append.mp hjob'
    · exact ⟨job', List.mem_of_mem_erase hjob', rfl, rfl⟩
    · rw [List.mem_singleton.mp hjob']
      exact ⟨job, hjob, rfl, rfl⟩
  · have hover : ¬ m.state.Live := h.not_live hjob fun hplain => by
      obtain ⟨-, hp⟩ := hplain
      rw [hm] at hp
      simp at hp
    refine ⟨?_, ?_, ?_, fun hl => ?_, fun job' hjob' hm' => ?_, fun job' hjob' hm' => ?_⟩
    · simpa [Medium.runAndTerminate] using h.timeout
    · simpa [Medium.runAndTerminate] using h.armed
    · simpa [Medium.runAndTerminate] using h.disarmed
    · exact absurd (by simpa [Medium.runAndTerminate] using hl) hover
    · refine ⟨fun hi => hover (.inl ?_), fun ha => absurd (.inr (.inl ?_)) hover⟩
      · simpa [Medium.runAndTerminate] using hi
      · simpa [Medium.runAndTerminate] using ha
    · obtain hjob' | rfl := Medium.mem_callAgentSide hjob'
      · have hnone := h.grantExpiring job' (List.mem_of_mem_erase hjob') hm'
        simpa [Medium.runAndTerminate] using hnone
      · cases hm'
  · cases method with
    | finalize =>
      refine h.finalize rfl rfl (h.not_live hjob fun hplain => ?_)
      obtain ⟨-, hp⟩ := hplain
      rw [hm] at hp
      simp at hp
    | onAnnounceExpire =>
      dsimp only [AgencyManager.own]
      split
      · rename_i ha
        exact (h.drop job).close ha ((h.announceExpiring job hjob hm).2 ha) bids
      · exact h.drop job
    | onGrantExpire =>
      have hnone := h.grantExpiring job hjob hm
      apply Phased.ended
      · simp [AgencyManager.own, Medium.runAndTerminate, ContractState.Live]
      · simpa [AgencyManager.own, Medium.runAndTerminate] using hnone
  · exact phased_done h hjob

theorem turn_phased {m m' : ManagerMedium Key} (h : Phased m) (hturn : Turn ready m m') :
    Phased m' := by
  cases hturn with
  | idle _ => exact h.record _
  | announce hs _ =>
    have hlive := h.live (.inl hs)
    refine ⟨fun t ht => ?_, fun hg => ?_, fun hf => ?_, fun _ => ⟨?_, fun job hjob => ?_⟩,
      fun job hjob hm => ?_, fun job hjob hm => ?_⟩
    · obtain rfl := Option.some.inj ht
      exact .inr (.inl ⟨rfl, by simp⟩)
    · simp at hg
    · simp [hlive.1] at hf
    · simp [hlive.1]
    · exact hlive.2 job (by simpa using hjob)
    · exact absurd hs (h.announceExpiring job (by simpa using hjob) hm).1
    · have hplain := (hlive.2 job (by simpa using hjob)).2
      rw [hm] at hplain
      simp at hplain
  | grant hs _ =>
    have hlive := h.live (ContractState.live_of_open hs)
    refine ⟨fun t ht => ?_, fun _ => rfl, fun hf => ?_, fun _ => ⟨?_, fun job hjob => ?_⟩,
      fun job hjob hm => ⟨?_, fun ha => ?_⟩, fun job hjob hm => ?_⟩
    · obtain rfl := Option.some.inj ht
      exact .inr (.inr (.inr ⟨rfl, .inl (by simp)⟩))
    · simp [hlive.1] at hf
    · simp [hlive.1]
    · exact hlive.2 job (by simpa using hjob)
    · simp
    · simp at ha
    · have hplain := (hlive.2 job (by simpa using hjob)).2
      rw [hm] at hplain
      simp at hplain
  | cancel hs _ _ =>
    exact h.cancelled hs (by simp) (by simp) (by simp) fun job hjob => .inl (by simpa using hjob)
  | cancelTold hs _ _ _ _ =>
    refine h.cancelled hs (by simp [Medium.runAndTerminate]) (by simp [Medium.runAndTerminate])
      (by simp [Medium.runAndTerminate]) fun job hjob => ?_
    obtain hjob | rfl := Medium.mem_callAgentSide hjob
    · exact .inl (by simpa using hjob)
    · exact .inr rfl
  | terminate hs _ => exact h.finalize (by simp) (by simp) (by simp [ContractState.Live])
  | close hs _ =>
    refine ((h.record _).untimed ?_).close hs rfl _
    rw [Medium.record_state, hs]
    decide
  | complete hs _ _ => exact .ended (by simp [ContractState.Live]) rfl
  | completed hs => exact h.finalize rfl rfl hs
  | fire _ hfire => exact phased_fire h hfire
  | start hstart => exact phased_start h hstart
  | finish hfinish =>
    obtain ⟨hjob, -, rfl | rfl⟩ := Medium.finish_cases hfinish
    · exact h.finalize (by simp) (by simp) (by simp [ContractState.Live])
    · exact phased_done h hjob

/-- A contract that is over stays over. -/
theorem turn_over {m m' : ManagerMedium Key} (h : Phased m) (hturn : Turn ready m m')
    (hs : ¬ m.state.Live) : ¬ m'.state.Live := by
  cases hturn with
  | idle _ => exact hs
  | announce hi _ => exact absurd (.inl hi) hs
  | grant hg _ => exact absurd (ContractState.live_of_open hg) hs
  | cancel _ _ _ => simp [ContractState.Live]
  | cancelTold _ _ _ _ _ => simp [Medium.runAndTerminate, ContractState.Live]
  | terminate _ _ => simp [ContractState.Live]
  | close ha _ => exact absurd (.inr (.inl ha)) hs
  | complete _ _ _ => simp [ContractState.Live]
  | completed _ => rwa [Medium.finalize_state]
  | fire _ hfire =>
    obtain ⟨t, ht, hcases⟩ := Medium.fire_cases hfire
    obtain ⟨-, hi⟩ | ⟨-, ha⟩ | ⟨-, hc⟩ | ⟨rfl, -⟩ := h.timeout t ht
    · exact absurd (.inl hi) hs
    · exact absurd (.inr (.inl ha)) hs
    · exact absurd (.inr (.inr (.inl hc))) hs
    · obtain ⟨hn, -⟩ | ⟨st, hst, rfl⟩ := hcases
      · cases hn
      · cases hst
        simp [ContractState.Live]
  | start hstart =>
    obtain ⟨-, -, ⟨-, ⟨_, -, rfl⟩ | ⟨_, -, rfl⟩ | ⟨method, -, rfl⟩⟩ | rfl⟩ :=
      Medium.start_cases hstart
    · exact hs
    · simpa [Medium.runAndTerminate] using hs
    · cases method with
      | finalize => simpa [AgencyManager.own] using hs
      | onAnnounceExpire =>
        dsimp only [AgencyManager.own]
        split
        · rename_i ha
          exact absurd (.inr (.inl ha)) hs
        · exact hs
      | onGrantExpire => simp [AgencyManager.own, Medium.runAndTerminate, ContractState.Live]
    · split
      · simpa using hs
      · exact hs
  | finish hfinish =>
    obtain ⟨-, -, rfl | rfl⟩ := Medium.finish_cases hfinish
    · simp [ContractState.Live]
    · split
      · simpa using hs
      · exact hs

/-! ## After the grant -/

def isExpired : ManagerCallback → Bool
  | .expired => true
  | _ => false

/-- Jobs that lead to `expired()`. -/
def leadsToExpired : Method ManagerCallback ManagerMethod → Bool
  | .agent .expired | .runAndTerminate .expired => true
  | _ => false

/-- What the log tells of the grant: nothing closes or expires after it. -/
structure GrantFinal (m : ManagerMedium Key) : Prop where
  ungranted : m.state = .initiated ∨ m.state = .announced ∨ m.state = .closed →
    .entered .granted ∉ m.log
  expiring : ∀ job ∈ m.jobs, leadsToExpired job.method = true → .entered .granted ∉ m.log
  grants : ∀ k, .sent (.to k .grant) ∈ m.log → .entered .granted ∈ m.log
  forward : Never (· = .entered .granted) (fun e => e = .entered .closed ∨ e = .entered .expired)
    m.log
  expired : Never (fun e => ∃ k, e = .sent (.to k .grant)) (· = .called .expired) m.log

/-- Entries that neither grant nor close nor expire. -/
def Neutral (e : ManagerEntry Key) : Prop :=
  e ≠ .entered .granted ∧ e ≠ .entered .closed ∧ e ≠ .entered .expired ∧ e ≠ .called .expired ∧
    ∀ k, e ≠ .sent (.to k .grant)

theorem Idle.neutral {e : ManagerEntry Key} (h : Idle e) : Neutral e := by
  refine ⟨?_, ?_, ?_, ?_, fun k => ?_⟩ <;> intro he <;> rw [he] at h <;> exact h

theorem neutral_cancellation {e : ManagerEntry Key}
    (h : ∃ k, e = .sent (.to k .cancellation)) : Neutral e := by
  obtain ⟨k, rfl⟩ := h
  simp [Neutral]

/-- What adds neutral entries, and no job that leads to `expired()`. -/
theorem GrantFinal.extend {m m' : ManagerMedium Key} (h : GrantFinal m)
    {es : List (ManagerEntry Key)} (hlog : m'.log = m.log ++ es) (hes : ∀ e ∈ es, Neutral e)
    (hs : m'.state = .initiated ∨ m'.state = .announced ∨ m'.state = .closed →
      m.state = .initiated ∨ m.state = .announced ∨ m.state = .closed)
    (hj : ∀ job ∈ m'.jobs, leadsToExpired job.method = true →
      ∃ job' ∈ m.jobs, leadsToExpired job'.method = true) : GrantFinal m' := by
  have hgranted : (.entered .granted ∈ m'.log) → .entered .granted ∈ m.log := by
    rw [hlog]
    intro hm
    obtain hm | hm := List.mem_append.mp hm
    · exact hm
    · exact absurd rfl (hes _ hm).1
  refine ⟨fun hm hin => h.ungranted (hs hm) (hgranted hin), fun job hjob hl hin => ?_,
    fun k hk => ?_, ?_, ?_⟩
  · obtain ⟨job', hjob', hl'⟩ := hj job hjob hl
    exact h.expiring job' hjob' hl' (hgranted hin)
  · rw [hlog] at hk ⊢
    obtain hk | hk := List.mem_append.mp hk
    · exact List.mem_append_left _ (h.grants k hk)
    · exact absurd rfl ((hes _ hk).2.2.2.2 k)
  · rw [hlog]
    refine h.forward.append fun e he hbad => ?_
    obtain hbad | hbad := hbad
    · exact (hes e he).2.1 hbad
    · exact (hes e he).2.2.1 hbad
  · rw [hlog]
    exact h.expired.append fun e he hbad => (hes e he).2.2.2.1 hbad

theorem neutral_entered {st : ContractState} (hg : st ≠ .granted) (hc : st ≠ .closed)
    (he : st ≠ .expired) : Neutral (.entered st : ManagerEntry Key) := by
  simp [Neutral, hg, hc, he]

theorem GrantFinal.setState {m : ManagerMedium Key} (h : GrantFinal m) {st : ContractState}
    (hst : ¬ st.Live) (he : st ≠ .expired) : GrantFinal (m.setState st) := by
  obtain ⟨es, hlog, hes⟩ := Medium.setState_entries m st
  have hlive : st ≠ .initiated ∧ st ≠ .announced ∧ st ≠ .closed ∧ st ≠ .granted := by
    simpa [ContractState.Live] using hst
  refine h.extend hlog (fun e hm => ?_) (fun hs => ?_) fun job hjob hl => ⟨job, ?_, hl⟩
  · rw [hes e hm]
    exact neutral_entered hlive.2.2.2 hlive.2.2.1 he
  · rw [Medium.setState_state] at hs
    simp [hlive] at hs
  · simpa using hjob

theorem GrantFinal.record {m : ManagerMedium Key} (h : GrantFinal m) {es : List (ManagerEntry Key)}
    (hes : ∀ e ∈ es, Neutral e) : GrantFinal (m.record es) :=
  h.extend rfl hes id fun job hjob hl => ⟨job, hjob, hl⟩

/-- What takes jobs away at most. -/
theorem GrantFinal.shrink {m m' : ManagerMedium Key} (h : GrantFinal m) (hlog : m'.log = m.log)
    (hs : m'.state = m.state) (hj : ∀ job ∈ m'.jobs, job ∈ m.jobs) : GrantFinal m' := by
  refine h.extend (hlog.trans (List.append_nil _).symm) (by simp) (fun hm => ?_)
    fun job hjob hl => ⟨job, hj job hjob, hl⟩
  rwa [hs] at hm

theorem GrantFinal.cancelTimeout {m : ManagerMedium Key} (h : GrantFinal m) :
    GrantFinal m.cancelTimeout :=
  h.shrink rfl rfl fun _ hjob => hjob

theorem GrantFinal.finalize {m : ManagerMedium Key} (h : GrantFinal m) : GrantFinal m.finalize :=
  h.shrink Medium.finalize_log Medium.finalize_state fun _ hjob =>
    Medium.finalize_jobs.subset hjob

theorem GrantFinal.drop {m : ManagerMedium Key} (h : GrantFinal m)
    (job : AgencyManager.ManagerJob) : GrantFinal (m.drop job) :=
  h.shrink rfl rfl fun _ hjob => List.mem_of_mem_erase hjob

/-- A call that does not lead to `expired()`. -/
theorem GrantFinal.call {m : ManagerMedium Key} (h : GrantFinal m)
    {method : Method ManagerCallback ManagerMethod} (hm : leadsToExpired method = false)
    (ensure : Option ContractState) (terminates : Bool) :
    GrantFinal (m.callAgentSide method ensure terminates) := by
  refine h.extend (Medium.callAgentSide_log.trans (List.append_nil _).symm) (by simp)
    (fun hs => ?_) fun job hjob hl => ?_
  · simpa using hs
  · obtain hjob | rfl := Medium.mem_callAgentSide hjob
    · exact ⟨job, hjob, hl⟩
    · rw [hm] at hl
      cases hl

/-- A call that does, of a contract that was not granted. -/
theorem GrantFinal.callExpired {m : ManagerMedium Key} (h : GrantFinal m)
    (hnot : .entered .granted ∉ m.log) (method : Method ManagerCallback ManagerMethod)
    (ensure : Option ContractState) (terminates : Bool) :
    GrantFinal (m.callAgentSide method ensure terminates) := by
  refine ⟨?_, ?_, ?_, ?_, ?_⟩
  · rw [Medium.callAgentSide_log]
    exact fun _ => hnot
  · rw [Medium.callAgentSide_log]
    exact fun _ _ _ => hnot
  · rw [Medium.callAgentSide_log]
    exact h.grants
  · rw [Medium.callAgentSide_log]
    exact h.forward
  · rw [Medium.callAgentSide_log]
    exact h.expired

/-- Closing or expiring a contract that was not granted. -/
theorem GrantFinal.enter {m : ManagerMedium Key} (h : GrantFinal m)
    (hnot : .entered .granted ∉ m.log) {st : ContractState} (hst : st = .closed ∨ st = .expired) :
    GrantFinal (m.setState st) ∧ .entered .granted ∉ (m.setState st).log := by
  obtain ⟨es, hlog, hes⟩ := Medium.setState_entries m st
  have hstill : .entered .granted ∉ (m.setState st).log := by
    rw [hlog]
    intro hm
    obtain hm | hm := List.mem_append.mp hm
    · exact hnot hm
    · have he := hes _ hm
      obtain rfl | rfl := hst <;> cases he
  refine ⟨⟨fun _ => hstill, fun _ _ _ => hstill, fun k hk => ?_, ?_, ?_⟩, hstill⟩
  · rw [hlog] at hk ⊢
    obtain hk | hk := List.mem_append.mp hk
    · exact List.mem_append_left _ (h.grants k hk)
    · cases hes _ hk
  · refine never_iff.mpr fun xs x ys he hx => absurd ?_ hstill
    rw [he, ← hx]
    simp
  · rw [hlog]
    refine h.expired.append fun e hm hbad => ?_
    have he := (hes e hm).symm.trans hbad
    cases he

theorem GrantFinal.close {m : ManagerMedium Key} (h : GrantFinal m)
    (hnot : .entered .granted ∉ m.log) (bids : Nat) :
    GrantFinal (AgencyManager.gotoClosedOrExpired bids m) := by
  unfold AgencyManager.gotoClosedOrExpired
  split
  · have htimed : GrantFinal (m.setTimeout (some .expired) (.runAndTerminate .expired)) :=
      h.shrink rfl rfl fun _ hjob => hjob
    obtain ⟨hclosed, hnot'⟩ := htimed.enter hnot (.inl rfl)
    exact hclosed.callExpired hnot' _ _ _
  · obtain ⟨hexpired, hnot'⟩ := h.enter hnot (.inr rfl)
    exact hexpired.callExpired hnot' _ _ _

theorem grantFinal_grant {m : ManagerMedium Key} (hp : Phased m) (h : GrantFinal m)
    {es : List (ManagerEntry Key)} (hs : m.state = .closed ∨ m.state = .announced)
    (hes : ∀ e ∈ es, Idle e ∨ ∃ k, e = .sent (.to k .grant)) :
    GrantFinal (((m.setState .granted).setTimeout (some .aborted) (.own .onGrantExpire)).record es)
    := by
  have hnot := h.ungranted (hs.elim (fun hc => .inr (.inr hc)) fun ha => .inr (.inl ha))
  have hlive := hp.live (ContractState.live_of_open hs)
  have hne : m.state ≠ .granted := by
    obtain hs | hs := hs <;> rw [hs] <;> decide
  have hlog : (((m.setState .granted).setTimeout (some .aborted) (.own .onGrantExpire)).record
      es).log = m.log ++ [.entered .granted] ++ es := by
    rw [Medium.record_log, Medium.setTimeout_log, Medium.setState_log hne]
  refine ⟨fun hm => ?_, fun job hjob hl => ?_, fun k _ => ?_, ?_, ?_⟩
  · simp at hm
  · obtain ⟨-, hm⟩ := hlive.2 job (by simpa using hjob)
    obtain hm | hm | hm := hm <;> rw [hm] at hl <;> cases hl
  · rw [hlog]
    simp
  · rw [hlog]
    refine (h.forward.append fun e he hbad => ?_).append fun e he hbad => ?_
    · rw [List.mem_singleton.mp he] at hbad
      simp at hbad
    · obtain hi | ⟨k, rfl⟩ := hes e he
      · obtain hbad | hbad := hbad
        · exact hi.neutral.2.1 hbad
        · exact hi.neutral.2.2.1 hbad
      · simp at hbad
  · rw [hlog]
    refine (h.expired.append fun e he hbad => ?_).append fun e he hbad => ?_
    · rw [List.mem_singleton.mp he] at hbad
      cases hbad
    · obtain hi | ⟨k, rfl⟩ := hes e he
      · exact hi.neutral.2.2.2.1 hbad
      · cases hbad

theorem grantFinal_fire {m m' : ManagerMedium Key} (hp : Phased m) (h : GrantFinal m)
    (hfire : m.fire = some m') : GrantFinal m' := by
  have hspent : GrantFinal (m.cancelTimeout.record [.timedOut]) :=
    h.cancelTimeout.record (by simp [Neutral])
  obtain ⟨t, ht, hcases⟩ := Medium.fire_cases hfire
  obtain ⟨rfl, -⟩ | ⟨rfl, -⟩ | ⟨rfl, hc⟩ | ⟨rfl, -⟩ := hp.timeout t ht
  · obtain ⟨hn, -⟩ | ⟨st, hst, rfl⟩ := hcases
    · cases hn
    · cases hst
      exact (hspent.setState (by decide) (by decide)).call rfl _ _
  · obtain ⟨-, rfl⟩ | ⟨st, hst, -⟩ := hcases
    · exact hspent.call rfl _ _
    · cases hst
  · obtain ⟨hn, -⟩ | ⟨st, hst, rfl⟩ := hcases
    · cases hn
    · cases hst
      have hnot : .entered .granted ∉ (m.cancelTimeout.record [.timedOut]).log := by
        simpa using h.ungranted (.inr (.inr hc))
      obtain ⟨hexpired, hnot'⟩ := hspent.enter hnot (.inr rfl)
      exact hexpired.callExpired hnot' _ _ _
  · obtain ⟨hn, -⟩ | ⟨st, hst, rfl⟩ := hcases
    · cases hn
    · cases hst
      exact (hspent.setState (by decide) (by decide)).call rfl _ _

theorem grantFinal_start {m m' : ManagerMedium Key} {bids : Nat} {job : AgencyManager.ManagerJob}
    (h : GrantFinal m) (hstart : m.start (AgencyManager.own bids) job = some m') :
    GrantFinal m' := by
  obtain ⟨hjob, -, ⟨-, ⟨callback, hm, rfl⟩ | ⟨callback, hm, rfl⟩ | ⟨method, hm, rfl⟩⟩ | rfl⟩ :=
    Medium.start_cases hstart
  · -- `expired()` is called only where nothing was granted
    have hnot : callback = .expired → ∀ e ∈ m.log, ¬ ∃ k, e = .sent (.to k .grant) := by
      intro hc e he ⟨k, hk⟩
      rw [hk] at he
      refine h.expiring job hjob ?_ (h.grants k he)
      rw [hm, hc]
      rfl
    have hneutral : ∀ e ∈ [(.called callback : ManagerEntry Key)], e ≠ .entered .granted ∧
        e ≠ .entered .closed ∧ e ≠ .entered .expired ∧ ∀ k, e ≠ .sent (.to k .grant) := by
      simp
    refine ⟨fun hs hin => ?_, fun job' hjob' hl hin => ?_, fun k hk => ?_, ?_, ?_⟩
    · obtain hin | hin := List.mem_append.mp hin
      · exact h.ungranted hs hin
      · simp at hin
    · obtain hin | hin := List.mem_append.mp hin
      · obtain hjob' | hjob' := List.mem_append.mp hjob'
        · exact h.expiring job' (List.mem_of_mem_erase hjob') hl hin
        · rw [List.mem_singleton.mp hjob'] at hl
          exact h.expiring job hjob hl hin
      · simp at hin
    · obtain hk | hk := List.mem_append.mp hk
      · exact List.mem_append_left _ (h.grants k hk)
      · simp at hk
    · refine h.forward.append fun e he hbad => ?_
      obtain hbad | hbad := hbad
      · exact (hneutral e he).2.1 hbad
      · exact (hneutral e he).2.2.1 hbad
    · exact h.expired.concat fun hc => hnot (by simpa using hc)
  · cases hl : leadsToExpired job.method with
    | true => exact (h.drop job).callExpired (h.expiring job hjob hl) _ _ _
    | false =>
      refine (h.drop job).call ?_ _ _
      rw [hm] at hl
      cases callback <;> first | rfl | cases hl
  · cases method with
    | finalize => exact (h.drop job).finalize
    | onAnnounceExpire =>
      dsimp only [AgencyManager.own]
      split
      · rename_i ha
        exact (h.drop job).close (h.ungranted (.inr (.inl ha))) bids
      · exact h.drop job
    | onGrantExpire => exact ((h.drop job).setState (by decide) (by decide)).call rfl _ _
  · split
    · exact (h.drop job).finalize
    · exact h.drop job

theorem turn_grantFinal {m m' : ManagerMedium Key} (hp : Phased m) (h : GrantFinal m)
    (hturn : Turn ready m m') : GrantFinal m' := by
  have hcancelled : ∀ pre post : List (ManagerEntry Key), (∀ e ∈ pre, Idle e) →
      (∀ e ∈ post, ∃ k, e = .sent (.to k .cancellation)) →
      GrantFinal (((m.record pre).setState .cancelled).record post) := by
    intro pre post hpre hpost
    refine GrantFinal.record ?_ fun e he => neutral_cancellation (hpost e he)
    exact (h.record fun e he => (hpre e he).neutral).setState (by decide) (by decide)
  cases hturn with
  | idle hes => exact h.record fun e he => (hes e he).neutral
  | announce hs hes =>
    obtain ⟨es, hlog, he⟩ := Medium.setState_entries m .announced
    have hannounced : GrantFinal (m.setState .announced) := by
      refine h.extend hlog (fun e hm => ?_) (fun _ => .inl hs) fun job hjob hl => ⟨job, ?_, hl⟩
      · rw [he e hm]
        exact neutral_entered (by decide) (by decide) (by decide)
      · simpa using hjob
    exact (hannounced.record fun e he => (hes e he).neutral).shrink rfl rfl fun _ hjob => hjob
  | grant hs hes => exact grantFinal_grant hp h hs hes
  | cancel _ hpre hpost => exact hcancelled _ _ hpre hpost
  | cancelTold _ hpre hpost _ _ => exact (hcancelled _ _ hpre hpost).call rfl _ _
  | terminate _ hes =>
    exact ((h.record fun e he => (hes e he).neutral).setState (by decide) (by decide)).finalize
  | close hs hes =>
    have hrecorded := h.record fun e he => (hes e he).neutral
    refine hrecorded.cancelTimeout.close ?_ _
    intro hin
    obtain hin | hin := List.mem_append.mp hin
    · exact h.ungranted (.inr (.inl hs)) hin
    · exact (hes _ hin).neutral.1 rfl
  | complete _ hpre hpost =>
    have hneutral : ∀ e ∈ [(.called .completed : ManagerEntry Key)], Neutral e := by simp [Neutral]
    have hpre' := h.record fun e he => (hpre e he).neutral
    have hset := hpre'.setState (by decide : ¬ ContractState.completed.Live) (by decide)
    have hdone := hset.cancelTimeout
    exact (hdone.record fun e he => (hpost e he).neutral).record hneutral
  | completed _ => exact h.finalize
  | fire _ hfire => exact grantFinal_fire hp h hfire
  | start hstart => exact grantFinal_start h hstart
  | finish hfinish =>
    obtain ⟨-, -, rfl | rfl⟩ := Medium.finish_cases hfinish
    · exact ((h.drop _).setState (by decide) (by decide)).finalize
    · split
      · exact (h.drop _).finalize
      · exact h.drop _

/-! ## Closing once -/

def isClosed : ManagerCallback → Bool
  | .closed => true
  | _ => false

def leadsToClosed : Method ManagerCallback ManagerMethod → Bool
  | .agent callback | .runAndTerminate callback => isClosed callback
  | .own _ => false

/-- How often `closed()` was called or is about to be. -/
def closings (m : ManagerMedium Key) : Nat := m.calls isClosed leadsToClosed

/-- The announce period is open or to come. -/
def ContractState.Early (s : ContractState) : Prop := s = .initiated ∨ s = .announced

structure ClosedOnce (m : ManagerMedium Key) : Prop where
  early : m.state.Early → closings m = 0
  once : closings m ≤ 1

/-- What neither closes a contract nor takes it back. -/
theorem ClosedOnce.keep {m m' : ManagerMedium Key} (h : ClosedOnce m)
    (hs : m'.state.Early → m.state.Early) (hle : closings m' ≤ closings m) : ClosedOnce m' := by
  have honce := h.once
  refine ⟨fun he => ?_, by omega⟩
  have hzero := h.early (hs he)
  omega

theorem closings_record {m : ManagerMedium Key} {es : List (ManagerEntry Key)}
    (h : .called .closed ∉ es) : closings (m.record es) = closings m := by
  refine Medium.calls_record es fun cb hcb => ?_
  cases cb <;> first | rfl | exact absurd hcb h

theorem not_closed_of_neutral {es : List (ManagerEntry Key)} (h : ∀ e ∈ es, Idle e) :
    .called .closed ∉ es := fun hm => h _ hm

theorem closings_setState (m : ManagerMedium Key) (st : ContractState) :
    closings (m.setState st) = closings m := Medium.calls_setState st

theorem closings_call (m : ManagerMedium Key) {method : Method ManagerCallback ManagerMethod}
    (h : leadsToClosed method = false) (ensure : Option ContractState) (terminates : Bool) :
    closings (m.callAgentSide method ensure terminates) ≤ closings m := by
  have hcalls := Medium.calls_callAgentSide (m := m) (p := isClosed) (q := leadsToClosed) method
    ensure terminates
  rw [h] at hcalls
  exact hcalls

theorem closings_finalize (m : ManagerMedium Key) : closings m.finalize ≤ closings m :=
  Medium.calls_finalize

theorem closings_drop (m : ManagerMedium Key) (job : AgencyManager.ManagerJob) :
    closings (m.drop job) ≤ closings m := Medium.calls_drop_le

theorem ClosedOnce.close {m : ManagerMedium Key} (h : ClosedOnce m) (hs : m.state = .announced)
    (bids : Nat) : ClosedOnce (AgencyManager.gotoClosedOrExpired bids m) := by
  have hzero := h.early (.inr hs)
  unfold AgencyManager.gotoClosedOrExpired
  split
  · have hclosed : closings (AgencyManager.closeAnnouncePeriod m) ≤ closings m + 1 := by
      have hcalls := Medium.calls_callAgentSide (p := isClosed) (q := leadsToClosed)
        (m := (m.setTimeout (some .expired) (.runAndTerminate .expired)).setState .closed)
        (.agent .closed) (some .closed) false
      have hset := closings_setState (m.setTimeout (some .expired) (.runAndTerminate .expired))
        .closed
      exact hcalls.trans (Nat.add_le_add_right hset.le 1)
    refine ⟨fun he => ?_, by omega⟩
    simp [AgencyManager.closeAnnouncePeriod, ContractState.Early] at he
  · refine h.keep (fun he => ?_) ?_
    · simp [Medium.runAndTerminate, ContractState.Early] at he
    · exact (closings_call _ rfl _ _).trans (closings_setState m .expired).le

theorem ClosedOnce.drop {m : ManagerMedium Key} (h : ClosedOnce m)
    (job : AgencyManager.ManagerJob) : ClosedOnce (m.drop job) := h.keep id (closings_drop m job)

theorem turn_closedOnce {m m' : ManagerMedium Key} (hp : Phased m) (h : ClosedOnce m)
    (hturn : Turn ready m m') : ClosedOnce m' := by
  have hdone : ∀ job : AgencyManager.ManagerJob,
      ClosedOnce (if job.terminates then (m.drop job).finalize else m.drop job) := by
    intro job
    split
    · exact h.keep (by simp) ((closings_finalize _).trans (closings_drop m job))
    · exact h.drop job
  cases hturn with
  | idle hes => exact h.keep id (closings_record (not_closed_of_neutral hes)).le
  | announce hs hes =>
    refine h.keep (fun _ => .inl hs) ?_
    have hset := closings_setState m .announced
    have hrec := closings_record (m := m.setState .announced) (not_closed_of_neutral hes)
    exact (hrec.trans hset).le
  | grant hs hes =>
    refine h.keep (fun he => ?_) ?_
    · simp [ContractState.Early] at he
    · have hset := closings_setState m .granted
      refine (closings_record ?_).le.trans hset.le
      intro hm
      obtain hi | ⟨k, hk⟩ := hes _ hm
      · exact hi
      · cases hk
  | cancel hs hpre hpost =>
    refine h.keep (fun he => ?_) ?_
    · simp [ContractState.Early] at he
    · have hpre' := closings_record (m := m) (not_closed_of_neutral hpre)
      refine (closings_record fun hm => ?_).le.trans ((closings_setState _ _).trans hpre').le
      obtain ⟨k, hk⟩ := hpost _ hm
      cases hk
  | cancelTold hs hpre hpost _ _ =>
    refine h.keep (fun he => ?_) ((closings_call _ rfl _ _).trans ?_)
    · simp [Medium.runAndTerminate, ContractState.Early] at he
    · have hpre' := closings_record (m := m) (not_closed_of_neutral hpre)
      refine (closings_record fun hm => ?_).le.trans ((closings_setState _ _).trans hpre').le
      obtain ⟨k, hk⟩ := hpost _ hm
      cases hk
  | terminate hs hes =>
    refine h.keep (fun he => ?_) ((closings_finalize _).trans ?_)
    · simp [ContractState.Early] at he
    · exact ((closings_setState _ _).trans (closings_record (not_closed_of_neutral hes))).le
  | close hs hes =>
    have hrec := closings_record (m := m) (not_closed_of_neutral hes)
    exact ClosedOnce.close (h.keep id hrec.le : ClosedOnce (m.record _).cancelTimeout) hs _
  | complete hs hpre hpost =>
    refine h.keep (fun he => ?_) ?_
    · simp [ContractState.Early] at he
    · have hpre' := closings_record (m := m) (not_closed_of_neutral hpre)
      refine (closings_record (by simp)).le.trans ?_
      refine (closings_record (not_closed_of_neutral hpost)).le.trans ?_
      exact ((closings_setState _ _).trans hpre').le
  | completed _ => exact h.keep (by simp) (closings_finalize m)
  | fire _ hfire =>
    obtain ⟨t, ht, hcases⟩ := Medium.fire_cases hfire
    have hspent : closings ((m.cancelTimeout).record [.timedOut]) = closings m :=
      closings_record (m := m.cancelTimeout) (by simp)
    have hleads : leadsToClosed t.callback = false := by
      obtain ⟨rfl, -⟩ | ⟨rfl, -⟩ | ⟨rfl, -⟩ | ⟨rfl, -⟩ := hp.timeout t ht
      · rfl
      · rfl
      · rfl
      · rfl
    obtain ⟨-, rfl⟩ | ⟨st, hst, rfl⟩ := hcases
    · exact h.keep (by simp) ((closings_call _ hleads _ _).trans hspent.le)
    · refine h.keep (fun he => ?_) ((closings_call _ hleads _ _).trans ?_)
      · obtain ⟨rfl, -⟩ | ⟨rfl, -⟩ | ⟨rfl, -⟩ | ⟨rfl, -⟩ := hp.timeout t ht <;> cases hst <;>
          simp [ContractState.Early] at he
      · exact ((closings_setState _ _).trans hspent).le
  | start hstart =>
    obtain ⟨hjob, hq, ⟨-, ⟨callback, hm, rfl⟩ | ⟨callback, hm, rfl⟩ | ⟨method, hm, rfl⟩⟩ | rfl⟩ :=
      Medium.start_cases hstart
    · exact h.keep id (Medium.calls_started hjob hq hm rfl).le
    · refine h.keep (by simp [Medium.runAndTerminate]) ?_
      have hdrop := Medium.calls_drop (p := isClosed) (q := leadsToClosed) hjob hq
      rw [hm] at hdrop
      exact (Medium.calls_callAgentSide (.agent callback) none true).trans hdrop.le
    · cases method with
      | finalize =>
        dsimp only [AgencyManager.own]
        exact h.keep (by simp) ((closings_finalize _).trans (closings_drop m _))
      | onAnnounceExpire =>
        dsimp only [AgencyManager.own]
        split
        · rename_i ha
          exact (h.drop _).close ha _
        · exact h.drop _
      | onGrantExpire =>
        refine h.keep (fun he => ?_) ((closings_call _ rfl _ _).trans ?_)
        · simp [AgencyManager.own, Medium.runAndTerminate, ContractState.Early] at he
        · exact (closings_setState _ _).le.trans (closings_drop m _)
    · exact hdone _
  | finish hfinish =>
    obtain ⟨-, -, rfl | rfl⟩ := Medium.finish_cases hfinish
    · refine h.keep (fun he => ?_) ((closings_finalize _).trans ?_)
      · simp [ContractState.Early] at he
      · exact (closings_setState _ _).le.trans (closings_drop m _)
    · exact hdone _

/-! ## Runs -/

namespace AgencyManager
variable [DecidableEq Key] (order : HashOrder Key)

/-- The states of a manager whose announce period was closed in time. -/
structure Regular (m : AgencyManager Key) : Prop where
  attended : m.Attended
  phased : Phased m.medium

theorem start_regular (expected : Option Nat) : (start expected : AgencyManager Key).Regular := by
  refine ⟨⟨fun h => (by cases h), fun k hk => ?_⟩, fun t ht => ?_, ?_, ?_, fun _ => ⟨rfl, ?_⟩,
    ?_, ?_⟩
  · simp [start] at hk
  · obtain rfl := Option.some.inj ht
    exact .inl ⟨rfl, rfl⟩
  · simp [start]
  · simp [start]
  · simp [start, Medium.callAgentSide, Medium.setTimeout, Plain]
  · simp [start, Medium.callAgentSide, Medium.setTimeout]
  · simp [start, Medium.callAgentSide, Medium.setTimeout]

theorem step_regular {m m' : AgencyManager Key} {e : Event Key} (h : m.Regular)
    (htimely : m.Timely e) (hstep : step order m e = some m') : m'.Regular := by
  have hturn : Turn (fun _ => True) m.medium m'.medium :=
    step_turn order h.attended htimely (fun _ => trivial) hstep
  refine ⟨?_, turn_phased h.phased hturn⟩
  exact (step_cancels order hstep).attended h.attended (turn_over h.phased hturn)

theorem start_grantFinal (expected : Option Nat) :
    GrantFinal (start expected : AgencyManager Key).medium := by
  refine ⟨?_, ?_, ?_, ?_, ?_⟩
  · simp [start]
  · simp [start]
  · simp [start]
  · exact List.pairwise_singleton _ _
  · exact List.pairwise_singleton _ _

theorem start_closedOnce (expected : Option Nat) :
    ClosedOnce (start expected : AgencyManager Key).medium :=
  ⟨fun _ => rfl, Nat.zero_le 1⟩

theorem count_closed (m : ManagerMedium Key) :
    m.log.count (.called .closed) = m.made isClosed := by
  unfold List.count Medium.made
  apply List.countP_congr
  intro e _
  cases e with
  | called callback => cases callback <;> simp [isClosed]
  | _ => simp

/-- A contract that only went forward. -/
structure Forward (m : AgencyManager Key) : Prop where
  regular : m.Regular
  grantFinal : GrantFinal m.medium
  closedOnce : ClosedOnce m.medium

theorem start_forward (expected : Option Nat) : (start expected : AgencyManager Key).Forward :=
  ⟨start_regular expected, start_grantFinal expected, start_closedOnce expected⟩

theorem step_forward {m m' : AgencyManager Key} {e : Event Key} (h : m.Forward)
    (htimely : m.Timely e) (hstep : step order m e = some m') : m'.Forward := by
  have hturn : Turn (fun _ => True) m.medium m'.medium :=
    step_turn order h.regular.attended htimely (fun _ => trivial) hstep
  exact ⟨step_regular order h.regular htimely hstep,
    turn_grantFinal h.regular.phased h.grantFinal hturn,
    turn_closedOnce h.regular.phased h.closedOnce hturn⟩

/-- A granted contract goes back neither to `closed` nor to `expired`, `closed()` is called
    once and `expired()` never after a grant was sent, and the timeout of the grant stays
    until the contract leaves `granted`: in every run whose bid handlers end in time. -/
theorem forward_only (expected : Option Nat) (es : List (Event Key)) (m : AgencyManager Key)
    (hrun : Run (Guarded Timely (Defined (step order))) (start expected) es m) :
    Never (· = .entered .granted) (fun e => e = .entered .closed ∨ e = .entered .expired)
        m.medium.log ∧
      m.medium.log.count (.called .closed) ≤ 1 ∧
      Never (fun e => ∃ key, e = .sent (.to key .grant)) (· = .called .expired) m.medium.log ∧
      (m.medium.state = .granted → m.medium.timeout = some grantTimeout) := by
  obtain ⟨hreg, hfinal, honce⟩ : m.Forward :=
    hrun.preserves (fun _ _ _ h hstep => step_forward order h hstep.1 hstep.2)
      (start_forward expected)
  refine ⟨hfinal.forward, ?_, hfinal.expired, hreg.phased.armed⟩
  have hmade := honce.once
  unfold closings Medium.calls at hmade
  rw [count_closed]
  omega

/-- The only recipient bids, the announce period is closed, and the bid is granted. -/
theorem forward_only_granted :
    ∃ m, ([.announce, .message 1 .bid, .bidHandled, .grant [1]] : List (Event Nat)).foldlM
        (checked Timely (step .stored)) (start (some 1)) = some m ∧
      m.medium.state = .granted ∧ m.medium.timeout = some grantTimeout := by
  obtain ⟨m, hm, hs⟩ : ∃ m, ([.announce, .message 1 .bid, .bidHandled, .grant [1]]
        : List (Event Nat)).foldlM (checked Timely (step .stored)) (start (some 1)) = some m ∧
      m.medium.state = .granted := by
    apply Option.map_eq_some_iff.mp
    decide +kernel
  exact ⟨m, hm, hs, (forward_only .stored (some 1) _ m (run_checked hm)).2.2.2 hs⟩

/-- The bid of the only recipient is granted by the handler it is given to. The check
    after the handler cancels the timeout of the grant and expires the contract. -/
theorem grant_in_bid_expires :
    ¬ ∀ (order : HashOrder Nat) (expected : Option Nat) (es : List (Event Nat))
        (m : AgencyManager Nat), Run (Defined (step order)) (start expected) es m →
      Never (· = .entered .granted) (fun e => e = .entered .closed ∨ e = .entered .expired)
          m.medium.log ∧
        m.medium.log.count (.called .closed) ≤ 1 ∧
        Never (fun e => ∃ key, e = .sent (.to key .grant)) (· = .called .expired) m.medium.log ∧
        (m.medium.state = .granted → m.medium.timeout = some grantTimeout) := by
  intro h
  obtain ⟨m, hm, hlog⟩ : ∃ m, ([.announce, .message 1 .bid, .grant [1], .bidHandled]
        : List (Event Nat)).foldlM (step .stored) (start (some 1)) = some m ∧
      m.medium.log = [.entered .initiated, .entered .announced, .sent .announcement,
        .received (1, .bid), .called .bid, .entered .granted, .sent (.to 1 .grant),
        .entered .expired] := by
    apply Option.map_eq_some_iff.mp
    decide +kernel
  have hforward := (h .stored (some 1) _ m (run_defined hm)).1
  rw [hlog] at hforward
  exact never_iff.mp hforward [.entered .initiated, .entered .announced, .sent .announcement,
    .received (1, .bid), .called .bid] (.entered .granted)
    [.sent (.to 1 .grant), .entered .expired] rfl rfl (.entered .expired) (by simp) (.inr rfl)

end AgencyManager
end Feat.Agencies.Contracts
