import Mathlib.Data.List.Basic
import Mathlib.Data.List.Count

/- What both sides of a contract are built on (`AgencyMiddleBase` of
   `feat.agencies.common`): a state, one timeout, and jobs that call the agent's side
   later.

   `call_agent_side` queues a job. A queued job is started at some later turn, and only
   then is its `ensure_state` compared with the state; a handler on the agent's side
   takes any time, and the job is under way until it finishes. `finalize` cancels the
   timeout and the queued jobs; a handler that is under way runs on, with no effect but
   an error. A timeout may fire at any moment, so expiration times are left out.

   What happened is kept in `log` for the record; no code reads it. -/
namespace Feat.Agencies

/-- A method that is called later: of the agent's side, `_run_and_terminate` with one, or
    another method of the medium. -/
inductive Method (κ ι : Type) where
  | agent (callback : κ)
  | runAndTerminate (callback : κ)
  | own (method : ι)
  deriving DecidableEq

/-- A call of `call_agent_side`. -/
structure Job (σ κ ι : Type) where
  method : Method κ ι
  ensureState : Option σ
  terminates : Bool
  underWay : Bool
  deriving DecidableEq

/-- A call of `_timeout_target` to come. -/
structure Timeout (σ κ ι : Type) where
  state : Option σ
  callback : Method κ ι
  deriving DecidableEq

inductive Entry (σ κ μ ν : Type) where
  | entered (state : σ)
  | called (callback : κ)
  | sent (msg : μ)
  | received (msg : ν)
  | timedOut
  deriving DecidableEq

structure Medium (σ κ ι μ ν : Type) where
  state : σ
  timeout : Option (Timeout σ κ ι)
  jobs : List (Job σ κ ι)
  finalized : Bool
  log : List (Entry σ κ μ ν)

namespace Medium
variable {σ κ ι μ ν : Type}

def record (es : List (Entry σ κ μ ν)) (m : Medium σ κ ι μ ν) : Medium σ κ ι μ ν :=
  { m with log := m.log ++ es }

/-- `_set_state`. -/
def setState [DecidableEq σ] (state : σ) (m : Medium σ κ ι μ ν) : Medium σ κ ι μ ν :=
  if m.state = state then m else { m with state := state, log := m.log ++ [.entered state] }

/-- `cancel_timeout`. -/
def cancelTimeout (m : Medium σ κ ι μ ν) : Medium σ κ ι μ ν := { m with timeout := none }

/-- `set_timeout`. -/
def setTimeout (state : Option σ) (callback : Method κ ι) (m : Medium σ κ ι μ ν) :
    Medium σ κ ι μ ν :=
  { m with timeout := some ⟨state, callback⟩ }

/-- `call_agent_side`, which fails after `finalize`. -/
def callAgentSide (method : Method κ ι) (ensureState : Option σ) (terminates : Bool)
    (m : Medium σ κ ι μ ν) : Medium σ κ ι μ ν :=
  if m.finalized then m
  else { m with jobs := m.jobs ++ [⟨method, ensureState, terminates, false⟩] }

/-- `_run_and_terminate`. -/
def runAndTerminate (callback : κ) (ensureState : Option σ) (m : Medium σ κ ι μ ν) :
    Medium σ κ ι μ ν :=
  callAgentSide (.agent callback) ensureState true m

/-- `finalize`, with the `cleanup` it does. -/
def finalize (m : Medium σ κ ι μ ν) : Medium σ κ ι μ ν :=
  if m.finalized then m
  else { m with finalized := true, timeout := none, jobs := m.jobs.filter (·.underWay) }

/-- The timeout fires: `_timeout_target`. -/
def fire [DecidableEq σ] (m : Medium σ κ ι μ ν) : Option (Medium σ κ ι μ ν) :=
  m.timeout.map fun t =>
    let m := record [.timedOut] { m with timeout := none }
    let m := match t.state with
      | some state => setState state m
      | none => m
    callAgentSide t.callback t.state false m

/-! ## What the operations do -/

section
variable {m : Medium σ κ ι μ ν} {es : List (Entry σ κ μ ν)} {state : σ} {callback : Method κ ι}
  {ensure : Option σ} {terminates : Bool}

@[simp] theorem record_state : (record es m).state = m.state := rfl
@[simp] theorem record_timeout : (record es m).timeout = m.timeout := rfl
@[simp] theorem record_jobs : (record es m).jobs = m.jobs := rfl
@[simp] theorem record_finalized : (record es m).finalized = m.finalized := rfl
@[simp] theorem record_log : (record es m).log = m.log ++ es := rfl

theorem record_record {es' : List (Entry σ κ μ ν)} :
    record es' (record es m) = record (es ++ es') m := by
  simp [record]

theorem record_nil : record [] m = m := by
  simp [record]

@[simp] theorem setTimeout_state : (setTimeout ensure callback m).state = m.state := rfl
@[simp] theorem setTimeout_timeout :
    (setTimeout ensure callback m).timeout = some ⟨ensure, callback⟩ := rfl
@[simp] theorem setTimeout_jobs : (setTimeout ensure callback m).jobs = m.jobs := rfl
@[simp] theorem setTimeout_finalized :
    (setTimeout ensure callback m).finalized = m.finalized := rfl
@[simp] theorem setTimeout_log : (setTimeout ensure callback m).log = m.log := rfl

@[simp] theorem cancelTimeout_state : (cancelTimeout m).state = m.state := rfl
@[simp] theorem cancelTimeout_timeout : (cancelTimeout m).timeout = none := rfl
@[simp] theorem cancelTimeout_jobs : (cancelTimeout m).jobs = m.jobs := rfl
@[simp] theorem cancelTimeout_finalized : (cancelTimeout m).finalized = m.finalized := rfl
@[simp] theorem cancelTimeout_log : (cancelTimeout m).log = m.log := rfl

@[simp] theorem callAgentSide_state :
    (callAgentSide callback ensure terminates m).state = m.state := by
  unfold callAgentSide
  split <;> rfl

@[simp] theorem callAgentSide_timeout :
    (callAgentSide callback ensure terminates m).timeout = m.timeout := by
  unfold callAgentSide
  split <;> rfl

@[simp] theorem callAgentSide_finalized :
    (callAgentSide callback ensure terminates m).finalized = m.finalized := by
  unfold callAgentSide
  split <;> rfl

@[simp] theorem callAgentSide_log :
    (callAgentSide callback ensure terminates m).log = m.log := by
  unfold callAgentSide
  split <;> rfl

theorem callAgentSide_jobs (h : m.finalized = false) :
    (callAgentSide callback ensure terminates m).jobs =
      m.jobs ++ [⟨callback, ensure, terminates, false⟩] := by
  unfold callAgentSide
  simp [h]

theorem mem_callAgentSide {job : Job σ κ ι}
    (h : job ∈ (callAgentSide callback ensure terminates m).jobs) :
    job ∈ m.jobs ∨ job = ⟨callback, ensure, terminates, false⟩ := by
  unfold callAgentSide at h
  split at h
  · exact .inl h
  · simpa using h

@[simp] theorem finalize_state : (finalize m).state = m.state := by
  unfold finalize
  split <;> rfl

@[simp] theorem finalize_finalized : (finalize m).finalized = true := by
  unfold finalize
  split
  · assumption
  · rfl

@[simp] theorem finalize_log : (finalize m).log = m.log := by
  unfold finalize
  split <;> rfl

theorem finalize_timeout (h : m.finalized = true → m.timeout = none) :
    (finalize m).timeout = none := by
  unfold finalize
  split
  · rename_i hf
    exact h hf
  · rfl

theorem finalize_jobs : (finalize m).jobs.Sublist m.jobs := by
  unfold finalize
  split
  · exact .refl _
  · exact List.filter_sublist

section
variable [DecidableEq σ]

@[simp] theorem setState_state : (setState state m).state = state := by
  unfold setState
  split
  · assumption
  · rfl

@[simp] theorem setState_timeout : (setState state m).timeout = m.timeout := by
  unfold setState
  split <;> rfl

@[simp] theorem setState_jobs : (setState state m).jobs = m.jobs := by
  unfold setState
  split <;> rfl

@[simp] theorem setState_finalized : (setState state m).finalized = m.finalized := by
  unfold setState
  split <;> rfl

theorem setState_self (h : m.state = state) : setState state m = m := if_pos h

theorem setState_log (h : m.state ≠ state) :
    (setState state m).log = m.log ++ [.entered state] := by
  unfold setState
  rw [if_neg h]

/-- Only a change of state is an entry. -/
theorem setState_entries (m : Medium σ κ ι μ ν) (state : σ) :
    ∃ es, (setState state m).log = m.log ++ es ∧ ∀ e ∈ es, e = .entered state := by
  by_cases h : m.state = state
  · exact ⟨[], by rw [setState_self h, List.append_nil], by simp⟩
  · exact ⟨[.entered state], setState_log h, by simp⟩

/-- A timeout that fires sets its state, where it has one, and queues its callback. -/
theorem fire_cases {m' : Medium σ κ ι μ ν} (h : fire m = some m') :
    ∃ t, m.timeout = some t ∧
      ((t.state = none ∧
        m' = callAgentSide t.callback none false (record [.timedOut] (cancelTimeout m))) ∨
      ∃ st, t.state = some st ∧ m' = callAgentSide t.callback (some st) false
        (setState st (record [.timedOut] (cancelTimeout m)))) := by
  unfold fire at h
  obtain ⟨t, ht, rfl⟩ := Option.map_eq_some_iff.mp h
  refine ⟨t, ht, ?_⟩
  dsimp only
  cases hst : t.state with
  | none => exact .inl ⟨rfl, rfl⟩
  | some st => exact .inr ⟨st, rfl, rfl⟩

end

end

/-! ## Calls made and calls due -/

/-- How often the agent's side was called with one of the callbacks. -/
def made (p : κ → Bool) (m : Medium σ κ ι μ ν) : Nat :=
  m.log.countP fun e => match e with
    | .called callback => p callback
    | _ => false

/-- How many queued jobs have one of the methods. -/
def due (q : Method κ ι → Bool) (m : Medium σ κ ι μ ν) : Nat :=
  m.jobs.countP fun job => !job.underWay && q job.method

/-- Calls made and calls due. -/
def calls (p : κ → Bool) (q : Method κ ι → Bool) (m : Medium σ κ ι μ ν) : Nat :=
  made p m + due q m

section
variable {m : Medium σ κ ι μ ν} {p : κ → Bool} {q : Method κ ι → Bool}

theorem made_record (es : List (Entry σ κ μ ν)) (h : ∀ cb, .called cb ∈ es → p cb = false) :
    made p (record es m) = made p m := by
  have hnone : es.countP (fun e => match e with
      | .called callback => p callback
      | _ => false) = 0 := by
    apply List.countP_eq_zero.mpr
    intro e he
    cases e with
    | called cb => simp [h cb he]
    | _ => simp
  unfold made
  rw [record_log, List.countP_append, hnone, Nat.add_zero]

theorem made_called (cb : κ) :
    made p (record [.called cb] m) = made p m + (if p cb then 1 else 0) := by
  unfold made
  rw [record_log, List.countP_append, List.countP_singleton]

theorem made_setState [DecidableEq σ] (st : σ) : made p (setState st m) = made p m := by
  unfold setState
  split
  · rfl
  · exact made_record (m := m) [.entered st] (by simp)

theorem calls_record (es : List (Entry σ κ μ ν)) (h : ∀ cb, .called cb ∈ es → p cb = false) :
    calls p q (record es m) = calls p q m := by
  unfold calls
  rw [made_record es h]
  rfl

theorem calls_called (cb : κ) :
    calls p q (record [.called cb] m) = calls p q m + (if p cb then 1 else 0) := by
  unfold calls
  rw [made_called]
  show made p m + _ + due q m = made p m + due q m + _
  omega

theorem calls_setState [DecidableEq σ] (st : σ) : calls p q (setState st m) = calls p q m := by
  unfold calls due
  rw [made_setState, setState_jobs]

theorem due_callAgentSide (method : Method κ ι) (ensure : Option σ) (terminates : Bool) :
    due q (callAgentSide method ensure terminates m) ≤
      due q m + (if q method then 1 else 0) := by
  unfold due callAgentSide
  split
  · omega
  · simp [List.countP_append, List.countP_singleton]

theorem calls_callAgentSide (method : Method κ ι) (ensure : Option σ) (terminates : Bool) :
    calls p q (callAgentSide method ensure terminates m) ≤
      calls p q m + (if q method then 1 else 0) := by
  have hdue := due_callAgentSide (m := m) (q := q) method ensure terminates
  have hmade : made p (callAgentSide method ensure terminates m) = made p m := by
    unfold made
    rw [callAgentSide_log]
  unfold calls
  omega

theorem calls_finalize : calls p q (finalize m) ≤ calls p q m := by
  have hdue : due q (finalize m) ≤ due q m := finalize_jobs.countP_le
  have hmade : made p (finalize m) = made p m := by
    unfold made
    rw [finalize_log]
  unfold calls
  omega

end

/-! ## What the log says -/

/-- The log grows by entries with a property. -/
def Grows (P : Entry σ κ μ ν → Prop) (m m' : Medium σ κ ι μ ν) : Prop :=
  ∃ es, m'.log = m.log ++ es ∧ ∀ e ∈ es, P e

/-- No message is sent or received. -/
def Quiet : Medium σ κ ι μ ν → Medium σ κ ι μ ν → Prop :=
  Grows fun e => (∀ msg, e ≠ .sent msg) ∧ ∀ msg, e ≠ .received msg

section
variable {m m' m'' : Medium σ κ ι μ ν} {P : Entry σ κ μ ν → Prop}

theorem Grows.of_log (h : m'.log = m.log) : Grows P m m' :=
  ⟨[], by rw [h, List.append_nil], by simp⟩

theorem Grows.trans (h : Grows P m m') (h' : Grows P m' m'') : Grows P m m'' := by
  obtain ⟨es, hlog, hes⟩ := h
  obtain ⟨es', hlog', hes'⟩ := h'
  refine ⟨es ++ es', by rw [hlog', hlog, List.append_assoc], fun e he => ?_⟩
  obtain he | he := List.mem_append.mp he
  · exact hes e he
  · exact hes' e he

/-- What was there stays. -/
theorem Grows.subset (h : Grows P m m') {e : Entry σ κ μ ν} (he : e ∈ m.log) : e ∈ m'.log := by
  obtain ⟨es, hlog, -⟩ := h
  rw [hlog]
  exact List.mem_append_left _ he

/-- An entry without the property was there before. -/
theorem Grows.mem_iff (h : Grows P m m') {e : Entry σ κ μ ν} (he : ¬ P e) :
    e ∈ m'.log ↔ e ∈ m.log := by
  refine ⟨fun hm => ?_, h.subset⟩
  obtain ⟨es, hlog, hes⟩ := h
  rw [hlog] at hm
  exact (List.mem_append.mp hm).resolve_right fun hin => he (hes e hin)

theorem Quiet.mem_sent (h : Quiet m m') {msg : μ} : .sent msg ∈ m'.log ↔ .sent msg ∈ m.log :=
  h.mem_iff fun hq => hq.1 msg rfl

theorem grows_record {es : List (Entry σ κ μ ν)} (h : ∀ e ∈ es, P e) : Grows P m (record es m) :=
  ⟨es, rfl, h⟩

section
variable [DecidableEq σ]

theorem grows_setState {st : σ} (h : P (.entered st)) : Grows P m (setState st m) := by
  obtain ⟨es, hlog, hes⟩ := setState_entries m st
  refine ⟨es, hlog, fun e he => ?_⟩
  rw [hes e he]
  exact h

theorem quiet_setState (st : σ) : Quiet m (setState st m) := grows_setState (by simp)

theorem grows_fire (htimed : P .timedOut)
    (hs : ∀ t, m.timeout = some t → ∀ st, t.state = some st → P (.entered st))
    (h : fire m = some m') : Grows P m m' := by
  have hspent : Grows P m (record [.timedOut] (cancelTimeout m)) := ⟨[.timedOut], rfl, by simpa⟩
  obtain ⟨t, ht, ⟨-, rfl⟩ | ⟨st, hst, rfl⟩⟩ := fire_cases h
  · exact hspent.trans (.of_log callAgentSide_log)
  · exact hspent.trans ((grows_setState (hs t ht st hst)).trans (.of_log callAgentSide_log))

theorem quiet_fire (h : fire m = some m') : Quiet m m' :=
  grows_fire (by simp) (by simp) h

end

end

/-! ## Jobs -/

variable [DecidableEq σ] [DecidableEq κ] [DecidableEq ι]

/-- A queued job is started: the agent's handler is called, or `own` does what a method
    of the medium does. -/
def start (own : ι → Medium σ κ ι μ ν → Medium σ κ ι μ ν) (job : Job σ κ ι)
    (m : Medium σ κ ι μ ν) : Option (Medium σ κ ι μ ν) :=
  if job ∈ m.jobs ∧ job.underWay = false then
    let m := { m with jobs := m.jobs.erase job }
    if ∀ state ∈ job.ensureState, m.state = state then
      match job.method with
      | .agent callback =>
        some (record [.called callback]
          { m with jobs := m.jobs ++ [{ job with underWay := true }] })
      | .runAndTerminate callback => some (runAndTerminate callback none m)
      | .own method => some (own method m)
    else some (if job.terminates then finalize m else m)
  else none

/-- The handler of a job that is under way is done, or has failed: `_error_handler`. -/
def finish (errorState : σ) (job : Job σ κ ι) (failed : Bool) (m : Medium σ κ ι μ ν) :
    Option (Medium σ κ ι μ ν) :=
  if job ∈ m.jobs ∧ job.underWay = true then
    let m := { m with jobs := m.jobs.erase job }
    some (if failed then finalize (setState errorState m)
      else if job.terminates then finalize m else m)
  else none

/-- The medium without one job. -/
def drop (job : Job σ κ ι) (m : Medium σ κ ι μ ν) : Medium σ κ ι μ ν :=
  { m with jobs := m.jobs.erase job }

section
variable {m : Medium σ κ ι μ ν} {state : σ}

@[simp] theorem drop_state {job : Job σ κ ι} : (drop job m).state = m.state := rfl
@[simp] theorem drop_timeout {job : Job σ κ ι} : (drop job m).timeout = m.timeout := rfl
@[simp] theorem drop_jobs {job : Job σ κ ι} : (drop job m).jobs = m.jobs.erase job := rfl
@[simp] theorem drop_finalized {job : Job σ κ ι} : (drop job m).finalized = m.finalized := rfl
@[simp] theorem drop_log {job : Job σ κ ι} : (drop job m).log = m.log := rfl

/-- A job that is started calls the agent's side, queues the call to terminate with, runs
    a method of the medium, or is dropped because the state is not the one ensured. -/
theorem start_cases {own : ι → Medium σ κ ι μ ν → Medium σ κ ι μ ν} {job : Job σ κ ι}
    {m' : Medium σ κ ι μ ν} (h : start own job m = some m') :
    job ∈ m.jobs ∧ job.underWay = false ∧
      (((∀ state ∈ job.ensureState, m.state = state) ∧
        ((∃ callback, job.method = .agent callback ∧ m' = record [.called callback]
            { m with jobs := m.jobs.erase job ++ [{ job with underWay := true }] }) ∨
          (∃ callback, job.method = .runAndTerminate callback ∧
            m' = runAndTerminate callback none (drop job m)) ∨
          ∃ method, job.method = .own method ∧ m' = own method (drop job m))) ∨
      m' = if job.terminates then finalize (drop job m) else drop job m) := by
  unfold start at h
  split at h
  · rename_i hjob
    refine ⟨hjob.1, hjob.2, ?_⟩
    dsimp only at h
    split at h
    · rename_i hensure
      refine .inl ⟨hensure, ?_⟩
      split at h
      · rename_i callback hmethod
        exact .inl ⟨callback, hmethod, (Option.some.inj h).symm⟩
      · rename_i callback hmethod
        exact .inr (.inl ⟨callback, hmethod, (Option.some.inj h).symm⟩)
      · rename_i method hmethod
        exact .inr (.inr ⟨method, hmethod, (Option.some.inj h).symm⟩)
    · exact .inr (Option.some.inj h).symm
  · cases h

theorem finish_cases {job : Job σ κ ι} {failed : Bool} {m' : Medium σ κ ι μ ν}
    (h : finish state job failed m = some m') :
    job ∈ m.jobs ∧ job.underWay = true ∧
      (m' = finalize (setState state (drop job m)) ∨
        m' = if job.terminates then finalize (drop job m) else drop job m) := by
  unfold finish at h
  split at h
  · rename_i hjob
    refine ⟨hjob.1, hjob.2, ?_⟩
    obtain rfl := Option.some.inj h
    cases failed with
    | true => exact .inl rfl
    | false => exact .inr rfl
  · cases h

theorem grows_start {P : Entry σ κ μ ν → Prop} {own : ι → Medium σ κ ι μ ν → Medium σ κ ι μ ν}
    {job : Job σ κ ι} {m' : Medium σ κ ι μ ν} (hcalled : ∀ callback, P (.called callback))
    (hown : ∀ method m, Grows P m (own method m)) (h : start own job m = some m') :
    Grows P m m' := by
  obtain ⟨-, -, ⟨-, ⟨callback, -, rfl⟩ | ⟨callback, -, rfl⟩ | ⟨method, -, rfl⟩⟩ | rfl⟩ :=
    start_cases h
  · exact ⟨[.called callback], rfl, by simpa using hcalled callback⟩
  · exact .of_log callAgentSide_log
  · exact hown method (drop job m)
  · split
    · exact .of_log finalize_log
    · exact .of_log rfl

theorem grows_finish {P : Entry σ κ μ ν → Prop} {st : σ} {job : Job σ κ ι} {failed : Bool}
    {m' : Medium σ κ ι μ ν} (hst : P (.entered st)) (h : finish st job failed m = some m') :
    Grows P m m' := by
  obtain ⟨-, -, rfl | rfl⟩ := finish_cases h
  · have hset : Grows P m (setState st (drop job m)) := grows_setState (m := drop job m) hst
    exact hset.trans (.of_log finalize_log)
  · split
    · exact .of_log finalize_log
    · exact .of_log rfl

end

section
variable {m : Medium σ κ ι μ ν} {p : κ → Bool} {q : Method κ ι → Bool} {job : Job σ κ ι}

/-- A queued job that is taken from the queue is due no more. -/
theorem due_drop (hjob : job ∈ m.jobs) (hq : job.underWay = false) :
    due q (drop job m) + (if q job.method then 1 else 0) = due q m := by
  have hperm := List.perm_cons_erase hjob
  unfold due
  rw [hperm.countP_eq, List.countP_cons, drop_jobs]
  simp [hq]

theorem calls_drop (hjob : job ∈ m.jobs) (hq : job.underWay = false) :
    calls p q (drop job m) + (if q job.method then 1 else 0) = calls p q m := by
  have hdrop := due_drop (q := q) hjob hq
  have hmade : made p (drop job m) = made p m := rfl
  unfold calls
  omega

theorem calls_drop_le : calls p q (drop job m) ≤ calls p q m := by
  have hdrop : due q (drop job m) ≤ due q m := List.erase_sublist.countP_le
  have hmade : made p (drop job m) = made p m := rfl
  unfold calls
  omega

/-- Where a queued call of the agent's side is due as often as the call counts as made,
    calling it changes nothing. -/
theorem calls_started {cb : κ} (hjob : job ∈ m.jobs) (hq : job.underWay = false)
    (hm : job.method = .agent cb) (hpq : q (.agent cb) = p cb) :
    calls p q (record [.called cb]
      { m with jobs := m.jobs.erase job ++ [{ job with underWay := true }] }) = calls p q m := by
  have hperm := List.perm_cons_erase hjob
  have hdue : due q { m with jobs := m.jobs.erase job ++ [{ job with underWay := true }] } +
      (if p cb then 1 else 0) = due q m := by
    unfold due
    rw [hperm.countP_eq, List.countP_cons]
    simp [List.countP_append, hq, hm, hpq]
  rw [calls_called]
  unfold calls
  rw [← hdue]
  show made p m + _ + _ = made p m + (_ + _)
  omega

end

end Medium
end Feat.Agencies
