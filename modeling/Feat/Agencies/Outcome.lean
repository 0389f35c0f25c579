import Mathlib.Order.Basic
import Mathlib.Data.Nat.Basic
import Feat.Lib.Traces
import Feat.Agencies.Medium

/- One outcome of a medium: of some callbacks of the agent's side, `p`, at most one is
   ever called, and no timeout fires once one was.

   `q` says which methods of a job lead to such a callback. What keeps a second outcome
   away is that a timeout may be armed only while there is none to come, or while a job
   that finalizes is: `held`. Each operation of a medium keeps that, except that a timeout
   must not fire while such a job is there (`OneOutcome.fire`). -/
namespace Feat.Agencies
open Traces

variable {σ κ ι μ ν : Type}

structure OneOutcome (p : κ → Bool) (q : Method κ ι → Bool) (m : Medium σ κ ι μ ν) : Prop where
  once : m.calls p q ≤ 1
  held : m.calls p q ≠ 0 → m.timeout = none ∨
    ∃ job ∈ m.jobs, q job.method = true ∧ job.terminates = true
  final : Never (fun e => ∃ callback, e = .called callback ∧ p callback = true) (· = .timedOut)
    m.log
  disarmed : m.finalized = true → m.timeout = none

namespace OneOutcome
variable {p : κ → Bool} {q : Method κ ι → Bool} {m m' : Medium σ κ ι μ ν}

/-- Nothing was called yet, and a timeout may fire. -/
theorem pending (h : OneOutcome p q m) (hjobs : ∀ job ∈ m.jobs, q job.method = false)
    (ht : m.timeout ≠ none) : m.calls p q = 0 := by
  by_contra hcalls
  obtain hnone | ⟨job, hjob, hq, -⟩ := h.held hcalls
  · exact ht hnone
  · rw [hjobs job hjob] at hq
    cases hq

theorem not_called (h : m.calls p q = 0) {callback : κ} (hp : p callback = true) :
    .called callback ∉ m.log := by
  intro hm
  have hmade : m.made p = 0 := by
    unfold Medium.calls at h
    omega
  have hnot := List.countP_eq_zero.mp hmade (.called callback) hm
  exact hnot hp

/-- What calls nobody and fires nothing. -/
theorem same (h : OneOutcome p q m) (hcalls : m'.calls p q ≤ m.calls p q)
    (htime : m'.timeout = m.timeout) (hf : m'.finalized = m.finalized)
    (hjobs : ∀ job ∈ m.jobs, job ∈ m'.jobs) {es : List (Entry σ κ μ ν)}
    (hlog : m'.log = m.log ++ es) (hes : ∀ e ∈ es, e ≠ .timedOut) : OneOutcome p q m' := by
  refine ⟨hcalls.trans h.once, fun hne => ?_, ?_, ?_⟩
  · rw [htime]
    refine (h.held (by omega)).imp_right fun hex => ?_
    obtain ⟨job, hjob, hleads⟩ := hex
    exact ⟨job, hjobs job hjob, hleads⟩
  · rw [hlog]
    exact h.final.append hes
  · rw [hf, htime]
    exact h.disarmed

theorem record (h : OneOutcome p q m) {es : List (Entry σ κ μ ν)}
    (hcalled : ∀ callback, .called callback ∈ es → p callback = false)
    (htimed : ∀ e ∈ es, e ≠ .timedOut) : OneOutcome p q (m.record es) :=
  h.same (Medium.calls_record es hcalled).le rfl rfl (fun _ hjob => hjob) rfl htimed

theorem setState [DecidableEq σ] (h : OneOutcome p q m) (st : σ) :
    OneOutcome p q (m.setState st) := by
  obtain ⟨es, hlog, hes⟩ := Medium.setState_entries m st
  refine h.same (Medium.calls_setState st).le (by simp) (by simp) (by simp) hlog fun e he => ?_
  rw [hes e he]
  simp

theorem cancelTimeout (h : OneOutcome p q m) : OneOutcome p q m.cancelTimeout :=
  ⟨h.once, fun _ => .inl rfl, h.final, fun _ => rfl⟩

/-- A timeout is armed before there is an outcome. -/
theorem setTimeout (h : OneOutcome p q m) (hcalls : m.calls p q = 0) (hf : m.finalized = false)
    (st : Option σ) (callback : Method κ ι) : OneOutcome p q (m.setTimeout st callback) := by
  refine ⟨h.once, fun hne => absurd hcalls hne, h.final, fun hfin => ?_⟩
  rw [Medium.setTimeout_finalized, hf] at hfin
  cases hfin

theorem finalize (h : OneOutcome p q m) : OneOutcome p q m.finalize := by
  refine ⟨Medium.calls_finalize.trans h.once, fun _ => .inl ?_, ?_, fun _ => ?_⟩
  · exact Medium.finalize_timeout h.disarmed
  · rw [Medium.finalize_log]
    exact h.final
  · exact Medium.finalize_timeout h.disarmed

/-- A call that leads to no outcome. -/
theorem call (h : OneOutcome p q m) {method : Method κ ι} (hq : q method = false)
    (ensure : Option σ) (terminates : Bool) :
    OneOutcome p q (m.callAgentSide method ensure terminates) := by
  have hcalls := Medium.calls_callAgentSide (m := m) (p := p) (q := q) method ensure terminates
  rw [hq] at hcalls
  refine h.same hcalls (by simp) (by simp) (fun job hjob => ?_)
    (Medium.callAgentSide_log.trans (List.append_nil _).symm) (by simp)
  unfold Medium.callAgentSide
  split
  · exact hjob
  · exact List.mem_append_left _ hjob

/-- The first call that leads to an outcome finalizes in the end, or no timeout is armed. -/
theorem callOutcome (h : OneOutcome p q m) (hcalls : m.calls p q = 0) (method : Method κ ι)
    (ensure : Option σ) (terminates : Bool)
    (hheld : m.timeout = none ∨ (q method = true ∧ terminates = true)) :
    OneOutcome p q (m.callAgentSide method ensure terminates) := by
  have hmore := Medium.calls_callAgentSide (m := m) (p := p) (q := q) method ensure terminates
  refine ⟨?_, fun _ => ?_, ?_, ?_⟩
  · split at hmore <;> omega
  · rw [Medium.callAgentSide_timeout]
    obtain hnone | ⟨hq, rfl⟩ := hheld
    · exact .inl hnone
    · cases hf : m.finalized with
      | true => exact .inl (h.disarmed hf)
      | false =>
        refine .inr ⟨⟨method, ensure, true, false⟩, ?_, hq, rfl⟩
        rw [Medium.callAgentSide_jobs hf]
        simp
  · rw [Medium.callAgentSide_log]
    exact h.final
  · rw [Medium.callAgentSide_finalized, Medium.callAgentSide_timeout]
    exact h.disarmed

/-- An outcome that is called at once. -/
theorem called (h : OneOutcome p q m) (hcalls : m.calls p q = 0) (ht : m.timeout = none)
    (callback : κ) : OneOutcome p q (m.record [.called callback]) := by
  have hmore := Medium.calls_called (m := m) (p := p) (q := q) callback
  refine ⟨?_, fun _ => .inl ht, h.final.append ?_, h.disarmed⟩
  · split at hmore <;> omega
  · simp

/-- A timeout fires before there is an outcome. -/
theorem fire [DecidableEq σ] (h : OneOutcome p q m)
    (hjobs : ∀ job ∈ m.jobs, q job.method = false) (hfire : m.fire = some m') :
    OneOutcome p q m' := by
  obtain ⟨t, ht, hcases⟩ := Medium.fire_cases hfire
  have hcalls := h.pending hjobs (by rw [ht]; simp)
  have hspent : OneOutcome p q (Medium.record [.timedOut] m.cancelTimeout) := by
    have htimed := Medium.calls_record (m := m.cancelTimeout) (p := p) (q := q) [.timedOut]
      (by simp)
    refine ⟨htimed.le.trans h.once, fun _ => .inl rfl, ?_, fun _ => rfl⟩
    refine h.final.concat fun _ e he hout => ?_
    obtain ⟨callback, rfl, hp⟩ := hout
    exact not_called hcalls hp he
  have hzero : (Medium.record [.timedOut] m.cancelTimeout).calls p q = 0 := by
    rw [Medium.calls_record _ (by simp)]
    exact hcalls
  obtain ⟨-, rfl⟩ | ⟨st, -, rfl⟩ := hcases
  · exact hspent.callOutcome hzero _ _ _ (.inl rfl)
  · refine (hspent.setState st).callOutcome ?_ _ _ _ (.inl ?_)
    · rw [Medium.calls_setState]
      exact hzero
    · rw [Medium.setState_timeout]
      rfl

variable [DecidableEq σ] [DecidableEq κ] [DecidableEq ι] {job : Job σ κ ι}

/-- A queued job is taken: where it leads to an outcome, none is left. -/
theorem drop (h : OneOutcome p q m) (hjob : job ∈ m.jobs) (hqueued : job.underWay = false) :
    OneOutcome p q (m.drop job) ∧ (q job.method = true → (m.drop job).calls p q = 0) := by
  have hcalls := Medium.calls_drop (p := p) (q := q) hjob hqueued
  have honce := h.once
  have hzero : q job.method = true → (m.drop job).calls p q = 0 := by
    intro hq
    rw [if_pos hq] at hcalls
    omega
  refine ⟨⟨by omega, fun hne => ?_, h.final, h.disarmed⟩, hzero⟩
  have hq : ¬ q job.method = true := fun hq => hne (hzero hq)
  rw [if_neg hq] at hcalls
  refine (h.held (by omega)).imp_right fun hex => ?_
  obtain ⟨job', hjob', hq', hterm⟩ := hex
  refine ⟨job', (List.mem_erase_of_ne ?_).mpr hjob', hq', hterm⟩
  intro he
  rw [he] at hq'
  exact hq hq'

theorem start (h : OneOutcome p q m) {own : ι → Medium σ κ ι μ ν → Medium σ κ ι μ ν}
    (hq : ∀ callback, q (.agent callback) = p callback ∧ q (.runAndTerminate callback) = p callback)
    (hown : ∀ method, job.method = .own method → OneOutcome p q (m.drop job) →
      (q job.method = true → (m.drop job).calls p q = 0) →
      OneOutcome p q (own method (m.drop job)))
    (hstart : m.start own job = some m') : OneOutcome p q m' := by
  obtain ⟨hjob, hqueued, ⟨-, ⟨callback, hm, rfl⟩ | ⟨callback, hm, rfl⟩ | ⟨method, hm, rfl⟩⟩ |
    rfl⟩ := Medium.start_cases hstart
  · have hcalls := Medium.calls_started (p := p) hjob hqueued hm (hq callback).1
    refine ⟨hcalls.le.trans h.once, fun hne => ?_, h.final.append (by simp), h.disarmed⟩
    rw [hcalls] at hne
    refine (h.held hne).imp_right fun hex => ?_
    obtain ⟨job', hjob', hq', hterm⟩ := hex
    by_cases he : job' = job
    · rw [he] at hq' hterm
      refine ⟨{ job with underWay := true }, ?_, hq', hterm⟩
      exact List.mem_append_right _ (List.mem_singleton.mpr rfl)
    · exact ⟨job', List.mem_append_left _ ((List.mem_erase_of_ne he).mpr hjob'), hq', hterm⟩
  · obtain ⟨hdrop, hzero⟩ := h.drop hjob hqueued
    cases hp : p callback with
    | true =>
      refine hdrop.callOutcome (hzero ?_) _ _ _ (.inr ⟨(hq callback).1.trans hp, rfl⟩)
      rw [hm, (hq callback).2, hp]
    | false => exact hdrop.call ((hq callback).1.trans hp) _ _
  · obtain ⟨hdrop, hzero⟩ := h.drop hjob hqueued
    exact hown method hm hdrop hzero
  · obtain ⟨hdrop, -⟩ := h.drop hjob hqueued
    split
    · exact hdrop.finalize
    · exact hdrop

/-- The end of a handler: the one of an outcome finalizes. -/
theorem finish (h : OneOutcome p q m) {st : σ} {failed : Bool}
    (hfinish : m.finish st job failed = some m') : OneOutcome p q m' := by
  have hcalls : (m.drop job).calls p q ≤ m.calls p q := Medium.calls_drop_le
  have hended : ∀ m'' : Medium σ κ ι μ ν, m''.calls p q ≤ m.calls p q →
      m''.timeout = none → Never (fun e => ∃ callback, e = .called callback ∧ p callback = true)
        (· = .timedOut) m''.log → OneOutcome p q m'' :=
    fun m'' hle ht hfinal => ⟨hle.trans h.once, fun _ => .inl ht, hfinal, fun _ => ht⟩
  obtain ⟨-, -, rfl | rfl⟩ := Medium.finish_cases hfinish
  · apply hended
    · have hset := Medium.calls_setState (m := m.drop job) (p := p) (q := q) st
      exact Medium.calls_finalize.trans (hset.le.trans hcalls)
    · refine Medium.finalize_timeout fun hf => ?_
      rw [Medium.setState_timeout]
      rw [Medium.setState_finalized] at hf
      exact h.disarmed hf
    · obtain ⟨es, hlog, hes⟩ := Medium.setState_entries (m.drop job) st
      rw [Medium.finalize_log, hlog]
      refine h.final.append fun e he => ?_
      rw [hes e he]
      simp
  · split
    · apply hended
      · exact Medium.calls_finalize.trans hcalls
      · exact Medium.finalize_timeout h.disarmed
      · rw [Medium.finalize_log]
        exact h.final
    · rename_i hterm
      refine ⟨hcalls.trans h.once, fun hne => ?_, h.final, h.disarmed⟩
      refine (h.held (by omega)).imp_right fun hex => ?_
      obtain ⟨job', hjob', hq', hterm'⟩ := hex
      refine ⟨job', (List.mem_erase_of_ne ?_).mpr hjob', hq', hterm'⟩
      intro he
      rw [he] at hterm'
      exact hterm hterm'

end OneOutcome
end Feat.Agencies
