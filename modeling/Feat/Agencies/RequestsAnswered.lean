import Mathlib.Data.List.Nodup
import Mathlib.Tactic.Common
import Feat.Lib.Run
import Feat.Agencies.Requests

/- What a request comes to: the agent is given at most one reply or told that the request is closed,
   and the result of the requester is what the agent was told (`Right`).

   A requester is in the state it was initiated in until its timeout fires, and a reply cancels the
   timeout. So a job to give the agent a reply and a job to tell it of the end are never made both
   (`Sound`). But a reply leaves the state as it is: a second reply makes a second job, and a reply
   after the end fails the assertion of `call_agent_side`. And a job that is cancelled before its
   handler was called ends the request as if it had been. The result of this file is that these,
   and a replier that replies twice, are all that goes wrong (`request_answered_iff`). -/
namespace Feat.Agencies.Requests
open Transition

/-! ## The properties -/

/-- What a result says was reported to the agent. -/
def AgencyRequester.Reported (r : AgencyRequester) : Result → Prop
  | .success reply | .failure (.gotReply reply) => reply ∈ r.given
  | .protocolFailed | .failure .closed => r.told = true
  | .failure .initiate => True
  | .failure .runAndTerminate => False
  | .expired => r.given = [] ∧ r.told = false

/-- The agent is given one reply or told of the end. -/
structure AgencyRequester.Right (r : AgencyRequester) : Prop where
  once : r.given.length ≤ 1
  either : r.given = [] ∨ r.told = false
  quiet : r.raised = false
  unheard : ∀ reply ∈ r.late, reply ∉ r.given
  reported : ∀ result ∈ r.result, r.Reported result

/-- A request is answered once. -/
structure Right (s : System) : Prop where
  requester : s.requester.Right
  sent : s.wire.Nodup

/-- The calls that end a request. -/
def Call.terminates : Call → Bool
  | .gotReply _ | .closed => true
  | .initiate | .runAndTerminate => false

/-- What goes wrong does not happen: a replier replies twice, a reply arrives between the end of
the request and its notification, the agent is given a second reply, or `cleanup` cancels, as the
first job that ends the request, one whose handler was not called. -/
def Orderly (s : System) : Event → Prop
  | .reply replier => replier ∉ s.wire
  | .receiveReply _ => ¬(s.requester.registered = true ∧ s.requester.state = .requested ∧
      s.requester.finalizeCalled = true)
  | .start (.gotReply _) => s.requester.given = []
  | .cleanup => ∀ job ∈ s.requester.jobs.find? (·.1.terminates), job.2 = true
  | _ => True

instance (s : System) : DecidablePred (Orderly s) := fun e => by
  unfold Orderly
  split <;> infer_instance

/-! ## A requester's jobs -/

namespace AgencyRequester

/-- The jobs of a requester follow its state. -/
structure Sound (seen : List Nat) (r : AgencyRequester) : Prop where
  calls : (r.jobs.map Prod.fst).Nodup
  entered : r.finalizeCalled = true ∨ r.state = .requested ∨ r.state = .closed
  settled : r.finalizeCalled = true → r.jobs = [] ∧ r.timeout = false
  known : r.finalizeCalled = false → r.registered = true ∧ r.late = []
  received : ∀ reply ∈ r.given, reply ∈ seen
  waiting : r.timeout = true → r.state = .requested ∧ ∀ reply b, (.gotReply reply, b) ∉ r.jobs
  replied : ∀ reply b, (.gotReply reply, b) ∈ r.jobs → r.state = .requested ∧ reply ∈ seen ∧
    (b = true ↔ reply ∈ r.given)
  expired : ∀ b, (.runAndTerminate, b) ∈ r.jobs → b = false ∧ r.state = .closed ∧
    r.told = false ∧ ∀ b, (.closed, b) ∉ r.jobs
  closing : ∀ b, (.closed, b) ∈ r.jobs → r.state = .closed ∧ (b = true ↔ r.told = true)
  giving : r.finalizeCalled = false → ∀ reply ∈ r.given, (.gotReply reply, true) ∈ r.jobs
  telling : r.finalizeCalled = false → r.told = true → (.closed, true) ∈ r.jobs

variable {seen : List Nat} {r r' : AgencyRequester} {call : Call} {result : Result} {reply : Nat}

theorem Sound.initiate : Sound [] initiate := by
  constructor <;> simp [AgencyRequester.initiate, finalizeCalled]

theorem Right.initiate : AgencyRequester.initiate.Right := by
  constructor <;> simp [AgencyRequester.initiate]

/-- Replies are received. -/
theorem Sound.mono {seen' : List Nat} (h : Sound seen r) (hseen : ∀ n ∈ seen, n ∈ seen') :
    Sound seen' r where
  calls := h.calls
  entered := h.entered
  settled := h.settled
  known := h.known
  received n hn := hseen n (h.received n hn)
  waiting := h.waiting
  replied n b hn :=
    have hjob := h.replied n b hn
    ⟨hjob.1, hseen n hjob.2.1, hjob.2.2⟩
  expired := h.expired
  closing := h.closing
  giving := h.giving
  telling := h.telling

/-- There is nothing to know of a requester that has ended. -/
theorem Sound.of_ended (hresult : r.finalizeCalled = true) (hjobs : r.jobs = [])
    (htimeout : r.timeout = false) (hgiven : ∀ n ∈ r.given, n ∈ seen) : Sound seen r := by
  constructor <;> simp_all

theorem finalize_of_ended (h : r.finalizeCalled = true) : r.finalize result = r := if_pos h

theorem finalize_of_waiting (h : r.finalizeCalled = false) :
    r.finalize result = { r with result := some result, timeout := false, jobs := [] } :=
  if_neg (by simp [h])

theorem ended_of_ended (h : r.finalizeCalled = true) : r.ended call = r := by
  cases call <;> simp [ended, finalize_of_ended h]

theorem Sound.finalize (h : r.finalizeCalled = false) (hgiven : ∀ n ∈ r.given, n ∈ seen) :
    Sound seen (r.finalize result) := by
  rw [finalize_of_waiting h]
  exact .of_ended rfl rfl rfl hgiven

theorem Right.finalize (h : r.Right) (hopen : r.finalizeCalled = false)
    (hreported : r.Reported result) : (r.finalize result).Right := by
  rw [finalize_of_waiting hopen]
  exact ⟨h.once, h.either, h.quiet, h.unheard, fun _ hm => Option.some.inj hm ▸ hreported⟩

/-- A requester that has a job has not ended. -/
theorem Sound.waiting_of_job (h : Sound seen r) {job : Call × Bool} (hjob : job ∈ r.jobs) :
    r.finalizeCalled = false := by
  cases hf : r.finalizeCalled with
  | false => rfl
  | true => simp [(h.settled hf).1] at hjob

theorem Right.result_congr (h : r.Right) (hgiven : r'.given = r.given) (htold : r'.told = r.told)
    (hraised : r'.raised = r.raised) (hlate : r'.late = r.late) (hresult : r'.result = r.result) :
    r'.Right := by
  refine ⟨hgiven ▸ h.once, ?_, hraised ▸ h.quiet, ?_, fun result hm => ?_⟩
  · rw [hgiven, htold]
    exact h.either
  · rw [hlate, hgiven]
    exact h.unheard
  · rw [hresult] at hm
    have hold := h.reported result hm
    unfold Reported at hold ⊢
    rw [hgiven, htold]
    exact hold

theorem nodup_calls {jobs : List (Call × Bool)} (h : (jobs.map Prod.fst).Nodup)
    (hnew : ∀ b, (call, b) ∉ jobs) (b : Bool) : ((jobs ++ [(call, b)]).map Prod.fst).Nodup := by
  have hcall : call ∉ jobs.map Prod.fst := by
    intro hin
    obtain ⟨⟨c, b⟩, hjob, rfl⟩ := List.mem_map.mp hin
    exact hnew b hjob
  rw [List.map_append, List.map_singleton]
  exact List.nodup_append_comm.mp (List.nodup_cons.mpr ⟨hcall, h⟩)

/-- Before the timeout fires no job is due to it. -/
theorem Sound.not_expired (h : Sound seen r) (hstate : r.state = .requested) (b : Bool) :
    (.runAndTerminate, b) ∉ r.jobs ∧ (.closed, b) ∉ r.jobs := by
  refine ⟨fun hb => ?_, fun hb => ?_⟩
  · have hclosed := (h.expired b hb).2.1
    rw [hstate] at hclosed
    cases hclosed
  · have hclosed := (h.closing b hb).1
    rw [hstate] at hclosed
    cases hclosed

/-! ## Replies that arrive -/

theorem onMessage_waiting (hopen : r.finalizeCalled = false) (hstate : r.state = .requested) :
    r.onMessage reply =
      { r with timeout := false, jobs := r.jobs ++ [(.gotReply reply, false)] } := by
  have hresult : r.result.isSome = false := hopen
  simp [onMessage, callAgentSide, finalizeCalled, hresult, hstate]

theorem onMessage_closed (hopen : r.finalizeCalled = false) (hstate : r.state ≠ .requested) :
    r.onMessage reply = r := by
  simp [onMessage, hopen, hstate]

/-- After the end a reply goes unheard, but it is an error where the state is still the first. -/
theorem onMessage_ended (hended : r.finalizeCalled = true) :
    r.onMessage reply = if r.state = .requested
      then { r with late := r.late ++ [reply], timeout := false, raised := true }
      else { r with late := r.late ++ [reply] } := by
  have hresult : r.result.isSome = true := hended
  simp only [onMessage, callAgentSide, finalizeCalled, hresult, if_true]

/-- A reply that arrives is queued for the agent, unless the timeout has fired. -/
theorem Sound.onMessage (h : Sound seen r) (hnew : reply ∉ seen) :
    Sound (seen ++ [reply]) (r.onMessage reply) := by
  have hmono : ∀ n ∈ seen, n ∈ seen ++ [reply] := fun _ hn => List.mem_append_left _ hn
  cases hf : r.finalizeCalled with
  | true =>
    obtain ⟨hjobs, htimeout⟩ := h.settled hf
    have hgiven : ∀ n ∈ r.given, n ∈ seen ++ [reply] := fun n hn => hmono n (h.received n hn)
    rw [onMessage_ended hf]
    split
    · exact .of_ended hf hjobs rfl hgiven
    · exact .of_ended hf hjobs htimeout hgiven
  | false =>
    by_cases hstate : r.state = .requested
    · rw [onMessage_waiting hf hstate]
      have hfresh : ∀ b, (.gotReply reply, b) ∉ r.jobs := fun b hb =>
        hnew (h.replied reply b hb).2.1
      exact {
        calls := nodup_calls h.calls hfresh false
        entered := h.entered
        settled := fun hf' => absurd (hf.symm.trans hf') (by decide)
        known := h.known
        received := fun n hn => hmono n (h.received n hn)
        waiting := by simp
        replied := by
          intro n b hn
          obtain hold | hlast := List.mem_append.mp hn
          · obtain ⟨-, hin, hiff⟩ := h.replied n b hold
            exact ⟨hstate, hmono n hin, hiff⟩
          · obtain ⟨rfl, rfl⟩ : n = reply ∧ b = false := by simpa using hlast
            have hnot : n ∉ r.given := fun hn => hnew (h.received n hn)
            exact ⟨hstate, by simp, by simpa using hnot⟩
        expired := by
          intro b hb
          exact absurd (by simpa using hb) (h.not_expired hstate b).1
        closing := by
          intro b hb
          exact absurd (by simpa using hb) (h.not_expired hstate b).2
        giving := fun hf n hn => List.mem_append_left _ (h.giving hf n hn)
        telling := fun hf ht => List.mem_append_left _ (h.telling hf ht) }
    · rw [onMessage_closed hf hstate]
      exact h.mono hmono

/-- A reply that arrives makes no difference to the agent, where it is no error. -/
theorem Right.onMessage (h : r.Right) (hseen : Sound seen r) (hnew : reply ∉ seen)
    (hquiet : ¬(r.state = .requested ∧ r.finalizeCalled = true)) : (r.onMessage reply).Right := by
  cases hf : r.finalizeCalled with
  | true =>
    rw [onMessage_ended hf, if_neg fun hstate => hquiet ⟨hstate, hf⟩]
    refine ⟨h.once, h.either, h.quiet, fun n hn => ?_, h.reported⟩
    obtain hold | hlast := List.mem_append.mp hn
    · exact h.unheard n hold
    · obtain rfl := List.mem_singleton.mp hlast
      exact fun hn => hnew (hseen.received n hn)
  | false =>
    by_cases hstate : r.state = .requested
    · rw [onMessage_waiting hf hstate]
      exact h.result_congr rfl rfl rfl rfl rfl
    · rwa [onMessage_closed hf hstate]

/-! ## The timeout -/

theorem fire_eq (h : r.fire = some r') : r.timeout = true ∧ r.finalizeCalled = false ∧
    r' = { r with timeout := false, state := .closed,
                  jobs := r.jobs ++ [(.runAndTerminate, false)] } := by
  unfold fire callAgentSide at h
  split at h
  · rename_i htimeout
    split at h
    · cases h
    · rename_i hf
      exact ⟨htimeout, Bool.not_eq_true _ ▸ hf, (Option.some.inj h).symm⟩
  · cases h

/-- A timeout is there until a reply is received. -/
theorem Sound.fire (h : Sound seen r) (hfire : r.fire = some r') : Sound seen r' := by
  obtain ⟨htimeout, hf, rfl⟩ := fire_eq hfire
  obtain ⟨hstate, hnone⟩ := h.waiting htimeout
  have hgiven : r.given = [] := by
    apply List.eq_nil_iff_forall_not_mem.mpr
    exact fun n hn => hnone n true (h.giving hf n hn)
  have hlate := fun b => h.not_expired hstate b
  have htold : r.told = false := by
    cases ht : r.told with
    | false => rfl
    | true => exact absurd (h.telling hf ht) (hlate true).2
  exact {
    calls := nodup_calls h.calls (fun b => (hlate b).1) false
    entered := .inr (.inr rfl)
    settled := fun hf' => absurd (hf.symm.trans hf') (by decide)
    known := h.known
    received := h.received
    waiting := by simp
    replied := fun n b hn => absurd (by simpa using hn) (hnone n b)
    expired := by
      intro b hb
      obtain hold | hlast := List.mem_append.mp hb
      · exact absurd hold (hlate b).1
      · obtain rfl : b = false := by simpa using hlast
        exact ⟨rfl, rfl, htold, fun b hb => absurd (by simpa using hb) (hlate b).2⟩
    closing := fun b hb => absurd (by simpa using hb) (hlate b).2
    giving := by simp [hgiven]
    telling := by simp [htold] }

theorem Right.fire (h : r.Right) (hfire : r.fire = some r') : r'.Right := by
  obtain ⟨-, -, rfl⟩ := fire_eq hfire
  exact h.result_congr rfl rfl rfl rfl rfl

/-! ## Jobs -/

theorem mem_removeAgentJob {job : Call × Bool} :
    job ∈ (r.removeAgentJob call).jobs ↔ job ∈ r.jobs ∧ job.1 ≠ call := by
  simp [removeAgentJob]

theorem mem_underWay {c : Call} {b : Bool} (h : (call, false) ∈ r.jobs) :
    (c, b) ∈ (r.underWay call).jobs ↔ if c = call then b = true else (c, b) ∈ r.jobs := by
  have hmem : (c, b) ∈ (r.underWay call).jobs ↔
      ∃ job ∈ r.jobs, (if job.1 = call then (call, true) else job) = (c, b) := List.mem_map
  rw [hmem]
  refine ⟨fun ⟨job, hjob, he⟩ => ?_, fun hin => ?_⟩
  · split at he
    · cases he
      simp
    · subst he
      rename_i hne
      rwa [if_neg hne]
  · split at hin
    · rename_i hc
      exact ⟨(call, false), h, by simp [hc, hin]⟩
    · rename_i hne
      exact ⟨(c, b), hin, by simp [hne]⟩

theorem underWay_calls : (r.underWay call).jobs.map Prod.fst = r.jobs.map Prod.fst := by
  unfold underWay
  rw [List.map_map]
  refine List.map_congr_left fun job _ => ?_
  by_cases hjob : job.1 = call <;> simp [hjob]

/-- A job that ends nothing is removed. -/
theorem Sound.removeAgentJob (h : Sound seen r) (hcall : call.terminates = false) :
    Sound seen (r.removeAgentJob call) where
  calls := h.calls.sublist (List.filter_sublist.map _)
  entered := h.entered
  settled hf := by simp [AgencyRequester.removeAgentJob, h.settled hf]
  known := h.known
  received := h.received
  waiting ht := ⟨(h.waiting ht).1, fun n b hn => (h.waiting ht).2 n b (mem_removeAgentJob.mp hn).1⟩
  replied n b hn := h.replied n b (mem_removeAgentJob.mp hn).1
  expired b hb :=
    have hold := h.expired b (mem_removeAgentJob.mp hb).1
    ⟨hold.1, hold.2.1, hold.2.2.1, fun b hb => hold.2.2.2 b (mem_removeAgentJob.mp hb).1⟩
  closing b hb := h.closing b (mem_removeAgentJob.mp hb).1
  giving hf n hn := mem_removeAgentJob.mpr ⟨h.giving hf n hn, fun he => by simp [← he, Call.terminates] at hcall⟩
  telling hf ht := mem_removeAgentJob.mpr ⟨h.telling hf ht, fun he => by simp [← he, Call.terminates] at hcall⟩

/-- What a job does when it is started. -/
theorem start_cases (h : Sound seen r) (hstart : r.start call = some r') :
    (call, false) ∈ r.jobs ∧
      ((call = .initiate ∧ (r' = r.underWay .initiate ∨ r' = r.removeAgentJob .initiate)) ∨
      (∃ reply, call = .gotReply reply ∧
        r' = { r.underWay (.gotReply reply) with given := r.given ++ [reply] }) ∨
      (call = .runAndTerminate ∧ r' = { r.removeAgentJob .runAndTerminate with
        jobs := (r.removeAgentJob .runAndTerminate).jobs ++ [(.closed, false)] }) ∨
      (call = .closed ∧ r' = { r.underWay .closed with told := true })) := by
  unfold start at hstart
  split at hstart
  · rename_i hjob
    refine ⟨hjob, ?_⟩
    have hopen : (r.removeAgentJob call).finalizeCalled = false := h.waiting_of_job hjob
    cases call with
    | initiate =>
      split at hstart
      · exact .inl ⟨rfl, .inl (Option.some.inj hstart).symm⟩
      · exact .inl ⟨rfl, .inr (Option.some.inj hstart).symm⟩
    | gotReply reply =>
      have hstate := (h.replied reply false hjob).1
      rw [if_pos (by simp [ensureState, hstate])] at hstart
      exact .inr (.inl ⟨reply, rfl, (Option.some.inj hstart).symm⟩)
    | runAndTerminate =>
      have hstate := (h.expired false hjob).2.1
      rw [if_pos (by simp [ensureState, hstate])] at hstart
      unfold callAgentSide at hstart
      simp only [hopen, Bool.false_eq_true, if_false] at hstart
      exact .inr (.inr (.inl ⟨rfl, (Option.some.inj hstart).symm⟩))
    | closed =>
      rw [if_pos (by simp [ensureState])] at hstart
      exact .inr (.inr (.inr ⟨rfl, (Option.some.inj hstart).symm⟩))
  · cases hstart

theorem Sound.initiating (h : Sound seen r) (hjob : (.initiate, false) ∈ r.jobs) :
    Sound seen (r.underWay .initiate) where
  calls := by
    rw [underWay_calls]
    exact h.calls
  entered := h.entered
  settled hf := by
    have hnone := (h.settled hf).1
    rw [hnone] at hjob
    cases hjob
  known := h.known
  received := h.received
  waiting ht := ⟨(h.waiting ht).1, fun n b hn =>
    (h.waiting ht).2 n b (by simpa using (mem_underWay hjob).mp hn)⟩
  replied n b hn := h.replied n b (by simpa using (mem_underWay hjob).mp hn)
  expired b hb :=
    have hold := h.expired b (by simpa using (mem_underWay hjob).mp hb)
    ⟨hold.1, hold.2.1, hold.2.2.1, fun b hb =>
      hold.2.2.2 b (by simpa using (mem_underWay hjob).mp hb)⟩
  closing b hb := h.closing b (by simpa using (mem_underWay hjob).mp hb)
  giving hf n hn := (mem_underWay hjob).mpr (by simpa using h.giving hf n hn)
  telling hf ht := (mem_underWay hjob).mpr (by simpa using h.telling hf ht)

theorem Sound.gotReply (h : Sound seen r) (hjob : (.gotReply reply, false) ∈ r.jobs) :
    Sound seen { r.underWay (.gotReply reply) with given := r.given ++ [reply] } := by
  obtain ⟨hstate, hseen, -⟩ := h.replied reply false hjob
  have hopen := h.waiting_of_job hjob
  have hlate := fun b => h.not_expired hstate b
  exact {
    calls := by
      show ((r.underWay (.gotReply reply)).jobs.map Prod.fst).Nodup
      rw [underWay_calls]
      exact h.calls
    entered := h.entered
    settled := fun hf => absurd (hopen.symm.trans hf) (by decide)
    known := h.known
    received := fun n hn => by
      obtain hold | hlast := List.mem_append.mp hn
      · exact h.received n hold
      · exact List.mem_singleton.mp hlast ▸ hseen
    waiting := fun ht => absurd hjob ((h.waiting ht).2 reply false)
    replied := fun n b hn => by
      have hin := (mem_underWay hjob).mp hn
      by_cases hnr : n = reply
      · subst hnr
        have hb : b = true := by simpa using hin
        exact ⟨hstate, hseen, by simp [hb]⟩
      · obtain ⟨-, hs, hiff⟩ := h.replied n b (by simpa [hnr] using hin)
        exact ⟨hstate, hs, by simpa [hnr] using hiff⟩
    expired := fun b hb => absurd (by simpa using (mem_underWay hjob).mp hb) (hlate b).1
    closing := fun b hb => absurd (by simpa using (mem_underWay hjob).mp hb) (hlate b).2
    giving := fun hf n hn => (mem_underWay hjob).mpr (by
      split
      · rfl
      · rename_i hne
        obtain hold | hlast := List.mem_append.mp hn
        · exact h.giving hf n hold
        · exact absurd (congrArg Call.gotReply (List.mem_singleton.mp hlast)) hne)
    telling := fun hf ht => absurd (h.telling hf ht) (hlate true).2 }

theorem Sound.runAndTerminate (h : Sound seen r) (hjob : (.runAndTerminate, false) ∈ r.jobs) :
    Sound seen { r.removeAgentJob .runAndTerminate with
      jobs := (r.removeAgentJob .runAndTerminate).jobs ++ [(.closed, false)] } := by
  obtain ⟨-, hstate, htold, hnone⟩ := h.expired false hjob
  have hopen := h.waiting_of_job hjob
  have hrest : Sound seen (r.removeAgentJob .runAndTerminate) := h.removeAgentJob rfl
  have hnew : ∀ b, (.closed, b) ∉ (r.removeAgentJob .runAndTerminate).jobs := fun b hb =>
    hnone b (mem_removeAgentJob.mp hb).1
  exact {
    calls := nodup_calls hrest.calls hnew false
    entered := h.entered
    settled := fun hf => absurd (hopen.symm.trans hf) (by decide)
    known := h.known
    received := h.received
    waiting := fun ht => by
      have hreq := (h.waiting ht).1
      rw [hstate] at hreq
      cases hreq
    replied := fun n b hn => hrest.replied n b (by simpa using hn)
    expired := fun b hb => by
      obtain ⟨-, hne⟩ := mem_removeAgentJob.mp (show (Call.runAndTerminate, b) ∈
        (r.removeAgentJob .runAndTerminate).jobs by simpa using hb)
      exact absurd rfl hne
    closing := fun b hb => by
      obtain hold | hlast := List.mem_append.mp hb
      · exact absurd hold (hnew b)
      · obtain rfl : b = false := by simpa using hlast
        refine ⟨hstate, ?_⟩
        show false = true ↔ r.told = true
        rw [htold]
    giving := fun hf n hn => List.mem_append_left _ (hrest.giving hf n hn)
    telling := fun hf ht => List.mem_append_left _ (hrest.telling hf ht) }

theorem Sound.tellClosed (h : Sound seen r) (hjob : (.closed, false) ∈ r.jobs) :
    Sound seen { r.underWay .closed with told := true } := by
  obtain ⟨hstate, -⟩ := h.closing false hjob
  have hopen := h.waiting_of_job hjob
  exact {
    calls := by
      show ((r.underWay .closed).jobs.map Prod.fst).Nodup
      rw [underWay_calls]
      exact h.calls
    entered := h.entered
    settled := fun hf => absurd (hopen.symm.trans hf) (by decide)
    known := h.known
    received := h.received
    waiting := fun ht => by
      have hreq := (h.waiting ht).1
      rw [hstate] at hreq
      cases hreq
    replied := fun n b hn => h.replied n b (by simpa using (mem_underWay hjob).mp hn)
    expired := fun b hb => absurd hjob
      ((h.expired b (by simpa using (mem_underWay hjob).mp hb)).2.2.2 false)
    closing := fun b hb => ⟨hstate, by simpa using (mem_underWay hjob).mp hb⟩
    giving := fun hf n hn => (mem_underWay hjob).mpr (by simpa using h.giving hf n hn)
    telling := fun hf ht => (mem_underWay hjob).mpr (by simp) }

theorem Sound.start (h : Sound seen r) (hstart : r.start call = some r') : Sound seen r' := by
  obtain ⟨hjob, ⟨rfl, rfl | rfl⟩ | ⟨reply, rfl, rfl⟩ | ⟨rfl, rfl⟩ | ⟨rfl, rfl⟩⟩ :=
    start_cases h hstart
  · exact h.initiating hjob
  · exact h.removeAgentJob rfl
  · exact h.gotReply hjob
  · exact h.runAndTerminate hjob
  · exact h.tellClosed hjob

theorem Right.start (h : r.Right) (hsound : Sound seen r)
    (horderly : ∀ reply, call = .gotReply reply → r.given = []) (hstart : r.start call = some r') :
    r'.Right := by
  obtain ⟨hjob, hcases⟩ := start_cases hsound hstart
  have hopen := hsound.waiting_of_job hjob
  have hnone : ∀ result, result ∉ r.result := fun result hm => by
    simp [finalizeCalled, Option.mem_def.mp hm] at hopen
  obtain ⟨rfl, rfl | rfl⟩ | ⟨reply, rfl, rfl⟩ | ⟨rfl, rfl⟩ | ⟨rfl, rfl⟩ := hcases
  · exact h.result_congr rfl rfl rfl rfl rfl
  · exact h.result_congr rfl rfl rfl rfl rfl
  · have hgiven := horderly reply rfl
    have hlate := (hsound.known hopen).2
    have hstate := (hsound.replied reply false hjob).1
    have htold : r.told ≠ true := fun ht =>
      (hsound.not_expired hstate true).2 (hsound.telling hopen ht)
    refine ⟨by simp [hgiven], .inr (Bool.not_eq_true _ ▸ htold), h.quiet, fun n hn => ?_,
      fun result hm => absurd hm (hnone result)⟩
    have hin : n ∈ r.late := hn
    simp [hlate] at hin
  · exact h.result_congr rfl rfl rfl rfl rfl
  · have hstate := (hsound.closing false hjob).1
    have hgiven : r.given = [] := by
      apply List.eq_nil_iff_forall_not_mem.mpr
      intro n hn
      have hreq := (hsound.replied n true (hsound.giving hopen n hn)).1
      rw [hstate] at hreq
      cases hreq
    exact ⟨h.once, .inl hgiven, h.quiet, h.unheard, fun result hm => absurd hm (hnone result)⟩

theorem finish_cases {failed : Bool} (h : r.finish call failed = some r') :
    (call, true) ∈ r.jobs ∧
      (r' = AgencyRequester.finalize (.failure call) { r.removeAgentJob call with state := .wtf } ∨
        r' = (r.removeAgentJob call).ended call) := by
  unfold finish at h
  split at h
  · rename_i hjob
    refine ⟨hjob, ?_⟩
    cases failed with
    | true => exact .inl (Option.some.inj h).symm
    | false => exact .inr (Option.some.inj h).symm
  · cases h

theorem Sound.finish {failed : Bool} (h : Sound seen r) (hfinish : r.finish call failed = some r') :
    Sound seen r' := by
  obtain ⟨hjob, hr'⟩ := finish_cases hfinish
  have hopen : (r.removeAgentJob call).finalizeCalled = false := h.waiting_of_job hjob
  obtain rfl | rfl := hr'
  · exact .finalize hopen h.received
  · cases call with
    | initiate => exact h.removeAgentJob rfl
    | runAndTerminate => exact h.removeAgentJob rfl
    | gotReply reply => exact .finalize hopen h.received
    | closed => exact .finalize hopen h.received

theorem Right.finish {failed : Bool} (h : r.Right) (hsound : Sound seen r)
    (hfinish : r.finish call failed = some r') : r'.Right := by
  obtain ⟨hjob, hr'⟩ := finish_cases hfinish
  have hopen : (r.removeAgentJob call).finalizeCalled = false := hsound.waiting_of_job hjob
  have hrest : (r.removeAgentJob call).Right := h.result_congr rfl rfl rfl rfl rfl
  obtain rfl | rfl := hr'
  · have hfailed : ({ r.removeAgentJob call with state := .wtf } : AgencyRequester).Right :=
      h.result_congr rfl rfl rfl rfl rfl
    refine hfailed.finalize hopen ?_
    cases call with
    | initiate => trivial
    | gotReply reply => exact (hsound.replied reply true hjob).2.2.mp rfl
    | runAndTerminate => exact absurd (hsound.expired true hjob).1 (by decide)
    | closed => exact (hsound.closing true hjob).2.mp rfl
  · cases call with
    | initiate => exact hrest
    | runAndTerminate => exact hrest
    | gotReply reply => exact hrest.finalize hopen ((hsound.replied reply true hjob).2.2.mp rfl)
    | closed => exact hrest.finalize hopen ((hsound.closing true hjob).2.mp rfl)

/-! ## The end -/

/-- What a requester ends with when its jobs are cancelled. -/
def outcome (calls : List Call) : Result :=
  match calls.find? Call.terminates with
  | some (.gotReply reply) => .success reply
  | some .closed => .protocolFailed
  | _ => .expired

theorem foldl_ended (calls : List Call) (h : r.finalizeCalled = true) :
    calls.foldl (fun r call => r.ended call) r = r := by
  induction calls with
  | nil => rfl
  | cons call calls ih => rw [List.foldl_cons, ended_of_ended h, ih]

/-- The first job that ends the request does it. -/
theorem foldl_finalize (calls : List Call) (h : r.finalizeCalled = false) :
    (calls.foldl (fun r call => r.ended call) r).finalize .expired =
      r.finalize (outcome calls) := by
  induction calls with
  | nil => rfl
  | cons call calls ih =>
    have hended : ∀ result, (r.finalize result).finalizeCalled = true := by
      simp [finalize_of_waiting h, finalizeCalled]
    cases call with
    | initiate => exact ih
    | runAndTerminate => exact ih
    | gotReply reply =>
      have hfirst := hended (.success reply)
      show (calls.foldl _ (r.finalize (.success reply))).finalize .expired = _
      rw [foldl_ended calls hfirst, finalize_of_ended hfirst]
      rfl
    | closed =>
      have hfirst := hended .protocolFailed
      show (calls.foldl _ (r.finalize .protocolFailed)).finalize .expired = _
      rw [foldl_ended calls hfirst, finalize_of_ended hfirst]
      rfl

theorem cleanup_waiting (h : r.finalizeCalled = false) :
    r.cleanup = r.finalize (outcome (r.jobs.map Prod.fst)) := by
  have hopen : ({ r with timeout := false, jobs := [] } : AgencyRequester).finalizeCalled = false :=
    h
  unfold cleanup
  rw [foldl_finalize _ hopen, finalize_of_waiting hopen, finalize_of_waiting h]

theorem cleanup_ended (h : Sound seen r) (hended : r.finalizeCalled = true) : r.cleanup = r := by
  obtain ⟨hjobs, htimeout⟩ := h.settled hended
  have hsame : ({ r with timeout := false, jobs := [] } : AgencyRequester) = r := by
    rw [← hjobs, ← htimeout]
  unfold cleanup
  rw [hjobs, hsame]
  exact finalize_of_ended hended

theorem Sound.cleanup (h : Sound seen r) : Sound seen r.cleanup := by
  cases hf : r.finalizeCalled with
  | true =>
    rw [cleanup_ended h hf]
    exact h
  | false =>
    rw [cleanup_waiting hf]
    exact .finalize hf h.received

/-- `cleanup` reports what the agent was told if and only if the handler of the first job that
ends the request was called. -/
theorem Sound.outcome_iff (h : Sound seen r) (hopen : r.finalizeCalled = false) :
    r.Reported (outcome (r.jobs.map Prod.fst)) ↔
      ∀ job ∈ r.jobs.find? (·.1.terminates), job.2 = true := by
  have hfind : (r.jobs.map Prod.fst).find? Call.terminates =
      (r.jobs.find? (·.1.terminates)).map Prod.fst := List.find?_map
  unfold outcome
  rw [hfind]
  cases hjob : r.jobs.find? (·.1.terminates) with
  | none =>
    have hnone := List.find?_eq_none.mp hjob
    refine ⟨fun _ job hm => (nomatch hm), fun _ => ⟨?_, ?_⟩⟩
    · apply List.eq_nil_iff_forall_not_mem.mpr
      exact fun n hn => hnone _ (h.giving hopen n hn) rfl
    · cases ht : r.told with
      | false => rfl
      | true => exact absurd rfl (hnone _ (h.telling hopen ht))
  | some job =>
    obtain ⟨call, b⟩ := job
    have hin := List.mem_of_find?_eq_some hjob
    have hends := List.find?_some hjob
    have hbool : (∀ job ∈ some (call, b), job.2 = true) ↔ b = true := by simp
    rw [hbool]
    cases call with
    | initiate => cases hends
    | gotReply reply => exact (h.replied reply b hin).2.2.symm
    | runAndTerminate => cases hends
    | closed => exact (h.closing b hin).2.symm

theorem Right.cleanup (h : r.Right) (hsound : Sound seen r)
    (horderly : ∀ job ∈ r.jobs.find? (·.1.terminates), job.2 = true) : r.cleanup.Right := by
  cases hf : r.finalizeCalled with
  | true =>
    rw [cleanup_ended hsound hf]
    exact h
  | false =>
    rw [cleanup_waiting hf]
    exact h.finalize hf ((hsound.outcome_iff hf).mpr horderly)

theorem notifyFinish_eq (h : r.notifyFinish = some r') :
    r.finalizeCalled = true ∧ r' = { r with registered := false } := by
  unfold notifyFinish at h
  split at h
  · rename_i hended
    exact ⟨hended.1, (Option.some.inj h).symm⟩
  · cases h

theorem Sound.notifyFinish (h : Sound seen r) (hnotify : r.notifyFinish = some r') :
    Sound seen r' := by
  obtain ⟨hended, rfl⟩ := notifyFinish_eq hnotify
  obtain ⟨hjobs, htimeout⟩ := h.settled hended
  exact .of_ended hended hjobs htimeout h.received

theorem Right.notifyFinish (h : r.Right) (hnotify : r.notifyFinish = some r') : r'.Right := by
  obtain ⟨-, rfl⟩ := notifyFinish_eq hnotify
  exact h.result_congr rfl rfl rfl rfl rfl

/-! ## What goes wrong -/

theorem not_right_onMessage (hstate : r.state = .requested) (hended : r.finalizeCalled = true) :
    ¬ (r.onMessage reply).Right := by
  rw [onMessage_ended hended, if_pos hstate]
  exact fun h => absurd h.quiet (by simp)

theorem not_right_gotReply (h : Sound seen r) (hgiven : r.given ≠ [])
    (hstart : r.start (.gotReply reply) = some r') : ¬ r'.Right := by
  obtain ⟨-, ⟨hc, -⟩ | ⟨n, -, rfl⟩ | ⟨hc, -⟩ | ⟨hc, -⟩⟩ := start_cases h hstart
  · cases hc
  · intro hr
    have honce : (r.given ++ [n]).length ≤ 1 := hr.once
    rw [List.length_append] at honce
    have hpos : 0 < r.given.length := List.length_pos_iff.mpr hgiven
    have hone : [n].length = 1 := rfl
    omega
  · cases hc
  · cases hc

theorem not_right_cleanup (h : Sound seen r)
    (hbad : ¬ ∀ job ∈ r.jobs.find? (·.1.terminates), job.2 = true) : ¬ r.cleanup.Right := by
  cases hf : r.finalizeCalled with
  | true => simp [(h.settled hf).1] at hbad
  | false =>
    rw [cleanup_waiting hf, finalize_of_waiting hf]
    exact fun hr => hbad ((h.outcome_iff hf).mp (hr.reported _ rfl))

end AgencyRequester

/-! ## Runs -/

/-- What holds of a system while nothing goes wrong. -/
structure Valid (s : System) : Prop where
  right : Right s
  sound : AgencyRequester.Sound s.received s.requester

theorem Valid.new : Valid .new :=
  ⟨⟨AgencyRequester.Right.initiate, List.nodup_nil⟩, .initiate⟩

variable {s t : System} {e : Event}

theorem withReplier_eq {i : Nat} {f : AgencyReplier → Option AgencyReplier}
    (h : s.withReplier i f = some t) : ∃ repliers, t = { s with repliers := repliers } := by
  unfold System.withReplier at h
  obtain ⟨m, -, h⟩ := Option.bind_eq_some_iff.mp h
  obtain ⟨m', -, h⟩ := Option.bind_eq_some_iff.mp h
  exact ⟨_, (Option.some.inj h).symm⟩

theorem Valid.withReplier {i : Nat} {f : AgencyReplier → Option AgencyReplier} (h : Valid s)
    (hstep : s.withReplier i f = some t) : Valid t := by
  obtain ⟨repliers, rfl⟩ := withReplier_eq hstep
  exact ⟨⟨h.right.requester, h.right.sent⟩, h.sound⟩

theorem Valid.withRequester {r : AgencyRequester} (h : Valid s) (hr : r.Right)
    (hs : r.Sound s.received) : Valid { s with requester := r } :=
  ⟨⟨hr, h.right.sent⟩, hs⟩

theorem reply_eq {i : Nat} (h : step s (.reply i) = some t) :
    ∃ repliers, t = { s with repliers := repliers, wire := s.wire ++ [i] } := by
  obtain ⟨u, hu, h⟩ := Option.bind_eq_some_iff.mp h
  obtain ⟨repliers, rfl⟩ := withReplier_eq hu
  exact ⟨repliers, (Option.some.inj h).symm⟩

theorem receiveReply_eq {reply : Nat} (h : step s (.receiveReply reply) = some t) :
    reply ∉ s.received ∧ t = { s with
      received := s.received ++ [reply]
      requester := if s.requester.registered then s.requester.onMessage reply
        else s.requester } := by
  simp only [step] at h
  split at h
  · rename_i hnew
    refine ⟨hnew.2, ?_⟩
    split at h
    · rename_i hregistered
      rw [if_pos hregistered]
      exact (Option.some.inj h).symm
    · rename_i hregistered
      rw [if_neg hregistered]
      exact (Option.some.inj h).symm
  · cases h

/-- A step that goes right keeps what holds. -/
theorem Valid.step (h : Valid s) (horderly : Orderly s e) (hstep : step s e = some t) :
    Valid t := by
  have hr := h.right.requester
  cases e with
  | request =>
    obtain rfl := Option.some.inj hstep
    split
    · exact ⟨⟨hr, h.right.sent⟩, h.sound⟩
    · exact h
  | receiveRequest =>
    simp only [Requests.step] at hstep
    split at hstep
    · cases hstep
    · obtain rfl := Option.some.inj hstep
      exact ⟨⟨hr, h.right.sent⟩, h.sound⟩
  | handleRequest i => exact h.withReplier hstep
  | reply i =>
    obtain ⟨repliers, rfl⟩ := reply_eq hstep
    refine ⟨⟨hr, ?_⟩, h.sound⟩
    exact List.nodup_append_comm.mp (List.nodup_cons.mpr ⟨horderly, h.right.sent⟩)
  | fireReplier i => exact h.withReplier hstep
  | startReplier i job => exact h.withReplier hstep
  | finishReplier i job failed => exact h.withReplier hstep
  | cleanupReplier i => exact h.withReplier hstep
  | receiveReply reply =>
    obtain ⟨hnew, rfl⟩ := receiveReply_eq hstep
    split
    · rename_i hregistered
      refine ⟨⟨hr.onMessage h.sound hnew fun hlate => ?_, h.right.sent⟩, h.sound.onMessage hnew⟩
      exact horderly ⟨hregistered, hlate⟩
    · exact ⟨⟨hr, h.right.sent⟩, h.sound.mono fun _ hn => List.mem_append_left _ hn⟩
  | fire =>
    obtain ⟨r, hfire, rfl⟩ := Option.map_eq_some_iff.mp hstep
    exact h.withRequester (hr.fire hfire) (h.sound.fire hfire)
  | start call =>
    obtain ⟨r, hstart, rfl⟩ := Option.map_eq_some_iff.mp hstep
    refine h.withRequester (hr.start h.sound (fun reply hc => ?_) hstart) (h.sound.start hstart)
    subst hc
    exact horderly
  | finish call failed =>
    obtain ⟨r, hfinish, rfl⟩ := Option.map_eq_some_iff.mp hstep
    exact h.withRequester (hr.finish h.sound hfinish) (h.sound.finish hfinish)
  | cleanup =>
    simp only [Requests.step] at hstep
    split at hstep
    · obtain rfl := Option.some.inj hstep
      exact h.withRequester (hr.cleanup h.sound horderly) h.sound.cleanup
    · cases hstep
  | notifyFinish =>
    obtain ⟨r, hnotify, rfl⟩ := Option.map_eq_some_iff.mp hstep
    exact h.withRequester (hr.notifyFinish hnotify) (h.sound.notifyFinish hnotify)

/-- A step that goes wrong is seen. -/
theorem Valid.lost (h : Valid s) (hwrong : ¬ Orderly s e) (hstep : Requests.step s e = some t) :
    ¬ Right t := by
  cases e with
  | reply i =>
    obtain ⟨repliers, rfl⟩ := reply_eq hstep
    have hin : i ∈ s.wire := Classical.not_not.mp hwrong
    intro hr
    have hsent : (s.wire ++ [i]).Nodup := hr.sent
    exact (List.nodup_cons.mp (List.nodup_append_comm.mp hsent)).1 hin
  | receiveReply reply =>
    obtain ⟨-, rfl⟩ := receiveReply_eq hstep
    obtain ⟨hregistered, hstate, hended⟩ := Classical.not_not.mp hwrong
    intro hr
    have hnow := hr.requester
    simp only [hregistered, if_true] at hnow
    exact AgencyRequester.not_right_onMessage hstate hended hnow
  | start call =>
    obtain ⟨r, hstart, rfl⟩ := Option.map_eq_some_iff.mp hstep
    cases call with
    | gotReply reply =>
      exact fun hr => AgencyRequester.not_right_gotReply h.sound hwrong hstart hr.requester
    | initiate => exact absurd trivial hwrong
    | runAndTerminate => exact absurd trivial hwrong
    | closed => exact absurd trivial hwrong
  | cleanup =>
    simp only [Requests.step] at hstep
    split at hstep
    · obtain rfl := Option.some.inj hstep
      exact fun hr => AgencyRequester.not_right_cleanup h.sound hwrong hr.requester
    · cases hstep
  | _ => exact absurd trivial hwrong

end Feat.Agencies.Requests
