import Mathlib.Data.List.Basic
import Mathlib.Tactic.Common
import Feat.Lib.Run
import Feat.Agents.MonitorAgent

/- What becomes of the table of the deaths that are handled: a task that runs is registered, and a
   task whose end was notified is not (`Right`), so that a later death is handled again.

   The tasks are registered in the turn they are made in, and one that runs is never removed: the
   first half holds in every run. For the second, the table holds a task until the notification
   of a success finds `_unregister_task` bound to it (`Held`). But `_bind_unregistering_self` binds
   it to a success only, and is queued when the task is initiated. The result of this file is that
   a task that fails, or is terminated before it was initiated, stays in the table, and that this
   is all that goes wrong (`forgotten_iff`). -/
namespace Feat.Agents.Monitor.Deaths
open Transition

/-! ## The properties -/

/-- No task is left behind in the table. -/
structure Right (m : MonitorAgent) : Prop where
  registered : ∀ i task, m.tasks[i]? = some task → task.result = none →
    m.handlerTasks task.recp = some i
  single : ∀ (i j : Nat) (task task' : HandleDeath), m.tasks[i]? = some task →
    m.tasks[j]? = some task' → task.result = none → task'.result = none → task.recp = task'.recp → i = j
  forgotten : ∀ i task, m.tasks[i]? = some task → task.notified = true →
    m.handlerTasks task.recp ≠ some i
  anew : ∀ recp, (∀ task ∈ m.tasks, task.recp = recp → task.notified = true) →
    (m.handleAgentDeath recp).1.tasks = m.tasks ++ [.new recp]

/-- A task whose end is notified was initiated and has succeeded. -/
def Orderly (m : MonitorAgent) : Event → Prop
  | .next => ∀ i, m.calls.head? = some (.notify i) → ∀ task ∈ m.tasks[i]?,
      task.initiated = true ∧ task.result = some .completed
  | _ => True

/-! ## The life of a task -/

/-- The task whose call it is. -/
def Call.task : Call → Nat
  | .initiate i | .bindUnregisteringSelf i | .restartComplete i | .notify i => i

/-- The table holds a task: it has not succeeded, or the success is yet to be noticed. -/
def Held (calls : List Call) (i : Nat) (t : HandleDeath) : Prop :=
  t.result ≠ some .completed ∨ t.initiated = false ∨ .bindUnregisteringSelf i ∈ calls ∨
    (t.unregistering = true ∧ t.notified = false)

/-- What is known of a task from the table and the calls that are queued. -/
structure Followed (table : Nat → Option Nat) (calls : List Call) (i : Nat) (t : HandleDeath) :
    Prop where
  notifying : .notify i ∈ calls ↔ t.result.isSome = true ∧ t.notified = false
  binding : .bindUnregisteringSelf i ∈ calls →
    t.initiated = true ∧ t.unregistering = false ∧ t.notified = false
  bound : t.unregistering = true → t.initiated = true
  initiating : .initiate i ∈ calls → t.result = none → t.initiated = false
  pending : t.initiated = true → t.result = none →
    .bindUnregisteringSelf i ∈ calls ∨ t.unregistering = true
  ended : t.notified = true → t.initiated = true ∧ t.result = some .completed
  held : table t.recp = some i ↔ Held calls i t

/-- A call is queued once, and the notification of the end after the others. -/
def Apart (c d : Call) : Prop :=
  ∀ i, (c = .notify i → d ≠ .notify i ∧ d ≠ .bindUnregisteringSelf i) ∧
    (c = .bindUnregisteringSelf i → d ≠ .bindUnregisteringSelf i) ∧
    (c = .initiate i → d ≠ .initiate i)

structure Valid (m : MonitorAgent) : Prop where
  followed : ∀ i t, m.tasks[i]? = some t → Followed m.handlerTasks m.calls i t
  known : ∀ recp i, m.handlerTasks recp = some i → ∃ t, m.tasks[i]? = some t ∧ t.recp = recp
  made : ∀ c ∈ m.calls, c.task < m.tasks.length
  apart : m.calls.Pairwise Apart

variable {m m' : MonitorAgent} {table table' : Nat → Option Nat} {calls calls' : List Call}
  {i j : Nat} {t t' : HandleDeath}

theorem Valid.new : Valid .new where
  followed i t h := by simp [MonitorAgent.new] at h
  known recp i h := by simp [MonitorAgent.new] at h
  made c h := by simp [MonitorAgent.new] at h
  apart := .nil

/-- A task that is in the table runs, or the table follows. -/
theorem Valid.right (h : Valid m) : Right m := by
  have registered : ∀ i task, m.tasks[i]? = some task → task.result = none →
      m.handlerTasks task.recp = some i := fun i task hi hrun =>
    (h.followed i task hi).held.mpr (.inl (by simp [hrun]))
  have forgotten : ∀ i task, m.tasks[i]? = some task → task.notified = true →
      m.handlerTasks task.recp ≠ some i := by
    intro i task hi hn hin
    have hf := h.followed i task hi
    obtain ⟨hinit, hdone⟩ := hf.ended hn
    obtain hr | hr | hr | hr := hf.held.mp hin
    · exact hr hdone
    · simp [hinit] at hr
    · exact absurd (hf.binding hr).2.2 (by simp [hn])
    · simp [hn] at hr
  refine ⟨registered, fun i j task task' hi hj hrun hrun' he => ?_, forgotten, fun recp hall => ?_⟩
  · have hone := registered i task hi hrun
    rw [he, registered j task' hj hrun'] at hone
    exact (Option.some.inj hone).symm
  · have hnone : m.handlerTasks recp = none := by
      cases hin : m.handlerTasks recp with
      | none => rfl
      | some i =>
        obtain ⟨t, hi, hrecp⟩ := h.known recp i hin
        have hn := hall t (List.mem_of_getElem? hi) hrecp
        exact absurd (hrecp ▸ hin) (forgotten i t hi hn)
    unfold MonitorAgent.handleAgentDeath MonitorAgent.registerTask
    simp only [hnone]
    split <;> rfl

/-! ## Changes of one task -/

/-- The calls of a task are the same. -/
def SameCalls (calls calls' : List Call) (i : Nat) : Prop :=
  (.notify i ∈ calls' ↔ .notify i ∈ calls) ∧
    (.bindUnregisteringSelf i ∈ calls' ↔ .bindUnregisteringSelf i ∈ calls) ∧
    (.initiate i ∈ calls' → .initiate i ∈ calls)

theorem Followed.congr (h : Followed table calls i t) (hcalls : SameCalls calls calls' i)
    (htable : table' t.recp = some i ↔ table t.recp = some i) : Followed table' calls' i t := by
  obtain ⟨hn, hb, hi⟩ := hcalls
  exact {
    notifying := hn.trans h.notifying
    binding := fun hc => h.binding (hb.mp hc)
    bound := h.bound
    initiating := fun hc => h.initiating (hi hc)
    pending := fun hinit hrun => (h.pending hinit hrun).imp_left hb.mpr
    ended := h.ended
    held := by
      rw [htable, h.held]
      unfold Held
      rw [hb] }

theorem withTask_get (f : HandleDeath → HandleDeath) (ht : m.tasks[i]? = some t) :
    (m.withTask i f).tasks[j]? = if i = j then some (f t) else m.tasks[j]? := by
  unfold MonitorAgent.withTask
  rw [List.getElem?_modify]
  by_cases hij : i = j
  · subst hij
    simp [ht]
  · simp [hij]

/-- A change of one task keeps what is known of the others. -/
theorem Valid.change (h : Valid m) {f : HandleDeath → HandleDeath} (ht : m.tasks[i]? = some t)
    (hrecp : (f t).recp = t.recp) (htasks : m'.tasks = (m.withTask i f).tasks)
    (hcalls : ∀ j, j ≠ i → SameCalls m.calls m'.calls j)
    (htable : ∀ recp j, j ≠ i →
      (m'.handlerTasks recp = some j ↔ m.handlerTasks recp = some j))
    (hkept : ∀ recp, m'.handlerTasks recp = some i → m.handlerTasks recp = some i)
    (hmade : ∀ c ∈ m'.calls, c ∈ m.calls ∨ c.task = i) (hapart : m'.calls.Pairwise Apart)
    (hi : Followed m'.handlerTasks m'.calls i (f t)) : Valid m' := by
  have hlen : m'.tasks.length = m.tasks.length := by
    rw [htasks]
    exact List.length_modify ..
  refine ⟨fun j u hj => ?_, fun recp j hj => ?_, fun c hc => ?_, hapart⟩
  · rw [htasks, withTask_get f ht] at hj
    split at hj
    · rename_i hij
      subst hij
      obtain rfl := Option.some.inj hj
      exact hi
    · rename_i hij
      exact (h.followed j u hj).congr (hcalls j (Ne.symm hij)) (htable u.recp j (Ne.symm hij))
  · by_cases hij : j = i
    · subst hij
      obtain ⟨u, hu, rfl⟩ := h.known recp j (hkept recp hj)
      obtain rfl := Option.some.inj (ht.symm.trans hu)
      exact ⟨f t, by rw [htasks, withTask_get f ht, if_pos rfl], hrecp⟩
    · obtain ⟨u, hu, hr⟩ := h.known recp j ((htable recp j hij).mp hj)
      exact ⟨u, by rw [htasks, withTask_get f ht, if_neg (Ne.symm hij), hu], hr⟩
  · rw [hlen]
    obtain hold | rfl := hmade c hc
    · exact h.made c hold
    · exact (List.getElem?_eq_some_iff.mp ht).1

theorem sameCalls_append (call : Call) (hj : j ≠ call.task) :
    SameCalls calls (calls ++ [call]) j := by
  have hne : ∀ c : Call, c.task = j → (c ∈ calls ++ [call] ↔ c ∈ calls) := by
    intro c hc
    refine ⟨fun hin => ?_, fun hin => List.mem_append_left _ hin⟩
    obtain hold | hlast := List.mem_append.mp hin
    · exact hold
    · obtain rfl := List.mem_singleton.mp hlast
      exact absurd hc.symm hj
  exact ⟨hne _ rfl, hne _ rfl, (hne _ rfl).mp⟩

theorem sameCalls_tail (call : Call) (hj : j ≠ call.task) :
    SameCalls (call :: calls) calls j := by
  have hne : ∀ c : Call, c.task = j → (c ∈ calls ↔ c ∈ call :: calls) := by
    intro c hc
    refine ⟨List.mem_cons_of_mem _, fun hin => ?_⟩
    obtain rfl | hrest := List.mem_cons.mp hin
    · exact absurd hc.symm hj
    · exact hrest
  exact ⟨hne _ rfl, hne _ rfl, (hne _ rfl).mp⟩

theorem apart_append (h : calls.Pairwise Apart) {call : Call} (hnew : ∀ c ∈ calls, Apart c call) :
    (calls ++ [call]).Pairwise Apart := by
  rw [List.pairwise_append]
  exact ⟨h, List.pairwise_singleton .., fun c hc d hd => List.mem_singleton.mp hd ▸ hnew c hc⟩

/-- A task that runs ends. -/
theorem Valid.finalize (h : Valid m) (outcome : Outcome) : Valid (m.finalize i outcome) := by
  unfold MonitorAgent.finalize
  split
  · rename_i t ht
    split
    · exact h
    · rename_i hrun
      have hf := h.followed i t ht
      have hnone : t.result = none := by simpa using hrun
      have hopen : t.notified = false := by
        cases hn : t.notified with
        | false => rfl
        | true => exact absurd (hf.ended hn).2 (by simp [hnone])
      have hnot : Call.notify i ∉ m.calls := fun hin => by
        have hsome := (hf.notifying.mp hin).1
        simp [hnone] at hsome
      refine h.change ht rfl rfl (fun j hj => sameCalls_append _ hj) (fun _ _ _ => .rfl)
        (fun _ hin => hin) (fun c hc => ?_) (apart_append h.apart fun c hc k => ?_) ?_
      · obtain hold | hlast := List.mem_append.mp hc
        · exact .inl hold
        · exact .inr (by rw [List.mem_singleton.mp hlast]; rfl)
      · refine ⟨fun he => ?_, fun _ => by simp, fun _ => by simp⟩
        subst he
        refine ⟨fun hd => hnot ?_, by simp⟩
        rw [hd]
        exact hc
      · have hbind : Call.bindUnregisteringSelf i ∈ m.calls ++ [.notify i] ↔
            .bindUnregisteringSelf i ∈ m.calls := by simp
        exact {
          notifying := by
            show Call.notify i ∈ m.calls ++ [.notify i] ↔ _
            simp [hopen]
          binding := fun hc => hf.binding (hbind.mp hc)
          bound := hf.bound
          initiating := fun _ hrun => by cases hrun
          pending := fun _ hrun => by cases hrun
          ended := fun hn => by
            rw [show t.notified = true from hn] at hopen
            cases hopen
          held := by
            have hin : m.handlerTasks t.recp = some i := hf.held.mpr (.inl (by simp [hnone]))
            refine iff_of_true hin ?_
            cases hinit : t.initiated with
            | false => exact .inr (.inl rfl)
            | true =>
              obtain hq | hu := hf.pending hinit hnone
              · exact .inr (.inr (.inl (hbind.mpr hq)))
              · exact .inr (.inr (.inr ⟨hu, hopen⟩)) }
  · exact h

/-! ## New tasks and calls -/

/-- A task is made where none is registered. -/
theorem Valid.initiateProtocol {recp : Nat} (h : Valid m) (hnone : m.handlerTasks recp = none) :
    Valid ((m.initiateProtocol recp).registerTask recp m.tasks.length) := by
  have hregister : (m.initiateProtocol recp).registerTask recp m.tasks.length =
      { m with
        handlerTasks := Function.update m.handlerTasks recp (some m.tasks.length)
        tasks := m.tasks ++ [HandleDeath.new recp]
        calls := m.calls ++ [.initiate m.tasks.length] } := by
    have hfree : ¬ ((m.initiateProtocol recp).handlerTasks recp).isSome = true := by
      show ¬ (m.handlerTasks recp).isSome = true
      simp [hnone]
    exact if_neg hfree
  rw [hregister]
  refine ⟨fun i t hi => ?_, fun recp' i hi => ?_, fun c hc => ?_, ?_⟩
  · by_cases hlast : i = m.tasks.length
    · subst hlast
      obtain rfl : HandleDeath.new recp = t := by simpa using hi
      have hcalls : ∀ c ∈ m.calls, c.task ≠ m.tasks.length := fun c hc =>
        Nat.ne_of_lt (h.made c hc)
      exact {
        notifying := by
          refine iff_of_false (fun hin => ?_) (by simp [HandleDeath.new])
          exact hcalls _ (by simpa using hin) rfl
        binding := fun hin => absurd rfl (hcalls _ (by simpa using hin))
        bound := fun hu => (nomatch hu)
        initiating := fun _ _ => rfl
        pending := fun hinit => (nomatch hinit)
        ended := fun hn => (nomatch hn)
        held := iff_of_true (by simp [HandleDeath.new]) (.inr (.inl rfl)) }
    · have hlt : i < m.tasks.length := by
        have hlen := (List.getElem?_eq_some_iff.mp hi).1
        rw [List.length_append] at hlen
        have hone : [HandleDeath.new recp].length = 1 := rfl
        omega
      have ht : m.tasks[i]? = some t := (List.getElem?_append_left hlt).symm.trans hi
      refine (h.followed i t ht).congr (sameCalls_append _ hlast) ?_
      dsimp only
      by_cases hr : t.recp = recp
      · rw [hr, Function.update_self, hnone]
        refine iff_of_false (fun he => ?_) (by simp)
        exact hlast (Option.some.inj he).symm
      · rw [Function.update_of_ne hr]
  · dsimp only at hi
    by_cases hr : recp' = recp
    · subst hr
      rw [Function.update_self] at hi
      obtain rfl := Option.some.inj hi
      exact ⟨HandleDeath.new recp', by simp, rfl⟩
    · rw [Function.update_of_ne hr] at hi
      obtain ⟨t, ht, hrecp⟩ := h.known recp' i hi
      refine ⟨t, ?_, hrecp⟩
      exact (List.getElem?_append_left (List.getElem?_eq_some_iff.mp ht).1).trans ht
  · rw [List.length_append]
    obtain hin | hlast := List.mem_append.mp hc
    · exact Nat.lt_add_right _ (h.made c hin)
    · rw [List.mem_singleton.mp hlast]
      exact Nat.lt_succ_self _
  · refine apart_append h.apart fun c hc k => ⟨fun _ => by simp, fun _ => by simp, fun he hd => ?_⟩
    have hlt := h.made c hc
    rw [he] at hlt
    cases hd
    exact Nat.lt_irrefl _ hlt

theorem Valid.restartComplete {recp : Nat} (h : Valid m) : Valid (m.restartComplete recp) := by
  unfold MonitorAgent.restartComplete
  split
  · rename_i i hi
    obtain ⟨t, ht, -⟩ := h.known recp i hi
    have hsame : ∀ j, SameCalls m.calls (m.calls ++ [.restartComplete i]) j := fun j =>
      ⟨by simp, by simp, by simp⟩
    refine ⟨fun j u hj => (h.followed j u hj).congr (hsame j) .rfl, h.known, fun c hc => ?_, ?_⟩
    · obtain hin | hlast := List.mem_append.mp hc
      · exact h.made c hin
      · rw [List.mem_singleton.mp hlast]
        exact (List.getElem?_eq_some_iff.mp ht).1
    · exact apart_append h.apart fun c hc k =>
        ⟨fun _ => by simp, fun _ => by simp, fun _ => by simp⟩
  · exact h

theorem Valid.restartHandeled {agentId : Nat} (h : Valid m) :
    Valid (m.restartHandeled agentId) := by
  unfold MonitorAgent.restartHandeled
  split
  · exact h.finalize .completed
  · exact h

theorem Valid.handleAgentDeath {recp : Nat} (h : Valid m) : Valid (m.handleAgentDeath recp).1 := by
  unfold MonitorAgent.handleAgentDeath
  split
  · exact h
  · rename_i hnone
    exact h.initiateProtocol hnone

theorem Valid.handlingDeathRequested {agentId instanceId : Nat} {partner : Option Nat}
    (h : Valid m) : Valid (m.handlingDeathRequested agentId instanceId partner).1 := by
  unfold MonitorAgent.handlingDeathRequested
  split
  · exact h
  · rename_i hnone
    split
    · exact h
    · split
      · exact h.initiateProtocol hnone
      · exact h

/-! ## Calls that are made -/

section
variable {rest : List Call} {c : Call}

/-- The calls of the other tasks stay when one is made, and queues another of its task. -/
theorem sameCalls_next (hcalls : m.calls = c :: rest) (d : Call) (hd : d.task = c.task)
    (hj : j ≠ c.task) : SameCalls m.calls rest j ∧ SameCalls m.calls (rest ++ [d]) j := by
  rw [hcalls]
  have htail : SameCalls (c :: rest) rest j := sameCalls_tail c hj
  have happend : SameCalls rest (rest ++ [d]) j := sameCalls_append d (hd ▸ hj)
  exact ⟨htail, happend.1.trans htail.1, happend.2.1.trans htail.2.1,
    fun hin => htail.2.2 (happend.2.2 hin)⟩

theorem Valid.head (h : Valid m) (hcalls : m.calls = c :: rest) :
    (∃ t, m.tasks[c.task]? = some t) ∧ rest.Pairwise Apart ∧ ∀ d ∈ rest, Apart c d := by
  have hapart := h.apart
  rw [hcalls, List.pairwise_cons] at hapart
  refine ⟨⟨_, List.getElem?_eq_getElem (h.made c ?_)⟩, hapart.2, hapart.1⟩
  rw [hcalls]
  exact List.mem_cons_self

/-- A call that changes nothing but what is known of its task is made. -/
theorem Valid.pop (h : Valid m) (hcalls : m.calls = c :: rest) (ht : m.tasks[c.task]? = some t)
    (hi : Followed m.handlerTasks rest c.task t) : Valid { m with calls := rest } := by
  obtain ⟨-, hapart, -⟩ := h.head hcalls
  refine h.change (f := id) ht rfl ?_ (fun j hj => (sameCalls_next hcalls c rfl hj).1)
    (fun _ _ _ => .rfl) (fun _ hin => hin) (fun d hd => .inl ?_) hapart hi
  · exact (List.modify_id _ _).symm
  · rw [hcalls]
    exact List.mem_cons_of_mem _ hd

/-- A task is removed from the table under its agent's id, and no other task is. -/
theorem unregister_iff (hin : table t.recp = some i) (recp : Nat) (hj : j ≠ i) :
    Function.update table t.recp none recp = some j ↔ table recp = some j := by
  by_cases hr : recp = t.recp
  · subst hr
    rw [Function.update_self, hin]
    refine iff_of_false (by simp) fun he => hj (Option.some.inj he).symm
  · rw [Function.update_of_ne hr]

theorem unregister_kept {recp : Nat} (hin : Function.update table t.recp none recp = some i) :
    table recp = some i := by
  by_cases hr : recp = t.recp
  · rw [hr, Function.update_self] at hin
    cases hin
  · rwa [Function.update_of_ne hr] at hin

theorem Valid.initiate (h : Valid m) (hcalls : m.calls = .initiate i :: rest) :
    Valid ({ m with calls := rest }.initiate i) := by
  obtain ⟨⟨t, ht⟩, hapart, hhead⟩ := h.head hcalls
  have ht : m.tasks[i]? = some t := ht
  have hf := h.followed i t ht
  have hsame : SameCalls m.calls rest i :=
    ⟨by simp [hcalls], by simp [hcalls], fun hin => by simp [hcalls]⟩
  unfold MonitorAgent.initiate
  rw [ht]
  dsimp only
  split
  · exact h.pop hcalls ht (hf.congr hsame .rfl)
  · rename_i hrun
    have hnone : t.result = none := by simpa using hrun
    have hnew : t.initiated = false := hf.initiating (by simp [hcalls]) hnone
    have hbind : Call.bindUnregisteringSelf i ∉ m.calls := fun hin => by
      have hinit := (hf.binding hin).1
      simp [hnew] at hinit
    have hunbound : t.unregistering = false := by
      cases hu : t.unregistering with
      | false => rfl
      | true => simp [hf.bound hu] at hnew
    have hopen : t.notified = false := by
      cases hn : t.notified with
      | false => rfl
      | true => simp [(hf.ended hn).1] at hnew
    have hlast : ∀ d ∈ rest, Apart d (.bindUnregisteringSelf i) := by
      refine fun d hd k => ⟨fun he => ⟨by simp, fun he' => ?_⟩, fun he he' => ?_, fun _ => by simp⟩
      · cases he'
        have hnot := hf.notifying.mp (hsame.1.mp (he ▸ hd))
        simp [hnone] at hnot
      · cases he'
        exact hbind (hsame.2.1.mp (he ▸ hd))
    refine h.change ht rfl rfl
      (fun j hj => (sameCalls_next hcalls (.bindUnregisteringSelf i) rfl hj).2)
      (fun _ _ _ => .rfl) (fun _ hin => hin) (fun d hd => ?_) (apart_append hapart hlast) ?_
    · obtain hin | hl := List.mem_append.mp hd
      · exact .inl (by rw [hcalls]; exact List.mem_cons_of_mem _ hin)
      · exact .inr (by rw [List.mem_singleton.mp hl]; rfl)
    · have hqueued : Call.bindUnregisteringSelf i ∈ rest ++ [.bindUnregisteringSelf i] := by simp
      exact {
        notifying := by
          have hnot := hf.notifying
          rw [← hsame.1] at hnot
          show Call.notify i ∈ rest ++ [.bindUnregisteringSelf i] ↔ _
          simpa using hnot
        binding := fun _ => ⟨rfl, hunbound, hopen⟩
        bound := fun _ => rfl
        initiating := fun hin _ => by
          have hrest : Call.initiate i ∈ rest :=
            (List.mem_append.mp hin).resolve_right (by simp)
          exact absurd rfl ((hhead _ hrest i).2.2 rfl)
        pending := fun _ _ => .inl hqueued
        ended := fun hn => by
          rw [show t.notified = true from hn] at hopen
          cases hopen
        held := iff_of_true (hf.held.mpr (.inr (.inl hnew))) (.inr (.inr (.inl hqueued))) }

theorem Valid.bindUnregisteringSelf (h : Valid m)
    (hcalls : m.calls = .bindUnregisteringSelf i :: rest) :
    Valid ({ m with calls := rest }.bindUnregisteringSelf i) := by
  obtain ⟨⟨t, ht⟩, hapart, hhead⟩ := h.head hcalls
  have ht : m.tasks[i]? = some t := ht
  have hf := h.followed i t ht
  have hqueued : Call.bindUnregisteringSelf i ∈ m.calls := by simp [hcalls]
  obtain ⟨hinit, hunbound, hopen⟩ := hf.binding hqueued
  have hin : m.handlerTasks t.recp = some i := hf.held.mpr (.inr (.inr (.inl hqueued)))
  have hnot : Call.bindUnregisteringSelf i ∉ rest := fun hb => (hhead _ hb i).2.1 rfl rfl
  have hnotify : Call.notify i ∈ rest ↔ t.result.isSome = true ∧ t.notified = false := by
    rw [← hf.notifying]
    simp [hcalls]
  have hinitiating : Call.initiate i ∈ rest → t.result = none → t.initiated = false := fun hr =>
    hf.initiating (by simp [hcalls, hr])
  have hended := hf.ended
  have hmade : ∀ d ∈ rest, d ∈ m.calls ∨ d.task = i := fun d hd =>
    .inl (by rw [hcalls]; exact List.mem_cons_of_mem _ hd)
  unfold MonitorAgent.bindUnregisteringSelf
  rw [ht]
  dsimp only
  split
  · rename_i hnone
    refine h.change ht rfl rfl (fun j hj => (sameCalls_next hcalls _ rfl hj).1)
      (fun _ _ _ => .rfl) (fun _ hi => hi) hmade hapart ?_
    exact ⟨hnotify, fun hb => absurd hb hnot, fun _ => hinit, hinitiating, fun _ _ => .inr rfl,
      hended, iff_of_true hin (.inr (.inr (.inr ⟨rfl, hopen⟩)))⟩
  · rename_i hdone
    refine h.change (f := id) ht rfl (List.modify_id _ _).symm
      (fun j hj => (sameCalls_next hcalls _ rfl hj).1)
      (fun recp j hj => unregister_iff hin recp hj) (fun recp => unregister_kept) hmade hapart ?_
    refine ⟨hnotify, fun hb => absurd hb hnot, fun _ => hinit, hinitiating,
      fun _ hr => ?_, hended, ?_⟩
    · have hnone : t.result = none := hr
      rw [hdone] at hnone
      cases hnone
    · refine iff_of_false ?_ ?_
      · show Function.update m.handlerTasks t.recp none t.recp ≠ some i
        simp
      · show ¬ Held rest i t
        simp [Held, hdone, hinit, hnot, hunbound]
  · rename_i hfailed
    refine h.pop hcalls ht ⟨hnotify, fun hb => absurd hb hnot, fun _ => hinit, hinitiating,
      fun _ hr => ?_, hended, iff_of_true hin (.inl (by simp [hfailed]))⟩
    rw [hfailed] at hr
    cases hr

theorem Valid.notify (h : Valid m) (hcalls : m.calls = .notify i :: rest)
    (horderly : ∀ t ∈ m.tasks[i]?, t.initiated = true ∧ t.result = some .completed) :
    Valid ({ m with calls := rest }.notify i) := by
  obtain ⟨⟨t, ht⟩, hapart, hhead⟩ := h.head hcalls
  have ht : m.tasks[i]? = some t := ht
  have hf := h.followed i t ht
  obtain ⟨hinit, hdone⟩ := horderly t ht
  obtain ⟨-, hopen⟩ := hf.notifying.mp (by simp [hcalls])
  have hnotify : Call.notify i ∉ rest := fun hn => ((hhead _ hn i).1 rfl).1 rfl
  have hnot : Call.bindUnregisteringSelf i ∉ rest := fun hb => ((hhead _ hb i).1 rfl).2 rfl
  have hmade : ∀ d ∈ rest, d ∈ m.calls ∨ d.task = i := fun d hd =>
    .inl (by rw [hcalls]; exact List.mem_cons_of_mem _ hd)
  have hnone : t.result ≠ none := by simp [hdone]
  unfold MonitorAgent.notify
  rw [ht]
  dsimp only
  split
  · rename_i hbound
    have hin : m.handlerTasks t.recp = some i := hf.held.mpr (.inr (.inr (.inr ⟨hbound.1, hopen⟩)))
    refine h.change ht rfl rfl (fun j hj => (sameCalls_next hcalls _ rfl hj).1)
      (fun recp j hj => unregister_iff hin recp hj) (fun recp => unregister_kept) hmade hapart ?_
    refine ⟨iff_of_false hnotify (by simp), fun hb => absurd hb hnot, hf.bound,
      fun _ hr => absurd hr hnone, fun _ hr => absurd hr hnone, fun _ => ⟨hinit, hdone⟩, ?_⟩
    refine iff_of_false ?_ ?_
    · show Function.update m.handlerTasks t.recp none t.recp ≠ some i
      simp
    · show ¬ Held rest i { t with notified := true }
      simp [Held, hdone, hinit, hnot]
  · rename_i hunbound
    have hout : ¬ m.handlerTasks t.recp = some i := by
      rw [hf.held]
      have hu : ¬ t.unregistering = true := fun hu => hunbound ⟨hu, hdone⟩
      simp [Held, hdone, hinit, hcalls, hnot, hu]
    refine h.change ht rfl rfl (fun j hj => (sameCalls_next hcalls _ rfl hj).1)
      (fun _ _ _ => .rfl) (fun _ hi => hi) hmade hapart ?_
    refine ⟨iff_of_false hnotify (by simp), fun hb => absurd hb hnot, hf.bound,
      fun _ hr => absurd hr hnone, fun _ hr => absurd hr hnone, fun _ => ⟨hinit, hdone⟩, ?_⟩
    refine iff_of_false hout ?_
    show ¬ Held rest i { t with notified := true }
    simp [Held, hdone, hinit, hnot]

/-- A task that failed, or was not initiated, stays in the table. -/
theorem Valid.left_behind (h : Valid m) (hcalls : m.calls = .notify i :: rest)
    (hwrong : ¬ ∀ t ∈ m.tasks[i]?, t.initiated = true ∧ t.result = some .completed) :
    ¬ Right ({ m with calls := rest }.notify i) := by
  obtain ⟨⟨t, ht⟩, -, -⟩ := h.head hcalls
  have ht : m.tasks[i]? = some t := ht
  have hf := h.followed i t ht
  have hbad : ¬ (t.initiated = true ∧ t.result = some .completed) := fun hgood =>
    hwrong fun u hu => Option.some.inj (ht.symm.trans hu) ▸ hgood
  have hin : m.handlerTasks t.recp = some i := by
    apply hf.held.mpr
    by_cases hinit : t.initiated = true
    · exact .inl fun hdone => hbad ⟨hinit, hdone⟩
    · exact .inr (.inl (Bool.not_eq_true _ ▸ hinit))
  have hkept : ¬ (t.unregistering = true ∧ t.result = some .completed) := fun hu =>
    hbad ⟨hf.bound hu.1, hu.2⟩
  unfold MonitorAgent.notify
  rw [ht]
  dsimp only
  rw [if_neg hkept]
  intro hr
  have hpopped : ({ m with calls := rest } : MonitorAgent).tasks[i]? = some t := ht
  refine hr.forgotten i { t with notified := true } ?_ rfl hin
  rw [withTask_get _ hpopped, if_pos rfl]

end

/-! ## Runs -/

variable {e : Event}

/-- A step that goes right keeps what is known. -/
theorem Valid.step (h : Valid m) (horderly : Orderly m e) (hstep : step m e = some m') :
    Valid m' := by
  cases e with
  | handleAgentDeath recp =>
    obtain rfl := Option.some.inj hstep
    exact h.handleAgentDeath
  | handlingDeathRequested agentId instanceId partner =>
    obtain rfl := Option.some.inj hstep
    exact h.handlingDeathRequested
  | restartComplete recp =>
    obtain rfl := Option.some.inj hstep
    exact h.restartComplete
  | restartHandeled agentId =>
    obtain rfl := Option.some.inj hstep
    exact h.restartHandeled
  | next =>
    simp only [Deaths.step] at hstep
    split at hstep
    · cases hstep
    · rename_i c rest hcalls
      obtain rfl := Option.some.inj hstep
      cases c with
      | initiate i => exact h.initiate hcalls
      | bindUnregisteringSelf i => exact h.bindUnregisteringSelf hcalls
      | restartComplete i =>
        obtain ⟨⟨t, ht⟩, -, -⟩ := h.head hcalls
        refine h.pop hcalls ht ((h.followed _ t ht).congr ?_ .rfl)
        exact ⟨by simp [hcalls], by simp [hcalls], by simp [hcalls]⟩
      | notify i => exact h.notify hcalls (horderly i (by simp [hcalls]))
  | finish i outcome =>
    obtain ⟨task, -, hfinish⟩ := Option.bind_eq_some_iff.mp hstep
    split at hfinish
    · obtain rfl := Option.some.inj hfinish
      exact h.finalize outcome
    · cases hfinish

theorem Valid.lost (h : Valid m) (hwrong : ¬ Orderly m e) (hstep : Deaths.step m e = some m') :
    ¬ Right m' := by
  cases e with
  | next =>
    simp only [Deaths.step] at hstep
    split at hstep
    · cases hstep
    · rename_i c rest hcalls
      obtain rfl := Option.some.inj hstep
      obtain ⟨i, hi⟩ := Classical.not_forall.mp hwrong
      obtain ⟨hhead, hbad⟩ := Classical.not_imp.mp hi
      rw [hcalls] at hhead
      obtain rfl : c = .notify i := by simpa using hhead
      exact h.left_behind hcalls hbad
  | _ => exact absurd trivial hwrong

/-- In a run from a new monitor agent no handler is left behind in any state reached, if and only
if every task whose end is notified was initiated and has succeeded. -/
theorem forgotten_iff (es : List Event) (m : MonitorAgent) :
    Run (Guarded Orderly (Defined step)) .new es m ↔
      Run (Ending Right (Defined step)) .new es m :=
  run_guarded_iff (fun _ h => h.right) (fun _ _ _ h hg hs => h.step hg hs)
    (fun _ _ _ h hg hs => h.lost hg hs) Valid.new

/-- The descriptor of a dead agent is gone: its handler fails and stays in the table. -/
theorem failed_left_behind :
    ∃ (es : List Event) (m : MonitorAgent), Run (Defined step) .new es m ∧ ¬ Right m := by
  obtain ⟨m, hm, h⟩ : ∃ m, [Event.handleAgentDeath 7, .next, .next, .finish 0 .error,
      .next].foldlM step .new = some m ∧ decide (m.handlerTasks 7 = some 0 ∧
      m.tasks = [⟨7, true, true, some .error, true⟩]) = true := by
    apply Option.map_eq_some_iff.mp
    decide +kernel
  obtain ⟨hin, htasks⟩ := of_decide_eq_true h
  refine ⟨_, m, run_defined hm, fun hr => ?_⟩
  exact hr.forgotten 0 ⟨7, true, true, some .error, true⟩ (by rw [htasks]; rfl) rfl hin

end Feat.Agents.Monitor.Deaths
