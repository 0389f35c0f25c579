import Mathlib.Algebra.BigOperators.Group.List.Basic
import Mathlib.Algebra.Order.Group.Int
import Mathlib.Algebra.Ring.Int.Defs
import Feat.Messaging.ChannelOnce

/- The bindings that the channel counts.

   A binding is created for everyone who asks for it, and taken away from the broker when
   the last one has deleted it. The count is changed before the broker is asked, so when
   the broker call fails, the count has been changed and will be again when the call is
   performed again. `bindings_counted_iff` says that the count is right as long as this
   does not happen, and `counted_twice` that a count may get below zero. -/
namespace Feat.Messaging
open Hash Transition Traces

/-- What a call does to the number of users of a binding. -/
def Method.effect (b : BindingKey) : Method → Int
  | .createBinding exchange key _ => if (exchange, key) = b then 1 else 0
  | .deleteBinding exchange key _ => if (exchange, key) = b then -1 else 0
  | _ => 0

def Method.isBinding : Method → Bool
  | .createBinding _ _ _ => true
  | .deleteBinding _ _ _ => true
  | _ => false

def Request.isUnbind : Request → Bool
  | .queueUnbind _ _ _ => true
  | _ => false

/-- Creates minus deletes. -/
def net (b : BindingKey) (ms : List Method) : Int := (ms.map (Method.effect b)).sum

namespace Channel

/-- The calls that have taken effect. -/
def tookEffect (log : List Entry) : List Method :=
  log.filterMap fun
    | .succeeded _ m => some m
    | _ => none

/-- The users of a binding: the creates minus the deletes that have taken effect. -/
def users (b : BindingKey) (log : List Entry) : Int := net b (tookEffect log)

/-- What the call that is performed will do to the users of a binding. -/
def inHand (b : BindingKey) : Option (ProcessingCall × List Request) → Int
  | some (call, _) => call.method.effect b
  | none => 0

/-- A delete asks the broker to unbind if and only if it is by the last user. -/
def UnbindsLast (log : List Entry) (e : Entry) : Prop :=
  ∀ n exchange key queue asked, e = .performed n (.deleteBinding exchange key queue) asked →
    (asked = some (.queueUnbind exchange key queue) ↔ users (exchange, key) log = 1)

/-- The count is the number of users, with the call in hand, never negative, and the broker
    is asked to unbind exactly when the last user deletes the binding. -/
structure Counted (s : Channel) : Prop where
  counted : ∀ b, s.count b = users b s.log + inHand b s.current
  nonneg : ∀ b, 0 ≤ s.count b
  unbinds : Each UnbindsLast s.log
  only_deletes : ∀ n m exchange key queue,
    .performed n m (some (.queueUnbind exchange key queue)) ∈ s.log →
      m = .deleteBinding exchange key queue
  only_at_once : ∀ exchange key queue, .requested (.queueUnbind exchange key queue) ∉ s.log

/-- A binding is deleted by someone who created it. -/
def Disciplined (s : Channel) : Event → Prop
  | .call (.deleteBinding exchange key _) => 1 ≤ net (exchange, key) s.recorded
  | _ => True

/-- No broker call for a binding fails. -/
def Unfailing (s : Channel) (e : Event) : Prop :=
  ∀ call requests, e = .answered false → s.current = some (call, requests) →
    call.method.isBinding = false

/-! ## Counts -/

variable {s t : Channel} {b : BindingKey} {m : Method}

theorem effect_eq_zero (h : m.isBinding = false) : m.effect b = 0 := by
  cases m with
  | createBinding exchange key queue => cases h
  | deleteBinding exchange key queue => cases h
  | _ => rfl

/-- A call for a binding changes the number of its users. -/
theorem exists_effect (h : m.isBinding = true) : ∃ b, m.effect b ≠ 0 := by
  cases m with
  | createBinding exchange key queue => exact ⟨(exchange, key), by simp [Method.effect]⟩
  | deleteBinding exchange key queue => exact ⟨(exchange, key), by simp [Method.effect]⟩
  | _ => cases h

@[simp] theorem net_append (b : BindingKey) (xs ys : List Method) :
    net b (xs ++ ys) = net b xs + net b ys := by
  simp [net]

@[simp] theorem net_singleton (b : BindingKey) (m : Method) : net b [m] = m.effect b := by
  simp [net]

/-- Calls that are not for bindings do not count. -/
theorem net_filter (b : BindingKey) (ms : List Method) :
    net b (ms.filter Method.isBinding) = net b ms := by
  induction ms with
  | nil => rfl
  | cons m ms ih =>
    have hcons : ∀ m ms, net b (m :: ms) = m.effect b + net b ms := fun _ _ => rfl
    cases hm : m.isBinding with
    | true => rw [List.filter_cons_of_pos hm, hcons, hcons, ih]
    | false =>
      rw [List.filter_cons_of_neg (by simp [hm]), hcons, effect_eq_zero hm, ih, Int.zero_add]

@[simp] theorem users_append (b : BindingKey) (xs ys : List Entry) :
    users b (xs ++ ys) = users b xs + users b ys := by
  simp [users, tookEffect]

/-- What the code does to the count is the effect of the call. -/
theorem lookup_counted (m : Method) (counts : Dict BindingKey Int) (b : BindingKey) :
    ((counted m counts).lookup b).getD 0 = (counts.lookup b).getD 0 + m.effect b := by
  unfold counted
  split
  · rename_i exchange key queue
    by_cases hb : b = (exchange, key)
    · subst hb
      simp [Method.effect]
    · simp [Method.effect, AList.lookup_insert_ne hb, Ne.symm hb]
  · rename_i exchange key queue
    by_cases hb : b = (exchange, key)
    · subst hb
      dsimp only
      split
      · rename_i hone
        simp [Method.effect, hone]
      · simp [Method.effect, Int.sub_eq_add_neg]
    · dsimp only
      split
      · simp [Method.effect, AList.lookup_erase_ne hb, Ne.symm hb]
      · simp [Method.effect, AList.lookup_insert_ne hb, Ne.symm hb]
  · rename_i hcreate hdelete
    cases m with
    | createBinding exchange key queue => exact absurd rfl (hcreate _ _ _)
    | deleteBinding exchange key queue => exact absurd rfl (hdelete _ _ _)
    | _ => simp [Method.effect]

/-! ## What one step does -/

/-- The count with a call in hand: it is that of the binding calls taken from the chain, which
    come before the others in the order they were recorded in. -/
structure Balanced (hand : Option (ProcessingCall × List Request)) (s : Channel) : Prop where
  counted : ∀ b, s.count b = users b s.log + inHand b hand
  ordered : ∃ done,
    done ++ (s.processingChain.map (·.method)).filter Method.isBinding =
      s.recorded.filter Method.isBinding ∧ ∀ b, s.count b = net b done
  disciplined : ∀ ms, ms <+: s.recorded.filter Method.isBinding → ∀ b, 0 ≤ net b ms
  fresh : ∀ call ∈ (hand.map Prod.fst).toList ++ s.processingChain,
    call.method.isBinding = true → call.called = false
  requests : ∀ call requests, hand = some (call, requests) →
    ∀ request ∈ requests.tail, request.isUnbind = false
  unbinds : Each UnbindsLast s.log
  only_deletes : ∀ n m exchange key queue,
    .performed n m (some (.queueUnbind exchange key queue)) ∈ s.log →
      m = .deleteBinding exchange key queue
  only_at_once : ∀ exchange key queue, .requested (.queueUnbind exchange key queue) ∉ s.log

variable {hand : Option (ProcessingCall × List Request)} {call : ProcessingCall}
  {requests : List Request}

theorem Balanced.nonneg (h : Balanced hand s) (b : BindingKey) : 0 ≤ s.count b := by
  obtain ⟨done, hdone, hcount⟩ := h.ordered
  rw [hcount]
  exact h.disciplined done ⟨_, hdone⟩ b

theorem Balanced.isCounted (h : Balanced s.current s) : Counted s where
  counted := h.counted
  nonneg := h.nonneg
  unbinds := h.unbinds
  only_deletes := h.only_deletes
  only_at_once := h.only_at_once

theorem balanced_new : Balanced new.current new where
  counted _ := rfl
  ordered := ⟨[], rfl, fun _ => rfl⟩
  disciplined ms hms b := by
    rw [List.prefix_nil.mp hms]
    exact le_refl _
  fresh call hcall := by cases hcall
  requests call requests hcurrent := by cases hcurrent
  unbinds := each_nil _
  only_deletes n m exchange key queue hin := by cases hin
  only_at_once exchange key queue hin := by cases hin

/-- What touches neither the counts nor the calls nor the log. -/
theorem Balanced.same (h : Balanced hand s) (hcounts : t.bindingsCount = s.bindingsCount)
    (hchain : t.processingChain = s.processingChain) (hrecorded : t.recorded = s.recorded)
    (hlog : t.log = s.log) : Balanced hand t := by
  have hcount : ∀ b, t.count b = s.count b := by
    intro b
    rw [count, count, hcounts]
  refine ⟨fun b => ?_, ?_, ?_, ?_, h.requests, ?_, ?_, ?_⟩
  · rw [hcount, hlog]
    exact h.counted b
  · obtain ⟨done, hdone, hnet⟩ := h.ordered
    rw [hchain, hrecorded]
    exact ⟨done, hdone, fun b => (hcount b).trans (hnet b)⟩
  · rw [hrecorded]
    exact h.disciplined
  · rw [hchain]
    exact h.fresh
  · rw [hlog]
    exact h.unbinds
  · rw [hlog]
    exact h.only_deletes
  · rw [hlog]
    exact h.only_at_once

/-- Entries by which no call starts or takes effect. -/
def Quiet : Entry → Prop
  | .performed _ _ _ => False
  | .requested request => request.isUnbind = false
  | .succeeded _ _ => False
  | _ => True

theorem Balanced.record (h : Balanced hand s) (es : List Entry) (hes : ∀ e ∈ es, Quiet e) :
    Balanced hand (record es s) := by
  have hnone : tookEffect es = [] := by
    refine List.filterMap_eq_nil_iff.mpr fun e he => ?_
    cases e with
    | succeeded n m => exact (hes _ he).elim
    | _ => rfl
  have hin : ∀ e, ¬ Quiet e → e ∈ s.log ++ es → e ∈ s.log := by
    intro e hloud he
    exact (List.mem_append.mp he).resolve_right fun he => hloud (hes e he)
  refine ⟨fun b => ?_, h.ordered, h.disciplined, h.fresh, h.requests, ?_, ?_, ?_⟩
  · show s.count b = users b (s.log ++ es) + _
    rw [users_append, h.counted b]
    simp [users, hnone, net]
  · refine h.unbinds.append fun e he xs n exchange key queue asked hperformed => ?_
    subst hperformed
    exact (hes _ he).elim
  · exact fun n m exchange key queue hm =>
      h.only_deletes n m exchange key queue (hin _ (fun hq => hq) hm)
  · exact fun exchange key queue hm =>
      h.only_at_once exchange key queue (hin _ (by simp [Quiet, Request.isUnbind]) hm)

/-- The call in hand takes effect. -/
theorem Balanced.succeed (h : Balanced (some (call, requests)) s) (n : Nat) :
    Balanced none (Channel.record [.succeeded n call.method] s) := by
  have hin : ∀ e, (∀ k m, e ≠ .succeeded k m) → e ∈ s.log ++ [.succeeded n call.method] →
      e ∈ s.log := by
    intro e hne he
    refine (List.mem_append.mp he).resolve_right fun he => ?_
    exact hne _ _ (List.mem_singleton.mp he)
  refine ⟨fun b => ?_, h.ordered, h.disciplined, fun other ho => ?_, fun call' rest hc => ?_,
    ?_, ?_, ?_⟩
  · show s.count b = users b (s.log ++ _) + 0
    rw [users_append, h.counted b, Int.add_zero]
    simp [users, tookEffect, inHand]
  · exact h.fresh other (List.mem_append_right _ ho)
  · cases hc
  · exact h.unbinds.append (by simp [UnbindsLast])
  · exact fun k m exchange key queue hm =>
      h.only_deletes k m exchange key queue (hin _ (by simp) hm)
  · exact fun exchange key queue hm => h.only_at_once exchange key queue (hin _ (by simp) hm)

/-- The call in hand, when it is not for a binding, is put back. -/
theorem Balanced.putBack (h : Balanced hand s) (hm : call.method.isBinding = false)
    (hhand : ∀ b, inHand b hand = 0) : Balanced none (processingErrorHandler call s) := by
  refine ⟨fun b => ?_, ?_, h.disciplined, fun other ho => ?_, fun call' rest hc => ?_,
    h.unbinds, h.only_deletes, h.only_at_once⟩
  · exact (h.counted b).trans (by rw [hhand b]; rfl)
  · obtain ⟨done, hdone, hnet⟩ := h.ordered
    refine ⟨done, ?_, hnet⟩
    show done ++ ((call :: s.processingChain).map _).filter _ = _
    rw [List.map_cons, List.filter_cons_of_neg (by simp [hm])]
    exact hdone
  · obtain rfl | ho := List.mem_cons.mp ho
    · exact fun hbinding => absurd hbinding (by simp [hm])
    · exact h.fresh other (List.mem_append_right _ ho)
  · cases hc

theorem Balanced.processNext (h : Balanced hand s) : Balanced hand s.processNext := by
  unfold Channel.processNext
  split
  · exact h
  · exact h.same rfl rfl rfl rfl

/-- A call is recorded. -/
theorem Balanced.callOnChannel (h : Balanced hand s) (hguard : Disciplined s (.call m)) :
    Balanced hand (s.callOnChannel m) := by
  unfold Channel.callOnChannel
  split
  · exact h
  apply Balanced.processNext
  refine ⟨h.counted, ?_, fun ms hms b => ?_, fun other ho => ?_, h.requests, h.unbinds,
    h.only_deletes, h.only_at_once⟩
  · obtain ⟨done, hdone, hnet⟩ := h.ordered
    refine ⟨done, ?_, hnet⟩
    show done ++ ((s.processingChain ++ [_]).map _).filter _ = (s.recorded ++ [m]).filter _
    rw [List.map_append, List.filter_append, ← List.append_assoc, hdone, List.filter_append]
    rfl
  · have hms : ms <+: (s.recorded ++ [m]).filter Method.isBinding := hms
    rw [List.filter_append] at hms
    cases hbinding : m.isBinding with
    | false =>
      rw [List.filter_singleton, hbinding, cond_false, List.append_nil] at hms
      exact h.disciplined ms hms b
    | true =>
      rw [List.filter_singleton, hbinding, cond_true] at hms
      obtain rfl | hms := List.prefix_concat_iff.mp hms
      · rw [net_append, net_singleton, net_filter]
        have hbefore : 0 ≤ net b s.recorded := by
          rw [← net_filter]
          exact h.disciplined _ (List.prefix_refl _) b
        cases m with
        | createBinding exchange key queue =>
          simp only [Method.effect]
          split <;> omega
        | deleteBinding exchange key queue =>
          simp only [Method.effect]
          split
          · rename_i hb
            have hone : 1 ≤ net (exchange, key) s.recorded := hguard
            rw [hb] at hone
            omega
          · omega
        | _ => cases hbinding
      · exact h.disciplined ms hms b
  · have ho : other ∈ (hand.map Prod.fst).toList ++ (s.processingChain ++ [_]) := ho
    rw [← List.append_assoc] at ho
    obtain ho | ho := List.mem_append.mp ho
    · exact h.fresh other ho
    · rw [List.mem_singleton.mp ho]
      exact fun _ => rfl

/-- A delete asks the broker to unbind when the count is one. -/
theorem head_stages_iff {counts : Dict BindingKey Int} {exchange queue : String}
    {key : Option String} :
    (stages m counts).head? = some (.queueUnbind exchange key queue) ↔
      m = .deleteBinding exchange key queue ∧ (counts.lookup (exchange, key)).getD 0 = 1 := by
  unfold stages
  split
  · simp
  · split
    · rename_i hone
      simp only [List.head?_cons, Option.some.injEq, Request.queueUnbind.injEq,
        Method.deleteBinding.injEq]
      refine ⟨fun he => ⟨he, ?_⟩, fun he => he.1⟩
      obtain ⟨rfl, rfl, rfl⟩ := he
      exact hone
    · rename_i hmany
      refine iff_of_false (by simp) fun he => hmany ?_
      obtain ⟨he, hone⟩ := he
      cases he
      exact hone
  · rename_i hdelete
    refine iff_of_false (by simp) fun he => ?_
    exact hdelete _ _ _ he.1

theorem tail_stages {counts : Dict BindingKey Int} :
    ∀ request ∈ (stages m counts).tail, request.isUnbind = false := by
  unfold stages
  split
  · simp [Request.isUnbind]
  · split
    · simp
    · simp
  · simp

/-- The loop goes on when no call is in hand. -/
theorem Balanced.performNext (h : Balanced none s) :
    Balanced s.performNext.current s.performNext := by
  unfold Channel.performNext
  split
  · rename_i call rest hstate hchain
    have hcount : ∀ b, (s.bindingsCount.lookup b).getD 0 = users b s.log := by
      intro b
      exact (h.counted b).trans (Int.add_zero _)
    have hin : ∀ e r, (∀ k m, e ≠ .performed k m r) →
        e ∈ s.log ++ [.performed call.number call.method r] → e ∈ s.log := by
      intro e r hne he
      refine (List.mem_append.mp he).resolve_right fun he => ?_
      exact hne _ _ (List.mem_singleton.mp he)
    refine ⟨fun b => ?_, ?_, h.disciplined, fun other ho => ?_, fun call' requests hc => ?_,
      ?_, fun n m exchange key queue hm => ?_, fun exchange key queue hm => ?_⟩
    · show ((Channel.counted _ _).lookup b).getD 0 = users b (s.log ++ _) + call.method.effect b
      rw [lookup_counted, hcount, users_append]
      simp [users, tookEffect, net]
    · obtain ⟨done, hdone, hnet⟩ := h.ordered
      rw [hchain, List.map_cons] at hdone
      refine ⟨done ++ [call.method].filter Method.isBinding, ?_, fun b => ?_⟩
      · show _ ++ (rest.map _).filter _ = s.recorded.filter _
        rw [← hdone, List.append_assoc, ← List.filter_append]
        rfl
      · show ((Channel.counted _ _).lookup b).getD 0 = _
        rw [lookup_counted, net_append, net_filter, net_singleton, ← hnet]
        rfl
    · have ho : other ∈ call :: rest := ho
      rw [← hchain] at ho
      exact h.fresh other ho
    · cases hc
      exact tail_stages
    · refine h.unbinds.concat fun n exchange key queue asked hperformed => ?_
      obtain ⟨-, hmethod, rfl⟩ := Entry.performed.inj hperformed
      rw [head_stages_iff, hcount]
      exact ⟨fun he => he.2, fun he => ⟨hmethod, he⟩⟩
    · obtain hm | hm := List.mem_append.mp hm
      · exact h.only_deletes n m exchange key queue hm
      · obtain ⟨-, hmethod, hasked⟩ := Entry.performed.inj (List.mem_singleton.mp hm)
        rw [hmethod]
        exact (head_stages_iff.mp hasked.symm).1
    · exact h.only_at_once exchange key queue (hin _ _ (by simp) hm)
  · refine ⟨h.counted, h.ordered, h.disciplined, h.fresh, fun call requests hc => ?_, h.unbinds,
      h.only_deletes, h.only_at_once⟩
    cases hc

/-- An answer, when it is no failure for a binding. -/
theorem answer_balanced {success : Bool} (h : Balanced s.current s)
    (hguard : Unfailing s (.answered success)) (hstep : answer success s = some t) :
    Balanced t.current t := by
  have hfail : ∀ call requests, s.current = some (call, requests) → success = false →
      Balanced (answered call false (Channel.record [.failed call.number call.method] s)).current
        (answered call false (Channel.record [.failed call.number call.method] s)) := by
    intro call requests hc hs
    rw [hs] at hguard
    have hm := hguard call requests rfl hc
    have hzero : ∀ b, inHand b s.current = 0 := by
      intro b
      rw [hc]
      exact effect_eq_zero hm
    have hafter := h.record [.failed call.number call.method] (by simp [Quiet])
    unfold answered
    split
    · exact hafter.putBack hm hzero
    · exact (hafter.record [.fired call.number] (by simp [Quiet])).putBack hm hzero
  have hsucceed : ∀ call requests, s.current = some (call, requests) →
      Balanced (answered call true (Channel.record [.succeeded call.number call.method] s)).current
        (answered call true (Channel.record [.succeeded call.number call.method] s)) := by
    intro call requests hc
    have hfresh := h.fresh
    rw [hc] at h hfresh
    have hafter := h.succeed call.number
    unfold answered
    split
    · rename_i hcalled
      refine hafter.putBack ?_ fun b => rfl
      by_contra hm
      have hin : call ∈ [call] ++ s.processingChain := by simp
      have hnot := hfresh call hin (by simpa using hm)
      rw [hcalled] at hnot
      cases hnot
    · exact (hafter.record [.fired call.number] (by simp [Quiet])).performNext
  unfold answer at hstep
  split at hstep
  · rename_i call first next rest hc
    split at hstep
    · obtain rfl := Option.some.inj hstep
      rw [hc] at h
      have hnext := h.requests call _ rfl
      refine Balanced.record ?_ [.requested next] (by simpa [Quiet] using hnext next (by simp))
      refine ⟨h.counted, h.ordered, h.disciplined, h.fresh, fun call' requests hc' => ?_,
        h.unbinds, h.only_deletes, h.only_at_once⟩
      cases hc'
      exact fun request hr => hnext request (List.mem_cons_of_mem _ hr)
    · rename_i hs
      obtain rfl := Option.some.inj hstep
      exact hfail call _ hc (by simpa using hs)
  · rename_i call request hc
    split at hstep
    · obtain rfl := Option.some.inj hstep
      exact hsucceed call _ hc
    · rename_i hs
      obtain rfl := Option.some.inj hstep
      exact hfail call _ hc (by simpa using hs)
  · rename_i call hc
    split at hstep
    · obtain rfl := Option.some.inj hstep
      exact hsucceed call _ hc
    · cases hstep
  · cases hstep

/-- Calls for bindings are remembered between connections. -/
theorem Balanced.onConfigured (h : Balanced hand s) : Balanced hand s.onConfigured := by
  refine Balanced.record ?_ _ ?_
  · refine ⟨h.counted, ?_, h.disciplined, fun call hcall => ?_, h.requests, h.unbinds,
      h.only_deletes, h.only_at_once⟩
    · obtain ⟨done, hdone, hnet⟩ := h.ordered
      refine ⟨done, ?_, hnet⟩
      rw [← hdone]
      congr 1
      show ((s.processingChain.filter _).map _).filter _ = _
      rw [List.filter_map, List.filter_map, List.filter_filter]
      congr 1
      refine List.filter_congr fun call _ => ?_
      show (call.method.isBinding && call.method.rememberBetweenConnections) =
        call.method.isBinding
      cases call.method <;> rfl
    · refine h.fresh call ?_
      obtain hcall | hcall := List.mem_append.mp hcall
      · exact List.mem_append_left _ hcall
      · exact List.mem_append_right _ (List.mem_filter.mp hcall).1
  · intro e he
    obtain ⟨call, -, rfl⟩ := List.mem_map.mp he
    trivial

theorem step_balanced {e : Event} (h : Balanced s.current s) (hloop : Looping s)
    (hguard : Unfailing s e) (hdisciplined : Disciplined s e) (hstep : Defined step s e t) :
    Balanced t.current t := by
  have hcall : ∀ (s : Channel) m, (s.callOnChannel m).current = s.current := by
    intro s m
    unfold Channel.callOnChannel Channel.processNext
    split
    · rfl
    · split <;> rfl
  cases e with
  | call m =>
    obtain rfl := Option.some.inj hstep
    rw [hcall]
    exact h.callOnChannel hdisciplined
  | started =>
    dsimp only [Defined, step] at hstep
    split at hstep
    · rename_i hs
      obtain rfl := Option.some.inj hstep
      rw [(hloop.scheduled hs).2] at h
      exact Balanced.performNext (h.same rfl rfl rfl rfl)
    · cases hstep
  | answered success => exact answer_balanced h hguard hstep
  | lost =>
    obtain rfl := Option.some.inj hstep
    exact h.same rfl rfl rfl rfl
  | connected =>
    obtain rfl := Option.some.inj hstep
    exact h.onConfigured
  | configured =>
    dsimp only [Defined, step] at hstep
    split at hstep
    · obtain rfl := Option.some.inj hstep
      have hsame : (s.queuesConfigured).current = s.current := by
        unfold queuesConfigured Channel.processNext
        rw [hcall]
        split <;> rfl
      rw [hsame]
      refine Balanced.callOnChannel ?_ trivial
      apply Balanced.processNext
      exact h.same rfl rfl rfl rfl
    · cases hstep

/-- When a call for a binding fails, the count has been changed and its users have not. -/
theorem step_not_counted {e : Event} (h : Balanced s.current s) (hguard : ¬ Unfailing s e)
    (hstep : Defined step s e t) : ¬ Counted t := by
  intro hcounted
  simp only [Unfailing, not_forall] at hguard
  obtain ⟨call, requests, rfl, hc, hm⟩ := hguard
  obtain ⟨b, hb⟩ := exists_effect (by simpa using hm)
  have hbefore : s.count b = users b s.log + call.method.effect b := by
    rw [h.counted b, hc]
    rfl
  have hafter : t.count b = s.count b ∧ users b t.log = users b s.log ∧ t.current = none := by
    have hfail : ∀ u, u = answered call false (Channel.record [.failed call.number call.method] s) →
        u.count b = s.count b ∧ users b u.log = users b s.log ∧ u.current = none := by
      intro u hu
      unfold answered at hu
      split at hu
      · subst hu
        refine ⟨rfl, ?_, rfl⟩
        show users b (s.log ++ _) = _
        simp [users, tookEffect, net]
      · subst hu
        refine ⟨rfl, ?_, rfl⟩
        show users b (s.log ++ _ ++ _) = _
        simp [users, tookEffect, net]
    dsimp only [Defined, step, answer] at hstep
    rw [hc] at hstep
    split at hstep
    · rename_i hsame
      cases hsame
      exact hfail t (Option.some.inj hstep).symm
    · rename_i hsame
      cases hsame
      exact hfail t (Option.some.inj hstep).symm
    · cases hstep
    · cases hstep
  have hcount := hcounted.counted b
  rw [hafter.1, hafter.2.1, hafter.2.2, hbefore] at hcount
  exact hb (add_left_cancel hcount)

/-- The count is right throughout a run, in which bindings are deleted by those who created
    them, if and only if no broker call for a binding fails in it. -/
theorem bindings_counted_iff {es : List Event} :
    Run (Ending Counted (Guarded Disciplined (Defined step))) new es s ↔
      Run (Guarded Unfailing (Guarded Disciplined (Defined step))) new es s := by
  symm
  refine run_guarded_iff (fun s (h : Balanced s.current s ∧ Looping s) => h.1.isCounted) ?_ ?_
    ⟨balanced_new, fun hs => by (cases hs), fun hne => absurd rfl hne⟩
  · exact fun _ _ _ h hguard hstep =>
      ⟨step_balanced h.1 h.2 hguard hstep.1 hstep.2, step_looping h.2 hstep.2⟩
  · exact fun _ _ _ h hguard hstep => step_not_counted h.1 hguard hstep.2

instance (s : Channel) : ∀ e, Decidable (Disciplined s e)
  | .call (.deleteBinding exchange key _) =>
    inferInstanceAs (Decidable (1 ≤ net (exchange, key) s.recorded))
  | .call (.configureQueue _) | .call (.defineExchange _ _) | .call (.createBinding _ _ _)
  | .call (.ack _) | .call .disconnect | .call .flushPendingMessages
  | .started | .answered _ | .lost | .connected | .configured => inferInstanceAs (Decidable True)

/-- The broker does not answer the only user who deletes a binding, as the connection is lost.
    The call is performed again, by when the binding is counted as not used at all. -/
theorem counted_twice : ∃ s, Run (Guarded Disciplined (Defined step)) new
      [.connected, .configured, .started, .answered true,
        .call (.createBinding "e" (some "k") "q"), .started, .answered true, .answered true,
        .call (.deleteBinding "e" (some "k") "q"), .started, .lost, .answered false,
        .connected, .configured, .started, .answered true] s ∧
      s.count ("e", some "k") < 0 ∧ ¬ Counted s := by
  obtain ⟨s, hs, hcount⟩ : ∃ s, ([.connected, .configured, .started, .answered true,
        .call (.createBinding "e" (some "k") "q"), .started, .answered true, .answered true,
        .call (.deleteBinding "e" (some "k") "q"), .started, .lost, .answered false,
        .connected, .configured, .started, .answered true] : List Event).foldlM
          (checked Disciplined step) new = some s ∧
      decide (s.count ("e", some "k") < 0) = true := by
    apply Option.map_eq_some_iff.mp
    decide +kernel
  have hbelow := of_decide_eq_true hcount
  exact ⟨s, run_checked hs, hbelow, fun h => absurd (h.nonneg _) (Int.not_le.mpr hbelow)⟩

end Channel
end Feat.Messaging
