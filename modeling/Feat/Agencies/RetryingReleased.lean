import Mathlib.Data.List.Nodup
import Feat.Agencies.Retrying

/- Whether those who wait for a retried protocol are released.

   They are not in three cases. `cancel` while a retry is scheduled takes the scheduled
   call away and returns before it comes to the notifier. A call for the alert that
   fails keeps `_finalize` and `_wait_and_retry` from going on. And a Deferred may be
   asked for when nothing is to come any more. Beside that, a `cancel` before the first
   attempt does not take that attempt away.

   `released_iff` says that these are all: a run is as it should be throughout if and
   only if none of its steps is one of them (`Orderly`). -/
namespace Feat.Agencies.RetryingProtocol
open Transition Traces

/-- The Deferreds that nothing was decided about yet. -/
def waiting (s : RetryingProtocol) : List Nat := s.fnotifier.getD []

/-- The Deferreds that were fired, or that the reactor is about to fire. -/
def answered (s : RetryingProtocol) : List Nat :=
  s.fired.map Prod.fst ++ s.firing.flatMap Prod.fst

/-- No attempt is running, and none is scheduled. -/
def Idle (s : RetryingProtocol) : Prop :=
  s.bindNext = false ∧ s.running = false ∧ s.calls = none

/-- No more attempts than allowed, none after a cancel, and once there are none to come,
    every Deferred was fired, and only once. -/
structure Released (maxRetries : Option Nat) (s : RetryingProtocol) : Prop where
  attempts : ∀ n, maxRetries = some n → s.log.count .attempt ≤ n + 1
  stopped : Never (· = Entry.cancel) (· = Entry.attempt) s.log
  once : s.answered.Nodup
  released : s.Idle → ∀ w, w < s.obtained → w ∈ s.answered

/-- The steps that leave nobody behind, and start no attempt after a cancel. -/
def Orderly (s : RetryingProtocol) : Event → Prop
  | .waited => s.Idle → s.fnotifier = none
  | .cancelled => s.calls ≠ none → s.waiting = []
  | .bound => Entry.cancel ∉ s.log
  | .succeeded => s.resolves = true → s.goesThrough s.agent.resolveAlert = false → s.waiting = []
  | .failed => s.raises = true → s.goesThrough s.agent.raiseAlert = false → s.waiting = []
  | _ => True

/-! ## Attempts -/

/-- How attempts, scheduled calls and cancels go together. -/
structure Phased (maxRetries : Option Nat) (s : RetryingProtocol) : Prop where
  counted : s.log.count .attempt = s.attempt
  bounded : ∀ n, maxRetries = some n →
    s.attempt ≤ n + 1 ∧ ∃ k, s.maxRetries = some k ∧ k ≤ n
  first : s.bindNext = true → s.attempt = 0 ∧ s.running = false ∧ s.calls = none
  retry : ∀ call, s.calls = some call → s.running = false ∧ s.delayedCall = some call.1 ∧
    ∀ k, s.maxRetries = some k → s.attempt ≤ k
  cancelled : Entry.cancel ∈ s.log → s.calls = none ∧ ∃ k, s.maxRetries = some k ∧ k < s.attempt
  stopped : Never (· = Entry.cancel) (· = Entry.attempt) s.log

variable {maxRetries : Option Nat} {s t : RetryingProtocol}

/-- While an attempt is running, nothing else is to come. -/
theorem Phased.alone (h : Phased maxRetries s) (hr : s.running = true) :
    s.bindNext = false ∧ s.calls = none := by
  refine ⟨?_, ?_⟩
  · by_contra hb
    rw [(h.first (by simpa using hb)).2.1] at hr
    cases hr
  · by_contra hne
    obtain ⟨call, hcall⟩ := Option.ne_none_iff_exists'.mp hne
    rw [(h.retry call hcall).1] at hr
    cases hr

/-- What is no attempt and no cancel may always happen. -/
theorem Phased.logged (h : Phased maxRetries s) {es : List Entry}
    (hes : ∀ e ∈ es, e ≠ .attempt ∧ e ≠ .cancel) :
    Phased maxRetries { s with log := s.log ++ es } where
  counted := by
    have hnone : es.count Entry.attempt = 0 :=
      List.count_eq_zero.mpr fun hin => (hes _ hin).1 rfl
    rw [List.count_append, hnone]
    exact h.counted
  bounded := h.bounded
  first := h.first
  retry := h.retry
  cancelled hin := by
    obtain hin | hin := List.mem_append.mp hin
    · exact h.cancelled hin
    · exact absurd rfl (hes _ hin).2
  stopped := h.stopped.append fun e he => (hes e he).1

theorem Phased.trigger (h : Phased maxRetries s) (result : Result) :
    Phased maxRetries (triggerCallbacks result s) := by
  unfold triggerCallbacks
  split
  · exact ⟨h.counted, h.bounded, h.first, h.retry, h.cancelled, h.stopped⟩
  · exact h

/-- An attempt starts. -/
theorem Phased.fire (h : Phased maxRetries s) (hb : s.bindNext = false) (hc : s.calls = none)
    (hcancel : Entry.cancel ∉ s.log) (hmore : ∀ n, maxRetries = some n → s.attempt ≤ n) :
    Phased maxRetries s.fire where
  counted := by
    show (s.log ++ [Entry.attempt]).count .attempt = s.attempt + 1
    rw [List.count_append, h.counted]
    rfl
  bounded n hn := ⟨Nat.succ_le_succ (hmore n hn), (h.bounded n hn).2⟩
  first hbind := by
    rw [show s.fire.bindNext = s.bindNext from rfl, hb] at hbind
    cases hbind
  retry call hcall := by
    rw [show s.fire.calls = s.calls from rfl, hc] at hcall
    cases hcall
  cancelled hin := by
    obtain hin | hin := List.mem_append.mp hin
    · exact absurd hin hcancel
    · simp at hin
  stopped := by
    refine h.stopped.concat fun _ e he hin => ?_
    exact hcancel (hin ▸ he)

theorem Phased.retryOrStop (h : Phased maxRetries s) (hb : s.bindNext = false)
    (hr : s.running = false) : Phased maxRetries (retryOrStop s) := by
  unfold RetryingProtocol.retryOrStop
  split
  · exact h.trigger .failure
  · rename_i hmore
    have hle : ∀ k, s.maxRetries = some k → (s.attempt : Int) ≤ k := by
      intro k hk
      by_contra hlt
      exact hmore ⟨k, hk, by omega⟩
    refine ⟨h.counted, h.bounded, fun hbind => ?_, fun call hcall => ?_, fun hin => ?_, h.stopped⟩
    · rw [hb] at hbind
      cases hbind
    · cases hcall
      exact ⟨hr, rfl, hle⟩
    · obtain ⟨-, k, hk, hlt⟩ := h.cancelled hin
      have := hle k hk
      omega

/-- The alert is dealt with, or what follows is left undone. -/
theorem Phased.alerted (h : Phased maxRetries s) {due : Bool} {call : Option (String → Bool)}
    {entry : String → Entry} {rest : RetryingProtocol → RetryingProtocol}
    (hentry : ∀ service, entry service ≠ .attempt ∧ entry service ≠ .cancel)
    (hrest : ∀ es, Phased maxRetries { s with log := s.log ++ es } →
      Phased maxRetries (rest { s with log := s.log ++ es })) :
    Phased maxRetries (alerted due call entry rest s) := by
  unfold RetryingProtocol.alerted
  split
  · split
    · refine hrest _ (h.logged fun e he => ?_)
      obtain ⟨service, -, rfl⟩ := List.mem_map.mp he
      exact hentry service
    · exact h
  · have hsame := hrest []
    rw [List.append_nil] at hsame
    exact hsame h

/-- A cancel leaves nothing scheduled that `cancel` knows of. -/
theorem Phased.cancel (h : Phased maxRetries s) : Phased maxRetries s.cancel := by
  have hset : ∀ t : RetryingProtocol, t.log = s.log ++ [Entry.cancel] → t.attempt = s.attempt →
      t.maxRetries = some ((s.attempt : Int) - 1) → t.bindNext = s.bindNext → t.running = s.running →
      t.calls = none → Phased maxRetries t := by
    intro t hlog hattempt hmax hbind hrun hcalls
    refine ⟨?_, fun n hn => ?_, fun hb => ?_, fun call hcall => ?_, fun _ => ?_, ?_⟩
    · rw [hlog, hattempt, List.count_append, h.counted]
      rfl
    · rw [hattempt]
      have hle := (h.bounded n hn).1
      exact ⟨hle, _, hmax, by omega⟩
    · rw [hbind] at hb
      rw [hattempt, hrun]
      exact ⟨(h.first hb).1, (h.first hb).2.1, hcalls⟩
    · rw [hcalls] at hcall
      cases hcall
    · refine ⟨hcalls, _, hmax, ?_⟩
      rw [hattempt]
      omega
    · rw [hlog]
      exact h.stopped.append (by simp)
  unfold RetryingProtocol.cancel
  dsimp only
  split
  · rename_i id hid
    refine hset _ rfl rfl rfl rfl rfl ?_
    cases hcalls : s.calls with
    | none => simp [cancelDelayedCall]
    | some call =>
      -- the call that is scheduled is the one of the handle
      have hsame := (h.retry call hcalls).2.1
      rw [show s.delayedCall = some id from hid] at hsame
      cases hsame
      simp [cancelDelayedCall]
  · rename_i hnone
    have hcalls : s.calls = none := by
      by_contra hne
      obtain ⟨call, hcall⟩ := Option.ne_none_iff_exists'.mp hne
      have hsome := (h.retry call hcall).2.1
      rw [show s.delayedCall = none from hnone] at hsome
      cases hsome
    have hnotified : Phased maxRetries (cancelNotifier
        { s with maxRetries := some (s.attempt - 1), log := s.log ++ [Entry.cancel] }) := by
      unfold cancelNotifier
      split
      · exact hset _ rfl rfl rfl rfl rfl hcalls
      · exact hset _ rfl rfl rfl rfl rfl hcalls
    split
    · exact hnotified.logged (by simp)
    · exact hnotified

theorem Phased.stepped {e : Event} (h : Phased maxRetries s) (hguard : Orderly s e)
    (hstep : step s e = some t) : Phased maxRetries t := by
  cases e with
  | waited =>
    obtain rfl := Option.some.inj hstep
    unfold notifyFinish
    split
    · exact ⟨h.counted, h.bounded, h.first, h.retry, h.cancelled, h.stopped⟩
    · exact h
  | cancelled =>
    obtain rfl := Option.some.inj hstep
    exact h.cancel
  | bound =>
    dsimp only [step] at hstep
    split at hstep
    · rename_i hb
      obtain rfl := Option.some.inj hstep
      obtain ⟨hzero, hr, hc⟩ := h.first hb
      have hset : Phased maxRetries { s with bindNext := false } :=
        ⟨h.counted, h.bounded, fun hbind => by (cases hbind), h.retry, h.cancelled, h.stopped⟩
      refine hset.fire rfl hc hguard fun n _ => ?_
      show s.attempt ≤ n
      omega
    · cases hstep
  | retried =>
    obtain ⟨call, hcall, rfl⟩ := Option.map_eq_some_iff.mp hstep
    obtain ⟨hr, -, hmore⟩ := h.retry call hcall
    have hb : s.bindNext = false := by
      by_contra hb
      rw [(h.first (by simpa using hb)).2.2] at hcall
      cases hcall
    have hcancel : Entry.cancel ∉ s.log := by
      intro hin
      rw [(h.cancelled hin).1] at hcall
      cases hcall
    have hset : Phased maxRetries { s with calls := none } :=
      ⟨h.counted, h.bounded, fun hbind => ⟨(h.first hbind).1, hr, rfl⟩, fun _ hc => by (cases hc),
        fun hin => absurd hin hcancel, h.stopped⟩
    refine hset.fire hb rfl hcancel fun n hn => ?_
    obtain ⟨-, k, hk, hle⟩ := h.bounded n hn
    have := hmore k hk
    show s.attempt ≤ n
    omega
  | succeeded =>
    dsimp only [step] at hstep
    split at hstep
    · obtain rfl := Option.some.inj hstep
      have hset : Phased maxRetries { s with running := false } :=
        ⟨h.counted, h.bounded, fun hbind => ⟨(h.first hbind).1, rfl, (h.first hbind).2.2⟩,
          fun call hcall => ⟨rfl, (h.retry call hcall).2⟩, h.cancelled, h.stopped⟩
      exact hset.alerted (by simp) fun es hes => hes.trigger .success
    · cases hstep
  | failed =>
    dsimp only [step] at hstep
    split at hstep
    · rename_i hr
      obtain rfl := Option.some.inj hstep
      have hset : Phased maxRetries { s with running := false, initiator := false } :=
        ⟨h.counted, h.bounded, fun hbind => ⟨(h.first hbind).1, rfl, (h.first hbind).2.2⟩,
          fun call hcall => ⟨rfl, (h.retry call hcall).2⟩, h.cancelled, h.stopped⟩
      exact hset.alerted (by simp) fun es hes => hes.retryOrStop (h.alone hr).1 rfl
    · cases hstep
  | notified =>
    dsimp only [step] at hstep
    split at hstep
    · cases hstep
    · obtain rfl := Option.some.inj hstep
      exact ⟨h.counted, h.bounded, h.first, h.retry, h.cancelled, h.stopped⟩

/-! ## Deferreds -/

/-- Every Deferred was answered, or waits. -/
def Accounted (s : RetryingProtocol) : Prop :=
  (s.answered ++ s.waiting).Perm (List.range s.obtained)

theorem Accounted.trigger (h : Accounted s) (result : Result) :
    Accounted (triggerCallbacks result s) := by
  unfold triggerCallbacks
  split
  · rename_i waiters hw
    unfold Accounted answered waiting at h ⊢
    rw [hw] at h
    simpa using h
  · exact h

theorem Accounted.notifyFinish (h : Accounted s) : Accounted s.notifyFinish := by
  unfold RetryingProtocol.notifyFinish
  split
  · rename_i waiters hw
    unfold Accounted answered waiting at h ⊢
    rw [hw] at h
    dsimp only [Option.getD_some] at h ⊢
    rw [List.range_succ, ← List.append_assoc]
    exact h.append_right _
  · exact h

theorem Accounted.cancelNotifier (h : Accounted s) : Accounted s.cancelNotifier := by
  unfold RetryingProtocol.cancelNotifier
  split
  · rename_i waiters hw
    unfold Accounted answered waiting at h ⊢
    rw [hw] at h
    have hfst : (waiters.map fun w => (w, Result.cancelled)).map Prod.fst = waiters := by
      rw [List.map_map]
      exact List.map_id waiters
    simp only [List.map_append, hfst, Option.getD_some, Option.getD_none, List.append_nil,
      List.append_assoc] at h ⊢
    exact (List.Perm.append_left _ List.perm_append_comm).trans h
  · exact h

theorem Accounted.retryOrStop (h : Accounted s) : Accounted s.retryOrStop := by
  unfold RetryingProtocol.retryOrStop
  split
  · exact h.trigger .failure
  · exact h

theorem Accounted.alerted (h : Accounted s) {due : Bool} {call : Option (String → Bool)}
    {entry : String → Entry} {rest : RetryingProtocol → RetryingProtocol}
    (hrest : ∀ t, Accounted t → Accounted (rest t)) : Accounted (alerted due call entry rest s) := by
  unfold RetryingProtocol.alerted
  split
  · split
    · exact hrest _ h
    · exact h
  · exact hrest _ h

theorem Accounted.cancel (h : Accounted s) : Accounted s.cancel := by
  have hset : Accounted
      { s with maxRetries := some (s.attempt - 1), log := s.log ++ [Entry.cancel] } := h
  unfold RetryingProtocol.cancel
  dsimp only
  split
  · exact h
  · split
    · exact hset.cancelNotifier
    · exact hset.cancelNotifier

theorem Accounted.stepped {e : Event} (h : Accounted s) (hstep : step s e = some t) :
    Accounted t := by
  cases e with
  | waited =>
    obtain rfl := Option.some.inj hstep
    exact h.notifyFinish
  | cancelled =>
    obtain rfl := Option.some.inj hstep
    exact h.cancel
  | bound =>
    dsimp only [step] at hstep
    split at hstep
    · obtain rfl := Option.some.inj hstep
      exact h
    · cases hstep
  | retried =>
    obtain ⟨call, -, rfl⟩ := Option.map_eq_some_iff.mp hstep
    exact h
  | succeeded =>
    dsimp only [step] at hstep
    split at hstep
    · obtain rfl := Option.some.inj hstep
      have hset : Accounted { s with running := false } := h
      exact hset.alerted fun t ht => ht.trigger .success
    · cases hstep
  | failed =>
    dsimp only [step] at hstep
    split at hstep
    · obtain rfl := Option.some.inj hstep
      have hset : Accounted { s with running := false, initiator := false } := h
      exact hset.alerted fun t ht => ht.retryOrStop
    · cases hstep
  | notified =>
    dsimp only [step] at hstep
    split at hstep
    · cases hstep
    · rename_i waiters result rest hfiring
      obtain rfl := Option.some.inj hstep
      unfold Accounted answered waiting at h ⊢
      rw [hfiring] at h
      have hfst : (waiters.map fun w => (w, result)).map Prod.fst = waiters := by
        rw [List.map_map]
        exact List.map_id waiters
      simpa only [List.map_append, hfst, List.flatMap_cons, List.append_assoc] using h

/-- When there is nothing to come, whoever waits is left behind. -/
theorem left_behind (h : Accounted s) (hidle : s.Idle) (hwait : s.waiting ≠ []) :
    ¬ Released maxRetries s := by
  intro hreleased
  obtain ⟨w, hw⟩ := List.exists_mem_of_ne_nil _ hwait
  have hlt : w < s.obtained := by
    have hin := h.mem_iff.mp (List.mem_append_right s.answered hw)
    exact List.mem_range.mp hin
  have hnodup := h.nodup_iff.mpr List.nodup_range
  exact (List.nodup_append.mp hnodup).2.2 w (hreleased.released hidle w hlt) w hw rfl

/-! ## Steps and runs -/

structure Sound (maxRetries : Option Nat) (s : RetryingProtocol) : Prop where
  phased : Phased maxRetries s
  accounted : Accounted s
  settled : s.Idle → s.waiting = []

theorem Sound.released (h : Sound maxRetries s) : Released maxRetries s where
  attempts n hn := by
    rw [h.phased.counted]
    exact (h.phased.bounded n hn).1
  stopped := h.phased.stopped
  once := by
    have hnodup := h.accounted.nodup_iff.mpr List.nodup_range
    exact (List.nodup_append.mp hnodup).1
  released hidle w hw := by
    have hin := h.accounted.mem_iff.mpr (List.mem_range.mpr hw)
    rw [h.settled hidle, List.append_nil] at hin
    exact hin

theorem trigger_waiting (result : Result) (s : RetryingProtocol) :
    (triggerCallbacks result s).waiting = [] := by
  unfold triggerCallbacks
  split
  · rfl
  · rename_i hnone
    unfold waiting
    rw [hnone]
    rfl

/-- An attempt that ended leaves nobody waiting, or another one is scheduled, unless the
    call for the alert fails. -/
theorem alerted_settled {due : Bool} {call : Option (String → Bool)} {entry : String → Entry}
    {rest : RetryingProtocol → RetryingProtocol} (hrest : ∀ t, (rest t).Idle → (rest t).waiting = [])
    (hfails : due = true → s.goesThrough call = false → s.waiting = []) :
    (alerted due call entry rest s).Idle → (alerted due call entry rest s).waiting = [] := by
  unfold RetryingProtocol.alerted
  split
  · rename_i hdue
    split
    · exact hrest _
    · rename_i hgoes
      exact fun _ => hfails hdue (by simpa using hgoes)
  · exact hrest _

/-- When the call for the alert fails, nothing else is done. -/
theorem alerted_failed {due : Bool} {call : Option (String → Bool)} {entry : String → Entry}
    {rest : RetryingProtocol → RetryingProtocol} (hdue : due = true)
    (hfails : s.goesThrough call = false) : alerted due call entry rest s = s := by
  unfold alerted
  rw [if_pos hdue, if_neg (by simp [hfails])]

theorem retryOrStop_settled (s : RetryingProtocol) :
    s.retryOrStop.Idle → s.retryOrStop.waiting = [] := by
  unfold retryOrStop
  split
  · exact fun _ => trigger_waiting _ _
  · intro hidle
    cases hidle.2.2

theorem step_sound {e : Event} (h : Sound maxRetries s) (hguard : Orderly s e)
    (hstep : Defined step s e t) : Sound maxRetries t := by
  refine ⟨h.phased.stepped hguard hstep, h.accounted.stepped hstep, ?_⟩
  cases e with
  | waited =>
    obtain rfl := Option.some.inj hstep
    unfold notifyFinish
    split
    · rename_i waiters hw
      intro hidle
      rw [hguard hidle] at hw
      cases hw
    · exact h.settled
  | cancelled =>
    obtain rfl := Option.some.inj hstep
    unfold cancel
    dsimp only
    split
    · intro hidle
      by_cases hcalls : s.calls = none
      · exact h.settled ⟨hidle.1, hidle.2.1, hcalls⟩
      · exact hguard hcalls
    · have hnobody : ∀ t : RetryingProtocol, t.cancelNotifier.waiting = [] := by
        intro t
        unfold cancelNotifier
        split
        · rfl
        · rename_i hnone
          unfold waiting
          rw [hnone]
          rfl
      split
      · exact fun _ => hnobody _
      · exact fun _ => hnobody _
  | bound =>
    dsimp only [Defined, step] at hstep
    split at hstep
    · obtain rfl := Option.some.inj hstep
      intro hidle
      cases hidle.2.1
    · cases hstep
  | retried =>
    obtain ⟨call, -, rfl⟩ := Option.map_eq_some_iff.mp hstep
    intro hidle
    cases hidle.2.1
  | succeeded =>
    dsimp only [Defined, step] at hstep
    split at hstep
    · obtain rfl := Option.some.inj hstep
      exact alerted_settled (fun _ _ => trigger_waiting _ _) hguard
    · cases hstep
  | failed =>
    dsimp only [Defined, step] at hstep
    split at hstep
    · obtain rfl := Option.some.inj hstep
      exact alerted_settled (fun t => retryOrStop_settled t) hguard
    · cases hstep
  | notified =>
    dsimp only [Defined, step] at hstep
    split at hstep
    · cases hstep
    · obtain rfl := Option.some.inj hstep
      exact h.settled

/-- A step that is not orderly is seen at once. -/
theorem step_unreleased {e : Event} (h : Sound maxRetries s) (hguard : ¬ Orderly s e)
    (hstep : Defined step s e t) : ¬ Released maxRetries t := by
  have hacc : Accounted t := h.accounted.stepped hstep
  cases e with
  | waited =>
    obtain rfl := Option.some.inj hstep
    simp only [Orderly, Classical.not_imp] at hguard
    obtain ⟨hidle, hsome⟩ := hguard
    obtain ⟨waiters, hw⟩ := Option.ne_none_iff_exists'.mp hsome
    have ht : s.notifyFinish = { s with
        fnotifier := some (waiters ++ [s.obtained])
        obtained := s.obtained + 1 } := by
      unfold notifyFinish
      rw [hw]
    rw [ht] at hacc ⊢
    exact left_behind hacc hidle (by simp [waiting])
  | cancelled =>
    obtain rfl := Option.some.inj hstep
    simp only [Orderly, Classical.not_imp] at hguard
    obtain ⟨hsome, hwait⟩ := hguard
    obtain ⟨call, hcall⟩ := Option.ne_none_iff_exists'.mp hsome
    obtain ⟨hr, hd, -⟩ := h.phased.retry call hcall
    have hb : s.bindNext = false := by
      by_contra hb
      rw [(h.phased.first (by simpa using hb)).2.2] at hcall
      cases hcall
    have ht : s.cancel = { s with
        maxRetries := some (s.attempt - 1)
        log := s.log ++ [Entry.cancel]
        calls := none
        delayedCall := none } := by
      unfold cancel
      dsimp only
      rw [hd]
      simp [cancelDelayedCall, hcall]
    rw [ht] at hacc ⊢
    exact left_behind hacc ⟨hb, hr, rfl⟩ hwait
  | bound =>
    dsimp only [Defined, step] at hstep
    split at hstep
    · obtain rfl := Option.some.inj hstep
      intro hreleased
      obtain ⟨xs, ys, hlog⟩ := List.append_of_mem (Classical.not_not.mp hguard)
      have hnever := never_iff.mp hreleased.stopped xs .cancel (ys ++ [.attempt])
      refine hnever ?_ rfl .attempt (by simp) rfl
      show s.log ++ [Entry.attempt] = _
      rw [hlog, List.append_assoc]
      rfl
    · cases hstep
  | succeeded =>
    dsimp only [Defined, step] at hstep
    split at hstep
    · rename_i hr
      obtain rfl := Option.some.inj hstep
      simp only [Orderly, Classical.not_imp] at hguard
      obtain ⟨hdue, hfails, hwait⟩ := hguard
      obtain ⟨hb, hc⟩ := h.phased.alone hr
      have ht : finalize { s with running := false } = { s with running := false } :=
        alerted_failed hdue hfails
      rw [ht] at hacc ⊢
      exact left_behind hacc ⟨hb, rfl, hc⟩ hwait
    · cases hstep
  | failed =>
    dsimp only [Defined, step] at hstep
    split at hstep
    · rename_i hr
      obtain rfl := Option.some.inj hstep
      simp only [Orderly, Classical.not_imp] at hguard
      obtain ⟨hdue, hfails, hwait⟩ := hguard
      obtain ⟨hb, hc⟩ := h.phased.alone hr
      have ht : waitAndRetry { s with running := false } =
          { s with running := false, initiator := false } := alerted_failed hdue hfails
      rw [ht] at hacc ⊢
      exact left_behind hacc ⟨hb, rfl, hc⟩ hwait
    · cases hstep
  | retried => exact absurd trivial hguard
  | notified => exact absurd trivial hguard

theorem new_sound {agent : Agent} {initialDelay : ℚ} {maxDelay : Option ℚ}
    {alertAfter : Option Int} {alertService : Option String}
    (hnew : new agent maxRetries initialDelay maxDelay alertAfter alertService = some s) :
    Sound maxRetries s := by
  unfold new at hnew
  obtain ⟨-, hsome⟩ := Option.ite_none_left_eq_some.mp hnew
  obtain rfl := Option.some.inj hsome
  refine ⟨⟨rfl, fun n hn => ⟨Nat.zero_le _, n, ?_, le_refl _⟩, fun _ => ⟨rfl, rfl, rfl⟩,
    fun _ hc => by (cases hc), fun hin => by (cases hin), never_nil⟩, .refl _, fun _ => rfl⟩
  rw [hn]
  rfl

/-- A run of a retried protocol is as it should be throughout if and only if all its steps
    are orderly. -/
theorem released_iff {agent : Agent} {initialDelay : ℚ} {maxDelay : Option ℚ}
    {alertAfter : Option Int} {alertService : Option String}
    (hnew : new agent maxRetries initialDelay maxDelay alertAfter alertService = some s)
    {es : List Event} :
    Run (Ending (Released maxRetries) (Defined step)) s es t ↔
      Run (Guarded Orderly (Defined step)) s es t := by
  symm
  exact run_guarded_iff (fun s (h : Sound maxRetries s) => h.released)
    (fun _ _ _ h hguard hstep => step_sound h hguard hstep)
    (fun _ _ _ h hguard hstep => step_unreleased h hguard hstep) (new_sound hnew)

instance (s : RetryingProtocol) : Decidable s.Idle := inferInstanceAs (Decidable (_ ∧ _ ∧ _))

instance (s : RetryingProtocol) (e : Event) : Decidable (Orderly s e) :=
  match e with
  | .waited => inferInstanceAs (Decidable (s.Idle → s.fnotifier = none))
  | .cancelled => inferInstanceAs (Decidable (s.calls ≠ none → s.waiting = []))
  | .bound => inferInstanceAs (Decidable (Entry.cancel ∉ s.log))
  | .succeeded => inferInstanceAs (Decidable (s.resolves = true →
      s.goesThrough s.agent.resolveAlert = false → s.waiting = []))
  | .failed => inferInstanceAs (Decidable (s.raises = true →
      s.goesThrough s.agent.raiseAlert = false → s.waiting = []))
  | .retried => inferInstanceAs (Decidable True)
  | .notified => inferInstanceAs (Decidable True)

/-- An attempt fails, and another one succeeds. -/
theorem released_after_retry : ∃ s t,
    new ⟨none, none⟩ (some 3) 1 none none none = some s ∧ t.fired = [(0, .success)] ∧
    Run (Ending (Released (some 3)) (Defined step)) s
      [.waited, .bound, .failed, .retried, .succeeded, .notified] t := by
  have hnew : ∃ s, new ⟨none, none⟩ (some 3) 1 none none none = some s := ⟨_, rfl⟩
  obtain ⟨s, hs⟩ := hnew
  obtain ⟨t, ht, hfired⟩ : ∃ t, ([.waited, .bound, .failed, .retried, .succeeded, .notified]
      : List Event).foldlM (checked Orderly step) s = some t ∧
      decide (t.fired = [(0, .success)]) = true := by
    obtain rfl := Option.some.inj hs
    apply Option.map_eq_some_iff.mp
    decide +kernel
  exact ⟨s, t, hs, of_decide_eq_true hfired, (released_iff hs).mpr (run_checked ht)⟩

/-- Who waits when a scheduled retry is cancelled is not released. -/
theorem cancelled_not_released : ∃ s t,
    new ⟨none, none⟩ (some 3) 1 none none none = some s ∧
    Run (Defined step) s [.waited, .bound, .failed, .cancelled] t ∧
    ¬ Released (some 3) t := by
  have hnew : ∃ s, new ⟨none, none⟩ (some 3) 1 none none none = some s := ⟨_, rfl⟩
  obtain ⟨s, hs⟩ := hnew
  obtain ⟨t, ht, hleft⟩ : ∃ t, ([.waited, .bound, .failed, .cancelled] : List Event).foldlM step s =
      some t ∧ decide (t.Idle ∧ t.obtained = 1 ∧ t.answered = []) = true := by
    obtain rfl := Option.some.inj hs
    apply Option.map_eq_some_iff.mp
    decide +kernel
  obtain ⟨hidle, hone, hnone⟩ := of_decide_eq_true hleft
  refine ⟨s, t, hs, run_defined ht, fun h => ?_⟩
  have hin := h.released hidle 0 (by omega)
  rw [hnone] at hin
  cases hin

end Feat.Agencies.RetryingProtocol
