import Mathlib.Data.List.Basic
import Mathlib.Tactic.Common
import Feat.Lib.Run
import Feat.Agents.HandleDeath

/- What the partners of a dead agent are told: that it was restarted at one address, or that it is
   buried (`Right`).

   Nothing in the task keeps two fates apart: `restart_complete` announces a restart whatever the
   task does, an attempt that was started goes on to its end, and a delayed call that is not the
   last one made is never cancelled. What keeps them apart is the order of events (`Orderly`): a
   responsible agent reports while the task waits for it, once or with the same address, and the
   responsability does not expire while the answers to `died` are awaited. Then at most one
   attempt is under way, it has announced nothing before its last step, and a delayed call is
   due only while nothing was announced (`Valid`). The result of this file is that such runs meet
   what is asked for in every state (`one_fate_of_orderly`), and that a report which comes late
   breaks it (`restarted_and_buried`). -/
namespace Feat.Agents.Monitor.Restart
open Transition

/-! ## The properties -/

/-- A dead agent meets one fate. -/
structure Right (t : HandleDeath) : Prop where
  fate : ∀ partner newAddress, (partner, .restarted newAddress) ∈ t.notified →
    (partner, .buried) ∉ t.notified
  address : ∀ partner partner' newAddress newAddress',
    (partner, .restarted newAddress) ∈ t.notified →
    (partner', .restarted newAddress') ∈ t.notified → newAddress = newAddress'
  deleted : t.deleted = true → .buried ∈ t.announced
  single : ∀ (i j : Nat) (a b : Attempt), t.attempts[i]? = some a → t.attempts[j]? = some b →
    a.running = true → b.running = true → i = j
  last : t.restarted = false

/-- No attempt is under way. -/
def Idle (t : HandleDeath) : Prop := ∀ a ∈ t.attempts, a.running = false

instance (t : HandleDeath) : Decidable (Idle t) := inferInstanceAs (Decidable (∀ a ∈ _, _))

/-- The task is solved once. A restart is reported while the task waits for it, and it was announced
before, or nothing was. A responsability expires while the task waits for the restart. -/
def Orderly (t : HandleDeath) : Event → Prop
  | .solveLocaly => t.attempt = 0
  | .restartComplete newAddress => 0 < t.attempt ∧ Idle t ∧
      ∀ n ∈ t.announced, n = .restarted newAddress
  | .timeoutWaitingForRestart _ => Idle t
  | _ => True

instance (t : HandleDeath) (e : Event) : Decidable (Orderly t e) := by
  unfold Orderly
  split <;> infer_instance

/-! ## What holds of a task -/

/-- What holds whatever the attempts do. A delayed call is due only while nothing was announced, and
can be cancelled. -/
structure Core (t : HandleDeath) : Prop where
  agreed : ∀ m ∈ t.announced, ∀ n ∈ t.announced, m = n
  notified : ∀ x ∈ t.notified, x.2 ∈ t.announced
  calm : t.announced ≠ [] → t.delayedCalls = []
  handle : t.delayedCalls = [] ∨ ∃ id, t.delayedCalls = [id] ∧ t.timeoutCallId = some id
  deleted : t.deleted = true → .buried ∈ t.announced
  last : t.restarted = false
  begun : t.attempt = 0 → t.announced = [] ∧ t.delayedCalls = [] ∧ t.attempts = []

/-- What holds while an attempt waits for something. -/
def Fits (t : HandleDeath) : Attempt → Prop
  | .settingFlag | .startingInShard | .clearingHost | .startingGlobally | .fetching _ =>
    t.announced = [] ∧ t.delayedCalls = []
  | .died _ => t.announced = [] ∧ (t.soTookResponsability = false → t.delayedCalls = [])
  | .buried _ | .deleting _ => .buried ∈ t.announced
  | .restarted _ | .checkup | .done | .failed => True

structure Valid (t : HandleDeath) : Prop extends Core t where
  fits : ∀ a ∈ t.attempts, a.running = true → Fits t a
  single : ∀ (i j : Nat) (a b : Attempt), t.attempts[i]? = some a → t.attempts[j]? = some b →
    a.running = true → b.running = true → i = j

variable {t t' : HandleDeath} {i : Nat} {a b : Attempt} {n : Notification} {newAddress : Nat}
  {outcome : Outcome}

theorem Valid.new (strategy : RestartStrategy) (partners : List Nat) :
    Valid (.new strategy partners) := by
  refine ⟨⟨?_, ?_, ?_, .inl rfl, ?_, rfl, fun _ => ⟨rfl, rfl, rfl⟩⟩, ?_, ?_⟩ <;>
    simp [HandleDeath.new]

theorem Valid.right (h : Valid t) : Right t where
  fate partner newAddress hr hb := by
    have hsame := h.agreed _ (h.notified _ hr) _ (h.notified _ hb)
    cases hsame
  address partner partner' newAddress newAddress' hr hr' := by
    have hsame := h.agreed _ (h.notified _ hr) _ (h.notified _ hr')
    injection hsame
  deleted := h.deleted
  single := h.single
  last := h.last

/-- An attempt that is under way goes on: the others are not under way. -/
theorem Valid.next (h : Valid t) (hi : t.attempts[i]? = some a) (hrun : a.running = true)
    (hcore : Core t') (hattempts : t'.attempts = t.attempts) (hfits : Fits (t'.next i b) b) :
    Valid (t'.next i b) := by
  have hget : ∀ j c, (t'.next i b).attempts[j]? = some c → c.running = true → j = i ∧ c = b := by
    intro j c hj hc
    have hset : (t.attempts.set i b)[j]? = some c := by
      rw [← hattempts]
      exact hj
    rw [List.getElem?_set] at hset
    split at hset
    · rename_i hij
      split at hset
      · exact ⟨hij.symm, (Option.some.inj hset).symm⟩
      · cases hset
    · rename_i hij
      exact absurd (h.single i j a c hi hset hrun hc) hij
  refine ⟨⟨hcore.agreed, hcore.notified, hcore.calm, hcore.handle, hcore.deleted, hcore.last,
    fun hzero => ?_⟩, fun c hc hr => ?_, fun j k c d hj hk hc hd => ?_⟩
  · obtain ⟨hannounced, hdelayed, hnone⟩ := hcore.begun hzero
    rw [hattempts] at hnone
    simp [hnone] at hi
  · obtain ⟨j, hj⟩ := List.mem_iff_getElem?.mp hc
    obtain ⟨-, rfl⟩ := hget j c hj hr
    exact hfits
  · rw [(hget j c hj hc).1, (hget k d hk hd).1]

/-! ## What the methods keep -/

theorem Core.congr (h : Core t) (hannounced : t'.announced = t.announced)
    (hnotified : t'.notified = t.notified) (hdelayed : t'.delayedCalls = t.delayedCalls)
    (hid : t'.timeoutCallId = t.timeoutCallId) (hdeleted : t'.deleted = t.deleted)
    (hlast : t'.restarted = t.restarted) (hattempt : t'.attempt = t.attempt)
    (hattempts : t'.attempts = t.attempts) : Core t' := by
  refine ⟨?_, ?_, ?_, ?_, ?_, ?_, ?_⟩
  · rw [hannounced]
    exact h.agreed
  · rw [hannounced, hnotified]
    exact h.notified
  · rw [hannounced, hdelayed]
    exact h.calm
  · rw [hdelayed, hid]
    exact h.handle
  · rw [hdeleted, hannounced]
    exact h.deleted
  · rw [hlast]
    exact h.last
  · rw [hattempt, hannounced, hdelayed, hattempts]
    exact h.begun

theorem Core.finalize (h : Core t) (outcome : Outcome) : Core (t.finalize outcome) := by
  unfold HandleDeath.finalize
  split
  · exact h
  · exact h.congr rfl rfl rfl rfl rfl rfl rfl rfl

theorem finalize_attempts : (t.finalize outcome).attempts = t.attempts := by
  unfold HandleDeath.finalize
  split <;> rfl

theorem Core.deathHandled (h : Core t) (result : Option Nat) : Core (t.deathHandled result) := by
  unfold HandleDeath.deathHandled
  split
  · exact h
  · exact h.congr rfl rfl rfl rfl rfl rfl rfl rfl

theorem deathHandled_attempts {result : Option Nat} :
    (t.deathHandled result).attempts = t.attempts := by
  unfold HandleDeath.deathHandled
  split <;> rfl

theorem Valid.finalize (h : Valid t) (outcome : Outcome) : Valid (t.finalize outcome) := by
  unfold HandleDeath.finalize
  split
  · exact h
  · exact ⟨h.toCore.congr rfl rfl rfl rfl rfl rfl rfl rfl, h.fits, h.single⟩

/-- A fate is announced where nothing else was. -/
theorem Core.notify (h : Core t) (hagree : ∀ m ∈ t.announced, m = n) (hcalm : t.delayedCalls = [])
    (hbegun : t.attempt ≠ 0) : Core (t.notify n) := by
  have hall : ∀ m ∈ t.announced ++ [n], m = n := by
    intro m hm
    obtain hold | hlast := List.mem_append.mp hm
    · exact hagree m hold
    · exact List.mem_singleton.mp hlast
  refine ⟨fun m hm k hk => (hall m hm).trans (hall k hk).symm, fun x hx => ?_, fun _ => hcalm,
    .inl hcalm, fun hd => List.mem_append_left _ (h.deleted hd), h.last,
    fun hzero => absurd hzero hbegun⟩
  obtain hold | hnew := List.mem_append.mp hx
  · exact List.mem_append_left _ (h.notified x hold)
  · obtain ⟨partner, -, rfl⟩ := List.mem_map.mp hnew
    exact List.mem_append_right _ List.mem_cons_self

/-- A task that has an attempt has begun. -/
theorem Core.attempt_ne (h : Core t) (hi : t.attempts[i]? = some a) : t.attempt ≠ 0 := by
  intro hzero
  simp [(h.begun hzero).2.2] at hi

theorem Valid.fits_at (h : Valid t) (hi : t.attempts[i]? = some a) (hrun : a.running = true) :
    Fits t a := h.fits a (List.mem_of_getElem? hi) hrun

/-- An attempt that is under way announces what it comes to. -/
theorem Valid.announce (h : Valid t) (hi : t.attempts[i]? = some a) (hrun : a.running = true)
    (hannounced : t.announced = []) (hdelayed : t.delayedCalls = [])
    (hfits : ∀ u : HandleDeath, n ∈ u.announced → Fits u b) : Valid ((t.notify n).next i b) := by
  have hcore := h.toCore.notify (n := n) (by simp [hannounced]) hdelayed (h.attempt_ne hi)
  refine h.next hi hrun hcore rfl (hfits _ ?_)
  show n ∈ t.announced ++ [n]
  simp

theorem Valid.done (h : Valid t) (hi : t.attempts[i]? = some a) (hrun : a.running = true)
    (hcore : Core t') (hattempts : t'.attempts = t.attempts) (hb : b.running = false) :
    Valid (t'.next i b) := by
  refine h.next hi hrun hcore hattempts ?_
  cases b with
  | done => trivial
  | failed => trivial
  | _ => cases hb

/-! ## Attempts -/

/-- The partners in the descriptor change. -/
theorem Core.partners (h : Core t) (partners : List Nat) : Core { t with partners := partners } :=
  h.congr rfl rfl rfl rfl rfl rfl rfl rfl

theorem Valid.localRestartFailed (h : Valid t) (hi : t.attempts[i]? = some a)
    (hrun : a.running = true) (hannounced : t.announced = []) (hdelayed : t.delayedCalls = []) :
    Valid (t.localRestartFailed i) := by
  unfold HandleDeath.localRestartFailed
  split
  · exact h.announce hi hrun hannounced hdelayed fun _ hn => hn
  · exact h.next hi hrun h.toCore rfl ⟨hannounced, hdelayed⟩
  · exact h.announce hi hrun hannounced hdelayed fun _ hn => hn
  · exact h.done hi hrun (h.toCore.finalize .failed) finalize_attempts rfl
  · exact h.done hi hrun (h.toCore.finalize .failed) finalize_attempts rfl

theorem Valid.globalRestartFailed (h : Valid t) (hi : t.attempts[i]? = some a)
    (hrun : a.running = true) (hannounced : t.announced = []) (hdelayed : t.delayedCalls = [])
    (error : Error) : Valid (t.globalRestartFailed i error) := by
  cases error with
  | protocolFailed => exact h.announce hi hrun hannounced hdelayed fun _ hn => hn
  | other => exact h.done hi hrun h.toCore rfl rfl

theorem Valid.ensure (h : Valid t) (hi : t.attempts[i]? = some a) (hrun : a.running = true)
    (hcore : Core t') (hattempts : t'.attempts = t.attempts) (hannounced : t'.announced = [])
    (hdelayed : t'.soTookResponsability = false → t'.delayedCalls = []) :
    Valid (t'.ensureSomeoneTookResponsability i) := by
  unfold HandleDeath.ensureSomeoneTookResponsability
  split
  · exact h.done hi hrun hcore hattempts rfl
  · rename_i htook
    exact h.next hi hrun hcore hattempts ⟨hannounced, hdelayed (Bool.not_eq_true _ ▸ htook)⟩

/-- A responsability that is accepted makes a delayed call where none is due. -/
theorem Core.responded (h : Core t) (response : Response) (hannounced : t.announced = [])
    (hdelayed : t.soTookResponsability = false → t.delayedCalls = []) (hbegun : t.attempt ≠ 0) :
    Core (t.onDiedResponseHandler response) ∧
      (t.onDiedResponseHandler response).attempts = t.attempts ∧
      (t.onDiedResponseHandler response).announced = [] ∧
      ((t.onDiedResponseHandler response).soTookResponsability = false →
        (t.onDiedResponseHandler response).delayedCalls = []) := by
  unfold HandleDeath.onDiedResponseHandler
  split
  · exact ⟨h, rfl, hannounced, hdelayed⟩
  · rename_i htook
    split
    · have hnone := hdelayed (Bool.not_eq_true _ ▸ htook)
      refine ⟨⟨h.agreed, h.notified, fun hne => absurd hannounced hne, .inr ⟨t.calls, ?_, rfl⟩,
        h.deleted, h.last, fun hzero => absurd hzero hbegun⟩, rfl, hannounced, fun hf => ?_⟩
      · show t.delayedCalls ++ [t.calls] = _
        rw [hnone]
        rfl
      · cases hf
    · exact ⟨h, rfl, hannounced, hdelayed⟩

/-- An attempt is started where none is under way and nothing was announced. -/
theorem Valid.retry (h : Core t) (hidle : Idle t) (hannounced : t.announced = [])
    (hdelayed : t.delayedCalls = []) : Valid t.retry := by
  have hget : ∀ (a : Attempt) j b, (t.attempts ++ [a])[j]? = some b → b.running = true →
      j = t.attempts.length ∧ b = a := by
    intro a j b hj hb
    by_cases hlt : j < t.attempts.length
    · rw [List.getElem?_append_left hlt] at hj
      have hoff := hidle b (List.mem_of_getElem? hj)
      rw [hb] at hoff
      cases hoff
    · rw [List.getElem?_append_right (Nat.le_of_not_lt hlt)] at hj
      obtain ⟨hzero, rfl⟩ : j - t.attempts.length = 0 ∧ a = b := by
        simpa [List.getElem?_singleton] using hj
      exact ⟨by omega, rfl⟩
  -- the attempt that is added is the only one under way
  have hadded : ∀ (u : HandleDeath) (a : Attempt), Core u → u.attempts = t.attempts ++ [a] →
      Fits u a → Valid u := by
    intro u a hcore hattempts hfits
    refine ⟨hcore, fun b hb hr => ?_, fun j k b c hj hk hb hc => ?_⟩
    · obtain ⟨j, hj⟩ := List.mem_iff_getElem?.mp hb
      rw [hattempts] at hj
      obtain ⟨-, rfl⟩ := hget a j b hj hr
      exact hfits
    · rw [hattempts] at hj hk
      rw [(hget a j b hj hb).1, (hget a k c hk hc).1]
  have hlast : (t.restarted || !t.announced.isEmpty) = false := by
    rw [h.last, hannounced]
    rfl
  have hone : t.attempt + 1 ≠ 0 := Nat.succ_ne_zero _
  unfold HandleDeath.retry
  dsimp only
  split
  · refine hadded _ (.buried .nothing) ?_ ?_ ?_
    · refine ⟨fun m hm k hk => ?_, fun x hx => ?_, fun _ => hdelayed, .inl hdelayed,
        fun hd => List.mem_append_left _ (h.deleted hd), hlast, fun hzero => absurd hzero hone⟩
      · have hall : ∀ n ∈ t.announced ++ [.buried], n = .buried := by simp [hannounced]
        exact (hall m hm).trans (hall k hk).symm
      · obtain hold | hnew := List.mem_append.mp hx
        · exact List.mem_append_left _ (h.notified x hold)
        · obtain ⟨partner, -, rfl⟩ := List.mem_map.mp hnew
          exact List.mem_append_right _ List.mem_cons_self
    · show (t.attempts ++ [Attempt.settingFlag]).set t.attempts.length (.buried .nothing) = _
      simp
    · exact List.mem_append_right _ List.mem_cons_self
  · refine hadded _ .settingFlag ?_ rfl ⟨hannounced, hdelayed⟩
    exact ⟨h.agreed, h.notified, h.calm, .inl hdelayed, h.deleted, hlast,
      fun hzero => absurd hzero hone⟩

/-- A restart that is reported cancels the delayed call. -/
theorem Valid.restartComplete (h : Valid t) (hidle : Idle t) (hbegun : 0 < t.attempt)
    (hagree : ∀ n ∈ t.announced, n = .restarted newAddress) :
    Valid (t.restartComplete newAddress) := by
  have hcancelled : ∃ ids id, t.restartComplete newAddress =
      { (HandleDeath.notify (.restarted newAddress)
          { t with delayedCalls := ids, timeoutCallId := id }) with
        reports := t.reports ++ [newAddress] } ∧ ids = [] := by
    unfold HandleDeath.restartComplete
    cases hid : t.timeoutCallId with
    | none =>
      have hnone : t.delayedCalls = [] := by
        obtain hn | ⟨id, -, hsome⟩ := h.handle
        · exact hn
        · rw [hid] at hsome
          cases hsome
      exact ⟨t.delayedCalls, t.timeoutCallId, rfl, hnone⟩
    | some id =>
      refine ⟨t.delayedCalls.erase id, none, rfl, ?_⟩
      obtain hn | ⟨id', hone, hsome⟩ := h.handle
      · rw [hn]
        rfl
      · rw [hid] at hsome
        obtain rfl := Option.some.inj hsome
        rw [hone]
        simp
  obtain ⟨ids, id, heq, rfl⟩ := hcancelled
  rw [heq]
  have hquiet : Core { t with delayedCalls := [], timeoutCallId := id } :=
    ⟨h.agreed, h.notified, fun _ => rfl, .inl rfl, h.deleted, h.last,
      fun hzero => absurd hzero (Nat.ne_of_gt hbegun)⟩
  have hcore := hquiet.notify hagree rfl (Nat.ne_of_gt hbegun)
  refine ⟨hcore.congr rfl rfl rfl rfl rfl rfl rfl rfl, fun a ha hr => ?_, h.single⟩
  have hoff := hidle a ha
  rw [hr] at hoff
  cases hoff

/-! ## Runs -/

variable {e : Event}

theorem Valid.step (h : Valid t) (horderly : Orderly t e) (hstep : step t e = some t') :
    Valid t' := by
  cases e with
  | solveLocaly =>
    obtain rfl := Option.some.inj hstep
    obtain ⟨hannounced, hdelayed, hnone⟩ := h.begun horderly
    exact .retry h.toCore (by simp [Idle, hnone]) hannounced hdelayed
  | saved i partners =>
    simp only [Restart.step] at hstep
    split at hstep
    · rename_i hi
      obtain ⟨hannounced, hdelayed⟩ := h.fits_at hi rfl
      cases partners with
      | some partners =>
        obtain rfl := Option.some.inj hstep
        have hcore := h.toCore.partners partners
        unfold HandleDeath.sendDiedNotifications
        split
        · exact h.ensure hi rfl hcore rfl hannounced fun _ => hdelayed
        · exact h.next hi rfl hcore rfl ⟨hannounced, fun _ => hdelayed⟩
      | none =>
        obtain rfl := Option.some.inj hstep
        exact h.ensure hi rfl h.toCore rfl hannounced fun _ => hdelayed
    · cases hstep
  | responded i response =>
    simp only [Restart.step] at hstep
    split at hstep
    · rename_i answers hi
      obtain rfl := Option.some.inj hstep
      obtain ⟨hannounced, hdelayed⟩ := h.fits_at hi rfl
      obtain ⟨hcore, hattempts, hsilent, hfree⟩ :=
        h.toCore.responded response hannounced hdelayed (h.attempt_ne hi)
      split
      · exact h.ensure hi rfl hcore hattempts hsilent hfree
      · exact h.next hi rfl hcore hattempts ⟨hsilent, hfree⟩
    · cases hstep
  | startedInShard i newAddress =>
    simp only [Restart.step] at hstep
    split at hstep
    · rename_i hi
      obtain ⟨hannounced, hdelayed⟩ := h.fits_at hi rfl
      cases newAddress with
      | some newAddress =>
        obtain rfl := Option.some.inj hstep
        exact h.announce hi rfl hannounced hdelayed fun _ _ => trivial
      | none =>
        obtain rfl := Option.some.inj hstep
        exact h.localRestartFailed hi rfl hannounced hdelayed
    · cases hstep
  | hostCleared i partners =>
    simp only [Restart.step] at hstep
    split at hstep
    · rename_i hi
      obtain ⟨hannounced, hdelayed⟩ := h.fits_at hi rfl
      cases partners with
      | ok partners =>
        obtain rfl := Option.some.inj hstep
        exact h.next hi rfl (h.toCore.partners partners) rfl ⟨hannounced, hdelayed⟩
      | error e =>
        obtain rfl := Option.some.inj hstep
        exact h.globalRestartFailed hi rfl hannounced hdelayed e
    · cases hstep
  | startedGlobally i newAddress =>
    simp only [Restart.step] at hstep
    split at hstep
    · rename_i hi
      obtain ⟨hannounced, hdelayed⟩ := h.fits_at hi rfl
      cases newAddress with
      | ok newAddress =>
        obtain rfl := Option.some.inj hstep
        exact h.next hi rfl h.toCore rfl ⟨hannounced, hdelayed⟩
      | error e =>
        obtain rfl := Option.some.inj hstep
        exact h.globalRestartFailed hi rfl hannounced hdelayed e
    · cases hstep
  | fetched i partners =>
    simp only [Restart.step] at hstep
    split at hstep
    · rename_i newAddress hi
      obtain ⟨hannounced, hdelayed⟩ := h.fits_at hi rfl
      cases partners with
      | ok partners =>
        obtain rfl := Option.some.inj hstep
        have hstored : Valid { t with partners := partners } :=
          ⟨h.toCore.partners partners, h.fits, h.single⟩
        exact hstored.announce hi rfl hannounced hdelayed fun _ _ => trivial
      | error e =>
        obtain rfl := Option.some.inj hstep
        exact h.globalRestartFailed hi rfl hannounced hdelayed e
    · cases hstep
  | senderNotified i =>
    simp only [Restart.step] at hstep
    split at hstep
    · rename_i newAddress hi
      obtain rfl := Option.some.inj hstep
      exact h.done hi rfl (h.toCore.deathHandled _) deathHandled_attempts rfl
    · rename_i sequel hi
      obtain rfl := Option.some.inj hstep
      exact h.next hi rfl h.toCore rfl (h.fits_at hi rfl)
    · cases hstep
  | documentDeleted i ok =>
    simp only [Restart.step] at hstep
    split at hstep
    · rename_i sequel hi
      obtain rfl := Option.some.inj hstep
      have hburied : .buried ∈ t.announced := h.fits_at hi rfl
      have hdeleted : Core { t with deleted := t.deleted || ok } :=
        ⟨h.agreed, h.notified, h.calm, h.handle, fun _ => hburied, h.last, h.begun⟩
      have hcore := hdeleted.deathHandled none
      have hattempts : (HandleDeath.deathHandled none
          { t with deleted := t.deleted || ok }).attempts = t.attempts := deathHandled_attempts
      cases sequel with
      | nothing => exact h.done hi rfl hcore hattempts rfl
      | terminate =>
        exact h.done hi rfl (hcore.finalize _) (finalize_attempts.trans hattempts) rfl
      | fail => exact h.done hi rfl (hcore.finalize _) (finalize_attempts.trans hattempts) rfl
      | checkup => exact h.next hi rfl hcore hattempts trivial
    · cases hstep
  | checkedUp i ok =>
    simp only [Restart.step] at hstep
    split at hstep
    · rename_i hi
      obtain rfl := Option.some.inj hstep
      split
      · exact h.done hi rfl (h.toCore.finalize _) finalize_attempts rfl
      · exact h.done hi rfl h.toCore rfl rfl
    · cases hstep
  | reported r =>
    obtain ⟨newAddress, -, rfl⟩ := Option.map_eq_some_iff.mp hstep
    have hcore : Core { t with reports := t.reports.eraseIdx r } :=
      h.toCore.congr rfl rfl rfl rfl rfl rfl rfl rfl
    unfold HandleDeath.deathHandled
    split
    · exact ⟨hcore, h.fits, h.single⟩
    · exact ⟨hcore.congr rfl rfl rfl rfl rfl rfl rfl rfl, h.fits, h.single⟩
  | waitHandled =>
    simp only [Restart.step] at hstep
    split at hstep
    · obtain rfl := Option.some.inj hstep
      exact h.finalize .terminated
    · cases hstep
  | restartComplete newAddress =>
    obtain rfl := Option.some.inj hstep
    obtain ⟨hbegun, hidle, hagree⟩ := horderly
    exact h.restartComplete hidle hbegun hagree
  | restartHandeled =>
    obtain rfl := Option.some.inj hstep
    exact h.finalize .terminated
  | timeoutWaitingForRestart id =>
    simp only [Restart.step] at hstep
    split at hstep
    · rename_i hdue
      obtain rfl := Option.some.inj hstep
      have hannounced : t.announced = [] := by
        by_contra hne
        rw [h.calm hne] at hdue
        cases hdue
      have hspent : t.delayedCalls.erase id = [] := by
        obtain hn | ⟨id', hone, -⟩ := h.handle
        · rw [hn]
          rfl
        · rw [hone] at hdue ⊢
          obtain rfl := List.mem_singleton.mp hdue
          simp
      refine .retry ?_ horderly hannounced hspent
      exact ⟨h.agreed, h.notified, fun _ => hspent, .inl hspent, h.deleted, h.last,
        fun hzero => ⟨hannounced, hspent, (h.begun hzero).2.2⟩⟩
    · cases hstep

/-- In a run of a new task whose events come in order, a dead agent meets one fate in every state
reached. -/
theorem one_fate_of_orderly {strategy : RestartStrategy} {partners : List Nat} {es : List Event}
    {t : HandleDeath} (h : Run (Guarded Orderly (Defined step)) (.new strategy partners) es t) :
    Run (Ending Right (Defined step)) (.new strategy partners) es t := by
  have hnew := Valid.new strategy partners
  generalize HandleDeath.new strategy partners = s at h hnew
  induction h with
  | nil s => exact .nil s
  | cons hstep _ ih =>
    have hnext := hnew.step hstep.1 hstep.2
    exact .cons ⟨hstep.2, hnext.right⟩ (ih hnext)

/-- The partner that accepted the responsability reports the restart in time. -/
theorem one_fate_restarted : ∃ (es : List Event) (t : HandleDeath),
    t.notified = [(1, .restarted 5)] ∧ t.outcome = some .terminated ∧
      Run (Ending Right (Defined step)) (.new .local [1]) es t := by
  obtain ⟨t, ht, h⟩ : ∃ t, [Event.solveLocaly, .saved 0 (some [1]),
      .responded 0 .responsabilityAccepted, .restartComplete 5, .reported 0,
      .waitHandled].foldlM (checked Orderly step) (.new .local [1]) = some t ∧
      decide (t.notified = [(1, .restarted 5)] ∧ t.outcome = some .terminated) = true := by
    apply Option.map_eq_some_iff.mp
    decide +kernel
  obtain ⟨hnotified, houtcome⟩ := of_decide_eq_true h
  exact ⟨_, t, hnotified, houtcome, one_fate_of_orderly (run_checked ht)⟩

/-- An agent that restarts in its own shard or not at all has one partner, which accepts the
responsability. It reports the restart after the responsability has expired: the partner is told
of the restart, and then, as the second attempt finds nobody, of the burial. -/
theorem restarted_and_buried :
    ∃ (es : List Event) (t : HandleDeath),
      Run (Defined step) (.new .local [1]) es t ∧ ¬ Right t := by
  obtain ⟨t, ht, h⟩ : ∃ t, [Event.solveLocaly, .saved 0 (some [1]),
      .responded 0 .responsabilityAccepted, .timeoutWaitingForRestart 0, .restartComplete 5,
      .saved 1 (some [1]), .responded 1 .other, .startedInShard 1 none].foldlM step
      (.new .local [1]) = some t ∧
      decide (t.notified = [(1, .restarted 5), (1, .buried)]) = true := by
    apply Option.map_eq_some_iff.mp
    decide +kernel
  refine ⟨_, t, run_defined ht, fun hr => ?_⟩
  have hfate := hr.fate 1 5
  rw [of_decide_eq_true h] at hfate
  exact hfate (by decide) (by decide)

end Feat.Agents.Monitor.Restart
