import Mathlib.Algebra.BigOperators.Group.List.Basic
import Mathlib.Algebra.GroupWithZero.Nat
import Feat.Lib.Run
import Feat.Database.Connection

/- The update lock of a connection and the notifications it holds back.

   The counter is the number of writes in flight, and for every listener the
   notifications delivered, followed by those in its buffer, are the ones that
   arrived. While the lock is taken a listener with a buffer is registered to be
   called when it is released, and then the loop over the registered listeners
   empties the buffers. A callback that raises ends that loop: the listeners it
   has not got to are registered no longer, and their buffers stay as they are
   with nobody holding the lock (`raise_strands`). As long as a callback raises
   only when there is nothing left to drain, nothing is lost, doubled or
   reordered in any run (`lock_exact`). -/
namespace Feat.Database
open Hash Transition

namespace Connection

/-! ## What is in flight, and what is held back -/

/-- The writes a frame stands for that have not ended. -/
def Frame.saves : Frame → Nat
  | .enter _ outer => outer.length
  | .answered _ _ outer => outer.length + 1
  | .resume _ saves => saves.length
  | _ => 0

/-- The calls of `save_document` and `delete_document` that have taken the lock and not ended. -/
def inFlight (s : Connection) : Nat :=
  (s.calls.map (fun c => c.outer.length + 1)).sum + (s.stack.map Frame.saves).sum

/-- The listeners the loops on the stack have still to see to. -/
def pending : List Frame → List Nat
  | [] => []
  | .unlocking callbacks :: rest => callbacks ++ pending rest
  | .unlocked listener :: rest => listener :: pending rest
  | _ :: rest => pending rest

/-- Those of them that the loops an exception leaves have still to see to. -/
def abandoned : List Frame → List Nat
  | .unlocking callbacks :: rest => callbacks ++ abandoned rest
  | .unlocked listener :: rest => listener :: abandoned rest
  | _ => []

/-- The notifications that have arrived for a listener. -/
def arrivals (s : Connection) (listener : Nat) : List Notification :=
  (s.arrived.filter (fun a => a.1 = listener)).map Prod.snd

/-- The notifications its callback has been given. -/
def deliveries (s : Connection) (listener : Nat) : List Notification :=
  (s.delivered.filter (fun d => d.listener = listener)).map Delivery.notification

/-- The lock counts the writes in flight; when it is free nothing is held back but for a loop
that is still draining; every callback is given what arrived, once and in order, as far as it is
not held back. -/
structure LockExact (s : Connection) : Prop where
  counter : s.updateLockCounter = s.inFlight
  free : s.updateLockCounter = 0 → ∀ l, s.buffer l ≠ [] → l ∈ pending s.stack
  idle : s.updateLockCounter = 0 → s.stack = [] → ∀ l, s.buffer l = []
  order : ∀ l, s.arrivals l = s.deliveries l ++ s.buffer l

/-- The functions a callback that is about to raise was called by. -/
def raising : List Frame → Option (List Frame)
  | .callback ⟨[], true⟩ :: rest => some rest
  | _ => none

/-- A callback that raises ends no loop that has still to drain a buffer, unless the listener is
registered anew or a loop further out will get to it. -/
def RaisesWhenDrained (s : Connection) : Event → Prop
  | .run => ∀ rest ∈ raising s.stack, ∀ l ∈ abandoned rest, s.buffer l ≠ [] →
      l ∈ s.unlockedCallbacks ∨ l ∈ pending (unwind rest)
  | _ => True

instance (s : Connection) : (e : Event) → Decidable (RaisesWhenDrained s e)
  | .run => inferInstanceAs (Decidable (∀ rest ∈ raising s.stack, ∀ l ∈ abandoned rest,
      s.buffer l ≠ [] → l ∈ s.unlockedCallbacks ∨ l ∈ pending (unwind rest)))
  | .start _ | .serve _ _ | .reply _ | .read _ | .other _ _ | .change _ _ =>
    inferInstanceAs (Decidable True)

/-- The invariant: a listener with a buffer is registered, or a loop will get to it; and
listeners are registered only while the lock is taken. -/
structure LockInv (s : Connection) : Prop where
  counter : s.updateLockCounter = s.inFlight
  order : ∀ l, s.arrivals l = s.deliveries l ++ s.buffer l
  held : ∀ l, s.buffer l ≠ [] → l ∈ s.unlockedCallbacks ∨ l ∈ pending s.stack
  registered : s.unlockedCallbacks ≠ [] → 0 < s.updateLockCounter

theorem LockInv.free {s : Connection} (h : LockInv s) (hlock : s.updateLockCounter = 0) (l : Nat)
    (hne : s.buffer l ≠ []) : l ∈ pending s.stack := by
  rcases h.held l hne with hin | hin
  · have := h.registered (List.ne_nil_of_mem hin)
    omega
  · exact hin

theorem LockInv.idle {s : Connection} (h : LockInv s) (hlock : s.updateLockCounter = 0)
    (hstack : s.stack = []) (l : Nat) : s.buffer l = [] := by
  by_contra hne
  have hin := h.free hlock l hne
  rw [hstack] at hin
  cases hin

theorem LockInv.exact {s : Connection} (h : LockInv s) : LockExact s :=
  ⟨h.counter, h.free, h.idle, h.order⟩

/-! ## Steps -/

theorem unwind_saves (stack : List Frame) :
    ((unwind stack).map Frame.saves).sum = (stack.map Frame.saves).sum := by
  induction stack with
  | nil => rfl
  | cons frame rest ih =>
    cases frame <;> simp [unwind, Frame.saves, ih]

theorem pending_unwind {stack : List Frame} {l : Nat} (h : l ∈ pending stack) :
    l ∈ abandoned stack ∨ l ∈ pending (unwind stack) := by
  induction stack with
  | nil => cases h
  | cons frame rest ih =>
    cases frame with
    | unlocking callbacks =>
      rcases List.mem_append.mp h with h | h
      · exact Or.inl (List.mem_append_left _ h)
      · exact (ih h).imp_left (List.mem_append_right _)
    | unlocked listener =>
      rcases List.mem_cons.mp h with h | h
      · exact Or.inl (h ▸ List.mem_cons_self)
      · exact (ih h).imp_left (List.mem_cons_of_mem _)
    | enter _ _ => exact Or.inr h
    | answered _ _ _ => exact Or.inr h
    | resume _ _ => exact Or.inr h
    | callback _ => exact Or.inr h

theorem sum_erase_outer {calls : List Call} {i : Nat} {call : Call} (h : calls[i]? = some call) :
    ((calls.eraseIdx i).map (fun c => c.outer.length + 1)).sum + (call.outer.length + 1) =
      (calls.map (fun c => c.outer.length + 1)).sum := by
  obtain ⟨hi, rfl⟩ := List.getElem?_eq_some_iff.mp h
  have hperm := (List.getElem_cons_eraseIdx_perm hi).map (fun c : Call => c.outer.length + 1)
  rw [← hperm.sum_eq, List.map_cons, List.sum_cons]
  omega

theorem sum_set_outer {calls : List Call} {i : Nat} {call : Call} (h : calls[i]? = some call)
    (call' : Call) (houter : call'.outer = call.outer) :
    ((calls.set i call').map (fun c => c.outer.length + 1)).sum =
      (calls.map (fun c => c.outer.length + 1)).sum := by
  have hi : i < calls.length := (List.getElem?_eq_some_iff.mp h).1
  have hperm := (List.set_perm_cons_eraseIdx hi call').map (fun c : Call => c.outer.length + 1)
  rw [hperm.sum_eq, List.map_cons, List.sum_cons, houter, ← sum_erase_outer h]
  omega

section Steps
variable {o : HashOrder Nat} {react : List Delivery → Reaction} {s t : Connection} {e : Event}

theorem runs_counter (h : s.updateLockCounter = s.inFlight) (hruns : Runs o react s t) :
    t.updateLockCounter = t.inFlight := by
  unfold inFlight at h ⊢
  cases hruns with
  | asked hstack =>
    simp only [hstack, List.map_cons, List.sum_cons, Frame.saves] at h
    simp only [List.map_append, List.map_cons, List.map_nil, List.sum_append, List.sum_cons,
      List.sum_nil]
    omega
  | askedNow hstack =>
    simp only [hstack, List.map_cons, List.sum_cons, Frame.saves] at h
    simp only [commitOwn, List.map_cons, List.sum_cons, Frame.saves]
    omega
  | released hstack _ =>
    simp only [hstack, List.map_cons, List.sum_cons, Frame.saves, List.length_cons] at h
    simp only [List.map_cons, List.sum_cons, Frame.saves]
    omega
  | kept hstack _ =>
    simp only [hstack, List.map_cons, List.sum_cons, Frame.saves, List.length_cons] at h
    simp only [List.map_cons, List.sum_cons, Frame.saves]
    omega
  | @succeeded writing _ _ _ _ hstack =>
    rw [hstack] at h
    cases hdoc : writing.isDocument <;> exact h
  | raised hstack => simpa [hstack, unwind_saves, Frame.saves] using h
  | failed hstack => simpa [hstack, Frame.saves] using h
  | done hstack => simpa [hstack, Frame.saves] using h
  | link hstack => simpa [hstack, Frame.saves] using h
  | unlocked hstack => simpa [hstack, Frame.saves] using h
  | next hstack => simpa [hstack, Frame.saves] using h
  | drained hstack _ => simpa [hstack, Frame.saves] using h
  | delivers hstack _ => simpa [hstack, Frame.saves, processChange] using h
  | writes hstack => simpa [hstack, Frame.saves] using h
  | returned hstack => simpa [hstack, Frame.saves] using h

/-- The lock is taken and released with the writes, whatever callbacks do. -/
theorem step_counter (h : s.updateLockCounter = s.inFlight) (hstep : Step o react s e t) :
    t.updateLockCounter = t.inFlight := by
  cases hstep with
  | run hruns => exact runs_counter h hruns
  | start saving hstack => simpa [inFlight, hstack, Frame.saves] using h
  | @serve i writing outer answer hcall =>
    simp only [inFlight, commitOwn]
    rw [sum_set_outer hcall ⟨writing, some answer, outer⟩ rfl]
    exact h
  | reply hstack hcall =>
    rw [inFlight, hstack, ← sum_erase_outer hcall] at h
    simpa [inFlight, Frame.saves] using h
  | read response hstack => exact h
  | other response deleted => exact h
  | buffered listener n hstack _ => exact h
  | handed listener n hstack _ => simpa [inFlight, hstack, Frame.saves, processChange] using h

/-- A step that changes neither the notifications nor the registered listeners keeps the
invariant when it loses no pending listener with a buffer. -/
theorem LockInv.frame (h : LockInv s) (hcounter : t.updateLockCounter = t.inFlight)
    (hbuffer : t.buffer = s.buffer) (harrived : t.arrived = s.arrived)
    (hdelivered : t.delivered = s.delivered) (hcallbacks : t.unlockedCallbacks = s.unlockedCallbacks)
    (hlock : 0 < s.updateLockCounter → 0 < t.updateLockCounter)
    (hpending : ∀ l, s.buffer l ≠ [] → l ∈ pending s.stack →
      l ∈ s.unlockedCallbacks ∨ l ∈ pending t.stack) : LockInv t := by
  refine ⟨hcounter, ?_, ?_, ?_⟩
  · intro l
    rw [arrivals, deliveries, harrived, hdelivered, hbuffer]
    exact h.order l
  · intro l hl
    rw [hbuffer] at hl
    rw [hcallbacks]
    exact (h.held l hl).elim Or.inl (hpending l hl)
  · intro hne
    rw [hcallbacks] at hne
    exact hlock (h.registered hne)

/-- A frame that is popped or replaced where no loop is concerned. -/
theorem pending_of_eq {stack stack' : List Frame} (h : pending stack = pending stack') {l : Nat}
    {callbacks : List Nat} (hl : l ∈ pending stack) : l ∈ callbacks ∨ l ∈ pending stack' :=
  Or.inr (h ▸ hl)

/-- Handing over a notification moves it from the buffer to what was delivered. -/
theorem delivers_inv (h : LockInv s) {listener : Nat} {n : Notification}
    {buffer : List Notification} {rest : List Frame}
    (hstack : s.stack = .unlocked listener :: rest) (hbuffer : s.buffer listener = n :: buffer) :
    LockInv ({ s with buffer := Function.update s.buffer listener buffer }.processChange react
      listener n (.unlocked listener :: rest)) := by
  have hruns : Runs .stored react s _ := .delivers hstack hbuffer
  refine ⟨runs_counter h.counter hruns, ?_, ?_, h.registered⟩
  · intro l
    have horder := h.order l
    simp only [arrivals, deliveries, processChange, List.filter_append, List.map_append] at horder ⊢
    by_cases hl : l = listener
    · subst hl
      rw [hbuffer] at horder
      simp [horder]
    · rw [Function.update_of_ne hl]
      simp [horder, Ne.symm hl]
  · intro l hl
    simp only [processChange] at hl ⊢
    by_cases he : l = listener
    · subst he
      exact Or.inr List.mem_cons_self
    · rw [Function.update_of_ne he] at hl
      have := h.held l hl
      rw [hstack] at this
      exact this

/-- The code running on keeps the invariant, unless it raises with something left to drain. -/
theorem runs_inv (h : LockInv s) (hraises : RaisesWhenDrained s .run) (hruns : Runs o react s t) :
    LockInv t := by
  have hcounter := runs_counter h.counter hruns
  cases hruns with
  | asked hstack =>
    exact h.frame hcounter rfl rfl rfl rfl (fun _ => Nat.succ_pos _)
      (fun l _ hl => pending_of_eq (by rw [hstack]; rfl) hl)
  | askedNow hstack =>
    exact h.frame hcounter rfl rfl rfl rfl (fun _ => Nat.succ_pos _)
      (fun l _ hl => pending_of_eq (by rw [hstack]; rfl) hl)
  | failed hstack =>
    exact h.frame hcounter rfl rfl rfl rfl id
      (fun l _ hl => pending_of_eq (by rw [hstack]; rfl) hl)
  | @succeeded writing _ _ _ _ hstack =>
    cases hdoc : writing.isDocument <;> rw [hdoc] at hcounter <;>
      exact h.frame hcounter rfl rfl rfl rfl id
        (fun l _ hl => pending_of_eq (by rw [hstack]; rfl) hl)
  | done hstack =>
    exact h.frame hcounter rfl rfl rfl rfl id
      (fun l _ hl => pending_of_eq (by rw [hstack]; rfl) hl)
  | link hstack =>
    exact h.frame hcounter rfl rfl rfl rfl id
      (fun l _ hl => pending_of_eq (by rw [hstack]; rfl) hl)
  | released hstack hzero =>
    -- the registered listeners are left to the loop
    refine ⟨hcounter, h.order, ?_, fun hne => absurd rfl hne⟩
    intro l hl
    right
    rcases h.held l hl with hin | hin
    · exact List.mem_append_left _ (o.mem_arrange.mpr hin)
    · rw [hstack] at hin
      exact List.mem_append_right _ hin
  | kept hstack hpos =>
    exact h.frame hcounter rfl rfl rfl rfl (fun _ => Nat.pos_of_ne_zero hpos)
      (fun l _ hl => pending_of_eq (by rw [hstack]; rfl) hl)
  | unlocked hstack =>
    exact h.frame hcounter rfl rfl rfl rfl id
      (fun l _ hl => pending_of_eq (by rw [hstack]; rfl) hl)
  | next hstack =>
    exact h.frame hcounter rfl rfl rfl rfl id
      (fun l _ hl => pending_of_eq (by rw [hstack]; rfl) hl)
  | drained hstack hempty =>
    refine h.frame hcounter rfl rfl rfl rfl id ?_
    intro l hl hin
    rw [hstack] at hin
    rcases List.mem_cons.mp hin with he | hin
    · subst he
      exact absurd hempty hl
    · exact Or.inr hin
  | delivers hstack hbuffer => exact delivers_inv h hstack hbuffer
  | writes hstack =>
    exact h.frame hcounter rfl rfl rfl rfl id
      (fun l _ hl => pending_of_eq (by rw [hstack]; rfl) hl)
  | returned hstack =>
    exact h.frame hcounter rfl rfl rfl rfl id
      (fun l _ hl => pending_of_eq (by rw [hstack]; rfl) hl)
  | @raised rest hstack =>
    refine h.frame hcounter rfl rfl rfl rfl id ?_
    intro l hl hin
    rw [hstack] at hin
    rcases pending_unwind (show l ∈ pending rest from hin) with hab | hin
    · exact hraises _ (by rw [hstack]; rfl) l hab hl
    · exact Or.inr hin

/-- A notification that arrives while the lock is taken is held back, and its listener
registered. -/
theorem buffered_inv (h : LockInv s) (hstack : s.stack = []) (hlock : 0 < s.updateLockCounter)
    (listener : Nat) (n : Notification) :
    LockInv { s with
      arrived := s.arrived ++ [(listener, n)]
      unlockedCallbacks :=
        if listener ∈ s.unlockedCallbacks then s.unlockedCallbacks
        else s.unlockedCallbacks ++ [listener]
      buffer := Function.update s.buffer listener (s.buffer listener ++ [n]) } := by
  refine ⟨h.counter, ?_, ?_, fun _ => hlock⟩
  · intro l
    have horder := h.order l
    simp only [arrivals, deliveries, List.filter_append, List.map_append] at horder ⊢
    by_cases hl : l = listener
    · subst hl
      simp [horder]
    · rw [Function.update_of_ne hl]
      simp [horder, Ne.symm hl]
  · intro l hl
    simp only at hl ⊢
    left
    by_cases he : l = listener
    · subst he
      split <;> simp_all
    · rw [Function.update_of_ne he] at hl
      rcases h.held l hl with hin | hin
      · split
        · exact hin
        · exact List.mem_append_left _ hin
      · rw [hstack] at hin
        cases hin

/-- One that arrives while the lock is free is handed over, and nothing is before it. -/
theorem handed_inv (h : LockInv s) (hstack : s.stack = []) (hlock : s.updateLockCounter = 0)
    (listener : Nat) (n : Notification) :
    LockInv ({ s with arrived := s.arrived ++ [(listener, n)] }.processChange react listener n []) := by
  have hstep : Step .stored react s (.change listener n) _ := .handed listener n hstack hlock
  refine ⟨step_counter h.counter hstep, ?_, ?_, h.registered⟩
  · intro l
    have horder := h.order l
    have hempty := h.idle hlock hstack l
    simp only [arrivals, deliveries, processChange, List.filter_append, List.map_append,
      hempty, List.append_nil] at horder ⊢
    rw [horder]
    congr 1
    by_cases hl : listener = l <;> simp [hl]
  · intro l hl
    exact absurd (h.idle hlock hstack l) hl

/-- Every event keeps the invariant, unless a callback raises with something left to drain. -/
theorem step_inv (h : LockInv s) (hraises : RaisesWhenDrained s e) (hstep : Step o react s e t) :
    LockInv t := by
  have hcounter := step_counter h.counter hstep
  cases hstep with
  | run hruns => exact runs_inv h hraises hruns
  | start saving hstack =>
    exact h.frame hcounter rfl rfl rfl rfl id
      (fun l _ hl => pending_of_eq (by rw [hstack]; rfl) hl)
  | serve answer hcall => exact h.frame hcounter rfl rfl rfl rfl id (fun l _ hl => Or.inr hl)
  | reply hstack hcall =>
    exact h.frame hcounter rfl rfl rfl rfl id
      (fun l _ hl => pending_of_eq (by rw [hstack]; rfl) hl)
  | read response hstack => exact h.frame hcounter rfl rfl rfl rfl id (fun l _ hl => Or.inr hl)
  | other response deleted => exact h.frame hcounter rfl rfl rfl rfl id (fun l _ hl => Or.inr hl)
  | buffered listener n hstack hlock => exact buffered_inv h hstack hlock listener n
  | handed listener n hstack hlock => exact handed_inv h hstack hlock listener n

end Steps

theorem new_inv : LockInv Connection.new :=
  ⟨rfl, fun _ => rfl, fun _ hne => absurd rfl hne, fun hne => absurd rfl hne⟩

/-! ## Runs -/

/-- In every run in which a callback raises only with nothing left to drain the lock is exact, and
no notification is lost, doubled or reordered. -/
theorem lock_exact (o : HashOrder Nat) (react : List Delivery → Reaction) {events : List Event}
    {s : Connection}
    (hrun : Run (Guarded RaisesWhenDrained (Defined (step o react))) .new events s) : LockExact s :=
  have hinv : LockInv s := hrun.preserves (fun _ _ _ h hstep => step_inv h hstep.1 (step_cases hstep.2)) new_inv
  hinv.exact

/-- Two notifications are held back by a delete. The callback starts a save for the first, which
the database answers at once, and raises on the second, the last there is. -/
theorem lock_exact_nested :
    let react : List Delivery → Reaction := fun delivered =>
      if delivered.length = 1 then ⟨[.mk true false (.now (some ⟨"a", 3, "c"⟩)) []], false⟩ else ⟨[], true⟩
    let events : List Event :=
      [.start (.mk true true .later []), .run, .change 0 ⟨"a", ⟨1, "a"⟩, false⟩, .serve 0 none,
        .change 0 ⟨"a", ⟨2, "b"⟩, false⟩, .reply 0] ++ List.replicate 14 .run
    ∃ s, Run (Guarded RaisesWhenDrained (Defined (step .stored react))) .new events s ∧
      s.stack = [] ∧ s.delivered.length = 2 ∧ LockExact s := by
  intro react events
  have hend : ((events.foldlM (checked RaisesWhenDrained (step .stored react)) .new).map
      fun s => (s.stack.length, s.delivered.length)) = some (0, 2) := by decide
  obtain ⟨s, hs, hlengths⟩ := Option.map_eq_some_iff.mp hend
  have hrun := run_checked hs
  have hstack : s.stack = [] := List.eq_nil_of_length_eq_zero (congrArg Prod.fst hlengths)
  exact ⟨s, hrun, hstack, congrArg Prod.snd hlengths, lock_exact .stored react hrun⟩

/-- A callback that raises on the first of two notifications that were held back: the second
stays in the buffer with the lock free, and a later one overtakes it. -/
theorem raise_strands :
    let react : List Delivery → Reaction := fun delivered => ⟨[], delivered.length = 1⟩
    let events : List Event :=
      [.start (.mk true false .later []), .run, .change 0 ⟨"a", ⟨1, "a"⟩, false⟩,
        .change 0 ⟨"a", ⟨2, "b"⟩, false⟩, .serve 0 (some ⟨"d", 1, "x"⟩), .reply 0] ++
        List.replicate 6 .run ++ [.change 0 ⟨"a", ⟨3, "c"⟩, false⟩, .run]
    ∃ s, Run (Defined (step .stored react)) .new events s ∧
      s.stack = [] ∧ s.updateLockCounter = 0 ∧ s.buffer 0 = [⟨"a", ⟨2, "b"⟩, false⟩] ∧
      s.deliveries 0 = [⟨"a", ⟨1, "a"⟩, false⟩, ⟨"a", ⟨3, "c"⟩, false⟩] ∧ ¬ LockExact s := by
  intro react events
  have hend : ((events.foldlM (step .stored react) .new).map fun s =>
      (s.stack.length, s.updateLockCounter, s.buffer 0, s.deliveries 0)) =
        some (0, 0, [⟨"a", ⟨2, "b"⟩, false⟩],
          [⟨"a", ⟨1, "a"⟩, false⟩, ⟨"a", ⟨3, "c"⟩, false⟩]) := by decide
  obtain ⟨s, hs, hparts⟩ := Option.map_eq_some_iff.mp hend
  simp only [Prod.mk.injEq, List.length_eq_zero_iff] at hparts
  obtain ⟨hstack, hlock, hbuffer, hdelivered⟩ := hparts
  refine ⟨s, run_defined hs, hstack, hlock, hbuffer, hdelivered, fun h => ?_⟩
  have hempty := h.idle hlock hstack 0
  rw [hbuffer] at hempty
  cases hempty

end Connection
end Feat.Database
