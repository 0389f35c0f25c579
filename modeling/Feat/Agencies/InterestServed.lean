import Feat.Agencies.Interest

/- An interest with a limit runs no more protocols than that, and loses no message.

   `Kept` is what holds also in the middle of a step, while a message is in hand. What
   `_message_processed` and `_process_message` do to it, calling each other, is
   `processMessage_kept`: a slot that gets free goes to a live message, if one waits. -/
namespace Feat.Agencies.Interest
open Feat.Common Expiring Transition

/-- The messages that started a protocol. -/
def started (s : Interest) : List Message := s.log.filterMap Entry.start

/-- The messages whose protocol ended. -/
def ended (s : Interest) : List Message := s.log.filterMap Entry.stop

/-- The messages that wait, also those that have expired. -/
def waiting (s : Interest) : List Message := s.entries.map Item.value

/-- The finished notification comes directly after the last protocol ended, and only
    then. -/
structure Announced (log : List Entry) : Prop where
  first : log.head? ≠ some .finished
  next : log.IsChain fun d e => d.isLast = true ↔ e = .finished
  last : ∀ e, log.getLast? = some e → e.isLast = false

/-- What is promised of an interest with a limit. -/
structure Served (limit : Nat) (s : Interest) : Prop where
  bounded : s.running.length ≤ limit
  saturated : s.waiting ≠ [] → s.running.length = limit
  running : s.started.Perm (s.running ++ s.ended)
  accounted : s.accepted.Perm (s.started ++ s.waiting ++ s.expired.map Prod.fst ++ s.revoked)
  expired : ∀ m now, (m, now) ∈ s.expired → ∃ exp, m.expirationTime = some exp ∧ exp ≤ now
  announced : Announced s.log
  waiters : s.waiters ≠ [] → s.running ≠ []

/-! ## The finished notification -/

theorem Announced.one {log : List Entry} {e : Entry} (h : Announced log)
    (he : e.isLast = false) (hne : e ≠ .finished) : Announced (log ++ [e]) := by
  refine ⟨?_, ?_, fun x hx => ?_⟩
  · cases log with
    | nil => simpa using hne
    | cons d log => exact h.first
  · refine h.next.append (.singleton e) fun d hd x hx => ?_
    obtain rfl : x = e := by simpa [eq_comm] using hx
    rw [h.last d hd]
    simpa using hne
  · obtain rfl : x = e := by simpa [eq_comm] using hx
    exact he

theorem Announced.two {log : List Entry} {e : Entry} (h : Announced log)
    (he : e.isLast = true) (hne : e ≠ .finished) : Announced (log ++ [e] ++ [.finished]) := by
  refine ⟨?_, ?_, fun x hx => ?_⟩
  · cases log with
    | nil => simpa using hne
    | cons d log => exact h.first
  · have hone : (log ++ [e]).IsChain fun d e => d.isLast = true ↔ e = .finished := by
      refine h.next.append (.singleton e) fun d hd x hx => ?_
      obtain rfl : x = e := by simpa [eq_comm] using hx
      rw [h.last d hd]
      simpa using hne
    refine hone.append (.singleton _) fun d hd x hx => ?_
    obtain rfl : x = .finished := by simpa [eq_comm] using hx
    obtain rfl : d = e := by simpa [eq_comm] using hd
    simpa using he
  · obtain rfl : x = .finished := by simpa [eq_comm] using hx
    rfl

/-! ## While a message is in hand -/

structure Kept (limit : Nat) (hand : List Message) (s : Interest) : Prop where
  limited : s.concurrency = some limit
  queue : ∃ q, s.queue = some q
  counted : s.active = s.running.length
  bounded : s.active ≤ limit
  stamped : ∀ i ∈ s.entries, i.exp = i.value.expirationTime
  running : s.started.Perm (s.running ++ s.ended)
  accounted : s.accepted.Perm
    (hand ++ (s.started ++ s.waiting ++ s.expired.map Prod.fst ++ s.revoked))
  expired : ∀ m now, (m, now) ∈ s.expired → ∃ exp, m.expirationTime = some exp ∧ exp ≤ now

variable {limit : Nat} {s : Interest} {m : Message} {now : ℚ}

theorem not_alive {i : Item ℚ Message} (h : i.alive now = false)
    (hstamp : i.exp = i.value.expirationTime) :
    ∃ exp, i.value.expirationTime = some exp ∧ exp ≤ now := by
  unfold Item.alive at h
  split at h
  · cases h
  · rename_i exp hexp
    exact ⟨exp, by rw [← hstamp, hexp], by simpa using h⟩

@[simp] theorem started_start (m : Message) (s : Interest) :
    (s.start m).started = s.started ++ [m] := by
  simp [started, Interest.start, Entry.start]

@[simp] theorem ended_start (m : Message) (s : Interest) : (s.start m).ended = s.ended := by
  simp [ended, Interest.start, Entry.stop]

@[simp] theorem started_stop (now : ℚ) (m : Message) (s : Interest) :
    (s.stop now m).started = s.started := by
  simp [started, Interest.stop, Entry.start]

@[simp] theorem ended_stop (now : ℚ) (m : Message) (s : Interest) :
    (s.stop now m).ended = s.ended ++ [m] := by
  simp [ended, Interest.stop, Entry.stop]

theorem Kept.start (h : Kept limit [m] s) (hslot : s.active < limit) :
    Kept limit [] (s.start m) where
  limited := h.limited
  queue := h.queue
  counted := by simp [Interest.start, h.counted]
  bounded := hslot
  stamped := h.stamped
  running := by
    rw [started_start, ended_start]
    have hrun := h.running.append_right [m]
    rw [List.append_assoc] at hrun
    refine hrun.trans ?_
    show List.Perm _ (s.running ++ [m] ++ s.ended)
    rw [List.append_assoc]
    exact .append_left _ List.perm_append_comm
  accounted := by
    rw [started_start]
    have hacc := h.accounted
    show s.accepted.Perm
      ([] ++ (s.started ++ [m] ++ s.waiting ++ s.expired.map Prod.fst ++ s.revoked))
    simp only [List.append_assoc, List.nil_append] at hacc ⊢
    exact hacc.trans (List.perm_append_comm_assoc _ _ _)
  expired := h.expired

theorem Kept.stop (h : Kept limit [] s) (hm : m ∈ s.running) : Kept limit [] (s.stop now m) where
  limited := h.limited
  queue := h.queue
  counted := by simp [Interest.stop, h.counted, List.length_erase_of_mem hm]
  bounded := (Nat.sub_le _ _).trans h.bounded
  stamped := h.stamped
  running := by
    rw [started_stop, ended_stop]
    refine h.running.trans (((List.perm_cons_erase hm).append_right _).trans ?_)
    show List.Perm (m :: (s.running.erase m ++ s.ended)) (s.running.erase m ++ (s.ended ++ [m]))
    rw [← List.append_assoc]
    exact (List.perm_append_singleton m _).symm
  accounted := by
    rw [started_stop]
    exact h.accounted
  expired := h.expired

/-- The queue gives what it has to, and drops nothing that is alive. -/
theorem Kept.setQueue {hand next : List Message} {q r : ExpQueue Message}
    {dropped : List (Item ℚ Message)} (given taken : List (Item ℚ Message))
    (h : Kept limit hand s) (hq : s.queue = some q)
    (hexpired : ∀ i ∈ dropped, i.alive now = false)
    (hstamp : ∀ i ∈ given, i.exp = i.value.expirationTime)
    (hperm : (given ++ q.heap.toList).Perm (dropped ++ (taken ++ r.heap.toList)))
    (hhand : hand = given.map Item.value) (hnext : next = taken.map Item.value) :
    Kept limit next (s.setQueue now dropped r) := by
  have hentries : s.entries = q.heap.toList := by
    unfold entries
    rw [hq]
  have hstamped : ∀ i ∈ dropped ++ (taken ++ r.heap.toList), i.exp = i.value.expirationTime := by
    intro i hi
    obtain hi | hi := List.mem_append.mp (hperm.mem_iff.mpr hi)
    · exact hstamp i hi
    · exact h.stamped i (hentries ▸ hi)
  refine ⟨h.limited, ⟨r, rfl⟩, h.counted, h.bounded, ?_, h.running, ?_, ?_⟩
  · intro i hi
    exact hstamped i (by simp [show i ∈ r.heap.toList from hi])
  · have hvalues := hperm.map Item.value
    simp only [List.map_append, ← hhand, ← hnext] at hvalues
    have hacc := h.accounted
    have hfst : (dropped.map fun i => (i.value, now)).map Prod.fst = dropped.map Item.value := by
      rw [List.map_map]
      rfl
    simp only [waiting, hentries] at hacc
    show s.accepted.Perm (next ++ (s.started ++ r.heap.toList.map Item.value ++
      (s.expired ++ dropped.map fun i => (i.value, now)).map Prod.fst ++ s.revoked))
    rw [List.map_append, hfst]
    rw [List.perm_iff_count] at hvalues hacc ⊢
    intro a
    have hvalue := hvalues a
    have ha := hacc a
    simp only [List.count_append] at hvalue ha ⊢
    omega
  · intro m' now' hm
    obtain hm | hm := List.mem_append.mp hm
    · exact h.expired m' now' hm
    · obtain ⟨i, hi, he⟩ := List.mem_map.mp hm
      cases he
      exact not_alive (hexpired i hi) (hstamped i (by simp [hi]))

theorem Kept.notifyFinished {hand : List Message} (h : Kept limit hand s) :
    Kept limit hand s.notifyFinished := by
  have hstarted : s.notifyFinished.started = s.started := by
    simp [started, Interest.notifyFinished, Entry.start]
  have hended : s.notifyFinished.ended = s.ended := by
    simp [ended, Interest.notifyFinished, Entry.stop]
  refine ⟨h.limited, h.queue, h.counted, h.bounded, h.stamped, ?_, ?_, h.expired⟩
  · rw [hstarted, hended]
    exact h.running
  · rw [hstarted]
    exact h.accounted

/-! ## The callbacks -/

/-- A slot is free only while nothing waits. -/
structure Settled (limit : Nat) (s : Interest) : Prop where
  saturated : s.entries ≠ [] → s.active = limit
  waiters : s.waiters ≠ [] → s.active ≠ 0
  announced : Announced s.log

/-- `_message_processed`, when what it calls for the next message does its work. -/
theorem messageProcessed_kept {process : Message → Interest → Option Interest} {depth : Nat}
    (hprocess : ∀ m s, Kept limit [m] s → s.active < limit →
      (s.entries ≠ [] → s.active + 1 = limit) → s.entries.length < depth → Announced s.log →
      ∃ t, process m s = some t ∧ Kept limit [] t ∧ Settled limit t)
    (h : Kept limit [] s) (hm : m ∈ s.running) (hsat : s.entries ≠ [] → s.active = limit)
    (hdepth : s.entries.length ≤ depth) (hann : Announced s.log) :
    ∃ t, messageProcessed process now m s = some t ∧ Kept limit [] t ∧ Settled limit t := by
  have hpos : s.active > 0 := by
    rw [h.counted]
    exact List.length_pos_of_mem hm
  obtain ⟨q, hq⟩ := h.queue
  have hentries : s.entries = q.heap.toList := by
    unfold entries
    rw [hq]
  have hstop : Kept limit [] (s.stop now m) := h.stop hm
  have hactive : (s.stop now m).active = s.active - 1 := rfl
  rcases hpop : q.pop now with ⟨value, dropped, r⟩
  obtain ⟨taken, hvalue, halive, hexpired, hperm, hempty⟩ := ExpQueue.pop_spec hpop
  unfold messageProcessed
  dsimp only
  rw [if_pos hpos, show (s.stop now m).queue = some q from hq]
  dsimp only
  rw [hpop]
  dsimp only
  have hkept : Kept limit (taken.toList.map Item.value) ((s.stop now m).setQueue now dropped r) :=
    hstop.setQueue [] taken.toList hq hexpired (by simp) (by simpa using hperm) rfl rfl
  have hleft : ((s.stop now m).setQueue now dropped r).entries = r.heap.toList := rfl
  cases taken with
  | some item =>
    subst hvalue
    dsimp only [Option.map_some]
    have hne : s.entries ≠ [] := by
      intro hnil
      rw [hentries] at hnil
      rw [hnil] at hperm
      simpa using hperm.length_eq
    have hlen : r.heap.toList.length < depth := by
      have hlength := hperm.length_eq
      simp only [Option.toList_some, List.length_append, List.length_cons] at hlength
      rw [hentries] at hdepth
      omega
    have hlast : Announced ((s.stop now m).setQueue now dropped r).log := by
      -- the item taken is alive, so the protocol that ended is not the last one
      refine hann.one ?_ (by simp)
      have hmem : item ∈ s.entries := by
        rw [hentries]
        exact hperm.mem_iff.mpr (by simp)
      have hitem := halive item rfl
      simp only [Entry.isLast, decide_eq_false_iff_not, not_and, not_forall]
      intro _
      exact ⟨item, hmem, by simp [hitem]⟩
    refine hprocess _ _ hkept ?_ (fun _ => ?_) hlen hlast
    · show s.active - 1 < limit
      have := h.bounded
      omega
    · show s.active - 1 + 1 = limit
      have := hsat hne
      omega
  | none =>
    subst hvalue
    dsimp only [Option.map_none]
    have hnil : r.heap.toList = [] := hempty rfl
    have hall : ∀ i ∈ s.entries, i.alive now = false := by
      intro i hi
      rw [hentries] at hi
      refine hexpired i ?_
      have hin := hperm.mem_iff.mp hi
      simpa [hnil] using hin
    by_cases hzero : s.active - 1 = 0
    · have hrunning : s.running.erase m = [] := by
        apply List.length_eq_zero_iff.mp
        rw [List.length_erase_of_mem hm, ← h.counted]
        exact hzero
      refine ⟨_, rfl, ?_, ?_⟩
      · rw [if_pos (by exact hzero)]
        exact hkept.notifyFinished
      · rw [if_pos (by exact hzero)]
        refine ⟨fun hne => absurd hnil hne, fun hne => absurd rfl hne, ?_⟩
        refine hann.two ?_ (by simp)
        exact decide_eq_true ⟨hrunning, hall⟩
    · refine ⟨_, rfl, ?_, ?_⟩
      · rw [if_neg (by exact hzero)]
        exact hkept
      · rw [if_neg (by exact hzero)]
        refine ⟨fun hne => absurd hnil hne, fun _ => hzero, ?_⟩
        refine hann.one ?_ (by simp)
        have hrunning : s.running.erase m ≠ [] := by
          intro he
          have hlength := congrArg List.length he
          rw [List.length_erase_of_mem hm, ← h.counted] at hlength
          exact hzero hlength
        simp [Entry.isLast, hrunning]

theorem processMessage_kept (immediate : Message → Bool) (now : ℚ) {depth : Nat}
    (h : Kept limit [m] s) (hslot : s.active < limit) (hsat : s.entries ≠ [] → s.active + 1 = limit)
    (hdepth : s.entries.length < depth) (hann : Announced s.log) :
    ∃ t, processMessage immediate now depth m s = some t ∧ Kept limit [] t ∧ Settled limit t := by
  induction depth generalizing m s with
  | zero => omega
  | succ depth ih =>
    have hallowed : ∀ k, s.concurrency = some k → k ≠ 0 → s.active < k := by
      intro k hk _
      rw [h.limited] at hk
      cases hk
      exact hslot
    have hann' : Announced (s.start m).log := hann.one rfl (by simp)
    unfold processMessage
    rw [if_pos hallowed]
    dsimp only
    split
    · refine messageProcessed_kept (fun _ _ hk hs he hd ha => ih hk hs he hd ha) (h.start hslot) ?_
        hsat (Nat.le_of_lt_succ hdepth) hann'
      simp [Interest.start]
    · exact ⟨_, rfl, h.start hslot, hsat, fun _ => Nat.succ_ne_zero _, hann'⟩

/-! ## Steps and runs -/

structure Good (limit : Nat) (s : Interest) : Prop where
  kept : Kept limit [] s
  settled : Settled limit s

/-- A protocol can only terminate while it runs. -/
def Possible (s : Interest) : Event → Prop
  | .terminated _ m => m ∈ s.running
  | _ => True

theorem new_good (limit : Nat) : Good limit (new (some limit)) := by
  refine ⟨⟨rfl, ⟨_, rfl⟩, rfl, Nat.zero_le _, ?_, .refl _, .refl _, ?_⟩, ⟨?_, ?_, ?_, .nil, ?_⟩⟩
  · intro i hi
    cases hi
  · intro m now hm
    cases hm
  · exact fun hne => absurd rfl hne
  · exact fun hne => absurd rfl hne
  · exact fun hfinished => by cases hfinished
  · intro e he
    cases he

/-- A message that is accepted. -/
theorem Kept.accept (h : Kept limit [] s) (m : Message) :
    Kept limit [m] (s.accept m) := by
  refine ⟨h.limited, h.queue, h.counted, h.bounded, h.stamped, h.running, ?_, h.expired⟩
  exact (h.accounted.append_right [m]).trans List.perm_append_comm

theorem scheduleMessage_good {immediate : Message → Bool} (h : Good limit s) (now : ℚ)
    (m : Message) :
    ∃ t, (scheduleMessage immediate now m s).map Prod.snd = some t ∧ Good limit t := by
  have haccept := h.kept.accept m
  obtain ⟨q, hq⟩ := haccept.queue
  unfold scheduleMessage
  split
  · dsimp only
    rw [hq, haccept.limited]
    dsimp only
    split
    · -- as many protocols run as may: the message has to wait
      rename_i hfull
      have hactive : s.active = limit := Nat.le_antisymm h.kept.bounded hfull
      rcases hadd : q.add now m m.expirationTime false with ⟨dropped, r⟩
      obtain ⟨hexpired, hperm⟩ := ExpQueue.add_spec hadd
      have hdeadline : deadline now m.expirationTime false = m.expirationTime := by
        simp [deadline]
      rw [hdeadline] at hperm
      refine ⟨_, rfl, ?_, fun _ => hactive, h.settled.waiters, h.settled.announced⟩
      exact haccept.setQueue [⟨m.expirationTime, m⟩] [] hq hexpired (by simp) hperm rfl rfl
    · rename_i hfree
      have hslot : s.active < limit := Nat.lt_of_not_le hfree
      have hnone : s.entries = [] := by
        by_contra hne
        have := h.settled.saturated hne
        omega
      obtain ⟨t, ht, hkept, hsettled⟩ := processMessage_kept immediate now haccept hslot
        (fun hne => absurd hnone hne) (Nat.lt_succ_self s.entries.length) h.settled.announced
      refine ⟨t, ?_, hkept, hsettled⟩
      rw [Option.map_map]
      exact Option.map_eq_some_iff.mpr ⟨t, ht, rfl⟩
  · exact ⟨s, rfl, h⟩

/-- No assertion fails, and the interest stays good. -/
theorem step_good (immediate : Message → Bool) {e : Event} (h : Good limit s)
    (he : Possible s e) : ∃ t, step immediate s e = some t ∧ Good limit t := by
  cases e with
  | scheduled now m => exact scheduleMessage_good h now m
  | terminated now m =>
    have hm : m ∈ s.running := he
    obtain ⟨t, ht, hkept, hsettled⟩ := messageProcessed_kept
      (fun m s hk hs hsat hd ha => processMessage_kept immediate now hk hs hsat hd ha) h.kept hm
      h.settled.saturated (le_refl _) h.settled.announced
    refine ⟨t, ?_, hkept, hsettled⟩
    dsimp only [step]
    rw [if_pos hm]
    exact ht
  | waited waiter =>
    refine ⟨_, rfl, ?_⟩
    unfold waitFinished
    split
    · exact ⟨⟨h.kept.limited, h.kept.queue, h.kept.counted, h.kept.bounded, h.kept.stamped,
        h.kept.running, h.kept.accounted, h.kept.expired⟩, h.settled.saturated, h.settled.waiters,
        h.settled.announced⟩
    · rename_i hbusy
      refine ⟨⟨h.kept.limited, h.kept.queue, h.kept.counted, h.kept.bounded, h.kept.stamped,
        h.kept.running, h.kept.accounted, h.kept.expired⟩, h.settled.saturated, fun _ => ?_,
        h.settled.announced⟩
      simpa [isIdle] using hbusy
  | revoked =>
    refine ⟨_, rfl, ?_⟩
    obtain ⟨q, hq⟩ := h.kept.queue
    unfold clearQueue
    rw [hq]
    dsimp only
    refine ⟨⟨h.kept.limited, ⟨_, rfl⟩, h.kept.counted, h.kept.bounded, ?_, h.kept.running, ?_,
      h.kept.expired⟩, fun hne => absurd rfl hne, h.settled.waiters, h.settled.announced⟩
    · intro i hi
      cases hi
    · have hacc := h.kept.accounted
      simp only [waiting, entries, hq] at hacc
      show s.accepted.Perm ([] ++ (s.started ++ [] ++ s.expired.map Prod.fst ++
        (s.revoked ++ q.heap.toList.map Item.value)))
      rw [List.perm_iff_count] at hacc ⊢
      intro a
      have ha := hacc a
      simp only [List.count_append, List.count_nil] at ha ⊢
      omega

theorem Good.served (h : Good limit s) : Served limit s where
  bounded := by
    rw [← h.kept.counted]
    exact h.kept.bounded
  saturated hne := by
    rw [← h.kept.counted]
    refine h.settled.saturated fun hnil => hne ?_
    unfold waiting
    rw [hnil, List.map_nil]
  running := h.kept.running
  accounted := h.kept.accounted
  expired := h.kept.expired
  announced := h.settled.announced
  waiters hne := by
    intro hnil
    refine h.settled.waiters hne ?_
    rw [h.kept.counted, hnil, List.length_nil]

theorem run_good {immediate : Message → Bool} {es : List Event}
    (hrun : Run (Defined (step immediate)) (new (some limit)) es s) : Good limit s := by
  refine hrun.preserves (fun s e t h hstep => ?_) (new_good limit)
  have he : Possible s e := by
    cases e with
    | terminated now m =>
      by_contra hnot
      have hnone : step immediate s (.terminated now m) = none := if_neg hnot
      rw [Defined, hnone] at hstep
      cases hstep
    | _ => exact trivial
  obtain ⟨t', ht', hgood⟩ := step_good immediate h he
  rw [Defined, ht'] at hstep
  cases hstep
  exact hgood

end Feat.Agencies.Interest
