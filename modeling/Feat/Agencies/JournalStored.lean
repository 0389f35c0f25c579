import Feat.Agencies.WriterEntries

/- No journal entry is lost, while no step of a run is one that can lose it.

   What is kept is where the entries are (`Journaler.Books`): in the cache of the
   journaler, and while the flush waits for a writer, with that writer too. A flush
   that completes fires all waiters, so those of entries that came since it fetched are
   fired too early (`Journaler.fired_or_left_early`); and a chain of `_flush_next`
   succeeds also after the COMMIT of another one has failed, whose entries were dropped
   from the cache of the writer before. In all runs without these, and in which somebody
   attends to the entries, all that is promised holds (`Journaler.right_of_sound`). -/
namespace Feat.Agencies.Journaling
open Transition

namespace Journaler
variable {s t : Journaler} {k i : Nat} {w v : PostgresWriter} {outcome : Option Bool}
  {lost : List Nat}

/-! ## What is promised, and when -/

/-- The writer has stored the entry. -/
def Stored (s : Journaler) (e i : Nat) : Prop := ∃ w, s.writers[i]? = some w ∧ e ∈ w.stored

/-- A flush is running or scheduled, or a writer is being connected. -/
def Attended (s : Journaler) : Prop := s.task ≠ .none ∨ 0 < s.due ∨ 0 < s.switching

instance (s : Journaler) : Decidable s.Attended := inferInstanceAs (Decidable (_ ∨ _ ∨ _))

/-- No entry is lost: an entry is in the cache until the writer it was handed to has stored it, each
writer stores in the order of insertion, waiters are fired when their entries are stored, entries in
the cache are attended to, and the writer that a flush waits for has one chain that it waits for. -/
structure Right (s : Journaler) : Prop where
  kept : ∀ e < s.inserted, e ∈ s.cache.cache ∨ ∃ i, (e, i) ∈ s.left
  left : ∀ e i, (e, i) ∈ s.left → s.Stored e i
  ordered : ∀ w ∈ s.writers, w.stored.Pairwise (· < ·)
  fired : ∀ e ∈ s.fired, ∃ i, s.Stored e i
  attended : s.cache.cache ≠ [] → s.Attended
  running : ∀ i, s.task = .inserting i → ∃ w, s.writers[i]? = some w ∧ w.awaited = 1

/-- Entries come while the journaler is connected or attends to what it has. `use_next_writer` is
made with targets, if there is nothing else that attends to the entries. When the flush completes,
no entry has come since it fetched; and no COMMIT fails that has entries of the flush, unless it is
the flush's own. -/
def Sound (s : Journaler) : Event → Prop
  | .insertEntries n => n = 0 ∨ s.connected = true ∨ s.Attended
  | .dueUseNextWriter => s.possibleTargets ≠ 0 ∨ s.cache.cache = [] ∨
      Attended { s with due := s.due - 1 }
  | .writer i e => ∀ w ∈ s.writers[i]?, s.task = .inserting i →
      (w.Completes e → s.cache.fetched = some s.cache.cache.length) ∧
      (w.running.map Prod.fst = some .own → ∀ x ∈ s.fetched, x ∉ w.lostBy e)
  | _ => True

instance (s : Journaler) : (e : Event) → Decidable (s.Sound e)
  | .insertEntries n => inferInstanceAs (Decidable (n = 0 ∨ s.connected = true ∨ s.Attended))
  | .dueUseNextWriter => inferInstanceAs (Decidable (_ ≠ 0 ∨ _ = [] ∨ Attended _))
  | .writer i e => inferInstanceAs (Decidable (∀ w ∈ s.writers[i]?, s.task = .inserting i →
      (w.Completes e → _ = _) ∧ (_ = _ → ∀ x ∈ s.fetched, x ∉ w.lostBy e)))
  | .scheduleFlush | .flush | .notify | .configureWith _ | .setConnectionStrings _ | .close _
  | .setDisconnected | .useNextWriter _ | .reconnectToPrimaryWriter | .switchWriter | .dueClose =>
    inferInstanceAs (Decidable True)

/-! ## The books -/

/-- Where the entries are. While the flush waits for the Deferred of a writer (`k` is 0), that writer
has the entries that were fetched, and only it has a chain that the journaler waits for. -/
structure Books (s : Journaler) (k : Nat) : Prop where
  writer : ∀ (i : Nat) (w : PostgresWriter), s.writers[i]? = some w →
    w.Inv ∧ w.entries.Pairwise (· < ·) ∧ ∀ e ∈ w.entries, e < s.inserted
  awaited : ∀ (i : Nat) (w : PostgresWriter), s.writers[i]? = some w →
    w.awaited + (if s.task = .inserting i then k else 0) = if s.task = .inserting i then 1 else 0
  locked : ∀ i, s.task = .inserting i →
    ∃ n, s.cache.fetched = some n ∧ n ≤ s.cache.cache.length
  unlocked : (∀ i, s.task ≠ .inserting i) → s.cache.fetched = none
  handed : k = 0 → ∀ i, s.task = .inserting i →
    ∃ w, s.writers[i]? = some w ∧ ∀ e ∈ s.fetched, e ∈ w.entries
  sorted : s.cache.cache.Pairwise (· < ·)
  bound : ∀ e ∈ s.cache.cache, e < s.inserted
  kept : ∀ e < s.inserted, e ∈ s.cache.cache ∨ ∃ i, (e, i) ∈ s.left
  left : ∀ e i, (e, i) ∈ s.left → s.Stored e i
  waiters : ∀ es ∈ s.waiters, ∀ e ∈ es, e ∈ s.cache.cache
  fired : ∀ e ∈ s.fired, ∃ i, s.Stored e i

/-- The entries in the cache that a writer was not handed. -/
def pending (s : Journaler) (i : Nat) : List Nat :=
  if s.task = .inserting i then s.cache.cache.drop (s.cache.fetched.getD 0) else s.cache.cache

/-- The writer that entries are handed to next has only entries that came before them. -/
def Current (s : Journaler) : Prop := ∀ i, s.writer = some i →
  ∃ w, s.writers[i]? = some w ∧ ∀ e ∈ w.entries, ∀ x ∈ s.pending i, e < x

structure Inv (s : Journaler) : Prop where
  books : Books s 0
  current : Current s
  flows : s.cache.cache ≠ [] → s.connected = true → s.task ≠ .none
  attended : s.cache.cache ≠ [] → s.Attended

/-- The books are about some fields, and about who the flush waits for. -/
theorem Books.of_eq (h : Books s k) (hcache : t.cache = s.cache)
    (htask : ∀ i, t.task = .inserting i ↔ s.task = .inserting i)
    (hwaiters : t.waiters = s.waiters) (hwriters : t.writers = s.writers)
    (hinserted : t.inserted = s.inserted) (hleft : t.left = s.left) (hfired : t.fired = s.fired) :
    Books t k where
  writer i w hw := by
    rw [hinserted]
    exact h.writer i w (hwriters ▸ hw)
  awaited i w hw := by
    simp only [htask]
    exact h.awaited i w (hwriters ▸ hw)
  locked i hi := by
    rw [hcache]
    exact h.locked i ((htask i).mp hi)
  unlocked hnot := by
    rw [hcache]
    exact h.unlocked fun i hi => hnot i ((htask i).mpr hi)
  handed hk i hi := by
    unfold fetched
    rw [hcache, hwriters]
    exact h.handed hk i ((htask i).mp hi)
  sorted := hcache ▸ h.sorted
  bound e he := by
    rw [hinserted]
    exact h.bound e (hcache ▸ he)
  kept e he := by
    rw [hcache, hleft]
    exact h.kept e (hinserted ▸ he)
  left e i hi := by
    unfold Stored
    rw [hwriters]
    exact h.left e i (hleft ▸ hi)
  waiters es hes e he := by
    rw [hcache]
    exact h.waiters es (hwaiters ▸ hes) e he
  fired e he := by
    unfold Stored
    rw [hwriters]
    exact h.fired e (hfired ▸ he)

theorem Inv.right (h : Inv s) : s.Right where
  kept := h.books.kept
  left := h.books.left
  ordered w hw := by
    obtain ⟨i, hi⟩ := List.mem_iff_getElem?.mp hw
    obtain ⟨_, hsorted, _⟩ := h.books.writer i w hi
    exact hsorted.sublist ((List.sublist_append_left _ _).trans (List.sublist_append_left _ _))
  fired := h.books.fired
  attended := h.attended
  running i hi := by
    obtain ⟨w, hw, _⟩ := h.books.handed rfl i hi
    have hawaited := h.books.awaited i w hw
    rw [if_pos hi, if_pos hi] at hawaited
    exact ⟨w, hw, hawaited⟩

theorem Inv.start : Inv new := by
  refine ⟨⟨?_, ?_, ?_, fun _ => rfl, ?_, .nil, ?_, ?_, ?_, ?_, ?_⟩, ?_, fun h => absurd rfl h,
    fun h => absurd rfl h⟩
  · exact fun _ _ h => (nomatch h)
  · exact fun _ _ h => (nomatch h)
  · exact fun _ h => (nomatch h)
  · exact fun _ _ h => (nomatch h)
  · exact fun _ h => (nomatch h)
  · exact fun e he => absurd he (Nat.not_lt_zero e)
  · exact fun _ _ h => (nomatch h)
  · exact fun _ h => (nomatch h)
  · exact fun _ h => (nomatch h)
  · exact fun _ h => (nomatch h)

/-! ### What the journaler does itself -/

/-- The cache of a connected journaler flows. -/
theorem Inv.scheduled (hbooks : Books s 0) (hcurrent : Current s)
    (hattended : s.cache.cache ≠ [] → s.connected = true ∨ s.Attended) : Inv s.scheduleFlush := by
  unfold scheduleFlush
  split
  · rename_i hnone
    have htask : ∀ i, FlushTask.scheduled = .inserting i ↔ s.task = .inserting i := by
      intro i
      rw [hnone.2]
      exact iff_of_false (fun h => (nomatch h)) (fun h => (nomatch h))
    have hpending : ∀ i, pending { s with task := .scheduled } i = s.pending i := by
      intro i
      unfold pending
      simp only [htask]
    refine ⟨hbooks.of_eq rfl htask rfl rfl rfl rfl rfl, ?_, fun _ _ => ?_, fun _ => Or.inl ?_⟩
    · intro i hi
      rw [hpending]
      exact hcurrent i hi
    · exact fun h => (nomatch h)
    · exact fun h => (nomatch h)
  · rename_i hnot
    have hflows : s.cache.cache ≠ [] → s.connected = true → s.task ≠ .none :=
      fun _ hconnected hnone => hnot ⟨hconnected, hnone⟩
    refine ⟨hbooks, hcurrent, hflows, fun hsome => ?_⟩
    exact (hattended hsome).elim (fun hconnected => Or.inl (hflows hsome hconnected)) id

/-- Nothing is in the cache but what was handed to the writer, and it is stored. -/
theorem Inv.completed (hbooks : Books s 1) (hcurrent : Current s) (htask : s.task = .inserting i)
    (hstored : ∀ e ∈ s.fetched, s.Stored e i)
    (hall : s.cache.fetched = some s.cache.cache.length) : Inv s.flushComplete := by
  have hfetched : s.fetched = s.cache.cache := by
    rw [fetched, hall, Option.getD_some, List.take_length]
  have heq : s.flushComplete = { s with
      cache := ⟨[], none⟩
      task := .none
      left := s.left ++ s.cache.cache.map fun e => (e, i)
      fired := s.fired ++ s.waiters.flatten
      waiters := [] } := by
    unfold flushComplete
    simp only [htask, EntriesCache.isLocked, hall, Option.isSome_some, if_true, commit,
      EntriesCache.commit, Option.map_some, List.drop_length, hfetched, List.length_nil,
      Nat.lt_irrefl, gt_iff_lt, if_false]
  rw [heq]
  refine ⟨⟨hbooks.writer, ?_, fun _ h => (by cases h), fun _ => rfl, fun _ _ h => (by cases h), .nil,
    fun _ h => (by cases h), ?_, ?_, fun _ h => (by cases h), ?_⟩, ?_, fun h => absurd rfl h,
    fun h => absurd rfl h⟩
  · intro j w hw
    have hawaited := hbooks.awaited j w hw
    simp only [reduceCtorEq, if_false]
    split at hawaited <;> omega
  · intro e he
    right
    rcases hbooks.kept e he with hcache | ⟨j, hj⟩
    · exact ⟨i, List.mem_append_right _ (List.mem_map.mpr ⟨e, hcache, rfl⟩)⟩
    · exact ⟨j, List.mem_append_left _ hj⟩
  · intro e j hj
    rcases List.mem_append.mp hj with hj | hj
    · exact hbooks.left e j hj
    · obtain ⟨x, hx, hsame⟩ := List.mem_map.mp hj
      cases hsame
      exact hstored e (hfetched ▸ hx)
  · intro e he
    rcases List.mem_append.mp he with he | he
    · exact hbooks.fired e he
    · -- the entries that are waited for were in the cache
      obtain ⟨es, hes, hin⟩ := List.mem_flatten.mp he
      exact ⟨i, hstored e (hfetched ▸ hbooks.waiters es hes e hin)⟩
  · intro j hj
    obtain ⟨w, hw, _⟩ := hcurrent j hj
    exact ⟨w, hw, fun _ _ _ h => (by cases h)⟩

/-- A flush that has nothing to do. -/
theorem Inv.completed_empty (h : Inv s) (htask : ∀ i, s.task ≠ .inserting i)
    (hempty : s.cache.cache = []) : Inv s.flushComplete := by
  have heq : s.flushComplete = { s with
      task := .none, fired := s.fired ++ s.waiters.flatten, waiters := [] } := by
    unfold flushComplete
    cases hphase : s.task with
    | inserting i => exact absurd hphase (htask i)
    | none => simp [hempty]
    | scheduled => simp [hempty]
    | waiting => simp [hempty]
  have hbooks := h.books
  have hflat : s.waiters.flatten = [] := by
    refine List.eq_nil_iff_forall_not_mem.mpr fun e he => ?_
    obtain ⟨es, hes, hin⟩ := List.mem_flatten.mp he
    have hcache := hbooks.waiters es hes e hin
    rw [hempty] at hcache
    cases hcache
  have hnone : ∀ i, FlushTask.none = .inserting i ↔ s.task = .inserting i :=
    fun i => iff_of_false (fun h => (nomatch h)) (htask i)
  rw [heq, hflat, List.append_nil]
  have hbooks' : Books { s with task := .none } 0 := hbooks.of_eq rfl hnone rfl rfl rfl rfl rfl
  refine ⟨⟨hbooks'.writer, hbooks'.awaited, hbooks'.locked, hbooks'.unlocked, hbooks'.handed,
    hbooks'.sorted, hbooks'.bound, hbooks'.kept, hbooks'.left, fun _ h => (nomatch h),
    hbooks'.fired⟩, ?_, fun hsome => absurd hempty hsome, fun hsome => absurd hempty hsome⟩
  intro i hi
  obtain ⟨w, hw, _⟩ := h.current i hi
  refine ⟨w, hw, ?_⟩
  intro e _ x hx
  unfold pending at hx
  simp only [reduceCtorEq, if_false, hempty] at hx
  cases hx

/-- The flush has failed: the journaler keeps its entries and calls for another writer. -/
def errored (s : Journaler) : Journaler :=
  { s with
    cache := ⟨s.cache.cache, none⟩
    dueCloses := s.dueCloses ++ s.writer.toList
    writer := none
    connected := false
    task := .none
    due := s.due + 1 }

theorem flushError_eq {n : Nat} (hfetched : s.cache.fetched = some n) :
    s.flushError = s.errored := by
  unfold flushError EntriesCache.rollback
  rw [hfetched]
  rfl

theorem Inv.errored (hbooks : Books s k) (hk : k = 1 ∨ ∀ i, s.task ≠ .inserting i) :
    Inv s.errored := by
  refine ⟨⟨hbooks.writer, ?_, fun _ h => (nomatch h), fun _ => rfl, fun _ _ h => (nomatch h),
    hbooks.sorted, hbooks.bound, hbooks.kept, hbooks.left, hbooks.waiters, hbooks.fired⟩,
    fun _ h => (nomatch h), fun _ h => (nomatch h), fun _ => Or.inr (Or.inl (Nat.succ_pos _))⟩
  intro j w hw
  have hawaited := hbooks.awaited j w hw
  unfold Journaler.errored
  simp only [reduceCtorEq, if_false]
  rcases hk with hk | hk
  · split at hawaited <;> omega
  · rw [if_neg (hk j), if_neg (hk j)] at hawaited
    exact hawaited

/-! ### What the writers do -/

theorem getElem?_set_cases {l : List PostgresWriter} (hi : l[i]? = some w) {j : Nat}
    {u : PostgresWriter} (hj : (l.set i v)[j]? = some u) :
    (j = i ∧ u = v) ∨ (j ≠ i ∧ l[j]? = some u) := by
  by_cases hsame : j = i
  · subst hsame
    rw [List.getElem?_set_self (List.getElem?_eq_some_iff.mp hi).1] at hj
    exact Or.inl ⟨rfl, (Option.some.inj hj).symm⟩
  · rw [List.getElem?_set_ne (Ne.symm hsame)] at hj
    exact Or.inr ⟨hsame, hj⟩

theorem getElem?_set_same {l : List PostgresWriter} (hi : l[i]? = some w) :
    (l.set i v)[i]? = some v := List.getElem?_set_self (List.getElem?_eq_some_iff.mp hi).1

/-- What a writer has stored it keeps. -/
theorem Stored.set (hi : s.writers[i]? = some w) (hstored : ∀ e ∈ w.stored, e ∈ v.stored) {e j : Nat}
    (h : s.Stored e j) : Stored { s with writers := s.writers.set i v } e j := by
  obtain ⟨u, hu, he⟩ := h
  by_cases hsame : i = j
  · subst hsame
    rw [hi] at hu
    cases hu
    exact ⟨v, getElem?_set_same hi, hstored e he⟩
  · exact ⟨u, (List.getElem?_set_ne hsame).trans hu, he⟩

/-- One writer does something. -/
theorem Books.effect (h : Books s 0) (hi : s.writers[i]? = some w)
    (heffect : w.Effect v outcome lost)
    (hlost : outcome = none → s.task = .inserting i → ∀ e ∈ s.fetched, e ∉ lost) :
    Books { s with writers := s.writers.set i v } (if outcome.isSome then 1 else 0) where
  writer j u hu := by
    rcases getElem?_set_cases hi hu with ⟨rfl, rfl⟩ | ⟨_, hu⟩
    · obtain ⟨_, hsorted, hbound⟩ := h.writer j w hi
      exact ⟨heffect.inv, hsorted.sublist heffect.sublist, fun e he =>
        hbound e (heffect.sublist.subset he)⟩
    · exact h.writer j u hu
  awaited j u hu := by
    have hawaited := h.awaited i w hi
    have heq := heffect.awaited
    rcases getElem?_set_cases hi hu with ⟨rfl, rfl⟩ | ⟨hne, hu⟩
    · by_cases htask : s.task = .inserting j
      · simp only [htask, if_true] at hawaited ⊢
        omega
      · simp only [htask, if_false] at hawaited ⊢
        omega
    · have hother := h.awaited j u hu
      by_cases htask : s.task = .inserting j
      · -- the flush waits for another writer
        have hnot : s.task ≠ .inserting i := by
          rw [htask]
          intro hsame
          cases hsame
          exact hne rfl
        simp only [htask, if_true] at hother ⊢
        simp only [hnot, if_false] at hawaited
        have hzero : (if outcome.isSome then 1 else 0) = 0 := by omega
        omega
      · simp only [htask, if_false] at hother ⊢
        exact hother
  locked := h.locked
  unlocked := h.unlocked
  handed hk j hj := by
    have hnone : outcome = none := by
      cases outcome with
      | none => rfl
      | some ok => cases hk
    obtain ⟨u, hu, hhanded⟩ := h.handed rfl j hj
    by_cases hsame : i = j
    · subst hsame
      rw [hi] at hu
      cases hu
      refine ⟨v, getElem?_set_same hi, fun e he => ?_⟩
      exact (heffect.kept e (hhanded e he)).resolve_right (hlost hnone hj e he)
    · exact ⟨u, (List.getElem?_set_ne hsame).trans hu, hhanded⟩
  sorted := h.sorted
  bound := h.bound
  kept := h.kept
  left e j hj := (h.left e j hj).set hi heffect.stored
  waiters := h.waiters
  fired e he := by
    obtain ⟨j, hj⟩ := h.fired e he
    exact ⟨j, hj.set hi heffect.stored⟩

theorem Current.effect (h : Current s) (hi : s.writers[i]? = some w)
    (hsubset : ∀ e ∈ v.entries, e ∈ w.entries) :
    Current { s with writers := s.writers.set i v } := by
  intro j hj
  obtain ⟨u, hu, hbefore⟩ := h j hj
  by_cases hsame : i = j
  · subst hsame
    rw [hi] at hu
    cases hu
    exact ⟨v, getElem?_set_same hi, fun e he => hbefore e (hsubset e he)⟩
  · exact ⟨u, (List.getElem?_set_ne hsame).trans hu, hbefore⟩

/-- The Deferred is fired that the flush waits for, if it is. -/
theorem Inv.resolved (hbooks : Books s (if outcome.isSome then 1 else 0)) (hcurrent : Current s)
    (hflows : s.cache.cache ≠ [] → s.connected = true → s.task ≠ .none)
    (hattended : s.cache.cache ≠ [] → s.Attended)
    (hawaits : outcome.isSome → s.task = .inserting i)
    (hdone : outcome = some true →
      (∀ e ∈ s.fetched, s.Stored e i) ∧ s.cache.fetched = some s.cache.cache.length) :
    Inv (s.resolve outcome) := by
  cases outcome with
  | none => exact ⟨hbooks, hcurrent, hflows, hattended⟩
  | some ok =>
    have htask := hawaits rfl
    cases ok with
    | true =>
      obtain ⟨hstored, hall⟩ := hdone rfl
      exact .completed hbooks hcurrent htask hstored hall
    | false =>
      obtain ⟨n, hfetched, _⟩ := hbooks.locked i htask
      unfold resolve
      rw [flushError_eq hfetched]
      exact .errored hbooks (Or.inl rfl)

/-- One writer does something, and the journaler is told. -/
theorem Inv.effect (h : Inv s) (hi : s.writers[i]? = some w) (heffect : w.Effect v outcome lost)
    (hlost : outcome ≠ some false → s.task = .inserting i → ∀ e ∈ s.fetched, e ∉ lost)
    (hall : outcome = some true → s.task = .inserting i →
      s.cache.fetched = some s.cache.cache.length) :
    Inv ({ s with writers := s.writers.set i v }.resolve outcome) := by
  have hawaits : outcome.isSome → s.task = .inserting i := by
    intro hsome
    refine Decidable.byContradiction fun hnot => ?_
    have hawaited := h.books.awaited i w hi
    have heq := heffect.awaited
    rw [if_neg hnot, if_neg hnot] at hawaited
    rw [if_pos hsome] at heq
    omega
  refine .resolved (h.books.effect hi heffect ?_)
    (h.current.effect hi fun e he => heffect.sublist.subset he) h.flows h.attended hawaits ?_
  · intro hnone
    refine hlost ?_
    rw [hnone]
    exact fun h => (nomatch h)
  · intro hdone
    have htask := hawaits (by rw [hdone]; rfl)
    refine ⟨fun e he => ⟨v, getElem?_set_same hi, ?_⟩, hall hdone htask⟩
    -- the writer has what was handed to it, and has stored all it has
    obtain ⟨u, hu, hhanded⟩ := h.books.handed rfl i htask
    rw [hi] at hu
    cases hu
    have hne : outcome ≠ some false := by
      rw [hdone]
      exact fun h => (nomatch h)
    exact heffect.done hdone e
      ((heffect.kept e (hhanded e he)).resolve_right (hlost hne htask e he))

theorem Books.awaited_le (h : Books s 0) (hi : s.writers[i]? = some w) : w.awaited ≤ 1 := by
  have hawaited := h.awaited i w hi
  split at hawaited <;> omega

/-- A writer is closed. -/
theorem Inv.closeOne (h : Inv s) (i : Nat) (flush : Bool) :
    Inv (s.withWriter i (·.close flush)) := by
  unfold withWriter
  cases hi : s.writers[i]? with
  | none => exact h
  | some w =>
    obtain ⟨hinv, _⟩ := h.books.writer i w hi
    obtain ⟨heffect, hne⟩ := PostgresWriter.effect_close hinv (h.books.awaited_le hi) flush
    exact h.effect hi heffect (fun _ _ _ _ h => (nomatch h)) fun hdone => absurd hdone hne

theorem Inv.closeWriter (h : Inv s) (flushWriter : Bool) : Inv (s.closeWriter flushWriter) := by
  unfold Journaler.closeWriter
  split
  · exact h
  · exact h.closeOne _ _

/-! ### The steps -/

/-- Entries are fetched and handed to a writer. -/
theorem Inv.handed (h : Inv s) (htask : ∀ i, s.task ≠ .inserting i) (hwriter : s.writer = some i)
    (hsome : s.cache.cache ≠ []) :
    Inv ({ s with cache := ⟨s.cache.cache, some s.cache.cache.length⟩, task := .inserting i }.withWriter
      i (·.insertEntries s.cache.cache)) := by
  obtain ⟨w, hi, hbefore⟩ := h.current i hwriter
  obtain ⟨hinv, hsorted, hbound⟩ := h.books.writer i w hi
  have hawaited := h.books.awaited i w hi
  obtain ⟨hinv', hstored, hentries, hne, hawaits⟩ :=
    PostgresWriter.insertEntries_spec hinv hsome
  rw [if_neg (htask i), if_neg (htask i)] at hawaited
  rw [pending, if_neg (htask i)] at hbefore
  unfold withWriter
  rw [show ({ s with cache := ⟨s.cache.cache, some s.cache.cache.length⟩, task := .inserting i } :
    Journaler).writers[i]? = some w from hi]
  dsimp only
  generalize w.insertEntries s.cache.cache = next at hinv' hstored hentries hne hawaits ⊢
  have hkeep : ∀ {e j : Nat}, s.Stored e j → Stored { s with
      cache := ⟨s.cache.cache, some s.cache.cache.length⟩, task := .inserting i
      writers := s.writers.set i next.1 } e j :=
    fun hold => hold.set hi fun e he => hstored ▸ he
  refine Inv.resolved (i := i) ⟨?_, ?_, ?_, ?_, ?_, h.books.sorted, h.books.bound, h.books.kept, ?_,
    h.books.waiters, ?_⟩ ?_ (fun _ _ h => (nomatch h)) (fun _ => Or.inl fun h => (nomatch h))
    (fun _ => rfl) fun hdone => absurd hdone hne
  · intro j u hu
    rcases getElem?_set_cases hi hu with ⟨rfl, rfl⟩ | ⟨_, hu⟩
    · rw [hentries]
      refine ⟨hinv', List.pairwise_append.mpr ⟨hsorted, h.books.sorted, hbefore⟩, ?_⟩
      intro e he
      exact (List.mem_append.mp he).elim (hbound e) (h.books.bound e)
    · exact h.books.writer j u hu
  · intro j u hu
    rcases getElem?_set_cases hi hu with ⟨rfl, rfl⟩ | ⟨hne', hu⟩
    · simp only [if_true]
      omega
    · have hother := h.books.awaited j u hu
      rw [if_neg (htask j), if_neg (htask j)] at hother
      have hnot : FlushTask.inserting i ≠ .inserting j := by
        intro hsame
        cases hsame
        exact hne' rfl
      rw [if_neg hnot, if_neg hnot]
      exact hother
  · exact fun _ _ => ⟨_, rfl, Nat.le_refl _⟩
  · exact fun hnot => absurd rfl (hnot i)
  · intro _ j hj
    cases hj
    refine ⟨_, getElem?_set_same hi, fun e he => ?_⟩
    rw [hentries]
    exact List.mem_append_right _ (List.mem_of_mem_take he)
  · exact fun e j hj => hkeep (h.books.left e j hj)
  · intro e he
    obtain ⟨j, hj⟩ := h.books.fired e he
    exact ⟨j, hkeep hj⟩
  · -- nothing is left to hand over
    intro j hj
    rw [show s.writer = some j from hj] at hwriter
    cases hwriter
    refine ⟨_, getElem?_set_same hi, ?_⟩
    intro e _ x hx
    simp only [pending, if_true, Option.getD_some, List.drop_length] at hx
    cases hx

theorem Inv.flushBody (h : Inv s) (htask : ∀ i, s.task ≠ .inserting i) : Inv s.flushBody := by
  have hfetched := h.books.unlocked htask
  unfold Journaler.flushBody EntriesCache.fetch
  rw [hfetched]
  cases hcache : s.cache.cache with
  | nil =>
    have hsame : ({ s with cache := s.cache } : Journaler) = s := rfl
    simp only [List.isEmpty_nil, if_true]
    exact h.completed_empty htask hcache
  | cons entry entries =>
    simp only [List.isEmpty_cons, Bool.false_eq_true, if_false, List.take_length]
    cases hwriter : s.writer with
    | none =>
      simp only
      rw [flushError_eq (n := (entry :: entries).length) rfl]
      have herrored := Inv.errored h.books (Or.inr htask)
      unfold Journaler.errored at herrored ⊢
      simp only [hwriter] at herrored
      rw [← hcache]
      exact herrored
    | some i =>
      have hsome : s.cache.cache ≠ [] := by
        rw [hcache]
        exact List.cons_ne_nil _ _
      have hhanded := h.handed htask hwriter hsome
      simp only
      rw [← hcache, ← hwriter]
      exact hhanded

/-- A new writer is configured. -/
theorem Inv.configured (hbooks : Books s 0) (hdisconnected : s.connected = false)
    (hinv : w.Inv) (hentries : w.entries = []) (hawaited : w.awaited = 0) :
    Inv (s.configureWith w) := by
  -- the flush waits for an older one
  have hnew : s.task ≠ .inserting s.writers.length := by
    intro htask
    obtain ⟨u, hu, _⟩ := hbooks.handed rfl _ htask
    rw [List.getElem?_eq_none (Nat.le_refl _)] at hu
    cases hu
  have hget : ∀ {j : Nat} {u : PostgresWriter}, (s.writers ++ [w])[j]? = some u →
      s.writers[j]? = some u ∨ (j = s.writers.length ∧ u = w) := by
    intro j u hu
    rcases Nat.lt_or_ge j s.writers.length with hlt | hge
    · rw [List.getElem?_append_left hlt] at hu
      exact Or.inl hu
    · rw [List.getElem?_append_right hge] at hu
      obtain ⟨hlt, hsame⟩ := List.getElem?_eq_some_iff.mp hu
      rw [List.length_singleton] at hlt
      have hj : j = s.writers.length := by omega
      subst hj
      simp only [Nat.sub_self, List.getElem_cons_zero] at hsame
      exact Or.inr ⟨rfl, hsame.symm⟩
  have hold : ∀ {j : Nat} {u : PostgresWriter}, s.writers[j]? = some u →
      (s.writers ++ [w])[j]? = some u := by
    intro j u hu
    rw [List.getElem?_append_left (List.getElem?_eq_some_iff.mp hu).1]
    exact hu
  unfold configureWith
  rw [if_neg (by rw [hdisconnected]; exact fun h => (nomatch h))]
  refine .scheduled ⟨?_, ?_, hbooks.locked, hbooks.unlocked, ?_, hbooks.sorted, hbooks.bound,
    hbooks.kept, ?_, hbooks.waiters, ?_⟩ ?_ fun _ => Or.inl rfl
  · intro j u hu
    rcases hget hu with hu | ⟨_, rfl⟩
    · exact hbooks.writer j u hu
    · rw [hentries]
      exact ⟨hinv, .nil, fun _ h => (nomatch h)⟩
  · intro j u hu
    rcases hget hu with hu | ⟨rfl, rfl⟩
    · exact hbooks.awaited j u hu
    · rw [hawaited, if_neg hnew, if_neg hnew]
  · intro _ j hj
    obtain ⟨u, hu, hhanded⟩ := hbooks.handed rfl j hj
    exact ⟨u, hold hu, hhanded⟩
  · intro e j hj
    obtain ⟨u, hu, he⟩ := hbooks.left e j hj
    exact ⟨u, hold hu, he⟩
  · intro e he
    obtain ⟨j, u, hu, hstored⟩ := hbooks.fired e he
    exact ⟨j, u, hold hu, hstored⟩
  · intro j hj
    cases hj
    refine ⟨w, List.getElem?_concat_length, ?_⟩
    rw [hentries]
    exact fun _ h => (nomatch h)

/-- What has nothing to do with the entries. -/
theorem Inv.control (h : Inv s) (hcache : t.cache = s.cache) (htask : t.task = s.task)
    (hwaiters : t.waiters = s.waiters) (hwriters : t.writers = s.writers)
    (hinserted : t.inserted = s.inserted) (hleft : t.left = s.left) (hfired : t.fired = s.fired)
    (hwriter : ∀ i, t.writer = some i → s.writer = some i)
    (hconnected : t.connected = true → s.connected = true)
    (hattended : s.cache.cache ≠ [] → s.Attended → t.Attended) : Inv t where
  books := h.books.of_eq hcache (fun i => by rw [htask]) hwaiters hwriters hinserted hleft hfired
  current i hi := by
    unfold pending
    rw [hwriters, hcache, htask]
    exact h.current i (hwriter i hi)
  flows hsome hon := by
    rw [htask]
    exact h.flows (hcache ▸ hsome) (hconnected hon)
  attended hsome := hattended (hcache ▸ hsome) (h.attended (hcache ▸ hsome))

theorem Inv.setDisconnected (h : Inv s) : Inv s.setDisconnected :=
  h.control rfl rfl rfl rfl rfl rfl rfl (fun _ h => (nomatch h)) (fun h => (nomatch h))
    fun _ hattended => hattended

theorem Inv.useNextWriter (h : Inv s) (forceIndex : Option Nat) :
    Inv (s.useNextWriter forceIndex) := by
  unfold Journaler.useNextWriter
  split
  · exact h
  · refine Inv.closeWriter ?_ false
    exact h.control rfl rfl rfl rfl rfl rfl rfl (fun _ hi => hi) (fun hi => hi)
      fun _ _ => Or.inr (Or.inr (Nat.succ_pos _))

theorem Inv.insertEntries (h : Inv s) (n : Nat)
    (hsound : n = 0 ∨ s.connected = true ∨ s.Attended) : Inv (s.insertEntries n) := by
  have hbooks := h.books
  have hmem : ∀ {e : Nat}, e ∈ List.range' s.inserted n ↔ s.inserted ≤ e ∧ e < s.inserted + n :=
    List.mem_range'_1
  have hcache : (List.range' s.inserted n).foldl EntriesCache.append s.cache =
      { s.cache with cache := s.cache.cache ++ List.range' s.inserted n } :=
    CacheUse.foldl_append _ _
  -- the new entries come behind the old ones
  have hinserted : Inv ({ s with
      cache := { s.cache with cache := s.cache.cache ++ List.range' s.inserted n }
      inserted := s.inserted + n } : Journaler).scheduleFlush := by
    refine .scheduled ⟨?_, hbooks.awaited, ?_, hbooks.unlocked, ?_, ?_, ?_, ?_, hbooks.left, ?_,
      hbooks.fired⟩ ?_ ?_
    · intro i w hw
      obtain ⟨hinv, hsorted, hbound⟩ := hbooks.writer i w hw
      exact ⟨hinv, hsorted, fun e he => Nat.lt_add_right _ (hbound e he)⟩
    · intro i hi
      obtain ⟨m, hfetched, hle⟩ := hbooks.locked i hi
      refine ⟨m, hfetched, Nat.le_trans hle ?_⟩
      rw [List.length_append]
      exact Nat.le_add_right _ _
    · intro _ i hi
      obtain ⟨w, hw, hhanded⟩ := hbooks.handed rfl i hi
      obtain ⟨m, hfetched, hle⟩ := hbooks.locked i hi
      refine ⟨w, hw, fun e he => hhanded e ?_⟩
      unfold fetched at he ⊢
      simp only [hfetched, Option.getD_some] at he ⊢
      rw [List.take_append_of_le_length hle] at he
      exact he
    · refine List.pairwise_append.mpr ⟨hbooks.sorted, List.pairwise_lt_range', ?_⟩
      intro e he x hx
      exact Nat.lt_of_lt_of_le (hbooks.bound e he) (hmem.mp hx).1
    · intro e he
      rcases List.mem_append.mp he with he | he
      · exact Nat.lt_add_right _ (hbooks.bound e he)
      · exact (hmem.mp he).2
    · intro e he
      rcases Nat.lt_or_ge e s.inserted with hlt | hge
      · exact (hbooks.kept e hlt).imp (List.mem_append_left _) id
      · exact Or.inl (List.mem_append_right _ (hmem.mpr ⟨hge, he⟩))
    · exact fun es hes e he => List.mem_append_left _ (hbooks.waiters es hes e he)
    · intro i hi
      obtain ⟨w, hw, hbefore⟩ := h.current i hi
      obtain ⟨_, _, hbound⟩ := hbooks.writer i w hw
      refine ⟨w, hw, fun e he x hx => ?_⟩
      have hx' : x ∈ s.pending i ∨ x ∈ List.range' s.inserted n := by
        unfold pending at hx ⊢
        split at hx
        · rename_i hi
          obtain ⟨m, hfetched, hle⟩ := hbooks.locked i hi
          rw [if_pos hi]
          simp only [hfetched, Option.getD_some] at hx ⊢
          rw [List.drop_append_of_le_length hle] at hx
          exact List.mem_append.mp hx
        · rename_i hi
          rw [if_neg hi]
          exact List.mem_append.mp hx
      rcases hx' with hx' | hx'
      · exact hbefore e he x hx'
      · exact Nat.lt_of_lt_of_le (hbound e he) (hmem.mp hx').1
    · intro hsome
      rcases hsound with rfl | hconnected | hattended
      · refine Or.inr (h.attended ?_)
        simpa using hsome
      · exact Or.inl hconnected
      · exact Or.inr hattended
  unfold Journaler.insertEntries
  dsimp only
  rw [hcache]
  -- its waiters wait for entries that are in the cache
  have hkept : (({ s with
      cache := { s.cache with cache := s.cache.cache ++ List.range' s.inserted n }
      inserted := s.inserted + n } : Journaler).scheduleFlush).cache.cache =
        s.cache.cache ++ List.range' s.inserted n := by
    unfold scheduleFlush
    split <;> rfl
  generalize ({ s with
      cache := { s.cache with cache := s.cache.cache ++ List.range' s.inserted n }
      inserted := s.inserted + n } : Journaler).scheduleFlush = t at hinserted hkept ⊢
  have ht := hinserted.books
  refine ⟨⟨ht.writer, ht.awaited, ht.locked, ht.unlocked, ht.handed, ht.sorted, ht.bound, ht.kept,
    ht.left, ?_, ht.fired⟩, hinserted.current, hinserted.flows, hinserted.attended⟩
  intro es hes e he
  rcases List.mem_append.mp hes with hes | hes
  · exact ht.waiters es hes e he
  · rw [List.mem_singleton.mp hes] at he
    show e ∈ t.cache.cache
    rw [hkept]
    exact List.mem_append_right _ he

theorem Inv.step {e : Event} (h : Inv s) (hsound : s.Sound e) (hstep : s.step e = some t) :
    Inv t := by
  cases e with
  | insertEntries n =>
    cases hstep
    exact h.insertEntries n hsound
  | scheduleFlush =>
    cases hstep
    exact .scheduled h.books h.current fun hsome => Or.inr (h.attended hsome)
  | flush =>
    simp only [Journaler.step, Option.ite_none_right_eq_some, Option.some.injEq] at hstep
    obtain ⟨htask, rfl⟩ := hstep
    have hnot : ∀ i, s.task ≠ .inserting i := by
      rw [htask]
      exact fun _ h => (nomatch h)
    unfold Journaler.flush
    split
    · exact h.flushBody hnot
    · have hwaiting : ∀ i, FlushTask.waiting = .inserting i ↔ s.task = .inserting i :=
        fun i => iff_of_false (fun h => (nomatch h)) (hnot i)
      refine ⟨h.books.of_eq rfl hwaiting rfl rfl rfl rfl rfl, ?_, fun _ _ h => (nomatch h),
        fun _ => Or.inl fun h => (nomatch h)⟩
      intro i hi
      obtain ⟨w, hw, hbefore⟩ := h.current i hi
      rw [pending, if_neg (hnot i)] at hbefore
      exact ⟨w, hw, hbefore⟩
  | notify =>
    simp only [Journaler.step, Option.ite_none_left_eq_some, Option.some.injEq] at hstep
    obtain ⟨_, rfl⟩ := hstep
    have hcounted : Inv { s with notifying := s.notifying - 1 } :=
      h.control rfl rfl rfl rfl rfl rfl rfl (fun _ hi => hi) (fun hi => hi) fun _ hi => hi
    unfold Journaler.notify
    split
    · rename_i hwaiting
      refine hcounted.flushBody ?_
      rw [hwaiting]
      exact fun _ h => (nomatch h)
    · exact hcounted
  | configureWith established =>
    cases hstep
    cases hconnected : s.connected with
    | true =>
      unfold Journaler.configureWith
      rw [if_pos hconnected]
      exact h
    | false =>
      cases established with
      | false => exact .configured h.books hconnected PostgresWriter.inv_initiated rfl rfl
      | true =>
        have heffect := PostgresWriter.effect_established PostgresWriter.inv_initiated rfl
        exact .configured h.books hconnected heffect.inv rfl rfl
  | setConnectionStrings n =>
    cases hstep
    have hadded : Inv { s with possibleTargets := s.possibleTargets + n } :=
      h.control rfl rfl rfl rfl rfl rfl rfl (fun _ hi => hi) (fun hi => hi) fun _ hi => hi
    unfold Journaler.setConnectionStrings
    dsimp only
    split
    · exact hadded.useNextWriter none
    · exact hadded
  | close flushWriter =>
    cases hstep
    refine Inv.closeWriter ?_ flushWriter
    exact h.control rfl rfl rfl rfl rfl rfl rfl (fun _ hi => hi) (fun hi => hi) fun _ hi => hi
  | setDisconnected =>
    simp only [Journaler.step, Option.ite_none_left_eq_some, Option.some.injEq] at hstep
    obtain ⟨_, rfl⟩ := hstep
    refine Inv.setDisconnected ?_
    exact h.control rfl rfl rfl rfl rfl rfl rfl (fun _ hi => hi) (fun hi => hi) fun _ hi => hi
  | useNextWriter forceIndex =>
    cases hstep
    exact h.useNextWriter forceIndex
  | reconnectToPrimaryWriter =>
    cases hstep
    unfold Journaler.reconnectToPrimaryWriter
    split
    · exact h
    · split
      · exact h.setDisconnected.useNextWriter _
      · exact h.useNextWriter _
  | switchWriter =>
    simp only [Journaler.step, Option.ite_none_left_eq_some, Option.some.injEq] at hstep
    obtain ⟨_, rfl⟩ := hstep
    unfold Journaler.switchWriter
    have hbooks : Books ({ s with switching := s.switching - 1 } : Journaler).setDisconnected 0 :=
      h.books.of_eq rfl (fun _ => Iff.rfl) rfl rfl rfl rfl rfl
    exact .configured hbooks rfl PostgresWriter.inv_initiated rfl rfl
  | dueUseNextWriter =>
    simp only [Journaler.step, Option.ite_none_left_eq_some, Option.some.injEq] at hstep
    obtain ⟨_, rfl⟩ := hstep
    by_cases htargets : s.possibleTargets = 0
    · unfold Journaler.useNextWriter
      rw [if_pos htargets]
      refine h.control rfl rfl rfl rfl rfl rfl rfl (fun _ hi => hi) (fun hi => hi) ?_
      intro hsome _
      exact (hsound.resolve_left (fun hnot => hnot htargets)).resolve_left hsome
    · unfold Journaler.useNextWriter
      rw [if_neg htargets]
      refine Inv.closeWriter ?_ false
      exact h.control rfl rfl rfl rfl rfl rfl rfl (fun _ hi => hi) (fun hi => hi)
        fun _ _ => Or.inr (Or.inr (Nat.succ_pos _))
  | dueClose =>
    cases hdue : s.dueCloses with
    | nil => simp only [Journaler.step, hdue, reduceCtorEq] at hstep
    | cons i dueCloses =>
      simp only [Journaler.step, hdue, Option.some.injEq] at hstep
      subst hstep
      refine Inv.closeOne ?_ i false
      exact h.control rfl rfl rfl rfl rfl rfl rfl (fun _ hi => hi) (fun hi => hi) fun _ hi => hi
  | writer i e =>
    cases hi : s.writers[i]? with
    | none => simp only [Journaler.step, hi, reduceCtorEq] at hstep
    | some w =>
      simp only [Journaler.step, hi, Option.map_eq_some_iff] at hstep
      obtain ⟨⟨v, outcome⟩, hv, rfl⟩ := hstep
      obtain ⟨hinv, _⟩ := h.books.writer i w hi
      refine h.effect hi (PostgresWriter.step_effect hinv (h.books.awaited_le hi) hv) ?_ ?_
      · intro hnot htask x hx hlost
        have hown := PostgresWriter.lost_own hv hnot (List.ne_nil_of_mem hlost)
        exact (hsound w hi htask).2 hown x hx hlost
      · intro hdone htask
        subst hdone
        exact (hsound w hi htask).1 (PostgresWriter.step_completes hinv hv)

/-- In every run whose steps are sound no entry is lost. -/
theorem right_of_sound (events : List Event) (s : Journaler)
    (h : Run (Guarded Sound (Defined Journaler.step)) .new events s) : s.Right := by
  have hkeep : ∀ (s : Journaler) e t, s.Inv → Guarded Sound (Defined Journaler.step) s e t →
      t.Inv := fun _ _ _ hinv hstep => hinv.step hstep.1 hstep.2
  exact (Run.preserves hkeep h Inv.start).right

/-- The inserts of two entries fail, and the next writer stores them. -/
theorem right_switched :
    let events : List Event :=
      [.setConnectionStrings 2, .switchWriter, .writer 0 .connectionEstablished, .insertEntries 1,
        .insertEntries 1, .flush, .writer 0 .notify, .writer 0 .performInserts,
        .writer 0 (.inserted false), .dueClose, .dueUseNextWriter, .switchWriter, .flush,
        .writer 1 .connectionEstablished, .writer 1 .notify, .writer 1 .performInserts,
        .writer 1 (.inserted true), .writer 1 (.committed true), .writer 1 .performInserts,
        .writer 1 (.committed true)]
    ∃ s, events.foldlM Journaler.step .new = some s ∧ s.Right ∧
      s.writers.map PostgresWriter.stored = [[], [0, 1]] ∧ s.fired = [0, 1] ∧
      s.left = [(0, 1), (1, 1)] := by
  intro events
  exact ⟨_, rfl, right_of_sound events _ (run_checked rfl), rfl, rfl, rfl⟩

theorem not_stored {e : Nat} {stored : List (List Nat)}
    (hwriters : s.writers.map PostgresWriter.stored = stored) (hnot : ∀ es ∈ stored, e ∉ es) :
    ∀ w ∈ s.writers, e ∉ w.stored := by
  intro w hw
  refine hnot _ ?_
  rw [← hwriters]
  exact List.mem_map_of_mem hw

/-- The entry 1 comes while the entry 0 is on its way to the database. When the entry 0 is stored
the waiters of both are fired. And where the COMMIT fails of the flush that a writer starts when it
is connected, the flush of the journaler that is next finds nothing to store, and succeeds. -/
theorem fired_or_left_early :
    (∃ events s, Run (Defined Journaler.step) .new events s ∧ 1 ∈ s.fired ∧
      (∀ w ∈ s.writers, 1 ∉ w.stored) ∧ ¬ s.Right) ∧
    ∃ events s, Run (Defined Journaler.step) .new events s ∧ (0, 0) ∈ s.left ∧
      (∀ w ∈ s.writers, 0 ∉ w.stored) ∧ ¬ s.Right := by
  constructor
  · let events : List Event :=
      [.configureWith true, .writer 0 .notify, .insertEntries 1, .flush, .writer 0 .performInserts,
        .writer 0 (.inserted true), .insertEntries 1, .writer 0 (.committed true)]
    have hend : ((events.foldlM Journaler.step .new).map fun s =>
        (s.fired, s.writers.map PostgresWriter.stored)) = some ([0, 1], [[0]]) := by decide
    obtain ⟨s, hs, heq⟩ := Option.map_eq_some_iff.mp hend
    obtain ⟨hfired, hwriters⟩ := Prod.mk.inj heq
    have hmem : 1 ∈ s.fired := by
      rw [hfired]
      decide
    have hnot := not_stored (e := 1) hwriters (by decide)
    refine ⟨events, s, run_defined hs, hmem, hnot, fun hright => ?_⟩
    obtain ⟨i, w, hw, hstored⟩ := hright.fired 1 hmem
    exact hnot w (List.mem_of_getElem? hw) hstored
  · let events : List Event :=
      [.configureWith false, .insertEntries 1, .flush, .writer 0 .connectionEstablished,
        .writer 0 .notify, .writer 0 .performInserts, .writer 0 (.inserted true),
        .writer 0 (.committed false), .writer 0 .performInserts, .writer 0 (.committed true)]
    have hend : ((events.foldlM Journaler.step .new).map fun s =>
        (s.left, s.writers.map PostgresWriter.stored)) = some ([(0, 0)], [[]]) := by decide
    obtain ⟨s, hs, heq⟩ := Option.map_eq_some_iff.mp hend
    obtain ⟨hleft, hwriters⟩ := Prod.mk.inj heq
    have hmem : (0, 0) ∈ s.left := by
      rw [hleft]
      decide
    have hnot := not_stored (e := 0) hwriters (by decide)
    refine ⟨events, s, run_defined hs, hmem, hnot, fun hright => ?_⟩
    obtain ⟨w, hw, hstored⟩ := hright.left 0 0 hmem
    exact hnot w (List.mem_of_getElem? hw) hstored

end Journaler
end Feat.Agencies.Journaling
