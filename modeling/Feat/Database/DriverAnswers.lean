import Mathlib.Data.List.Perm.Basic
import Feat.Lib.Run
import Feat.Database.Driver

/- Every caller of a cached request gets an answer.

   An entry waits exactly as long as one request for it is under way, and every
   caller is in one place: answered, waiting on such an entry, or about to be
   answered by the code on the stack. So each is answered once, with what the
   request it started or joined came to, and as soon as that has completed
   (`every_caller_answered`).

   This takes three things that the code does not see to (`Prompt`). A request that
   completes before the HTTP method returns leaves the entry ready: after a failure
   or a response without an entity tag the entry is invalid, and the Deferred that
   `wait` then hands out is never fired (`failure_at_once_strands`). The parser does
   not raise, which would leave the entry waiting with no request under way. And a
   304 answers a conditional request only. -/
namespace Feat.Database.Driver
open Hash Transition

namespace CouchDatabase

/-! ## Where the callers are -/

/-- The callers a frame is about to answer. -/
def Frame.callers : Frame → List Nat
  | .user _ => []
  | .fire _ waiting => waiting
  | .wait _ caller => [caller]

/-- The frame is about to answer callers of an entry. -/
def Frame.fires (entry : Nat) : Frame → Bool
  | .fire i waiting => i = entry && !waiting.isEmpty
  | _ => false

/-- How often a caller is answered, waiting, or about to be answered. -/
def places (s : CouchDatabase) (caller : Nat) : Nat :=
  (s.answers.map Answer.caller).count caller + (s.heap.flatMap CacheEntry.waiting).count caller +
    (s.stack.flatMap Frame.callers).count caller

/-- How often a request is under way or completed. -/
def occurrences (s : CouchDatabase) (flight : Nat) : Nat :=
  (s.flights.map Flight.no).count flight + (s.completed.map Prod.fst).count flight

/-- What the request of a caller came to. -/
def ResultOf (s : CouchDatabase) (caller : Nat) (result : Option Outcome) : Prop :=
  ∃ c, s.callers[caller]? = some c ∧ (c.flight, some result) ∈ s.completed

/-- Every caller is answered at most once, with what the request it started, joined or was given
the cached response of came to; when no code is running, one that is not answered yet waits for a
request under way; and no entry waits without one. -/
structure AllAnswered (s : CouchDatabase) : Prop where
  once : (s.answers.map Answer.caller).Nodup
  right : ∀ a ∈ s.answers, s.ResultOf a.caller a.result
  prompt : s.stack = [] → ∀ caller < s.callers.length, caller ∈ s.answers.map Answer.caller ∨
    ∃ c, s.callers[caller]? = some c ∧ ∃ f ∈ s.flights, f.no = c.flight
  underWay : ∀ f ∈ s.flights, f.no ∉ s.completed.map Prod.fst
  waiting : ∀ (i : Nat) e, s.heap[i]? = some e → e.state = .waiting → ∃ f ∈ s.flights, f.entry = i

/-! ## The condition -/

/-- What an entry can take: its parser does not raise, and a 304 answers a conditional request. -/
def Accepts (e : CacheEntry) (ifNoneMatch : Option String) : Arrival → Prop
  | .failed _ => True
  | .response r => r.status = 304 ∧ ifNoneMatch.isSome ∨
      r.status ≠ 304 ∧ (applyParsers r e.parser e.tag).isSome

/-- A value, not a failure. -/
def Outcome.isValue : Outcome → Bool
  | .value _ => true
  | .failure _ => false

/-- A response that leaves the entry ready: a 304 to a conditional request, or one with an entity
tag that parses. -/
def EndsReady (e : CacheEntry) (ifNoneMatch : Option String) : Arrival → Prop
  | .failed _ => False
  | .response r => r.status = 304 ∧ ifNoneMatch.isSome ∨
      r.status ≠ 304 ∧ r.entityTag.isSome ∧ (applyParsers r e.parser e.tag).any Outcome.isValue

instance (e : CacheEntry) (ifNoneMatch : Option String) :
    (arrival : Arrival) → Decidable (Accepts e ifNoneMatch arrival)
  | .failed _ => inferInstanceAs (Decidable True)
  | .response _ => inferInstanceAs (Decidable (_ ∨ _))

instance (e : CacheEntry) (ifNoneMatch : Option String) :
    (arrival : Arrival) → Decidable (EndsReady e ifNoneMatch arrival)
  | .failed _ => inferInstanceAs (Decidable False)
  | .response _ => inferInstanceAs (Decidable (_ ∨ _))

section Condition
variable {D : Type} [LinearOrder D] (settings : Settings D)

/-- When the request of a call completes at once it leaves its entry ready, and the entry is not
one whose callers are just being answered. -/
def SettlesAtOnce (s : CouchDatabase) (ask : Ask) : Prop :=
  ∀ arrival ∈ ask.reply, ∀ p ∈ s.sends settings ask.call,
    EndsReady p.2.1 p.2.2 arrival ∧ ∀ frame ∈ s.stack, Frame.fires p.1 frame = false

instance (s : CouchDatabase) (ask : Ask) : Decidable (s.SettlesAtOnce settings ask) :=
  inferInstanceAs (Decidable (∀ arrival ∈ ask.reply, ∀ p ∈ s.sends settings ask.call,
    EndsReady p.2.1 p.2.2 arrival ∧ ∀ frame ∈ s.stack, Frame.fires p.1 frame = false))

/-- The condition on a step: what completes at once settles, and what completes later is something
the entry can take. -/
def Prompt (s : CouchDatabase) (event : Event) : Prop :=
  (∀ p ∈ s.asks event, p.1.SettlesAtOnce settings p.2) ∧
  ∀ p ∈ s.arrives event, Accepts p.2.1 p.1.ifNoneMatch p.2.2

instance (s : CouchDatabase) (event : Event) : Decidable (s.Prompt settings event) :=
  inferInstanceAs (Decidable (_ ∧ _))

end Condition

/-! ## The invariant -/

/-- What a response that was cached leaves. -/
def Filled (e : CacheEntry) : Prop := e.etag.isSome ∧ e.size.isSome ∧ e.cachedAt.isSome

/-- The invariant: an entry waits as long as one request for it is under way, and only then has
it callers waiting. -/
structure AnswerInv (s : CouchDatabase) : Prop where
  placed : ∀ w, s.places w = if w < s.callers.length then 1 else 0
  numbered : ∀ n, s.occurrences n = if n < s.sent then 1 else 0
  cached : ∀ ident i, s.cache.lookup ident = some i → i < s.heap.length
  flying : ∀ f ∈ s.flights, ∃ e, s.heap[f.entry]? = some e ∧ e.state = .waiting ∧
    e.flight = f.no ∧ (f.ifNoneMatch.isSome → Filled e)
  waiting : ∀ (i : Nat) e, s.heap[i]? = some e → e.state = .waiting → ∃ f ∈ s.flights, f.entry = i
  idle : ∀ (i : Nat) e, s.heap[i]? = some e → e.state ≠ .waiting → e.waiting = []
  ready : ∀ (i : Nat) e, s.heap[i]? = some e → e.state = .ready →
    Filled e ∧ (e.flight, some e.parsed) ∈ s.completed
  joined : ∀ (i : Nat) e, s.heap[i]? = some e → ∀ w ∈ e.waiting,
    ∃ c, s.callers[w]? = some c ∧ c.flight = e.flight
  firing : ∀ i ws, Frame.fire i ws ∈ s.stack → ∀ w ∈ ws,
    ∃ e, s.heap[i]? = some e ∧ s.ResultOf w e.parsed
  returning : ∀ i w rest, s.stack = .wait i w :: rest →
    ∃ e, s.heap[i]? = some e ∧ e.state = .ready ∧ s.ResultOf w e.parsed
  onTop : ∀ i w, Frame.wait i w ∉ s.stack.tail
  answered : ∀ a ∈ s.answers, s.ResultOf a.caller a.result

/-- The invariant says all there is to say. -/
theorem AnswerInv.allAnswered {s : CouchDatabase} (h : AnswerInv s) : AllAnswered s := by
  refine ⟨?_, h.answered, ?_, ?_, h.waiting⟩
  · rw [List.nodup_iff_count_le_one]
    intro w
    have hplaced := h.placed w
    unfold places at hplaced
    split at hplaced <;> omega
  · intro hstack w hw
    have hplaced := h.placed w
    rw [places, hstack, if_pos hw] at hplaced
    by_cases hanswered : w ∈ s.answers.map Answer.caller
    · exact Or.inl hanswered
    · right
      have hcount := List.count_eq_zero_of_not_mem hanswered
      have hin : w ∈ s.heap.flatMap CacheEntry.waiting := by
        rw [← List.count_pos_iff]
        simp only [List.flatMap_nil, List.count_nil] at hplaced
        omega
      obtain ⟨e, he, hw⟩ := List.mem_flatMap.mp hin
      obtain ⟨i, hi⟩ := List.mem_iff_getElem?.mp he
      obtain ⟨c, hc, hflight⟩ := h.joined i e hi w hw
      have hstate : e.state = .waiting := by
        by_contra hne
        rw [h.idle i e hi hne] at hw
        cases hw
      obtain ⟨f, hf, hentry⟩ := h.waiting i e hi hstate
      obtain ⟨e', he', _, hno, _⟩ := h.flying f hf
      rw [hentry, hi] at he'
      cases he'
      exact ⟨c, hc, f, hf, by rw [hflight, hno]⟩
  · intro f hf hin
    have hnumbered := h.numbered f.no
    have hpos : 0 < (s.flights.map Flight.no).count f.no :=
      List.count_pos_iff.mpr (List.mem_map_of_mem hf)
    have hpos' : 0 < (s.completed.map Prod.fst).count f.no := List.count_pos_iff.mpr hin
    unfold occurrences at hnumbered
    split at hnumbered <;> omega

/-! ## Changes of one entry -/

section Heap
variable {heap : List CacheEntry} {i : Nat} {e e' : CacheEntry}

theorem getElem?_set_entry (hi : heap[i]? = some e) (j : Nat) :
    (heap.set i e')[j]? = if i = j then some e' else heap[j]? := by
  have hlt : i < heap.length := (List.getElem?_eq_some_iff.mp hi).1
  rw [List.getElem?_set]
  simp [hlt]

theorem forall_set_entry {P : Nat → CacheEntry → Prop} (hi : heap[i]? = some e) (he : P i e')
    (hrest : ∀ j d, i ≠ j → heap[j]? = some d → P j d) :
    ∀ (j : Nat) d, (heap.set i e')[j]? = some d → P j d := by
  intro j d hd
  rw [getElem?_set_entry hi] at hd
  split at hd
  · rename_i hij
    cases hd
    exact hij ▸ he
  · rename_i hij
    exact hrest j d hij hd

theorem exists_set_entry {Q : CacheEntry → Prop} (hi : heap[i]? = some e) {j : Nat}
    (hQ : i = j → Q e → Q e') (h : ∃ d, heap[j]? = some d ∧ Q d) :
    ∃ d, (heap.set i e')[j]? = some d ∧ Q d := by
  obtain ⟨d, hd, hq⟩ := h
  rw [getElem?_set_entry hi]
  split
  · rename_i hij
    rw [← hij, hi] at hd
    cases hd
    exact ⟨e', rfl, hQ hij hq⟩
  · exact ⟨d, hd, hq⟩

theorem count_set_entry (hi : heap[i]? = some e) (e' : CacheEntry) (w : Nat) :
    e.waiting.count w + ((heap.set i e').flatMap CacheEntry.waiting).count w =
      e'.waiting.count w + (heap.flatMap CacheEntry.waiting).count w := by
  obtain ⟨hlt, rfl⟩ := List.getElem?_eq_some_iff.mp hi
  have hset := ((List.set_perm_cons_eraseIdx hlt e').flatMap_right CacheEntry.waiting).count_eq w
  have hget := ((List.getElem_cons_eraseIdx_perm hlt).flatMap_right CacheEntry.waiting).count_eq w
  simp only [List.flatMap_cons, List.count_append] at hset hget
  omega

end Heap

/-! ## Steps -/

section Steps
variable {D : Type} [LinearOrder D] {settings : Settings D} {s t : CouchDatabase}

/-- A new caller does not change what the others got. -/
theorem ResultOf.addCaller {w : Nat} {result : Option Outcome} (h : s.ResultOf w result) {c : Caller}
    (hcallers : t.callers = s.callers ++ [c]) (hcompleted : t.completed = s.completed) :
    t.ResultOf w result := by
  obtain ⟨d, hd, hin⟩ := h
  refine ⟨d, ?_, hcompleted ▸ hin⟩
  rw [hcallers, List.getElem?_append_left (List.getElem?_eq_some_iff.mp hd).1]
  exact hd

/-- Nor does a request that completes. -/
theorem ResultOf.completing {w : Nat} {result : Option Outcome} (h : s.ResultOf w result)
    {p : Nat × Option (Option Outcome)} (hcallers : t.callers = s.callers)
    (hcompleted : t.completed = p :: s.completed) : t.ResultOf w result := by
  obtain ⟨d, hd, hin⟩ := h
  exact ⟨d, hcallers ▸ hd, hcompleted ▸ List.mem_cons_of_mem p hin⟩

/-- A step that concerns the clock, the cache or the stack only. -/
theorem AnswerInv.quiet (h : AnswerInv s) (now operation : Nat) (cache : Dict String Nat)
    (hcache : ∀ ident i, cache.lookup ident = some i → i < s.heap.length) {stack : List Frame}
    (hcallers : stack.flatMap Frame.callers = s.stack.flatMap Frame.callers)
    (hfires : ∀ i ws, Frame.fire i ws ∈ stack → ws ≠ [] → Frame.fire i ws ∈ s.stack)
    (hwaits : (∀ i w, Frame.wait i w ∉ stack) ∨ stack = s.stack) :
    AnswerInv { s with now := now, operation := operation, cache := cache, stack := stack } := by
  refine ⟨?_, h.numbered, hcache, h.flying, h.waiting, h.idle, h.ready, h.joined, ?_, ?_, ?_,
    h.answered⟩
  · intro w
    have hplaced := h.placed w
    rw [places, ← hcallers] at hplaced
    exact hplaced
  · intro i ws hin w hw
    exact h.firing i ws (hfires i ws hin (List.ne_nil_of_mem hw)) w hw
  · intro i w rest hstack
    rcases hwaits with hno | heq
    · exact absurd (by rw [show stack = _ from hstack]; exact List.mem_cons_self) (hno i w)
    · exact h.returning i w rest (heq ▸ hstack)
  · intro i w hin
    rcases hwaits with hno | heq
    · exact hno i w (List.mem_of_mem_tail hin)
    · exact h.onTop i w (heq ▸ hin)

/-- An entry is made, with nobody waiting and nothing under way for it yet. -/
theorem AnswerInv.make (h : AnswerInv s) {e : CacheEntry} (hwaiting : e.waiting = [])
    (hstate : e.state = .invalid) (ident : String) :
    AnswerInv { s with heap := s.heap ++ [e], cache := s.cache.insert ident s.heap.length } := by
  have hold : ∀ (i : Nat) d, s.heap[i]? = some d → (s.heap ++ [e])[i]? = some d := by
    intro i d hd
    rw [List.getElem?_append_left (List.getElem?_eq_some_iff.mp hd).1]
    exact hd
  have hcases : ∀ (i : Nat) d, (s.heap ++ [e])[i]? = some d → s.heap[i]? = some d ∨ d = e := by
    intro i d hd
    rw [List.getElem?_append] at hd
    split at hd
    · exact Or.inl hd
    · exact Or.inr (List.mem_singleton.mp (List.mem_of_getElem? hd))
  refine ⟨?_, h.numbered, ?_, ?_, ?_, ?_, ?_, ?_, ?_, ?_, h.onTop, h.answered⟩
  · intro w
    have hplaced := h.placed w
    simp only [places, List.flatMap_append, List.flatMap_singleton, hwaiting, List.append_nil]
      at hplaced ⊢
    exact hplaced
  · intro ident' i hi
    simp only [List.length_append, List.length_singleton]
    by_cases hident : ident' = ident
    · rw [hident, AList.lookup_insert] at hi
      cases hi
      omega
    · rw [AList.lookup_insert_ne hident] at hi
      have := h.cached ident' i hi
      omega
  · intro f hf
    obtain ⟨d, hd, hrest⟩ := h.flying f hf
    exact ⟨d, hold _ d hd, hrest⟩
  · intro i d hd hwait
    rcases hcases i d hd with hd | rfl
    · exact h.waiting i d hd hwait
    · rw [hstate] at hwait
      cases hwait
  · intro i d hd hne
    rcases hcases i d hd with hd | rfl
    · exact h.idle i d hd hne
    · exact hwaiting
  · intro i d hd hready
    rcases hcases i d hd with hd | rfl
    · exact h.ready i d hd hready
    · rw [hstate] at hready
      cases hready
  · intro i d hd w hw
    rcases hcases i d hd with hd | rfl
    · exact h.joined i d hd w hw
    · rw [hwaiting] at hw
      cases hw
  · intro i ws hin w hw
    obtain ⟨d, hd, hresult⟩ := h.firing i ws hin w hw
    exact ⟨d, hold i d hd, hresult⟩
  · intro i w rest hstack
    obtain ⟨d, hd, hrest⟩ := h.returning i w rest hstack
    exact ⟨d, hold i d hd, hrest⟩

/-- A request is sent for an entry that has none under way. -/
theorem AnswerInv.begin (h : AnswerInv s) {entry : Nat} {e : CacheEntry}
    (hentry : s.heap[entry]? = some e) (hstate : e.state ≠ .waiting)
    (hwaits : ∀ i w, Frame.wait i w ∉ s.stack) (request : Request) {ifNoneMatch : Option String}
    (hfilled : ifNoneMatch.isSome → Filled e) :
    AnswerInv { s with
      heap := s.heap.set entry { e with state := .waiting, flight := s.sent, sentAt := s.now }
      flights := s.flights ++ [⟨s.sent, entry, request, ifNoneMatch, s.now⟩]
      sent := s.sent + 1 } := by
  have hempty := h.idle entry e hentry hstate
  refine ⟨?_, ?_, ?_, ?_, ?_, ?_, ?_, ?_, ?_, ?_, h.onTop, h.answered⟩
  · intro w
    have hplaced := h.placed w
    have hcount := count_set_entry hentry
      { e with state := .waiting, flight := s.sent, sentAt := s.now } w
    simp only [places] at hplaced hcount ⊢
    omega
  · intro n
    have hnumbered := h.numbered n
    simp only [occurrences, List.map_append, List.map_singleton, List.count_append,
      List.count_singleton, beq_iff_eq] at hnumbered ⊢
    split <;> split at hnumbered <;> split <;> omega
  · intro ident i hi
    rw [List.length_set]
    exact h.cached ident i hi
  · intro f hf
    rcases List.mem_append.mp hf with hf | hf
    · obtain ⟨d, hd, hwait, hrest⟩ := h.flying f hf
      have hne : entry ≠ f.entry := by
        intro he
        rw [← he, hentry] at hd
        cases hd
        exact hstate hwait
      refine ⟨d, ?_, hwait, hrest⟩
      rw [getElem?_set_entry hentry, if_neg hne]
      exact hd
    · cases List.mem_singleton.mp hf
      exact ⟨{ e with state := .waiting, flight := s.sent, sentAt := s.now },
        by rw [getElem?_set_entry hentry, if_pos rfl], rfl, rfl, hfilled⟩
  · refine forall_set_entry hentry ?_ ?_
    · exact fun _ => ⟨_, List.mem_append_right _ List.mem_cons_self, rfl⟩
    · intro j d _ hd hwait
      obtain ⟨f, hf, hfe⟩ := h.waiting j d hd hwait
      exact ⟨f, List.mem_append_left _ hf, hfe⟩
  · exact forall_set_entry hentry (fun hne => absurd rfl hne) (fun j d _ hd => h.idle j d hd)
  · exact forall_set_entry hentry (fun hready => by cases hready) (fun j d _ hd => h.ready j d hd)
  · refine forall_set_entry hentry ?_ (fun j d _ hd => h.joined j d hd)
    intro w hw
    rw [show CacheEntry.waiting _ = e.waiting from rfl, hempty] at hw
    cases hw
  · intro i ws hin w hw
    exact exists_set_entry hentry (fun _ hresult => hresult) (h.firing i ws hin w hw)
  · intro i w rest hstack
    exact absurd (by rw [show s.stack = _ from hstack]; exact List.mem_cons_self) (hwaits i w)

/-- A caller joins those that wait for the request under way. -/
theorem AnswerInv.join (h : AnswerInv s) {entry : Nat} {e : CacheEntry}
    (hentry : s.heap[entry]? = some e) (hstate : e.state = .waiting)
    (hwaits : ∀ i w, Frame.wait i w ∉ s.stack) (c : Call) (since : Nat) :
    AnswerInv ((s.addCaller c e.flight since).wait entry s.callers.length) := by
  have hwait : (s.addCaller c e.flight since).wait entry s.callers.length =
      { s with
        callers := s.callers ++ [⟨c, e.flight, since⟩]
        heap := s.heap.set entry { e with
          numAccessed := e.numAccessed + 1, waiting := e.waiting ++ [s.callers.length] } } := by
    simp [CouchDatabase.wait, addCaller, setEntry, hentry, hstate]
  have hcallers : ∀ (w : Nat) d, s.callers[w]? = some d →
      (s.callers ++ [⟨c, e.flight, since⟩])[w]? = some d := by
    intro w d hd
    rw [List.getElem?_append_left (List.getElem?_eq_some_iff.mp hd).1]
    exact hd
  rw [hwait]
  refine ⟨?_, h.numbered, ?_, ?_, ?_, ?_, ?_, ?_, ?_, ?_, h.onTop, ?_⟩
  · intro w
    have hplaced := h.placed w
    have hcount := count_set_entry hentry { e with
      numAccessed := e.numAccessed + 1, waiting := e.waiting ++ [s.callers.length] } w
    simp only [places, List.count_append, List.count_singleton, beq_iff_eq, List.length_append,
      List.length_singleton] at hplaced hcount ⊢
    split at hplaced <;> split at hcount <;> split <;> omega
  · intro ident i hi
    rw [List.length_set]
    exact h.cached ident i hi
  · intro f hf
    exact exists_set_entry hentry (fun _ hd => hd) (h.flying f hf)
  · exact forall_set_entry hentry (fun hwaiting => h.waiting entry e hentry hwaiting)
      (fun j d _ hd => h.waiting j d hd)
  · exact forall_set_entry hentry (fun hne => absurd hstate hne) (fun j d _ hd => h.idle j d hd)
  · exact forall_set_entry hentry (fun hready => by rw [hstate] at hready; cases hready)
      (fun j d _ hd => h.ready j d hd)
  · refine forall_set_entry hentry ?_ ?_
    · intro w hw
      rcases List.mem_append.mp hw with hw | hw
      · obtain ⟨d, hd, hflight⟩ := h.joined entry e hentry w hw
        exact ⟨d, hcallers w d hd, hflight⟩
      · cases List.mem_singleton.mp hw
        exact ⟨⟨c, e.flight, since⟩, List.getElem?_concat_length, rfl⟩
    · intro j d _ hd w hw
      obtain ⟨d', hd', hflight⟩ := h.joined j d hd w hw
      exact ⟨d', hcallers w d' hd', hflight⟩
  · intro i ws hin w hw
    refine exists_set_entry hentry (fun _ hresult => hresult) ?_
    obtain ⟨d, hd, hresult⟩ := h.firing i ws hin w hw
    exact ⟨d, hd, hresult.addCaller rfl rfl⟩
  · intro i w rest hstack
    exact absurd (by rw [show s.stack = _ from hstack]; exact List.mem_cons_self) (hwaits i w)
  · intro a ha
    exact (h.answered a ha).addCaller rfl rfl

/-- A caller is given a Deferred for a ready entry: it is answered next. -/
theorem AnswerInv.wait (h : AnswerInv s) {entry : Nat} {e : CacheEntry}
    (hentry : s.heap[entry]? = some e) (hstate : e.state = .ready)
    (hwaits : ∀ i w, Frame.wait i w ∉ s.stack) (c : Call) (since : Nat) :
    AnswerInv { s.addCaller c e.flight since with
      stack := .wait entry s.callers.length :: s.stack } := by
  have hcallers : ∀ (w : Nat) d, s.callers[w]? = some d →
      (s.callers ++ [⟨c, e.flight, since⟩])[w]? = some d := by
    intro w d hd
    rw [List.getElem?_append_left (List.getElem?_eq_some_iff.mp hd).1]
    exact hd
  refine ⟨?_, h.numbered, h.cached, h.flying, h.waiting, h.idle, h.ready, ?_, ?_, ?_, ?_, ?_⟩
  · intro w
    have hplaced := h.placed w
    simp only [places, addCaller, List.flatMap_cons, Frame.callers, List.count_append,
      List.count_singleton, beq_iff_eq, List.length_append, List.length_singleton] at hplaced ⊢
    split at hplaced <;> split <;> split <;> omega
  · intro i d hd w hw
    obtain ⟨d', hd', hflight⟩ := h.joined i d hd w hw
    exact ⟨d', hcallers w d' hd', hflight⟩
  · intro i ws hin w hw
    rcases List.mem_cons.mp hin with heq | hin
    · cases heq
    · obtain ⟨d, hd, hresult⟩ := h.firing i ws hin w hw
      exact ⟨d, hd, hresult.addCaller rfl rfl⟩
  · intro i w rest hstack
    cases hstack
    exact ⟨e, hentry, hstate, ⟨c, e.flight, since⟩, List.getElem?_concat_length,
      (h.ready entry e hentry hstate).2⟩
  · exact hwaits
  · intro a ha
    exact (h.answered a ha).addCaller rfl rfl

/-- The answer that `wait` gives at once. -/
theorem AnswerInv.returns (h : AnswerInv s) {entry caller : Nat} {rest : List Frame}
    (hstack : s.stack = .wait entry caller :: rest) :
    AnswerInv ({ s with stack := rest }.wait entry caller) := by
  obtain ⟨e, hentry, hstate, hresult⟩ := h.returning entry caller rest hstack
  have hnowait : ∀ i w, Frame.wait i w ∉ rest := by
    intro i w hin
    refine h.onTop i w ?_
    rw [hstack]
    exact hin
  have hwait : { s with stack := rest }.wait entry caller =
      { s with
        stack := rest
        heap := s.heap.set entry { e with numAccessed := e.numAccessed + 1 }
        answers := s.answers ++ [⟨caller, e.parsed⟩] } := by
    simp [CouchDatabase.wait, setEntry, answer, hentry, hstate]
  rw [hwait]
  refine ⟨?_, h.numbered, ?_, ?_, ?_, ?_, ?_, ?_, ?_, ?_, ?_, ?_⟩
  · intro w
    have hplaced := h.placed w
    have hcount := count_set_entry hentry { e with numAccessed := e.numAccessed + 1 } w
    rw [places, hstack] at hplaced
    simp only [places, List.flatMap_cons, Frame.callers, List.count_append, List.map_append,
      List.map_singleton] at hplaced hcount ⊢
    omega
  · intro ident i hi
    rw [List.length_set]
    exact h.cached ident i hi
  · intro f hf
    exact exists_set_entry hentry (fun _ hd => hd) (h.flying f hf)
  · exact forall_set_entry hentry (fun hwaiting => h.waiting entry e hentry hwaiting)
      (fun j d _ hd => h.waiting j d hd)
  · exact forall_set_entry hentry (fun hne => h.idle entry e hentry hne)
      (fun j d _ hd => h.idle j d hd)
  · exact forall_set_entry hentry (fun hready => h.ready entry e hentry hready)
      (fun j d _ hd => h.ready j d hd)
  · exact forall_set_entry hentry (h.joined entry e hentry) (fun j d _ hd => h.joined j d hd)
  · intro i ws hin w hw
    refine exists_set_entry hentry (fun _ hresult => hresult) (h.firing i ws ?_ w hw)
    rw [hstack]
    exact List.mem_cons_of_mem _ hin
  · intro i w rest' hrest
    exact absurd (by rw [show rest = _ from hrest]; exact List.mem_cons_self) (hnowait i w)
  · exact fun i w hin => hnowait i w (List.mem_of_mem_tail hin)
  · intro a ha
    rcases List.mem_append.mp ha with ha | ha
    · exact h.answered a ha
    · cases List.mem_singleton.mp ha
      exact hresult

/-- The loop of `got_response` fires one Deferred, and its callbacks run. -/
theorem AnswerInv.fires (h : AnswerInv s) {entry caller : Nat} {waiting : List Nat}
    {rest : List Frame} (hstack : s.stack = .fire entry (caller :: waiting) :: rest)
    (asks : List Ask) :
    AnswerInv { s.answer caller ((s.heap[entry]?).bind CacheEntry.parsed) with
      stack := .user asks :: .fire entry waiting :: rest } := by
  have hnowait : ∀ i w, Frame.wait i w ∉ rest := by
    intro i w hin
    refine h.onTop i w ?_
    rw [hstack]
    exact hin
  have hin : Frame.fire entry (caller :: waiting) ∈ s.stack := by
    rw [hstack]
    exact List.mem_cons_self
  obtain ⟨e, hentry, hresult⟩ := h.firing entry _ hin caller List.mem_cons_self
  refine ⟨?_, h.numbered, h.cached, h.flying, h.waiting, h.idle, h.ready, h.joined, ?_, ?_, ?_, ?_⟩
  · intro w
    refine Eq.trans ?_ (h.placed w)
    simp only [places, answer, hstack, List.flatMap_cons, Frame.callers, List.nil_append,
      List.cons_append, List.count_append, List.count_cons, List.count_nil, List.map_append,
      List.map_singleton]
    omega
  · intro i ws hin' w hw
    rcases List.mem_cons.mp hin' with heq | hin'
    · cases heq
    · rcases List.mem_cons.mp hin' with heq | hin'
      · cases heq
        exact h.firing entry _ hin w (List.mem_cons_of_mem _ hw)
      · refine h.firing i ws ?_ w hw
        rw [hstack]
        exact List.mem_cons_of_mem _ hin'
  · intro i w rest' hrest
    cases hrest
  · intro i w hin'
    rcases List.mem_cons.mp hin' with heq | hin'
    · cases heq
    · exact hnowait i w hin'
  · intro a ha
    rcases List.mem_append.mp ha with ha | ha
    · exact h.answered a ha
    · cases List.mem_singleton.mp ha
      rw [hentry]
      exact hresult

/-- `freshen_entries` changes no more than the times. -/
theorem freshenEntries_eq (s : CouchDatabase) (arrival : Arrival) :
    ∃ fresh : Nat → CacheEntry → Option Nat, s.freshenEntries arrival =
      { s with heap := s.heap.mapIdx fun i e => { e with freshAt := fresh i e } } := by
  refine ⟨fun i e => if i ∈ s.cache.entries.map Sigma.snd ∧ (Arrival.notModified arrival).isSome ∧
    e.etag = Arrival.notModified arrival then some s.now else e.freshAt, ?_⟩
  unfold freshenEntries
  congr 2
  funext i e
  split
  · rename_i hfresh
    simp only [if_pos hfresh]
  · rename_i hstale
    simp only [if_neg hstale]

theorem getElem?_freshen {heap : List CacheEntry} {i : Nat} {e : CacheEntry}
    (hi : heap[i]? = some e) (fresh : Nat → CacheEntry → Option Nat) :
    (heap.mapIdx fun i e => { e with freshAt := fresh i e })[i]? =
      some { e with freshAt := fresh i e } := by
  rw [List.getElem?_mapIdx, hi]
  rfl

theorem forall_freshen {heap : List CacheEntry} {fresh : Nat → CacheEntry → Option Nat}
    {P : Nat → CacheEntry → Prop}
    (h : ∀ (i : Nat) e, heap[i]? = some e → P i { e with freshAt := fresh i e }) :
    ∀ (i : Nat) e, (heap.mapIdx fun i e => { e with freshAt := fresh i e })[i]? = some e →
      P i e := by
  intro i e he
  rw [List.getElem?_mapIdx] at he
  obtain ⟨d, hd, rfl⟩ := Option.map_eq_some_iff.mp he
  exact h i d hd

theorem exists_freshen {heap : List CacheEntry} {fresh : Nat → CacheEntry → Option Nat}
    {Q : CacheEntry → Prop} {i : Nat} (hQ : ∀ e, Q e → Q { e with freshAt := fresh i e })
    (h : ∃ e, heap[i]? = some e ∧ Q e) :
    ∃ e, (heap.mapIdx fun i e => { e with freshAt := fresh i e })[i]? = some e ∧ Q e := by
  obtain ⟨e, he, hq⟩ := h
  exact ⟨{ e with freshAt := fresh i e }, getElem?_freshen he fresh, hQ e hq⟩

theorem flatMap_freshen (heap : List CacheEntry) (fresh : Nat → CacheEntry → Option Nat) :
    (heap.mapIdx fun i e => { e with freshAt := fresh i e }).flatMap CacheEntry.waiting =
      heap.flatMap CacheEntry.waiting := by
  have hmap : (heap.mapIdx fun i e => { e with freshAt := fresh i e }).map CacheEntry.waiting =
      heap.map CacheEntry.waiting := by
    refine List.ext_getElem? (fun i => ?_)
    rw [List.getElem?_map, List.getElem?_map, List.getElem?_mapIdx]
    cases heap[i]? <;> rfl
  rw [List.flatMap_def, List.flatMap_def, hmap]

theorem AnswerInv.freshen (h : AnswerInv s) (fresh : Nat → CacheEntry → Option Nat) :
    AnswerInv { s with heap := s.heap.mapIdx fun i e => { e with freshAt := fresh i e } } := by
  refine ⟨?_, h.numbered, ?_, ?_, ?_, ?_, ?_, ?_, ?_, ?_, h.onTop, h.answered⟩
  · intro w
    rw [places, flatMap_freshen]
    exact h.placed w
  · intro ident i hi
    rw [List.length_mapIdx]
    exact h.cached ident i hi
  · intro f hf
    exact exists_freshen (fun e he => he) (h.flying f hf)
  · exact forall_freshen h.waiting
  · exact forall_freshen h.idle
  · exact forall_freshen h.ready
  · exact forall_freshen h.joined
  · intro i ws hin w hw
    exact exists_freshen (fun e he => he) (h.firing i ws hin w hw)
  · intro i w rest hstack
    exact exists_freshen (fun e he => he) (h.returning i w rest hstack)

/-- What an entry is after an arrival it can take. -/
theorem gotResponse_spec {e : CacheEntry} {ifNoneMatch : Option String} {arrival : Arrival}
    (haccepts : Accepts e ifNoneMatch arrival) (hfilled : ifNoneMatch.isSome → Filled e)
    (now : Nat) :
    ∃ e', e.gotResponse now arrival = some e' ∧ e.comesTo arrival = some e'.parsed ∧
      e'.state ≠ .waiting ∧ (e'.state = .ready → Filled e') ∧ e'.flight = e.flight := by
  cases arrival with
  | failed f => exact ⟨_, rfl, rfl, by simp, by simp, rfl⟩
  | response r =>
    rcases haccepts with ⟨hstatus, hconditional⟩ | ⟨hstatus, hparses⟩
    · simp only [CacheEntry.gotResponse, CacheEntry.comesTo, hstatus, if_true]
      exact ⟨_, rfl, rfl, by simp, fun _ => hfilled hconditional, rfl⟩
    · obtain ⟨out, hout⟩ := Option.isSome_iff_exists.mp hparses
      simp only [CacheEntry.gotResponse, CacheEntry.comesTo, hstatus, if_false, hout]
      cases out with
      | failure f => exact ⟨_, rfl, rfl, by simp, by simp, rfl⟩
      | value j =>
        cases r.entityTag with
        | none => exact ⟨_, rfl, rfl, by simp, by simp, rfl⟩
        | some etag =>
          refine ⟨_, rfl, rfl, by simp, fun _ => ⟨rfl, rfl, ?_⟩, rfl⟩
          cases e.cachedAt <;> rfl

/-- A request that is under way completes. -/
theorem AnswerInv.land (h : AnswerInv s) {k : Nat} {f : Flight} {e e' : CacheEntry}
    (hflight : s.flights[k]? = some f) (hentry : s.heap[f.entry]? = some e)
    (hstate : e'.state ≠ .waiting) (hready : e'.state = .ready → Filled e')
    (hno : e'.flight = e.flight) (hfires : ∀ frame ∈ s.stack, Frame.fires f.entry frame = false)
    (hwaits : ∀ i w, Frame.wait i w ∉ s.stack) :
    AnswerInv { s with
      flights := s.flights.eraseIdx k
      heap := s.heap.set f.entry { e' with waiting := [] }
      completed := (f.no, some e'.parsed) :: s.completed
      stack := fire f.entry e.waiting s.stack } := by
  obtain ⟨hk, hfk⟩ := List.getElem?_eq_some_iff.mp hflight
  have hf : f ∈ s.flights := hfk ▸ List.getElem_mem hk
  have hperm : (f :: s.flights.eraseIdx k).Perm s.flights := by
    have := List.getElem_cons_eraseIdx_perm hk
    rwa [hfk] at this
  obtain ⟨d, hd, _, hdno, _⟩ := h.flying f hf
  rw [hentry] at hd
  cases hd
  -- every other request under way is for another entry
  have hother : ∀ f' ∈ s.flights.eraseIdx k, f.entry ≠ f'.entry := by
    intro f' hf' hsame
    obtain ⟨d', hd', _, hno', _⟩ := h.flying f' (hperm.subset (List.mem_cons_of_mem _ hf'))
    rw [← hsame, hentry] at hd'
    cases hd'
    have hcount := (hperm.map Flight.no).count_eq f.no
    have hpos : 0 < ((s.flights.eraseIdx k).map Flight.no).count f.no := by
      rw [List.count_pos_iff, List.mem_map]
      exact ⟨f', hf', by rw [← hno', hdno]⟩
    have hnumbered := h.numbered f.no
    simp only [List.map_cons, List.count_cons, beq_self_eq_true, if_true] at hcount
    unfold occurrences at hnumbered
    split at hnumbered <;> omega
  refine ⟨?_, ?_, ?_, ?_, ?_, ?_, ?_, ?_, ?_, ?_, ?_, 
    fun a ha => (h.answered a ha).completing rfl rfl⟩
  · intro w
    refine Eq.trans ?_ (h.placed w)
    have hcount := count_set_entry hentry { e' with waiting := [] } w
    have hfire : (fire f.entry e.waiting s.stack).flatMap Frame.callers =
        e.waiting ++ s.stack.flatMap Frame.callers := by
      unfold fire
      cases hw : e.waiting <;> simp [Frame.callers]
    simp only [places, hfire, List.count_append, List.count_nil] at hcount ⊢
    omega
  · intro n
    refine Eq.trans ?_ (h.numbered n)
    have hcount := (hperm.map Flight.no).count_eq n
    simp only [occurrences, List.map_cons, List.count_cons] at hcount ⊢
    omega
  · intro ident i hi
    rw [List.length_set]
    exact h.cached ident i hi
  · intro f' hf'
    obtain ⟨d, hd, hrest⟩ := h.flying f' (hperm.subset (List.mem_cons_of_mem _ hf'))
    refine ⟨d, ?_, hrest⟩
    rw [getElem?_set_entry hentry, if_neg (hother f' hf')]
    exact hd
  · refine forall_set_entry hentry (fun hwaiting => absurd hwaiting hstate) ?_
    intro j d hj hd hwaiting
    obtain ⟨f', hf', hentry'⟩ := h.waiting j d hd hwaiting
    rcases List.mem_cons.mp (hperm.mem_iff.mpr hf') with heq | hf'
    · exact absurd (heq ▸ hentry') hj
    · exact ⟨f', hf', hentry'⟩
  · exact forall_set_entry hentry (fun _ => rfl) (fun j d _ hd => h.idle j d hd)
  · refine forall_set_entry hentry ?_ ?_
    · intro hr
      refine ⟨hready hr, ?_⟩
      simp only [hno, hdno]
      exact List.mem_cons_self
    · intro j d _ hd hr
      exact ⟨(h.ready j d hd hr).1, List.mem_cons_of_mem _ (h.ready j d hd hr).2⟩
  · refine forall_set_entry hentry ?_ (fun j d _ hd => h.joined j d hd)
    intro w hw
    cases hw
  · intro i ws hin w hw
    have hcases : Frame.fire i ws = .fire f.entry e.waiting ∨ Frame.fire i ws ∈ s.stack := by
      unfold fire at hin
      split at hin
      · exact Or.inr hin
      · exact List.mem_cons.mp hin
    rcases hcases with heq | hin
    · cases heq
      refine ⟨_, by rw [getElem?_set_entry hentry, if_pos rfl], ?_⟩
      obtain ⟨c, hc, hcf⟩ := h.joined f.entry e hentry w hw
      refine ⟨c, hc, ?_⟩
      rw [hcf, hdno]
      exact List.mem_cons_self
    · have hne : f.entry ≠ i := by
        intro he
        have := hfires _ hin
        simp only [Frame.fires, he, decide_true, Bool.true_and, Bool.not_eq_false',
          List.isEmpty_iff] at this
        rw [this] at hw
        cases hw
      obtain ⟨d, hd, hresult⟩ := h.firing i ws hin w hw
      refine ⟨d, ?_, hresult.completing rfl rfl⟩
      rw [getElem?_set_entry hentry, if_neg hne]
      exact hd
  · intro i w rest hstack
    exfalso
    simp only [fire] at hstack
    split at hstack
    · exact hwaits i w (by rw [hstack]; exact List.mem_cons_self)
    · cases hstack
  · intro i w hin
    simp only [fire] at hin
    split at hin
    · exact hwaits i w (List.mem_of_mem_tail hin)
    · exact hwaits i w hin

/-- The callbacks of a request whose entry can take what it came to. -/
theorem AnswerInv.complete (h : AnswerInv s) {k : Nat} {f : Flight} {e : CacheEntry}
    {arrival : Arrival} (hflight : s.flights[k]? = some f) (hentry : s.heap[f.entry]? = some e)
    (haccepts : Accepts e f.ifNoneMatch arrival)
    (hfires : ∀ frame ∈ s.stack, Frame.fires f.entry frame = false)
    (hwaits : ∀ i w, Frame.wait i w ∉ s.stack) :
    AnswerInv ({ s with flights := s.flights.eraseIdx k }.complete f.no f.entry arrival) := by
  obtain ⟨fresh, hfresh⟩ := freshenEntries_eq { s with flights := s.flights.eraseIdx k } arrival
  have hf : f ∈ s.flights := List.mem_of_getElem? hflight
  obtain ⟨d, hd, _, _, hfilled⟩ := h.flying f hf
  rw [hentry] at hd
  cases hd
  have hentry' := getElem?_freshen hentry fresh
  have haccepts' : Accepts { e with freshAt := fresh f.entry e } f.ifNoneMatch arrival := by
    cases arrival <;> exact haccepts
  obtain ⟨e', hgot, hcomes, hstate, hready, hno⟩ := gotResponse_spec haccepts' hfilled s.now
  have hland := (h.freshen fresh).land hflight hentry' hstate hready hno hfires hwaits
  unfold CouchDatabase.complete
  simp only [hfresh, hentry', hgot, hcomes, setEntry]
  exact hland

/-- After a response that leaves it so the entry is ready. -/
theorem complete_ready (s : CouchDatabase) (no : Nat) {entry : Nat} {e : CacheEntry} {ifNoneMatch : Option String}
    {arrival : Arrival} (hentry : s.heap[entry]? = some e) (hends : EndsReady e ifNoneMatch arrival) :
    ∃ e', (s.complete no entry arrival).heap[entry]? = some e' ∧ e'.state = .ready ∧
      e'.flight = e.flight := by
  obtain ⟨fresh, hfresh⟩ := freshenEntries_eq s arrival
  have hentry' := getElem?_freshen hentry fresh
  have hgot : ∃ e', CacheEntry.gotResponse { e with freshAt := fresh entry e } s.now arrival =
      some e' ∧ e'.state = .ready ∧ e'.flight = e.flight := by
    cases arrival with
    | failed f => cases hends
    | response r =>
      rcases hends with ⟨hstatus, _⟩ | ⟨hstatus, hetag, hvalue⟩
      · simp only [CacheEntry.gotResponse, hstatus, if_true]
        exact ⟨_, rfl, rfl, rfl⟩
      · obtain ⟨etag, hetag⟩ := Option.isSome_iff_exists.mp hetag
        obtain ⟨out, hout, hvalue⟩ := (Option.any_eq_true _ _).mp hvalue
        cases out with
        | failure f => cases hvalue
        | value j =>
          simp only [CacheEntry.gotResponse, hstatus, if_false, hout, hetag]
          exact ⟨_, rfl, rfl, rfl⟩
  obtain ⟨e', hgot, hstate, hno⟩ := hgot
  refine ⟨{ e' with waiting := [] }, ?_, hstate, hno⟩
  unfold CouchDatabase.complete
  simp only [hfresh, hentry', hgot, setEntry]
  rw [getElem?_set_entry hentry', if_pos rfl]

/-- Completing a request nobody waits for leaves what is below it on the stack alone. -/
theorem complete_below (s : CouchDatabase) (no : Nat) {entry : Nat} {e : CacheEntry} (arrival : Arrival)
    (hentry : s.heap[entry]? = some e) (hempty : e.waiting = []) (callers : List Caller)
    (stack : List Frame) :
    { s with callers := callers, stack := stack }.complete no entry arrival =
      { s.complete no entry arrival with callers := callers, stack := stack } := by
  obtain ⟨fresh, hfresh⟩ := freshenEntries_eq s arrival
  have hentry' := getElem?_freshen hentry fresh
  have hfresh' : { s with callers := callers, stack := stack }.freshenEntries arrival =
      { s with
        callers := callers
        stack := stack
        heap := s.heap.mapIdx fun i e => { e with freshAt := fresh i e } } := by
    have := congrArg CouchDatabase.heap hfresh
    simp only [freshenEntries] at this ⊢
    rw [this]
  unfold CouchDatabase.complete
  simp only [hfresh, hfresh', hentry', setEntry, hempty, fire, List.isEmpty_nil, if_true]
  split <;> rfl

/-- A call that sends a request for an entry that has none under way. -/
theorem AnswerInv.send (h : AnswerInv s) (ask : Ask) {entry : Nat} {e : CacheEntry}
    {ifNoneMatch : Option String} (hentry : s.heap[entry]? = some e) (hstate : e.state ≠ .waiting)
    (hwaits : ∀ i w, Frame.wait i w ∉ s.stack) (hfilled : ifNoneMatch.isSome → Filled e)
    (hreply : ∀ arrival ∈ ask.reply, EndsReady { e with state := .waiting } ifNoneMatch arrival ∧
      ∀ frame ∈ s.stack, Frame.fires entry frame = false) :
    AnswerInv ((s.setEntry entry { e with state := .waiting }).send ask entry
      { e with state := .waiting } ifNoneMatch) := by
  have hbegin := h.begin hentry hstate hwaits ask.call.request hfilled
  have hempty := h.idle entry e hentry hstate
  have hentry' : (s.heap.set entry { e with
      state := .waiting, flight := s.sent, sentAt := s.now })[entry]? =
      some { e with state := .waiting, flight := s.sent, sentAt := s.now } := by
    rw [getElem?_set_entry hentry, if_pos rfl]
  obtain ⟨call, reply⟩ := ask
  cases reply with
  | none =>
    have hjoin := hbegin.join hentry' rfl hwaits call s.now
    simp only [CouchDatabase.send, setEntry, addCaller, List.set_set] at hjoin ⊢
    exact hjoin
  | some arrival =>
    obtain ⟨hends, hfires⟩ := hreply arrival rfl
    have haccepts : Accepts { e with state := .waiting, flight := s.sent, sentAt := s.now }
        ifNoneMatch arrival := by
      cases arrival with
      | failed f => cases hends
      | response r =>
        exact hends.imp_right (fun hparses => ⟨hparses.1, Option.isSome_of_any hparses.2.2⟩)
    have hends' : EndsReady { e with state := .waiting, flight := s.sent, sentAt := s.now }
        ifNoneMatch arrival := by
      cases arrival <;> exact hends
    have hcomplete := hbegin.complete (k := s.flights.length) List.getElem?_concat_length hentry'
      haccepts hfires hwaits
    have hflights : (s.flights ++ [(⟨s.sent, entry, call.request, ifNoneMatch, s.now⟩ : Flight)]).eraseIdx
        s.flights.length = s.flights := by
      rw [List.eraseIdx_append_of_length_le (Nat.le_refl _), Nat.sub_self]
      simp
    simp only [hflights] at hcomplete
    have hready := complete_ready { s with
        heap := s.heap.set entry { e with state := .waiting, flight := s.sent, sentAt := s.now }
        sent := s.sent + 1 } s.sent hentry' hends'
    obtain ⟨e', he', hstate', hno'⟩ := hready
    have hbelow := complete_below { s with
        heap := s.heap.set entry { e with state := .waiting, flight := s.sent, sentAt := s.now }
        sent := s.sent + 1 } s.sent arrival hentry' hempty
    have hstack := congrArg CouchDatabase.stack (hbelow s.callers s.stack)
    have hcallers := congrArg CouchDatabase.callers (hbelow s.callers s.stack)
    simp only at hstack hcallers
    have hwait := hcomplete.wait he' hstate' (by rw [hstack]; exact hwaits) call s.now
    simp only [CouchDatabase.send, setEntry, addCaller, List.set_set]
    rw [hbelow]
    simp only [addCaller, hstack, hcallers, hno'] at hwait
    exact hwait

theorem AnswerInv.sized (h : AnswerInv s) : Sized s := by
  intro e he hready
  obtain ⟨i, hi⟩ := List.mem_iff_getElem?.mp he
  exact (h.ready i e hi hready).1.2

/-- A call of `couchdb_call`. -/
theorem AnswerInv.call (h : AnswerInv s) {ask : Ask} (hwaits : ∀ i w, Frame.wait i w ∉ s.stack)
    (hsettles : s.SettlesAtOnce settings ask) : AnswerInv (s.couchdbCall settings ask) := by
  have hplans := plan_cases settings h.sized ask.call
  have hquiet : ∀ operation cache, Sub cache s.cache →
      AnswerInv { s with operation := operation, cache := cache } := fun operation cache hsub =>
    h.quiet s.now operation cache (fun ident i hi => h.cached ident i (hsub ident i hi)) rfl
      (fun _ _ hin _ => hin) (.inr rfl)
  unfold SettlesAtOnce sends at hsettles
  unfold couchdbCall
  generalize s.plan settings ask.call = p at hplans hsettles ⊢
  cases hplans with
  | join hsub _ hentry hstate =>
    exact (hquiet _ _ hsub).join hentry hstate hwaits ask.call _
  | reuse hsub _ hentry hstate =>
    exact ((hquiet _ _ hsub).wait hentry hstate hwaits ask.call _).returns rfl
  | @revalidate _ _ entry e etag hsub _ hentry hstate hetag =>
    refine (hquiet _ _ hsub).send ask hentry (by simp [hstate]) hwaits ?_ ?_
    · exact fun _ => (h.ready entry e hentry hstate).1
    · exact fun arrival harrival => hsettles arrival harrival _ rfl
  | @resend _ _ entry e _ _ hentry hstate hetag =>
    have hfilled := (h.ready entry e hentry hstate).1.1
    rw [hetag] at hfilled
    cases hfilled
  | @first operation cache cache' hsub hsub' =>
    -- the entry is put in the cache before anything is under way for it
    have hmake := (hquiet operation cache hsub).make
      (e := { CacheEntry.new ask.call with state := .invalid }) rfl rfl ask.call.cacheId
    have hlast : (s.heap ++ [{ CacheEntry.new ask.call with state := .invalid }])[s.heap.length]? =
        some { CacheEntry.new ask.call with state := .invalid } := List.getElem?_concat_length
    have hclean := hmake.quiet s.now operation cache'
      (fun ident i hi => hmake.cached ident i (hsub' ident i hi)) rfl (fun _ _ hin _ => hin)
      (.inr rfl)
    have hsend := hclean.send ask hlast (by simp) hwaits
      (fun hsome : (none : Option String).isSome => by cases hsome) (fun arrival harrival => hsettles arrival harrival _ rfl)
    have hset : (s.heap ++ [{ CacheEntry.new ask.call with state := .invalid }]).set s.heap.length
        (CacheEntry.new ask.call) = s.heap ++ [CacheEntry.new ask.call] := by
      rw [List.set_append_right _ _ (Nat.le_refl _), Nat.sub_self]
      rfl
    have hset' : ({ s with
        operation := operation
        cache := cache'
        heap := s.heap ++ [{ CacheEntry.new ask.call with state := .invalid }] }.setEntry
          s.heap.length (CacheEntry.new ask.call)) =
        { s with
          operation := operation
          cache := cache'
          heap := s.heap ++ [CacheEntry.new ask.call] } := by
      rw [setEntry, hset]
    exact hset' ▸ hsend

/-- Every event keeps the invariant under the condition. -/
theorem step_answers {react : List Answer → List Ask} {event : Event} (h : AnswerInv s)
    (hprompt : s.Prompt settings event) (hstep : s.step settings react event = some t) :
    AnswerInv t := by
  cases event with
  | run =>
    simp only [step] at hstep
    split at hstep
    · cases hstep
    cases hstep
    have hbelow : ∀ {frame rest}, s.stack = frame :: rest → ∀ i w, Frame.wait i w ∉ rest := by
      intro frame rest hstack i w hin
      exact h.onTop i w (by rw [hstack]; exact hin)
    unfold run
    split
    · exact h
    · rename_i hstack
      exact h.quiet s.now s.operation s.cache h.cached (by rw [hstack]; rfl)
        (fun i ws hin _ => by rw [hstack]; exact List.mem_cons_of_mem _ hin) (.inl (hbelow hstack))
    · rename_i ask asks rest hstack
      have hnowait : ∀ i w, Frame.wait i w ∉ Frame.user asks :: rest := by
        intro i w hin
        rcases List.mem_cons.mp hin with heq | hin
        · cases heq
        · exact hbelow hstack i w hin
      have hquiet : AnswerInv { s with stack := .user asks :: rest } := by
        refine h.quiet s.now s.operation s.cache h.cached (by rw [hstack]; rfl) ?_ (.inl hnowait)
        intro i ws hin _
        rw [hstack]
        rcases List.mem_cons.mp hin with heq | hin
        · cases heq
        · exact List.mem_cons_of_mem _ hin
      refine hquiet.call hnowait (hprompt.1 ({ s with stack := .user asks :: rest }, ask) ?_)
      simp only [CouchDatabase.asks, hstack]
      rfl
    · rename_i hstack
      exact h.quiet s.now s.operation s.cache h.cached (by rw [hstack]; rfl)
        (fun i ws hin _ => by rw [hstack]; exact List.mem_cons_of_mem _ hin) (.inl (hbelow hstack))
    · rename_i hstack
      exact h.fires hstack _
    · rename_i hstack
      exact h.returns hstack
  | call ask =>
    simp only [step] at hstep
    split at hstep
    · rename_i hnil
      cases hstep
      have hnil : s.stack = [] := by simpa using hnil
      exact h.call (fun i w => by rw [hnil]; exact List.not_mem_nil) (hprompt.1 (s, ask) rfl)
    · cases hstep
  | arrive k arrival =>
    simp only [step] at hstep
    split at hstep
    · rename_i f hnil hflight
      cases hstep
      obtain ⟨e, hentry, _⟩ := h.flying f (List.mem_of_getElem? hflight)
      refine h.complete hflight hentry (hprompt.2 (f, e, arrival) ?_) ?_ ?_
      · simp [arrives, hflight, hentry]
      · intro frame hin
        rw [hnil] at hin
        cases hin
      · intro i w
        rw [hnil]
        exact List.not_mem_nil
    · cases hstep
  | cleanup =>
    simp only [step] at hstep
    split at hstep
    · obtain ⟨cache, rfl, hsub⟩ := cleanup_sub hstep
      exact h.quiet s.now s.operation cache (fun ident i hi => h.cached ident i (hsub ident i hi)) rfl
        (fun _ _ hin _ => hin) (.inr rfl)
    · cases hstep
  | tick n =>
    cases hstep
    exact h.quiet (s.now + n) s.operation s.cache h.cached rfl (fun _ _ hin _ => hin) (.inr rfl)

theorem new_answers : AnswerInv CouchDatabase.new := by
  refine ⟨fun w => by simp [places, new], fun n => by simp [occurrences, new], ?_, ?_, ?_, ?_, ?_, ?_,
    ?_, ?_, ?_, ?_⟩ <;> simp [new]

end Steps

/-! ## Runs -/

variable {D : Type} [LinearOrder D]

/-- In every run whose requests settle when they complete at once, and whose entries can take what
arrives later, every caller is answered: once, rightly, and as soon as its request completes. -/
theorem every_caller_answered (settings : Settings D) (react : List Answer → List Ask)
    {events : List Event} {s : CouchDatabase}
    (hrun : Run (Guarded (Prompt settings) (Defined (step settings react))) .new events s) :
    AllAnswered s :=
  have hinv : AnswerInv s :=
    hrun.preserves (fun _ _ _ h hstep => step_answers h hstep.1 hstep.2) new_answers
  hinv.allAnswered

/-- A cache for tests: the more an entry is used the longer it stays. -/
def plainSettings : Settings Nat := ⟨100, fun accessed _ => accessed, .stored⟩

/-- The call `get_attachment` makes for the attachment `a` of the document `d`. -/
def attachmentCall : Call := ⟨"/db/d/a", ⟨"GET", "/db/d/a", none, "*"⟩, ⟨parseBinary, []⟩, none⟩

/-- Two callers share a request; a third is answered at once, as the server says that nothing has
changed. -/
theorem every_caller_answered_shared :
    let events : List Event :=
      [.call ⟨attachmentCall, none⟩, .call ⟨attachmentCall, none⟩,
        .arrive 0 (.response ⟨200, "OK", some "1", none, "body"⟩)] ++ List.replicate 5 .run ++
      [.call ⟨attachmentCall, some (.response ⟨304, "NOT_MODIFIED", some "1", none, ""⟩)⟩, .run]
    ∃ s, Run (Guarded (Prompt plainSettings) (Defined (step plainSettings fun _ => []))) .new events s ∧
      s.stack = [] ∧ s.answers.map Answer.caller = [0, 1, 2] ∧ AllAnswered s := by
  intro events
  have hend : ((events.foldlM (checked (Prompt plainSettings) (step plainSettings fun _ => []))
      .new).map fun s => (s.stack.length, s.answers.map Answer.caller)) =
        some (0, [0, 1, 2]) := by decide
  obtain ⟨s, hs, hparts⟩ := Option.map_eq_some_iff.mp hend
  have hrun := run_checked hs
  exact ⟨s, hrun, List.eq_nil_of_length_eq_zero (congrArg Prod.fst hparts),
    congrArg Prod.snd hparts, every_caller_answered plainSettings _ hrun⟩

/-- A request that fails before the HTTP method returns leaves its caller without an answer. -/
theorem failure_at_once_strands :
    ∃ s, Run (Defined (step plainSettings fun _ => [])) .new
        [.call ⟨attachmentCall, some (.failed "refused")⟩, .run] s ∧
      s.stack = [] ∧ s.flights = [] ∧ s.callers.length = 1 ∧ s.answers.length = 0 ∧
      ¬ AllAnswered s := by
  let events : List Event :=
    [.call ⟨attachmentCall, some (.failed "refused")⟩, .run]
  have hend : ((events.foldlM (step plainSettings fun _ => []) .new).map fun s =>
      (s.stack.length, s.flights, s.callers.length, s.answers.length)) =
        some (0, [], 1, 0) := by decide
  obtain ⟨s, hs, hparts⟩ := Option.map_eq_some_iff.mp hend
  simp only [Prod.mk.injEq, List.length_eq_zero_iff] at hparts
  obtain ⟨hstack, hflights, hcallers, hanswers⟩ := hparts
  refine ⟨s, run_defined hs, hstack, hflights, hcallers, by rw [hanswers]; rfl, fun h => ?_⟩
  rcases h.prompt hstack 0 (by omega) with hin | ⟨c, _, f, hf, _⟩
  · rw [hanswers] at hin
    cases hin
  · rw [hflights] at hf
    cases hf

end CouchDatabase
end Feat.Database.Driver
