import Mathlib.Data.List.Count
import Mathlib.Data.List.Nodup
import Feat.Lib.Traces
import Feat.Messaging.Channel

/- Each call of the channel once and in order.

   `Lined` says how the calls that are pending, the one in hand first, go with the log:
   they are in the order they were recorded in, and everything performed before comes
   before them. Each thing that can become of the first of them is one lemma.

   A call that failed keeps the Deferred that was fired for the failure. When it succeeds
   later, firing the Deferred again fails, so it is taken to have failed again and stays
   in the chain. And calls that are not remembered are dropped at a reconnection without
   being fired. `calls_once_iff` says that nothing else goes wrong. -/
namespace Feat.Messaging.Channel
open Transition Traces

/-- The numbers of the calls performed, in order. -/
def attempts (log : List Entry) : List Nat :=
  log.filterMap fun
    | .performed n _ _ => some n
    | _ => none

def Performs (n : Nat) (e : Entry) : Prop := ∃ m r, e = .performed n m r

def Succeeds (n : Nat) (e : Entry) : Prop := ∃ m, e = .succeeded n m

def Fails (n : Nat) (e : Entry) : Prop := ∃ m, e = .failed n m

/-- A call is performed that is not this one. -/
def PerformsOther (n : Nat) (e : Entry) : Prop := ∃ k m r, k ≠ n ∧ e = .performed k m r

/-- A call is over. -/
def Leaves (n : Nat) (e : Entry) : Prop := Succeeds n e ∨ e = .dropped n

/-- The calls that are performed or wait for it. -/
def pending (s : Channel) : List ProcessingCall :=
  (s.current.map Prod.fst).toList ++ s.processingChain

/-- Calls are performed in their order, a failed one again before any other, none after it
    succeeded, and each Deferred is fired once. -/
structure Once (s : Channel) : Prop where
  ordered : (attempts s.log).Pairwise (· ≤ ·)
  retried : ∀ n, Between (Fails n) (PerformsOther n) (Leaves n) s.log
  removed : ∀ n m, .succeeded n m ∈ s.log → ∀ call ∈ s.pending, call.number ≠ n
  never_again : ∀ n, Never (Succeeds n) (Performs n) s.log
  at_most_once : ∀ n, s.log.count (.fired n) ≤ 1
  fired : ∀ n, n < s.recorded.length → (∀ call ∈ s.pending, call.number ≠ n) →
    s.log.count (.fired n) = 1

/-- No call succeeds that failed before, and none that was not performed is dropped. -/
def Undisturbed (s : Channel) : Event → Prop
  | .answered success => success = true → ∀ call rest, s.current = some (call, rest) →
    rest.length ≤ 1 → call.called = false
  | .connected => ∀ call ∈ s.processingChain,
    call.method.rememberBetweenConnections = false → call.called = true
  | _ => True

/-! ## What becomes of a call -/

structure Lined (p : List ProcessingCall) (recorded : Nat) (l : List Entry) : Prop where
  sorted : p.Pairwise fun a b => a.number < b.number
  below : ∀ call ∈ p, call.number < recorded
  attempted : ∀ n ∈ attempts l, n < recorded ∧ ∀ call ∈ p, n ≤ call.number
  ordered : (attempts l).Pairwise (· ≤ ·)
  fired : ∀ n, l.count (.fired n) =
    if n < recorded ∧ ∀ call ∈ p, call.number = n → call.called = true then 1 else 0
  failed : ∀ n m, .failed n m ∈ l → n ∈ attempts l
  succeeded : ∀ n m, .succeeded n m ∈ l → n ∈ attempts l ∧ ∀ call ∈ p, call.number ≠ n
  never_again : ∀ n, Never (Succeeds n) (Performs n) l
  followed : ∀ n, Followed (Fails n) (Leaves n) l ∨ ∃ call ∈ p, call.number = n
  retried : ∀ n, Between (Fails n) (PerformsOther n) (Leaves n) l

variable {p rest : List ProcessingCall} {recorded : Nat} {l : List Entry} {call : ProcessingCall}

theorem mem_attempts {l : List Entry} {n : Nat} :
    n ∈ attempts l ↔ ∃ m r, .performed n m r ∈ l := by
  simp only [attempts, List.mem_filterMap]
  refine ⟨fun h => ?_, fun h => ?_⟩
  · obtain ⟨e, he, hn⟩ := h
    cases e with
    | performed k m r =>
      cases hn
      exact ⟨m, r, he⟩
    | _ => cases hn
  · obtain ⟨m, r, hm⟩ := h
    exact ⟨_, hm, rfl⟩

@[simp] theorem attempts_append (l es : List Entry) :
    attempts (l ++ es) = attempts l ++ attempts es := List.filterMap_append

theorem Lined.number_inj (h : Lined p recorded l) {a b : ProcessingCall} (ha : a ∈ p) (hb : b ∈ p)
    (he : a.number = b.number) : a = b := by
  have hnodup : (p.map ProcessingCall.number).Nodup :=
    List.pairwise_map.mpr (h.sorted.imp Nat.ne_of_lt)
  exact List.inj_on_of_nodup_map hnodup ha hb he

theorem lined_nil : Lined [] 0 [] := by
  refine ⟨.nil, ?_, ?_, .nil, ?_, ?_, ?_, fun _ => never_nil, fun n => .inl ?_,
    fun _ => between_nil⟩
  · intro call hcall
    cases hcall
  · intro n hn
    cases hn
  · intro n
    simp
  · intro n m hm
    cases hm
  · intro n m hm
    cases hm
  · intro xs x ys he
    simp at he

/-- What the log has of no call. -/
theorem Lined.noted (h : Lined p recorded l) {es : List Entry}
    (hes : ∀ e ∈ es, ∃ request, e = .requested request) : Lined p recorded (l ++ es) := by
  have hnone : attempts es = [] := by
    refine List.filterMap_eq_nil_iff.mpr fun e he => ?_
    obtain ⟨request, rfl⟩ := hes e he
    rfl
  have hin : ∀ e, (∀ request, e ≠ .requested request) → e ∈ l ++ es → e ∈ l := by
    intro e hne he
    obtain he | he := List.mem_append.mp he
    · exact he
    · obtain ⟨request, rfl⟩ := hes e he
      exact absurd rfl (hne request)
  refine ⟨h.sorted, h.below, ?_, ?_, fun n => ?_, fun n m hm => ?_, fun n m hm => ?_, fun n => ?_,
    fun n => ?_, fun n => ?_⟩
  · rw [attempts_append, hnone, List.append_nil]
    exact h.attempted
  · rw [attempts_append, hnone, List.append_nil]
    exact h.ordered
  · have hzero : es.count (.fired n) = 0 := by
      refine List.count_eq_zero.mpr fun he => ?_
      obtain ⟨request, hr⟩ := hes _ he
      cases hr
    rw [List.count_append, hzero]
    exact h.fired n
  · rw [attempts_append, hnone, List.append_nil]
    exact h.failed n m (hin _ (by simp) hm)
  · rw [attempts_append, hnone, List.append_nil]
    exact h.succeeded n m (hin _ (by simp) hm)
  · refine (h.never_again n).append fun e he => ?_
    obtain ⟨request, rfl⟩ := hes e he
    simp [Performs]
  · refine (h.followed n).imp_left fun hf => hf.append fun e he => ?_
    obtain ⟨request, rfl⟩ := hes e he
    simp [Fails]
  · refine (h.retried n).append fun e he => ?_
    obtain ⟨request, rfl⟩ := hes e he
    simp [PerformsOther]

/-- A call is recorded. -/
theorem Lined.record (h : Lined p recorded l) (m : Method) :
    Lined (p ++ [⟨recorded, m, false⟩]) (recorded + 1) l := by
  refine ⟨?_, ?_, ?_, h.ordered, ?_, h.failed, ?_, h.never_again, ?_, h.retried⟩
  · refine List.pairwise_append.mpr ⟨h.sorted, List.pairwise_singleton _ _, ?_⟩
    intro a ha b hb
    rw [List.mem_singleton.mp hb]
    exact h.below a ha
  · intro call hcall
    obtain hcall | hcall := List.mem_append.mp hcall
    · exact Nat.lt_succ_of_lt (h.below call hcall)
    · rw [List.mem_singleton.mp hcall]
      exact Nat.lt_succ_self recorded
  · intro n hn
    obtain ⟨hlt, hle⟩ := h.attempted n hn
    refine ⟨Nat.lt_succ_of_lt hlt, fun call hcall => ?_⟩
    obtain hcall | hcall := List.mem_append.mp hcall
    · exact hle call hcall
    · rw [List.mem_singleton.mp hcall]
      exact Nat.le_of_lt hlt
  · intro n
    rw [h.fired n]
    congr 1
    refine propext ⟨fun hn => ?_, fun hn => ?_⟩
    · refine ⟨Nat.lt_succ_of_lt hn.1, fun call hcall he => ?_⟩
      obtain hcall | hcall := List.mem_append.mp hcall
      · exact hn.2 call hcall he
      · rw [List.mem_singleton.mp hcall] at he
        exact absurd he (Nat.ne_of_gt hn.1)
    · have hne : recorded ≠ n := by
        intro he
        have hcalled := hn.2 ⟨recorded, m, false⟩ (by simp) he
        cases hcalled
      exact ⟨by omega, fun call hcall he => hn.2 call (List.mem_append_left _ hcall) he⟩
  · intro n m' hm'
    obtain ⟨hatt, hne⟩ := h.succeeded n m' hm'
    refine ⟨hatt, fun call hcall => ?_⟩
    obtain hcall | hcall := List.mem_append.mp hcall
    · exact hne call hcall
    · rw [List.mem_singleton.mp hcall]
      exact Nat.ne_of_gt (h.attempted n hatt).1
  · intro n
    refine (h.followed n).imp_right fun hex => ?_
    obtain ⟨call, hcall, he⟩ := hex
    exact ⟨call, List.mem_append_left _ hcall, he⟩

/-- The first call is performed. -/
theorem Lined.perform (h : Lined (call :: rest) recorded l) (m : Method) (r : Option Request) :
    Lined (call :: rest) recorded (l ++ [.performed call.number m r]) := by
  have hlt := h.below call (by simp)
  have hfirst : ∀ other ∈ call :: rest, call.number ≤ other.number := by
    intro other hother
    obtain rfl | hother := List.mem_cons.mp hother
    · exact le_refl _
    · exact Nat.le_of_lt ((List.pairwise_cons.mp h.sorted).1 other hother)
  have hone : attempts [.performed call.number m r] = [call.number] := rfl
  refine ⟨h.sorted, h.below, ?_, ?_, fun n => ?_, fun n k hk => ?_, fun n k hk => ?_, fun n => ?_,
    fun n => ?_, fun n => ?_⟩
  · intro n hn
    rw [attempts_append, hone] at hn
    obtain hn | hn := List.mem_append.mp hn
    · exact h.attempted n hn
    · rw [List.mem_singleton.mp hn]
      exact ⟨hlt, hfirst⟩
  · rw [attempts_append, hone]
    refine List.pairwise_append.mpr ⟨h.ordered, List.pairwise_singleton _ _, ?_⟩
    intro a ha b hb
    rw [List.mem_singleton.mp hb]
    exact (h.attempted a ha).2 call (by simp)
  · rw [List.count_append, h.fired n]
    simp
  · have hk : .failed n k ∈ l := by simpa using hk
    rw [attempts_append]
    exact List.mem_append_left _ (h.failed n k hk)
  · have hk : .succeeded n k ∈ l := by simpa using hk
    rw [attempts_append]
    exact ⟨List.mem_append_left _ (h.succeeded n k hk).1, (h.succeeded n k hk).2⟩
  · refine (h.never_again n).concat fun hp e he hs => ?_
    obtain ⟨m', r', hm'⟩ := hp
    obtain ⟨m'', rfl⟩ := hs
    cases hm'
    exact (h.succeeded call.number m'' he).2 call (by simp) rfl
  · exact (h.followed n).imp_left fun hf => hf.append (by simp [Fails])
  · refine (h.retried n).concat fun hother => ?_
    obtain ⟨k, m', r', hne, he⟩ := hother
    cases he
    -- a failed call that is pending would be the first one
    obtain hf | ⟨other, hin, rfl⟩ := h.followed n
    · exact hf
    · intro xs x ys hl hx
      obtain ⟨m'', rfl⟩ := hx
      have hatt := h.failed other.number m'' (by rw [hl]; simp)
      have hle := (h.attempted _ hatt).2 call (by simp)
      have hge := hfirst other hin
      exact absurd (Nat.le_antisymm hge hle) hne

/-- The first call succeeds, and its Deferred is fired. -/
theorem Lined.succeed (h : Lined (call :: rest) recorded l) (hcalled : call.called = false)
    (hatt : call.number ∈ attempts l) (m : Method) :
    Lined rest recorded (l ++ [.succeeded call.number m, .fired call.number]) := by
  have hlater : ∀ other ∈ rest, call.number < other.number :=
    (List.pairwise_cons.mp h.sorted).1
  have hnone : attempts [.succeeded call.number m, .fired call.number] = [] := rfl
  refine ⟨(List.pairwise_cons.mp h.sorted).2, fun other ho => h.below other (by simp [ho]), ?_, ?_,
    fun n => ?_, fun n k hk => ?_, fun n k hk => ?_, fun n => ?_, fun n => ?_, fun n => ?_⟩
  · intro n hn
    rw [attempts_append, hnone, List.append_nil] at hn
    exact ⟨(h.attempted n hn).1, fun other ho => (h.attempted n hn).2 other (by simp [ho])⟩
  · rw [attempts_append, hnone, List.append_nil]
    exact h.ordered
  · rw [List.count_append, h.fired n]
    by_cases hn : n = call.number
    · subst hn
      have hpending : ¬ (call.number < recorded ∧
          ∀ other ∈ call :: rest, other.number = call.number → other.called = true) := by
        intro hall
        have htrue := hall.2 call (by simp) rfl
        rw [hcalled] at htrue
        cases htrue
      have hdone : call.number < recorded ∧
          ∀ other ∈ rest, other.number = call.number → other.called = true :=
        ⟨h.below call (by simp), fun other ho he => absurd he (Nat.ne_of_gt (hlater other ho))⟩
      rw [if_neg hpending, if_pos hdone]
      simp
    · have hzero : [Entry.succeeded call.number m, .fired call.number].count (.fired n) = 0 := by
        simp [Ne.symm hn]
      rw [hzero, Nat.add_zero]
      congr 1
      refine propext ⟨fun hall => ⟨hall.1, fun other ho he => ?_⟩, fun hall => ⟨hall.1,
        fun other ho he => ?_⟩⟩
      · exact hall.2 other (by simp [ho]) he
      · obtain rfl | ho := List.mem_cons.mp ho
        · exact absurd he.symm hn
        · exact hall.2 other ho he
  · have hk : .failed n k ∈ l := by simpa using hk
    rw [attempts_append]
    exact List.mem_append_left _ (h.failed n k hk)
  · rw [attempts_append]
    obtain hk | hk := List.mem_append.mp hk
    · obtain ⟨hin, hne⟩ := h.succeeded n k hk
      exact ⟨List.mem_append_left _ hin, fun other ho => hne other (by simp [ho])⟩
    · have hn : n = call.number := by
        simp only [List.mem_cons, Entry.succeeded.injEq, List.not_mem_nil, or_false] at hk
        obtain hk | hk := hk
        · exact hk.1
        · cases hk
      subst hn
      exact ⟨List.mem_append_left _ hatt, fun other ho => Nat.ne_of_gt (hlater other ho)⟩
  · exact (h.never_again n).append (by simp [Performs])
  · obtain hf | ⟨other, ho, rfl⟩ := h.followed n
    · exact .inl (hf.append (by simp [Fails]))
    · obtain rfl | ho := List.mem_cons.mp ho
      · refine .inl ?_
        rw [List.append_cons]
        have hlast : Followed (Fails other.number) (Leaves other.number)
            (l ++ [.succeeded other.number m]) :=
          followed_concat l (.inl ⟨m, rfl⟩) (by simp [Fails])
        exact hlast.append (by simp [Fails])
      · exact .inr ⟨other, ho, rfl⟩
  · exact (h.retried n).append (by simp [PerformsOther])

/-- The first call fails, and stays the first one. Its Deferred is fired, unless it was
    before. -/
theorem Lined.fail (h : Lined (call :: rest) recorded l) (hatt : call.number ∈ attempts l)
    (m : Method) :
    Lined ({ call with called := true } :: rest) recorded
      (l ++ .failed call.number m :: if call.called then [] else [.fired call.number]) := by
  have hnone : attempts (.failed call.number m :: if call.called then [] else
      [.fired call.number]) = [] := by
    cases call.called <;> rfl
  have hes : ∀ e ∈ (Entry.failed call.number m :: if call.called then [] else
      [.fired call.number]), e = .failed call.number m ∨ e = .fired call.number := by
    intro e he
    cases hc : call.called with
    | true => exact .inl (by simpa [hc] using he)
    | false => simpa [hc] using he
  have hmem : ∀ other ∈ ({ call with called := true } : ProcessingCall) :: rest,
      ∃ o ∈ call :: rest, o.number = other.number := by
    intro other ho
    obtain rfl | ho := List.mem_cons.mp ho
    · exact ⟨call, by simp, rfl⟩
    · exact ⟨other, by simp [ho], rfl⟩
  refine ⟨List.pairwise_cons.mpr (List.pairwise_cons.mp h.sorted), ?_, ?_, ?_, fun n => ?_,
    fun n k hk => ?_, fun n k hk => ?_, fun n => ?_, fun n => ?_, fun n => ?_⟩
  · intro other ho
    obtain ⟨o, ho, he⟩ := hmem other ho
    rw [← he]
    exact h.below o ho
  · intro n hn
    rw [attempts_append, hnone, List.append_nil] at hn
    refine ⟨(h.attempted n hn).1, fun other ho => ?_⟩
    obtain ⟨o, ho, he⟩ := hmem other ho
    rw [← he]
    exact (h.attempted n hn).2 o ho
  · rw [attempts_append, hnone, List.append_nil]
    exact h.ordered
  · rw [List.count_append, h.fired n]
    by_cases hn : n = call.number
    · subst hn
      have hdone : call.number < recorded ∧ ∀ other ∈ ({ call with called := true } :
          ProcessingCall) :: rest, other.number = call.number → other.called = true := by
        refine ⟨h.below call (by simp), fun other ho he => ?_⟩
        obtain rfl | ho := List.mem_cons.mp ho
        · rfl
        · exact absurd he (Nat.ne_of_gt ((List.pairwise_cons.mp h.sorted).1 other ho))
      rw [if_pos hdone]
      cases hc : call.called with
      | true =>
        have hbefore : call.number < recorded ∧
            ∀ other ∈ call :: rest, other.number = call.number → other.called = true := by
          refine ⟨hdone.1, fun other ho he => ?_⟩
          obtain rfl | ho := List.mem_cons.mp ho
          · exact hc
          · exact hdone.2 other (by simp [ho]) he
        rw [if_pos hbefore]
        simp
      | false =>
        have hbefore : ¬ (call.number < recorded ∧
            ∀ other ∈ call :: rest, other.number = call.number → other.called = true) := by
          intro hall
          rw [hall.2 call (by simp) rfl] at hc
          cases hc
        rw [if_neg hbefore]
        simp
    · have hzero : (Entry.failed call.number m :: if call.called then [] else
          [.fired call.number]).count (.fired n) = 0 := by
        refine List.count_eq_zero.mpr fun he => ?_
        obtain he | he := hes _ he
        · cases he
        · cases he
          exact hn rfl
      rw [hzero, Nat.add_zero]
      congr 1
      refine propext ⟨fun hall => ⟨hall.1, fun other ho he => ?_⟩, fun hall => ⟨hall.1,
        fun other ho he => ?_⟩⟩
      · obtain rfl | ho := List.mem_cons.mp ho
        · rfl
        · exact hall.2 other (by simp [ho]) he
      · obtain rfl | ho := List.mem_cons.mp ho
        · exact absurd he.symm hn
        · exact hall.2 other (by simp [ho]) he
  · rw [attempts_append, hnone, List.append_nil]
    obtain hk | hk := List.mem_append.mp hk
    · exact h.failed n k hk
    · obtain he | he := hes _ hk
      · cases he
        exact hatt
      · cases he
  · rw [attempts_append, hnone, List.append_nil]
    obtain hk | hk := List.mem_append.mp hk
    · obtain ⟨hin, hne⟩ := h.succeeded n k hk
      refine ⟨hin, fun other ho => ?_⟩
      obtain ⟨o, ho, he⟩ := hmem other ho
      rw [← he]
      exact hne o ho
    · obtain he | he := hes _ hk
      · cases he
      · cases he
  · refine (h.never_again n).append fun e he => ?_
    obtain rfl | rfl := hes e he
    · simp [Performs]
    · simp [Performs]
  · by_cases hn : n = call.number
    · exact .inr ⟨_, List.mem_cons_self, hn.symm⟩
    · obtain hf | ⟨other, ho, he⟩ := h.followed n
      · refine .inl (hf.append fun e he => ?_)
        obtain rfl | rfl := hes e he
        · simpa [Fails] using Ne.symm hn
        · simp [Fails]
      · obtain rfl | ho := List.mem_cons.mp ho
        · exact absurd he.symm hn
        · exact .inr ⟨other, by simp [ho], he⟩
  · refine (h.retried n).append fun e he => ?_
    obtain rfl | rfl := hes e he
    · simp [PerformsOther]
    · simp [PerformsOther]

/-- Calls whose Deferred was fired are dropped. -/
theorem Lined.drop {q dropped : List ProcessingCall} (h : Lined p recorded l) (hq : q.Sublist p)
    (hdropped : ∀ call ∈ dropped, call ∈ p ∧ call.called = true)
    (hall : ∀ call ∈ p, call ∈ q ∨ call ∈ dropped) :
    Lined q recorded (l ++ dropped.map fun call => .dropped call.number) := by
  have hes : ∀ e ∈ dropped.map (fun call => Entry.dropped call.number), ∃ n, e = .dropped n := by
    intro e he
    obtain ⟨call, -, rfl⟩ := List.mem_map.mp he
    exact ⟨_, rfl⟩
  have hnone : attempts (dropped.map fun call => .dropped call.number) = [] := by
    refine List.filterMap_eq_nil_iff.mpr fun e he => ?_
    obtain ⟨n, rfl⟩ := hes e he
    rfl
  have hin : ∀ e, (∀ n, e ≠ .dropped n) → e ∈ l ++ dropped.map (fun call => .dropped call.number) →
      e ∈ l := by
    intro e hne he
    obtain he | he := List.mem_append.mp he
    · exact he
    · obtain ⟨n, rfl⟩ := hes e he
      exact absurd rfl (hne n)
  refine ⟨h.sorted.sublist hq, fun call hc => h.below call (hq.subset hc), ?_, ?_, fun n => ?_,
    fun n m hm => ?_, fun n m hm => ?_, fun n => ?_, fun n => ?_, fun n => ?_⟩
  · intro n hn
    rw [attempts_append, hnone, List.append_nil] at hn
    exact ⟨(h.attempted n hn).1, fun call hc => (h.attempted n hn).2 call (hq.subset hc)⟩
  · rw [attempts_append, hnone, List.append_nil]
    exact h.ordered
  · have hzero : (dropped.map fun call => Entry.dropped call.number).count (.fired n) = 0 := by
      refine List.count_eq_zero.mpr fun he => ?_
      obtain ⟨k, hk⟩ := hes _ he
      cases hk
    rw [List.count_append, hzero, Nat.add_zero, h.fired n]
    congr 1
    refine propext ⟨fun hn => ⟨hn.1, fun call hc => hn.2 call (hq.subset hc)⟩, fun hn =>
      ⟨hn.1, fun call hc he => ?_⟩⟩
    obtain hc | hc := hall call hc
    · exact hn.2 call hc he
    · exact (hdropped call hc).2
  · rw [attempts_append, hnone, List.append_nil]
    exact h.failed n m (hin _ (by simp) hm)
  · rw [attempts_append, hnone, List.append_nil]
    obtain ⟨hatt, hne⟩ := h.succeeded n m (hin _ (by simp) hm)
    exact ⟨hatt, fun call hc => hne call (hq.subset hc)⟩
  · refine (h.never_again n).append fun e he => ?_
    obtain ⟨k, rfl⟩ := hes e he
    simp [Performs]
  · obtain hf | ⟨call, hc, rfl⟩ := h.followed n
    · refine .inl (hf.append fun e he => ?_)
      obtain ⟨k, rfl⟩ := hes e he
      simp [Fails]
    · obtain hc | hc := hall call hc
      · exact .inr ⟨call, hc, rfl⟩
      · -- the entry for it, and what comes after that
        obtain ⟨xs, ys, rfl⟩ := List.append_of_mem hc
        rw [List.map_append, List.map_cons, List.append_cons, ← List.append_assoc,
          ← List.append_assoc]
        have hlast : Followed (Fails call.number) (Leaves call.number)
            (l ++ xs.map (fun call => Entry.dropped call.number) ++ [.dropped call.number]) :=
          followed_concat _ (.inr rfl) (by simp [Fails])
        exact .inl (hlast.append (by simp [Fails]))
  · refine (h.retried n).append fun e he => ?_
    obtain ⟨k, rfl⟩ := hes e he
    simp [PerformsOther]

/-! ## The loop -/

/-- One loop at a time: it is about to start, or performs a call. -/
structure Looping (s : Channel) : Prop where
  scheduled : s.scheduled = true → s.isProcessing = true ∧ s.current = none
  current : s.current ≠ none → s.isProcessing = true

variable {s t : Channel}

theorem Looping.processNext (h : Looping s) : Looping s.processNext := by
  unfold Channel.processNext
  split
  · exact h
  · rename_i hidle
    have hnone : s.current = none := by
      by_contra hne
      exact hidle (h.current hne)
    exact ⟨fun _ => ⟨rfl, hnone⟩, fun _ => rfl⟩

theorem Looping.callOnChannel (h : Looping s) (m : Method) : Looping (s.callOnChannel m) := by
  unfold Channel.callOnChannel
  split
  · exact h
  · apply Looping.processNext
    exact ⟨h.scheduled, h.current⟩

theorem performNext_looping (hprocessing : s.isProcessing = true)
    (hscheduled : s.scheduled = false) : Looping s.performNext := by
  unfold performNext
  split
  · refine ⟨fun hs => ?_, fun _ => hprocessing⟩
    have hs : s.scheduled = true := hs
    rw [hscheduled] at hs
    cases hs
  · refine ⟨fun hs => ?_, fun hne => absurd rfl hne⟩
    have hs : s.scheduled = true := hs
    rw [hscheduled] at hs
    cases hs

theorem answered_looping {call : ProcessingCall} {success : Bool}
    (hprocessing : s.isProcessing = true) (hscheduled : s.scheduled = false) :
    Looping (answered call success s) := by
  have herror : ∀ call s, s.scheduled = false → Looping (processingErrorHandler call s) := by
    intro call s hs
    refine ⟨fun htrue => ?_, fun hne => absurd rfl hne⟩
    have htrue : s.scheduled = true := htrue
    rw [hs] at htrue
    cases htrue
  unfold answered
  split
  · exact herror _ _ hscheduled
  · dsimp only
    split
    · exact performNext_looping hprocessing hscheduled
    · exact herror _ _ hscheduled

theorem step_looping {e : Event} (h : Looping s) (hstep : Defined step s e t) : Looping t := by
  cases e with
  | call m =>
    obtain rfl := Option.some.inj hstep
    exact h.callOnChannel m
  | started =>
    dsimp only [Defined, step] at hstep
    split at hstep
    · rename_i hs
      obtain rfl := Option.some.inj hstep
      exact performNext_looping (h.scheduled hs).1 rfl
    · cases hstep
  | answered success =>
    dsimp only [Defined, step, answer] at hstep
    have hbusy : s.current ≠ none → s.isProcessing = true ∧ s.scheduled = false := by
      intro hne
      refine ⟨h.current hne, ?_⟩
      by_contra hs
      exact hne (h.scheduled (by simpa using hs)).2
    split at hstep
    · rename_i hc
      have hb := hbusy (by simp [hc])
      split at hstep
      · obtain rfl := Option.some.inj hstep
        refine ⟨fun hs => ?_, fun _ => hb.1⟩
        have hs : s.scheduled = true := hs
        rw [hb.2] at hs
        cases hs
      · obtain rfl := Option.some.inj hstep
        exact answered_looping hb.1 hb.2
    · rename_i hc
      have hb := hbusy (by simp [hc])
      split at hstep
      · obtain rfl := Option.some.inj hstep
        exact answered_looping hb.1 hb.2
      · obtain rfl := Option.some.inj hstep
        exact answered_looping hb.1 hb.2
    · rename_i hc
      have hb := hbusy (by simp [hc])
      split at hstep
      · obtain rfl := Option.some.inj hstep
        exact answered_looping hb.1 hb.2
      · cases hstep
    · cases hstep
  | lost =>
    obtain rfl := Option.some.inj hstep
    exact ⟨h.scheduled, h.current⟩
  | connected =>
    obtain rfl := Option.some.inj hstep
    exact ⟨h.scheduled, h.current⟩
  | configured =>
    dsimp only [Defined, step] at hstep
    split at hstep
    · obtain rfl := Option.some.inj hstep
      apply Looping.callOnChannel
      apply Looping.processNext
      exact ⟨h.scheduled, h.current⟩
    · cases hstep

/-! ## Steps and runs -/

/-- The calls of a channel are lined up, and the one that is performed is in the log. -/
structure Good (s : Channel) : Prop where
  lined : Lined s.pending s.recorded.length s.log
  current : ∀ call rest, s.current = some (call, rest) → call.number ∈ attempts s.log

theorem Good.once (h : Good s) : Once s where
  ordered := h.lined.ordered
  retried := h.lined.retried
  removed n m hm := (h.lined.succeeded n m hm).2
  never_again := h.lined.never_again
  at_most_once n := by
    rw [h.lined.fired n]
    split
    · exact le_refl _
    · exact Nat.zero_le _
  fired n hn hgone := by
    rw [h.lined.fired n, if_pos ⟨hn, fun call hc he => absurd he (hgone call hc)⟩]

theorem good_new : Good new := by
  refine ⟨lined_nil, fun call rest hc => ?_⟩
  cases hc

/-- What touches neither the calls nor the log. -/
theorem Good.same (h : Good s) (hcurrent : t.current = s.current)
    (hchain : t.processingChain = s.processingChain) (hrecorded : t.recorded = s.recorded)
    (hlog : t.log = s.log) : Good t := by
  refine ⟨?_, fun call rest hc => ?_⟩
  · have hpending : t.pending = s.pending := by
      unfold pending
      rw [hcurrent, hchain]
    rw [hpending, hrecorded, hlog]
    exact h.lined
  · rw [hlog]
    rw [hcurrent] at hc
    exact h.current call rest hc

theorem Good.processNext (h : Good s) : Good s.processNext := by
  unfold Channel.processNext
  split
  · exact h
  · exact h.same rfl rfl rfl rfl

theorem Good.callOnChannel (h : Good s) (m : Method) : Good (s.callOnChannel m) := by
  unfold Channel.callOnChannel
  split
  · exact h
  · apply Good.processNext
    refine ⟨?_, h.current⟩
    have hrecorded := h.lined.record m
    rw [pending, List.append_assoc] at hrecorded
    show Lined _ (s.recorded ++ [m]).length s.log
    rw [List.length_append]
    exact hrecorded

/-- The loop goes on when no call is in hand. -/
theorem performNext_good (h : Lined s.processingChain s.recorded.length s.log) : Good s.performNext := by
  unfold performNext
  split
  · rename_i call rest _ hchain
    rw [hchain] at h
    refine ⟨h.perform call.method _, fun call' rest' hc => ?_⟩
    cases hc
    refine mem_attempts.mpr ⟨call.method, (stages call.method s.bindingsCount).head?, ?_⟩
    exact List.mem_append_right _ (List.mem_singleton_self _)
  · refine ⟨h, fun call rest hc => ?_⟩
    cases hc

theorem answer_good {success : Bool} (h : Good s)
    (hguard : Undisturbed s (.answered success)) (hstep : answer success s = some t) : Good t := by
  have hfail : ∀ call rest, s.current = some (call, rest) →
      Good (answered call false (record [.failed call.number call.method] s)) := by
    intro call rest hc
    have hlined := h.lined
    rw [pending, hc] at hlined
    have hafter := hlined.fail (h.current call rest hc) call.method
    unfold answered
    cases hcalled : call.called with
    | true =>
      have hsame : ({ call with called := true } : ProcessingCall) = call := by
        rw [← hcalled]
      rw [hcalled, hsame] at hafter
      refine ⟨hafter, fun call' rest' hc' => ?_⟩
      cases hc'
    | false =>
      rw [hcalled] at hafter
      refine ⟨?_, fun call' rest' hc' => by cases hc'⟩
      show Lined _ s.recorded.length (s.log ++ [_] ++ [_])
      rw [List.append_assoc]
      exact hafter
  have hsucceed : ∀ call rest, s.current = some (call, rest) → rest.length ≤ 1 → success = true →
      Good (answered call true (record [.succeeded call.number call.method] s)) := by
    intro call rest hc hlen hs
    have hcalled := hguard hs call rest hc hlen
    have hlined := h.lined
    rw [pending, hc] at hlined
    have hafter := hlined.succeed hcalled (h.current call rest hc) call.method
    unfold answered
    rw [if_neg (by simp [hcalled])]
    dsimp only
    rw [if_pos rfl]
    refine performNext_good ?_
    show Lined s.processingChain s.recorded.length (s.log ++ [_] ++ [_])
    rw [List.append_assoc]
    exact hafter
  unfold answer at hstep
  split at hstep
  · rename_i call first next rest hc
    split at hstep
    · obtain rfl := Option.some.inj hstep
      refine ⟨?_, fun call' rest' hc' => ?_⟩
      · have hlined := h.lined
        rw [pending, hc] at hlined
        exact hlined.noted (by simp)
      · cases hc'
        have hin := h.current _ _ hc
        show _ ∈ attempts (s.log ++ _)
        rw [attempts_append]
        exact List.mem_append_left _ hin
    · obtain rfl := Option.some.inj hstep
      exact hfail call _ hc
  · rename_i call request hc
    split at hstep
    · rename_i hs
      obtain rfl := Option.some.inj hstep
      exact hsucceed call _ hc (le_refl _) hs
    · obtain rfl := Option.some.inj hstep
      exact hfail call _ hc
  · rename_i call hc
    split at hstep
    · rename_i hs
      obtain rfl := Option.some.inj hstep
      exact hsucceed call _ hc (Nat.zero_le _) hs
    · cases hstep
  · cases hstep

/-- What stays in the chain at a reconnection, and what does not. -/
theorem onConfigured_good (h : Good s) (hguard : Undisturbed s .connected) :
    Good s.onConfigured := by
  refine ⟨?_, fun call rest hc => ?_⟩
  · refine h.lined.drop (.append_left List.filter_sublist _) (fun call hc => ?_) fun call hc => ?_
    · obtain ⟨hin, hforget⟩ := List.mem_filter.mp hc
      exact ⟨List.mem_append_right _ hin, hguard call hin (by simpa using hforget)⟩
    · obtain hc | hc := List.mem_append.mp hc
      · exact .inl (List.mem_append_left _ hc)
      · cases hkeep : call.method.rememberBetweenConnections with
        | true => exact .inl (List.mem_append_right _ (List.mem_filter.mpr ⟨hc, hkeep⟩))
        | false => exact .inr (List.mem_filter.mpr ⟨hc, by simp [hkeep]⟩)
  · show _ ∈ attempts (s.log ++ _)
    rw [attempts_append]
    exact List.mem_append_left _ (h.current call rest hc)

theorem step_good {e : Event} (h : Good s) (hloop : Looping s) (hguard : Undisturbed s e)
    (hstep : Defined step s e t) : Good t := by
  cases e with
  | call m =>
    obtain rfl := Option.some.inj hstep
    exact h.callOnChannel m
  | started =>
    dsimp only [Defined, step] at hstep
    split at hstep
    · rename_i hs
      obtain rfl := Option.some.inj hstep
      refine performNext_good ?_
      have hlined := h.lined
      rw [pending, (hloop.scheduled hs).2] at hlined
      exact hlined
    · cases hstep
  | answered success => exact answer_good h hguard hstep
  | lost =>
    obtain rfl := Option.some.inj hstep
    exact h.same rfl rfl rfl rfl
  | connected =>
    obtain rfl := Option.some.inj hstep
    exact onConfigured_good h hguard
  | configured =>
    dsimp only [Defined, step] at hstep
    split at hstep
    · obtain rfl := Option.some.inj hstep
      apply Good.callOnChannel
      apply Good.processNext
      exact h.same rfl rfl rfl rfl
    · cases hstep

/-- A step that is disturbed is seen at once. -/
theorem step_not_once {e : Event} (h : Good s) (hguard : ¬ Undisturbed s e)
    (hstep : Defined step s e t) : ¬ Once t := by
  intro honce
  cases e with
  | answered success =>
    simp only [Undisturbed, Classical.not_imp, not_forall] at hguard
    obtain ⟨rfl, call, rest, hc, hlen, hcalled⟩ := hguard
    have hcalled : call.called = true := by simpa using hcalled
    -- the call stays in the chain though it succeeded
    have ht : t = processingErrorHandler call
        (record [.succeeded call.number call.method] s) := by
      have hanswered : answer true s =
          some (answered call true (record [.succeeded call.number call.method] s)) := by
        unfold answer
        cases rest with
        | nil => rw [hc]; rfl
        | cons request rest =>
          cases rest with
          | nil => rw [hc]; rfl
          | cons next rest => simp at hlen
      rw [Defined, step, hanswered] at hstep
      obtain rfl := Option.some.inj hstep
      unfold answered
      rw [if_pos hcalled]
    subst ht
    refine honce.removed call.number call.method ?_ call ?_ rfl
    · show _ ∈ s.log ++ _
      simp
    · show call ∈ [] ++ call :: s.processingChain
      simp
  | connected =>
    simp only [Undisturbed, not_forall] at hguard
    obtain ⟨call, hin, hforget, hcalled⟩ := hguard
    obtain rfl := Option.some.inj hstep
    have hpending : call ∈ s.pending := List.mem_append_right _ hin
    have hgone : ∀ other ∈ s.onConfigured.pending, other.number ≠ call.number := by
      intro other ho he
      have hother : other ∈ s.pending := by
        obtain ho | ho := List.mem_append.mp ho
        · exact List.mem_append_left _ ho
        · exact List.mem_append_right _ (List.mem_filter.mp ho).1
      obtain rfl := h.lined.number_inj hother hpending he
      obtain ho | ho := List.mem_append.mp ho
      · -- the call in hand comes before those of the chain
        have hlt := (List.pairwise_append.mp h.lined.sorted).2.2 other ho other hin
        exact absurd hlt (Nat.lt_irrefl _)
      · have hkeep := (List.mem_filter.mp ho).2
        simp [hforget] at hkeep
    have hcount := honce.fired call.number (h.lined.below call hpending) hgone
    have hnone : ∀ l : List ProcessingCall,
        (l.map fun call => Entry.dropped call.number).count (.fired call.number) = 0 := by
      intro l
      exact List.count_eq_zero.mpr (by simp)
    have hbefore := h.lined.fired call.number
    rw [if_neg fun hall => hcalled (hall.2 call hpending rfl)] at hbefore
    have hafter : (s.log ++ _).count (Entry.fired call.number) = 1 := hcount
    rw [List.count_append, hbefore, hnone] at hafter
    cases hafter
  | call m => exact hguard trivial
  | started => exact hguard trivial
  | lost => exact hguard trivial
  | configured => exact hguard trivial

/-- A channel performs each call once, and in order, throughout a run if and only if no
    call succeeds in it that failed before, and none is dropped that was not performed. -/
theorem calls_once_iff {es : List Event} :
    Run (Ending Once (Defined step)) new es s ↔
      Run (Guarded Undisturbed (Defined step)) new es s := by
  symm
  refine run_guarded_iff (fun s (h : Good s ∧ Looping s) => h.1.once) ?_ ?_
    ⟨good_new, fun hs => by (cases hs), fun hne => absurd rfl hne⟩
  · exact fun _ _ _ h hguard hstep => ⟨step_good h.1 h.2 hguard hstep, step_looping h.2 hstep⟩
  · exact fun _ _ _ h hguard hstep => step_not_once h.1 hguard hstep

/-- An exchange is defined while the connection is lost. The call succeeds after the
    reconnection, and is performed again after the next one. -/
theorem performed_again : ∃ s, Run (Defined step) new
      [.call (.defineExchange "e" "direct"), .connected, .configured, .started, .lost,
        .answered false, .connected, .configured, .started, .answered true, .lost, .connected,
        .configured, .started] s ∧ ¬ Once s := by
  obtain ⟨s, hs, hlog⟩ : ∃ s, ([.call (.defineExchange "e" "direct"), .connected, .configured,
        .started, .lost, .answered false, .connected, .configured, .started, .answered true,
        .lost, .connected, .configured, .started] : List Event).foldlM step new = some s ∧
      decide (s.current.isSome = true ∧
        Entry.succeeded 0 (.defineExchange "e" "direct") ∈ s.log ∧
        ∃ call ∈ s.pending, call.number = 0) = true := by
    apply Option.map_eq_some_iff.mp
    decide +kernel
  obtain ⟨-, hsucceeded, call, hin, hnumber⟩ := of_decide_eq_true hlog
  exact ⟨s, run_defined hs, fun h => h.removed 0 _ hsucceeded call hin hnumber⟩

end Feat.Messaging.Channel
