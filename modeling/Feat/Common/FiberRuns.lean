import Feat.Common.Fiber

/- That the Deferreds of a fiber do what the fiber means.

   `_prepare` lays the Deferreds of the chained fibers out behind the first (`region`), where
   nothing but the turn of each touches them. A Deferred that is at work changes only
   itself, those laid out for it, and new ones (`Untouched`). -/
namespace Feat.Fibers
open Transition

variable {C V E K W : Type} {F : Functions C V E K W}

/-! ## How Deferreds are laid out -/

/-- The callbacks of a Deferred, when those of the fibers chained are made from number `n` on. -/
def entries (canceller : Option K) : Calls C V E K → Nat → List (Entry C V E K)
  | .nil, _ => []
  | .callbacks callback errback rest, n =>
    .wrapped canceller callback errback :: entries canceller rest n
  | .chain trigger _ inner rest, n =>
    .onChain trigger n :: entries canceller rest (n + 1 + inner.size)

/-- The Deferreds of the fibers chained. -/
def region : Calls C V E K → Nat → List (List (Entry C V E K))
  | .nil, _ => []
  | .callbacks _ _ rest, n => region rest n
  | .chain _ canceller inner rest, n =>
    entries canceller inner (n + 1) :: (region inner (n + 1) ++ region rest (n + 1 + inner.size))

@[simp] theorem region_length (calls : Calls C V E K) (n : Nat) :
    (region calls n).length = calls.size := by
  induction calls generalizing n with
  | nil => rfl
  | callbacks callback errback rest ih => exact ih n
  | chain trigger canceller inner rest ihinner ihrest =>
    simp only [region, Calls.size, List.length_cons, List.length_append, ihinner, ihrest]
    omega

theorem modify_append_left {α : Type} {l l' : List α} {d : Nat} (h : d < l.length) (f : α → α) :
    (l ++ l').modify d f = l.modify d f ++ l' := by
  induction l generalizing d with
  | nil => simp at h
  | cons a l ih =>
    cases d with
    | zero => rfl
    | succ d =>
      have hlt : d < l.length := by simpa using h
      simp [ih hlt]

theorem modify_snoc {α : Type} (l : List α) (a : α) (f : α → α) :
    (l ++ [a]).modify l.length f = l ++ [f a] := by
  induction l with
  | nil => rfl
  | cons b l ih => simp [ih]

theorem prepare_eq (canceller : Option K) (calls : Calls C V E K) {d : Nat}
    {heap : List (List (Entry C V E K))} (h : d < heap.length) :
    prepare canceller calls d heap =
      heap.modify d (· ++ entries canceller calls heap.length) ++ region calls heap.length := by
  induction calls generalizing canceller d heap with
  | nil =>
    simp only [prepare, entries, region, List.append_nil]
    exact (List.modify_id d heap).symm
  | callbacks callback errback rest ih =>
    simp only [prepare]
    rw [ih canceller (by simpa using h), List.modify_modify_eq, List.length_modify]
    simp [entries, region, Function.comp_def]
  | chain trigger canceller' inner rest ihinner ihrest =>
    have hlast : heap.length < (heap ++ [([] : List (Entry C V E K))]).length := by simp
    have hinner := ihinner canceller' hlast
    rw [modify_snoc, List.nil_append, List.length_append, List.length_singleton] at hinner
    simp only [prepare]
    rw [hinner, List.append_assoc, modify_append_left h]
    have hlength : (heap.modify d (· ++ [.onChain trigger heap.length]) ++
        ([entries canceller' inner (heap.length + 1)] ++ region inner (heap.length + 1))).length =
          heap.length + 1 + inner.size := by
      simp only [List.length_append, List.length_modify, List.length_singleton, region_length]
      omega
    rw [ihrest canceller (by rw [hlength]; omega), hlength,
      modify_append_left (by simpa using h), List.modify_modify_eq]
    simp [entries, region, Function.comp_def]

variable {heap heap' heap₁ : List (List (Entry C V E K))} {d n size : Nat}
  {canceller canceller' : Option K} {callback errback : Option C} {trigger : Option (Result V E)}
  {calls inner rest : Calls C V E K}

/-- The Deferreds of the fibers chained are in place. -/
def Laid (heap : List (List (Entry C V E K))) (n : Nat) (calls : Calls C V E K) : Prop :=
  ∀ i, i < calls.size → heap[n + i]? = (region calls n)[i]?

/-- A Deferred has these calls to do. -/
structure Ready (heap : List (List (Entry C V E K))) (d n : Nat) (canceller : Option K)
    (calls : Calls C V E K) : Prop where
  own : heap[d]? = some (entries canceller calls n)
  laid : Laid heap n calls
  before : d < n
  within : n + calls.size ≤ heap.length

/-- Nothing has changed but one Deferred, `size` ones from number `n` on, and new ones. -/
structure Untouched (heap heap' : List (List (Entry C V E K))) (d n size : Nat) : Prop where
  grown : heap.length ≤ heap'.length
  same : ∀ i, i < heap.length → i ≠ d → (i < n ∨ n + size ≤ i) → heap'[i]? = heap[i]?

theorem Laid.congr (h : Laid heap n calls)
    (hsame : ∀ i, n ≤ i → i < n + calls.size → heap'[i]? = heap[i]?) : Laid heap' n calls := by
  intro i hi
  rw [hsame (n + i) (by omega) (by omega)]
  exact h i hi

theorem Laid.chain (h : Laid heap n (.chain trigger canceller inner rest)) :
    heap[n]? = some (entries canceller inner (n + 1)) ∧ Laid heap (n + 1) inner ∧
      Laid heap (n + 1 + inner.size) rest := by
  have hsize : (Calls.chain trigger canceller inner rest).size = 1 + inner.size + rest.size := rfl
  refine ⟨?_, fun i hi => ?_, fun i hi => ?_⟩
  · have hfirst := h 0 (by omega)
    simpa [region] using hfirst
  · have hat := h (i + 1) (by omega)
    rw [show n + 1 + i = n + (i + 1) by omega, hat]
    simp only [region, List.getElem?_cons_succ]
    rw [List.getElem?_append_left (by simpa using hi)]
  · have hat := h (inner.size + i + 1) (by omega)
    rw [show n + 1 + inner.size + i = n + (inner.size + i + 1) by omega, hat]
    simp only [region, List.getElem?_cons_succ]
    rw [List.getElem?_append_right (by simp)]
    simp

/-- A fiber that is started is ready. -/
theorem Ready.start (heap : List (List (Entry C V E K))) (f : Fiber C V E K) :
    Ready (prepare f.canceller f.calls heap.length (heap ++ [[]])) heap.length (heap.length + 1)
        f.canceller f.calls ∧
      ∀ i, i < heap.length →
        (prepare f.canceller f.calls heap.length (heap ++ [[]]))[i]? = heap[i]? := by
  have hlast : heap.length < (heap ++ [([] : List (Entry C V E K))]).length := by simp
  have heq := prepare_eq f.canceller f.calls hlast
  rw [modify_snoc, List.nil_append, List.length_append, List.length_singleton] at heq
  rw [heq]
  refine ⟨⟨?_, fun i hi => ?_, Nat.lt_succ_self _, ?_⟩, fun i hi => ?_⟩
  · rw [List.append_assoc, List.getElem?_append_right (Nat.le_refl _), Nat.sub_self]
    rfl
  · rw [List.getElem?_append_right (by simp)]
    simp
  · simp only [List.length_append, List.length_singleton, region_length]
    omega
  · rw [List.append_assoc, List.getElem?_append_left hi]

/-! ## One callback -/

theorem Untouched.refl (heap : List (List (Entry C V E K))) (d n size : Nat) :
    Untouched heap heap d n size := ⟨Nat.le_refl _, fun _ _ _ _ => rfl⟩

theorem Untouched.set {left : List (Entry C V E K)}
    (h : Untouched (heap.set d left) heap' d n size) : Untouched heap heap' d n size where
  grown := by simpa using h.grown
  same := by
    intro i hi hd hout
    rw [h.same i (by simpa using hi) hd hout, List.getElem?_set_ne (fun heq => hd heq.symm)]

/-- The first callback of a Deferred is taken. -/
theorem Ready.callbacks
    (h : Ready heap d n canceller (.callbacks callback errback rest)) :
    Ready (heap.set d (entries canceller rest n)) d n canceller rest where
  own := by
    obtain ⟨hlt, -⟩ := List.getElem?_eq_some_iff.mp h.own
    exact List.getElem?_set_self hlt
  laid := by
    have hbefore := h.before
    have hrest : Laid heap n rest := h.laid
    exact hrest.congr fun i hi _ => List.getElem?_set_ne (by omega)
  before := h.before
  within := by
    rw [List.length_set]
    exact h.within

/-- Other Deferreds were at work, from number `m` on. -/
theorem Ready.untouched (h : Ready heap d n canceller calls)
    (hgrown : heap.length ≤ heap'.length)
    (hsame : ∀ i, i < heap.length → i = d ∨ n ≤ i → heap'[i]? = heap[i]?) :
    Ready heap' d n canceller calls where
  own := by
    obtain ⟨hlt, -⟩ := List.getElem?_eq_some_iff.mp h.own
    rw [hsame d hlt (.inl rfl)]
    exact h.own
  laid := h.laid.congr fun i hi hlt => by
    have hwithin := h.within
    exact hsame i (by omega) (.inr hi)
  before := h.before
  within := Nat.le_trans h.within hgrown

/-- The first callback of a Deferred is the one for a chained fiber, which is ready. -/
theorem Ready.chain
    (h : Ready heap d n canceller (.chain trigger canceller' inner rest)) :
    Ready (heap.set d (entries canceller rest (n + 1 + inner.size))) n (n + 1) canceller' inner ∧
      Ready (heap.set d (entries canceller rest (n + 1 + inner.size))) d (n + 1 + inner.size)
        canceller rest := by
  obtain ⟨hown, hinner, hrest⟩ := h.laid.chain
  have hbefore := h.before
  have hwithin := h.within
  have hsize : (Calls.chain trigger canceller' inner rest).size = 1 + inner.size + rest.size := rfl
  obtain ⟨hlt, -⟩ := List.getElem?_eq_some_iff.mp h.own
  refine ⟨⟨?_, ?_, by omega, ?_⟩, ⟨List.getElem?_set_self hlt, ?_, by omega, ?_⟩⟩
  · rw [List.getElem?_set_ne (by omega)]
    exact hown
  · exact hinner.congr fun i _ _ => List.getElem?_set_ne (by omega)
  · rw [List.length_set]
    omega
  · exact hrest.congr fun i _ _ => List.getElem?_set_ne (by omega)
  · rw [List.length_set]
    omega

/-- A fiber that was started for the first callback is through. -/
theorem Ready.started {f : Fiber C V E K}
    (h : Ready heap d n canceller (.callbacks callback errback rest))
    (hinner : Untouched (prepare f.canceller f.calls (heap.set d (entries canceller rest n)).length
      (heap.set d (entries canceller rest n) ++ [[]])) heap₁
        (heap.set d (entries canceller rest n)).length
        ((heap.set d (entries canceller rest n)).length + 1) f.calls.size) :
    Ready heap₁ d n canceller rest ∧
      ∀ {heap₂}, Untouched heap₁ heap₂ d n rest.size → Untouched heap heap₂ d n rest.size := by
  obtain ⟨hstarted, hsame⟩ := Ready.start (heap.set d (entries canceller rest n)) f
  have hgrown := hinner.grown
  have hwithin := hstarted.within
  have hkept : ∀ i, i < (heap.set d (entries canceller rest n)).length →
      heap₁[i]? = (heap.set d (entries canceller rest n))[i]? := by
    intro i hi
    rw [hinner.same i (by omega) (by omega) (.inl (by omega)), hsame i hi]
  refine ⟨h.callbacks.untouched (by omega) fun i hi _ => hkept i hi, fun {heap₂} hrest => ?_⟩
  have hlater := hrest.grown
  have htaken : Untouched (heap.set d (entries canceller rest n)) heap₂ d n rest.size := by
    refine ⟨by omega, fun i hi hd hout => ?_⟩
    rw [hrest.same i (by omega) hd hout, hkept i hi]
  exact htaken.set

/-- A chained fiber is through. -/
theorem Ready.chained
    (h : Ready heap d n canceller (.chain trigger canceller' inner rest))
    (hinner : Untouched (heap.set d (entries canceller rest (n + 1 + inner.size))) heap₁ n (n + 1)
      inner.size) :
    Ready heap₁ d (n + 1 + inner.size) canceller rest ∧
      ∀ {heap₂}, Untouched heap₁ heap₂ d (n + 1 + inner.size) rest.size →
        Untouched heap heap₂ d n (1 + inner.size + rest.size) := by
  have hbefore := h.before
  have hgrown := hinner.grown
  refine ⟨h.chain.2.untouched hgrown fun i hi hout => hinner.same i hi (by omega) (by omega),
    fun {heap₂} hrest => ?_⟩
  have hlater := hrest.grown
  have htaken : Untouched (heap.set d (entries canceller rest (n + 1 + inner.size))) heap₂ d n
      (1 + inner.size + rest.size) := by
    refine ⟨by omega, fun i hi hd hout => ?_⟩
    rw [hrest.same i (by omega) hd (by omega), hinner.same i hi (by omega) (by omega)]
  exact htaken.set

variable {stack : List Nat} {result result' : Result V E} {w w' : W}
  {log called : List (C × Result V E)} {events : List (Result V E × W)}
  {acts : List (Option (Result V E × W))} {m m' : Machine C V E K W}

theorem advance_nil (stack : List Nat) (result : Result V E) (w : W) (log : List (C × Result V E))
    (h : Ready heap d n canceller .nil) :
    Machine.advance F ⟨heap, d :: stack, .running result, w, log⟩ =
      some ⟨heap, stack, .running result, w, log⟩ := by
  simp [Machine.advance, h.own, entries]

theorem advance_callbacks (stack : List Nat) (log : List (C × Result V E)) {w₁ : W}
    {outcome : Outcome C V E K}
    (hattend : attend F canceller callback errback result w = (w₁, called, outcome))
    (h : Ready heap d n canceller (.callbacks callback errback rest)) :
    Machine.advance F ⟨heap, d :: stack, .running result, w, log⟩ =
      some (Machine.settle ⟨heap.set d (entries canceller rest n), d :: stack, .running result, w₁,
        log ++ called⟩ outcome) := by
  simp [Machine.advance, h.own, entries, hattend]

theorem advance_chain (stack : List Nat) (result : Result V E) (w : W)
    (log : List (C × Result V E))
    (h : Ready heap d n canceller (.chain trigger canceller' inner rest)) :
    Machine.advance F ⟨heap, d :: stack, .running result, w, log⟩ =
      some ⟨heap.set d (entries canceller rest (n + 1 + inner.size)), n :: d :: stack,
        .running (trigger.getD result), w, log⟩ := by
  simp [Machine.advance, h.own, entries]

/-! ## From the meaning to the Deferreds -/

/-- The Deferreds work off the calls of the one at the top. -/
def Works (F : Functions C V E K W) (heap : List (List (Entry C V E K))) (d n size : Nat)
    (stack : List Nat) (result : Result V E) (w : W) (log : List (C × Result V E))
    (events : List (Result V E × W)) (called : List (C × Result V E)) (result' : Result V E)
    (w' : W) : Prop :=
  ∃ heap' acts, Untouched heap heap' d n size ∧ fires acts = events ∧
    Run (Defined (Machine.step F)) ⟨heap, d :: stack, .running result, w, log⟩ acts
      ⟨heap', stack, .running result', w', log ++ called⟩

@[simp] theorem fires_none (acts : List (Option (Result V E × W))) :
    fires (none :: acts) = fires acts := rfl

@[simp] theorem fires_some (event : Result V E × W) (acts : List (Option (Result V E × W))) :
    fires (some event :: acts) = event :: fires acts := rfl

@[simp] theorem fires_append (acts acts' : List (Option (Result V E × W))) :
    fires (acts ++ acts') = fires acts ++ fires acts' := by
  simp [fires, List.reduceOption_append]

theorem means_works (h : Means F canceller calls result w events called result' w') :
    ∀ {heap d n} (stack : List Nat) (log : List (C × Result V E)),
      Ready heap d n canceller calls →
        Works F heap d n calls.size stack result w log events called result' w' := by
  induction h with
  | nil canceller result w =>
    intro heap d n stack log hready
    refine ⟨heap, [none], .refl _ _ _ _, rfl, ?_⟩
    rw [List.append_nil]
    exact .cons (advance_nil _ _ _ _ hready) (.nil _)
  | now hattend hrest ih =>
    intro heap d n stack log hready
    obtain ⟨heap', acts, huntouched, hfires, hrun⟩ := ih stack _ hready.callbacks
    refine ⟨heap', none :: acts, huntouched.set, hfires, ?_⟩
    rw [← List.append_assoc]
    exact .cons (advance_callbacks stack log hattend hready) hrun
  | deferred hattend hrest ih =>
    intro heap d n stack log hready
    obtain ⟨heap', acts, huntouched, hfires, hrun⟩ := ih stack _ hready.callbacks
    refine ⟨heap', none :: some _ :: acts, huntouched.set, congrArg _ hfires, ?_⟩
    rw [← List.append_assoc]
    exact .cons (advance_callbacks stack log hattend hready) (.cons rfl hrun)
  | fiber hattend htrigger hinner hrest ihinner ihrest =>
    intro heap d n stack log hready
    have hfirst := advance_callbacks stack log hattend hready
    simp only [Machine.settle, htrigger] at hfirst
    obtain ⟨heap₁, acts₁, huntouched₁, hfires₁, hrun₁⟩ := ihinner (d :: stack) _ (Ready.start _ _).1
    obtain ⟨hready₁, huntouched⟩ := hready.started huntouched₁
    obtain ⟨heap₂, acts₂, huntouched₂, hfires₂, hrun₂⟩ := ihrest stack _ hready₁
    refine ⟨heap₂, none :: (acts₁ ++ acts₂), huntouched huntouched₂, by simp [hfires₁, hfires₂], ?_⟩
    rw [← List.append_assoc, ← List.append_assoc]
    exact .cons hfirst (hrun₁.append hrun₂)
  | untriggered hattend htrigger hrest ih =>
    intro heap d n stack log hready
    have hfirst := advance_callbacks stack log hattend hready
    simp only [Machine.settle, htrigger] at hfirst
    obtain ⟨heap', acts, huntouched, hfires, hrun⟩ := ih stack _ hready.callbacks
    refine ⟨heap', none :: acts, huntouched.set, hfires, ?_⟩
    rw [← List.append_assoc]
    exact .cons hfirst hrun
  | chain hinner hrest ihinner ihrest =>
    intro heap d n stack log hready
    obtain ⟨heap₁, acts₁, huntouched₁, hfires₁, hrun₁⟩ := ihinner (d :: stack) log hready.chain.1
    obtain ⟨hready₁, huntouched⟩ := hready.chained huntouched₁
    obtain ⟨heap₂, acts₂, huntouched₂, hfires₂, hrun₂⟩ := ihrest stack _ hready₁
    refine ⟨heap₂, none :: (acts₁ ++ acts₂), huntouched huntouched₂, by simp [hfires₁, hfires₂], ?_⟩
    rw [← List.append_assoc]
    exact .cons (advance_chain _ _ _ _ hready) (hrun₁.append hrun₂)

/-! ## From the Deferreds to the meaning -/

/-- The first Deferred has its result. -/
def Machine.Finished (m : Machine C V E K W) (result : Result V E) (w : W)
    (log : List (C × Result V E)) : Prop :=
  ∃ heap, m = ⟨heap, [], .running result, w, log⟩

/-- A Deferred with a result goes on by itself. -/
theorem run_running
    (hrun : Run (Defined (Machine.step F)) ⟨heap, stack, .running result, w, log⟩ acts m')
    (hnext : Machine.advance F ⟨heap, stack, .running result, w, log⟩ = some m)
    (hdone : stack = [] → False) (hlast : m'.stack = []) :
    ∃ acts', acts = none :: acts' ∧ Run (Defined (Machine.step F)) m acts' m' := by
  cases hrun with
  | nil => exact (hdone hlast).elim
  | @cons _ u _ act acts' hstep hrest =>
    cases act with
    | none =>
      have heq : Machine.advance F ⟨heap, stack, .running result, w, log⟩ = some u := hstep
      rw [hnext] at heq
      cases heq
      exact ⟨acts', rfl, hrest⟩
    | some event =>
      have hfired : Machine.fired ⟨heap, stack, .running result, w, log⟩ event.1 event.2 = some u :=
        hstep
      simp [Machine.fired] at hfired

/-- A Deferred that waits goes on when it is fired. -/
theorem run_waiting
    (hrun : Run (Defined (Machine.step F)) ⟨heap, stack, .waiting, w, log⟩ acts m')
    (hstack : stack = [] → False) (hlast : m'.stack = []) :
    ∃ result w' acts', acts = some (result, w') :: acts' ∧
      Run (Defined (Machine.step F)) ⟨heap, stack, .running result, w', log⟩ acts' m' := by
  cases hrun with
  | nil => exact (hstack hlast).elim
  | @cons _ u _ act acts' hstep hrest =>
    cases act with
    | none =>
      have heq : Machine.advance F ⟨heap, stack, .waiting, w, log⟩ = some u := hstep
      simp [Machine.advance] at heq
    | some event =>
      have hfired : Machine.fired ⟨heap, stack, .waiting, w, log⟩ event.1 event.2 = some u := hstep
      simp only [Machine.fired, if_pos] at hfired
      cases hfired
      exact ⟨event.1, event.2, acts', rfl, hrest⟩

/-- What is done when a run that comes to its end is through with the Deferred at the top: its
    calls did what they mean, and the run goes on with the Deferred below. -/
def Splits (F : Functions C V E K W) (heap : List (List (Entry C V E K))) (d n : Nat)
    (canceller : Option K) (calls : Calls C V E K) (stack : List Nat) (result : Result V E) (w : W)
    (log : List (C × Result V E)) (acts : List (Option (Result V E × W)))
    (last : Machine C V E K W) : Prop :=
  ∃ heap' acts' events called result' w', acts'.length < acts.length ∧
    fires acts = events ++ fires acts' ∧ Untouched heap heap' d n calls.size ∧
    Means F canceller calls result w events called result' w' ∧
    Run (Defined (Machine.step F)) ⟨heap', stack, .running result', w', log ++ called⟩ acts' last

/-- The first callback is through, and the rest of the calls is. -/
theorem Splits.behind {result₁ : Result V E} {w₁ : W}
    {acts₁ : List (Option (Result V E × W))} {last : Machine C V E K W}
    (events : List (Result V E × W))
    (h : Splits F (heap.set d (entries canceller rest n)) d n canceller rest stack result₁ w₁
      (log ++ called) acts₁ last)
    (hlt : acts₁.length < acts.length) (hfires : fires acts = events ++ fires acts₁)
    (hmeans : ∀ {events' called' result' w'},
      Means F canceller rest result₁ w₁ events' called' result' w' →
        Means F canceller (.callbacks callback errback rest) result w (events ++ events')
          (called ++ called') result' w') :
    Splits F heap d n canceller (.callbacks callback errback rest) stack result w log acts
      last := by
  obtain ⟨heap', acts', events', called', result', w', hlt', hfires', huntouched, hrest, hrun⟩ := h
  refine ⟨heap', acts', events ++ events', called ++ called', result', w', by omega, ?_,
    huntouched.set, hmeans hrest, ?_⟩
  · rw [hfires, hfires', List.append_assoc]
  · rwa [← List.append_assoc]

theorem works_means {last : Machine C V E K W} (hlast : last.stack = []) (k : Nat) :
    ∀ {calls : Calls C V E K} {heap d n canceller stack result w log acts}, acts.length ≤ k →
      Ready heap d n canceller calls →
      Run (Defined (Machine.step F)) ⟨heap, d :: stack, .running result, w, log⟩ acts last →
        Splits F heap d n canceller calls stack result w log acts last := by
  induction k with
  | zero =>
    intro calls heap d n canceller stack result w log acts hk _ hrun
    obtain rfl := List.length_eq_zero_iff.mp (Nat.le_zero.mp hk)
    cases hrun
    cases hlast
  | succ k ih =>
    intro calls heap d n canceller stack result w log acts hk hready hrun
    have hstack : d :: stack = [] → False := by simp
    cases calls with
    | nil =>
      obtain ⟨acts', rfl, hrest⟩ := run_running hrun (advance_nil _ _ _ _ hready) hstack hlast
      refine ⟨heap, acts', [], [], result, w, by simp, by simp, .refl _ _ _ _, .nil _ _ _, ?_⟩
      rwa [List.append_nil]
    | callbacks callback errback rest =>
      obtain ⟨w₁, called, outcome, hattend⟩ : ∃ w₁ called outcome,
          attend F canceller callback errback result w = (w₁, called, outcome) := ⟨_, _, _, rfl⟩
      have hnext := advance_callbacks stack log hattend hready
      obtain ⟨acts₁, rfl, hrest⟩ := run_running hrun hnext hstack hlast
      have hk₁ : acts₁.length ≤ k := by simpa using hk
      cases outcome with
      | now result₁ =>
        exact Splits.behind [] (ih hk₁ hready.callbacks hrest) (by simp) rfl (.now hattend)
      | deferred =>
        obtain ⟨result₁, w₂, acts₂, rfl, hwoken⟩ := run_waiting hrest hstack hlast
        exact Splits.behind [_] (ih (Nat.le_of_succ_le hk₁) hready.callbacks hwoken)
          (by simp only [List.length_cons]; omega) rfl (.deferred hattend)
      | fiber f =>
        cases htrigger : f.trigger with
        | none =>
          simp only [Machine.settle, htrigger] at hrest
          exact Splits.behind [] (ih hk₁ hready.callbacks hrest) (by simp) rfl
            (.untriggered hattend htrigger)
        | some trigger =>
          simp only [Machine.settle, htrigger] at hrest
          obtain ⟨heap₁, acts₂, events₁, called₁, result₁, w₂, hlt₁, hfires₁, huntouched₁, hmeans₁,
            hrun₁⟩ := ih hk₁ (Ready.start _ _).1 hrest
          obtain ⟨hready₁, huntouched⟩ := hready.started huntouched₁
          obtain ⟨heap₂, acts₃, events₂, called₂, result', w', hlt₂, hfires₂, huntouched₂, hmeans₂,
            hrun₂⟩ := ih (by omega) hready₁ hrun₁
          refine ⟨heap₂, acts₃, events₁ ++ events₂, called ++ called₁ ++ called₂, result', w',
            ?_, ?_, huntouched huntouched₂, .fiber hattend htrigger hmeans₁ hmeans₂, ?_⟩
          · simp only [List.length_cons]
            omega
          · simp [hfires₁, hfires₂]
          · rwa [← List.append_assoc, ← List.append_assoc]
    | chain trigger canceller' inner rest =>
      have hnext := advance_chain (F := F) stack result w log hready
      obtain ⟨acts₁, rfl, hrest⟩ := run_running hrun hnext hstack hlast
      have hk₁ : acts₁.length ≤ k := by simpa using hk
      obtain ⟨heap₁, acts₂, events₁, called₁, result₁, w₁, hlt₁, hfires₁, huntouched₁, hmeans₁,
        hrun₁⟩ := ih hk₁ hready.chain.1 hrest
      obtain ⟨hready₁, huntouched⟩ := hready.chained huntouched₁
      obtain ⟨heap₂, acts₃, events₂, called₂, result', w', hlt₂, hfires₂, huntouched₂, hmeans₂,
        hrun₂⟩ := ih (by omega) hready₁ hrun₁
      refine ⟨heap₂, acts₃, events₁ ++ events₂, called₁ ++ called₂, result', w', ?_, ?_,
        huntouched huntouched₂, .chain hmeans₁ hmeans₂, ?_⟩
      · simp only [List.length_cons]
        omega
      · simp [hfires₁, hfires₂]
      · rwa [← List.append_assoc]

/-! ## A fiber that is started -/

/-- The Deferred of a fiber, started with a result in a program in which nothing else is, gets a
    result in the end: what was fired from outside until then, what was called, the result and
    the world. -/
def Ends (F : Functions C V E K W) (f : Fiber C V E K) (trigger : Result V E) (w : W)
    (events : List (Result V E × W)) (called : List (C × Result V E)) (result : Result V E)
    (w' : W) : Prop :=
  ∃ acts last, fires acts = events ∧ last.Finished result w' called ∧
    Run (Defined (Machine.step F)) ((idle w).start f trigger) acts last

theorem ends_iff (f : Fiber C V E K) (trigger : Result V E) (w : W)
    (events : List (Result V E × W)) (called : List (C × Result V E)) (result : Result V E)
    (w' : W) :
    Ends F f trigger w events called result w' ↔
      Means F f.canceller f.calls trigger w events called result w' := by
  obtain ⟨hready, -⟩ := Ready.start (idle (V := V) (C := C) (E := E) (K := K) w).heap f
  constructor
  · rintro ⟨acts, last, hfires, ⟨heap, rfl⟩, hrun⟩
    obtain ⟨heap', acts', events', called', result', w₁, hlt, hfires', -, hmeans, hrest⟩ :=
      works_means rfl acts.length (Nat.le_refl _) hready hrun
    cases hrest with
    | nil =>
      rw [hfires] at hfires'
      have heq : events = events' := by simpa [fires] using hfires'
      rw [heq]
      exact hmeans
    | @cons _ u _ act acts'' hstep hlater =>
      cases act with
      | none =>
        have hnone : Machine.advance F ⟨heap', [], .running result', w₁, [] ++ called'⟩ = some u :=
          hstep
        simp [Machine.advance] at hnone
      | some event =>
        have hfired : Machine.fired ⟨heap', [], .running result', w₁, [] ++ called'⟩ event.1
            event.2 = some u := hstep
        simp [Machine.fired] at hfired
  · intro hmeans
    obtain ⟨heap', acts, -, hfires, hrun⟩ := means_works hmeans [] [] hready
    exact ⟨acts, _, hfires, ⟨heap', rfl⟩, hrun⟩

end Feat.Fibers
