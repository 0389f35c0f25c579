/- Programs over a state that can raise, where what is raised leaves the state as it was then. -/
namespace Raising

variable {ε σ α β : Type}

/-- The state that a program ends in, whether it raises or not. -/
def final (a : EStateM ε σ α) (s : σ) : σ :=
  match a s with
  | .ok _ t => t
  | .error _ t => t

variable {a b : EStateM ε σ α} {f : α → EStateM ε σ β} {handler : ε → EStateM ε σ α} {s t : σ}

theorem bind_of_ok {x : α} (h : a s = .ok x t) : (a >>= f) s = f x t := by
  show EStateM.bind a f s = _
  unfold EStateM.bind
  rw [h]

theorem bind_of_error {e : ε} (h : a s = .error e t) : (a >>= f) s = .error e t := by
  show EStateM.bind a f s = _
  unfold EStateM.bind
  rw [h]

theorem get_bind {f : σ → EStateM ε σ β} : (get >>= f) s = f s s := rfl

theorem modify_bind {g : σ → σ} {f : PUnit → EStateM ε σ β} :
    (modify g >>= f) s = f ⟨⟩ (g s) := rfl

/-- A sequence that does not raise. -/
theorem ok_of_bind {y : β} (h : (a >>= f) s = .ok y t) :
    ∃ x u, a s = .ok x u ∧ f x u = .ok y t := by
  cases hout : a s with
  | error e u =>
    rw [bind_of_error hout] at h
    cases h
  | ok x u =>
    rw [bind_of_ok hout] at h
    exact ⟨x, u, rfl, h⟩

theorem tryCatch_of_ok {x : α} (h : a s = .ok x t) : tryCatch a handler s = .ok x t := by
  show EStateM.tryCatch a handler s = _
  unfold EStateM.tryCatch
  rw [h]

theorem tryCatch_of_error {e : ε} (h : a s = .error e t) : tryCatch a handler s = handler e t := by
  show EStateM.tryCatch a handler s = _
  unfold EStateM.tryCatch
  rw [h]
  rfl

/-- Only the outcome of a program matters to the handler. -/
theorem tryCatch_congr (h : a s = b t) : tryCatch a handler s = tryCatch b handler t := by
  show EStateM.tryCatch a handler s = EStateM.tryCatch b handler t
  unfold EStateM.tryCatch
  rw [h]

theorem final_of_eq {u : σ} (h : a s = b u) : final a s = final b u := by
  unfold final
  rw [h]

theorem final_ok {x : α} (h : a s = .ok x t) : final a s = t := by
  unfold final
  rw [h]

theorem final_error {e : ε} (h : a s = .error e t) : final a s = t := by
  unfold final
  rw [h]

/-- A program of which what it raises is ignored. -/
theorem ignore_eq {a : EStateM ε σ PUnit} {s : σ} :
    tryCatch a (fun _ => pure ⟨⟩) s = .ok ⟨⟩ (final a s) := by
  unfold final
  cases hout : a s with
  | ok x t => rw [tryCatch_of_ok hout]
  | error e t =>
    rw [tryCatch_of_error hout]
    rfl

/-! ## What programs keep -/

/-- A program that keeps a property of the state. -/
def Keeps (P : σ → Prop) (a : EStateM ε σ α) : Prop := ∀ s, P s → P (final a s)

variable {P : σ → Prop}

theorem keeps_pure (x : α) : Keeps P (pure x : EStateM ε σ α) := fun _ h => h

theorem keeps_throw (e : ε) : Keeps P (throw e : EStateM ε σ α) := fun _ h => h

theorem keeps_get : Keeps P (get : EStateM ε σ σ) := fun _ h => h

theorem keeps_modify {g : σ → σ} (h : ∀ s, P s → P (g s)) :
    Keeps P (modify g : EStateM ε σ PUnit) := h

theorem Keeps.ok {x : α} (h : Keeps P a) (hs : P s) (hout : a s = .ok x t) : P t := by
  have ht := h s hs
  unfold final at ht
  rw [hout] at ht
  exact ht

/-- A sequence, where the second program starts with what the first one keeps. -/
theorem Keeps.into {Q : σ → Prop} (ha : Keeps P a) (himp : ∀ s, P s → Q s)
    (hf : ∀ x s, P s → Q (final (f x) s)) : ∀ s, P s → Q (final (a >>= f) s) := by
  intro s hs
  have hmid := ha s hs
  unfold final at hmid hf ⊢
  cases hout : a s with
  | error e t =>
    rw [bind_of_error hout]
    rw [hout] at hmid
    exact himp t hmid
  | ok x t =>
    rw [bind_of_ok hout]
    rw [hout] at hmid
    exact hf x t hmid

theorem Keeps.bind (ha : Keeps P a) (hf : ∀ x, Keeps P (f x)) : Keeps P (a >>= f) :=
  ha.into (fun _ hs => hs) hf

theorem Keeps.forM {ι : Type} {f : ι → EStateM ε σ PUnit} (h : ∀ i, Keeps P (f i)) (l : List ι) :
    Keeps P (l.forM f) := by
  induction l with
  | nil => exact keeps_pure PUnit.unit
  | cons i l ih => exact (h i).bind fun _ => ih

theorem Keeps.tryCatch (ha : Keeps P a) (hh : ∀ e, Keeps P (handler e)) :
    Keeps P (tryCatch a handler) := by
  intro s hs
  have hmid := ha s hs
  unfold final at hmid ⊢
  cases hout : a s with
  | ok x t =>
    rw [tryCatch_of_ok hout]
    rw [hout] at hmid
    exact hmid
  | error e t =>
    rw [tryCatch_of_error hout]
    rw [hout] at hmid
    exact hh e t hmid

end Raising
