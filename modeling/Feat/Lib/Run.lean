/- Runs of a transition relation whose steps are labelled, and what an invariant
   of one step says about a whole run.

   A condition on steps is a restriction of the relation (`Guarded`): a run all of
   whose steps meet the condition is a run of the restricted relation. -/
namespace Transition

variable {σ ε : Type}

/-- The steps taken from one state to another. -/
inductive Run (step : σ → ε → σ → Prop) : σ → List ε → σ → Prop where
  | nil (s : σ) : Run step s [] s
  | cons {s t u : σ} {e : ε} {es : List ε} : step s e t → Run step t es u → Run step s (e :: es) u

/-- The steps of a function. -/
def Steps (f : σ → ε → σ) (s : σ) (e : ε) (t : σ) : Prop := t = f s e

/-- The steps of a function that is not defined everywhere. -/
def Defined (f : σ → ε → Option σ) (s : σ) (e : ε) (t : σ) : Prop := f s e = some t

/-- The steps that meet a condition in the state they are taken in. -/
def Guarded (guard : σ → ε → Prop) (step : σ → ε → σ → Prop) (s : σ) (e : ε) (t : σ) : Prop :=
  guard s e ∧ step s e t

variable {step step' : σ → ε → σ → Prop} {s t u : σ} {es es' : List ε}

/-- What one step preserves, a run preserves. -/
theorem Run.preserves {inv : σ → Prop} (h : ∀ s e t, inv s → step s e t → inv t)
    (hrun : Run step s es t) (hs : inv s) : inv t := by
  induction hrun with
  | nil _ => exact hs
  | cons hstep _ ih => exact ih (h _ _ _ hs hstep)

theorem Run.append (h : Run step s es t) (h' : Run step t es' u) : Run step s (es ++ es') u := by
  induction h with
  | nil _ => exact h'
  | cons hstep _ ih => exact .cons hstep (ih h')

/-- The steps of a relation are steps of a larger one. -/
theorem Run.mono (himp : ∀ s e t, step s e t → step' s e t) (h : Run step s es t) :
    Run step' s es t := by
  induction h with
  | nil s => exact .nil s
  | cons hstep _ ih => exact .cons (himp _ _ _ hstep) ih

/-- The run of a function is a fold. -/
theorem run_steps (f : σ → ε → σ) (s : σ) (es : List ε) : Run (Steps f) s es (es.foldl f s) := by
  induction es generalizing s with
  | nil => exact .nil s
  | cons e es ih => exact .cons rfl (ih (f s e))

/-- The run of a partial function is a fold that does not fail. -/
theorem run_defined {f : σ → ε → Option σ} (h : es.foldlM f s = some t) :
    Run (Defined f) s es t := by
  induction es generalizing s with
  | nil =>
    cases h
    exact .nil _
  | cons e es ih =>
    rw [List.foldlM_cons] at h
    obtain ⟨u, hu, hrest⟩ := Option.bind_eq_some_iff.mp h
    exact .cons hu (ih hrest)

/-- The steps of a partial function that meet a condition, as a function. -/
def checked (guard : σ → ε → Prop) [∀ s e, Decidable (guard s e)] (f : σ → ε → Option σ) (s : σ)
    (e : ε) : Option σ := if guard s e then f s e else none

theorem run_checked {guard : σ → ε → Prop} [∀ s e, Decidable (guard s e)] {f : σ → ε → Option σ}
    (h : es.foldlM (checked guard f) s = some t) : Run (Guarded guard (Defined f)) s es t := by
  induction es generalizing s with
  | nil =>
    cases h
    exact .nil _
  | cons e es ih =>
    rw [List.foldlM_cons] at h
    obtain ⟨u, hu, hrest⟩ := Option.bind_eq_some_iff.mp h
    unfold checked at hu
    split at hu
    · rename_i hguard
      exact .cons ⟨hguard, hu⟩ (ih hrest)
    · cases hu

/-- The steps to states with a property. -/
def Ending (P : σ → Prop) (step : σ → ε → σ → Prop) (s : σ) (e : ε) (t : σ) : Prop :=
  step s e t ∧ P t

/-- Where steps that meet a condition keep an invariant, and the others lose a property it
    implies, a run has the property throughout if and only if all its steps meet the
    condition. -/
theorem run_guarded_iff {guard : σ → ε → Prop} {inv P : σ → Prop} (himp : ∀ s, inv s → P s)
    (hkeep : ∀ s e t, inv s → guard s e → step s e t → inv t)
    (hlose : ∀ s e t, inv s → ¬ guard s e → step s e t → ¬ P t) (hs : inv s) :
    Run (Guarded guard step) s es t ↔ Run (Ending P step) s es t := by
  refine ⟨fun h => ?_, fun h => ?_⟩
  · induction h with
    | nil s => exact .nil s
    | cons hstep _ ih =>
      have hnext := hkeep _ _ _ hs hstep.1 hstep.2
      exact .cons ⟨hstep.2, himp _ hnext⟩ (ih hnext)
  · induction h with
    | nil s => exact .nil s
    | cons hstep _ ih =>
      have hguard := Classical.byContradiction fun hnot =>
        hlose _ _ _ hs hnot hstep.1 hstep.2
      exact .cons ⟨hguard, hstep.1⟩ (ih (hkeep _ _ _ hs hguard hstep.1))

/-- The steps between states that are related. -/
def Relating (Q : σ → σ → Prop) (step : σ → ε → σ → Prop) (s : σ) (e : ε) (t : σ) : Prop :=
  step s e t ∧ Q s t

/-- Where a step that keeps an invariant relates two states, a run relates all states that follow
    each other. -/
theorem Run.relating {Q : σ → σ → Prop} {inv : σ → Prop}
    (hkeep : ∀ s e t, inv s → step s e t → inv t) (hrel : ∀ s e t, inv s → step s e t → Q s t)
    (hs : inv s) (h : Run step s es t) : Run (Relating Q step) s es t := by
  induction h with
  | nil s => exact .nil s
  | cons hstep _ ih =>
    exact .cons ⟨hstep, hrel _ _ _ hs hstep⟩ (ih (hkeep _ _ _ hs hstep))

/-- Where a step relates two states if and only if it meets a condition, a run relates all
    states that follow each other if and only if all its steps meet the condition. -/
theorem run_relating_iff {guard : σ → ε → Prop} {Q : σ → σ → Prop} {inv : σ → Prop}
    (hkeep : ∀ s e t, inv s → step s e t → inv t)
    (hiff : ∀ s e t, inv s → step s e t → (Q s t ↔ guard s e)) (hs : inv s) :
    Run (Relating Q step) s es t ↔ Run (Guarded guard step) s es t := by
  refine ⟨fun h => ?_, fun h => ?_⟩
  · induction h with
    | nil s => exact .nil s
    | cons hstep _ ih =>
      have hguard := (hiff _ _ _ hs hstep.1).mp hstep.2
      exact .cons ⟨hguard, hstep.1⟩ (ih (hkeep _ _ _ hs hstep.1))
  · induction h with
    | nil s => exact .nil s
    | cons hstep _ ih =>
      have hrelated := (hiff _ _ _ hs hstep.2).mpr hstep.1
      exact .cons ⟨hstep.2, hrelated⟩ (ih (hkeep _ _ _ hs hstep.2))

end Transition
