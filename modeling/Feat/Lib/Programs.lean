/- Programs over a state that ask for answers and call one another, and what runs them: a `Handler`
   gives the answers from a state of its own. What a handler keeps at each question a run keeps
   (`run_keeps`). Two handlers whose answers agree run a program alike (`run_agrees`); the
   agreement may depend on where the first run ends, as long as that is reached by growing. -/
namespace Programs

section
variable {S C T A σ σ' : Type}

/-- A program: it ends with an answer, reads or writes the state, asks a question, or calls a
program. -/
inductive Program (S C T A : Type) where
  | done (a : A)
  | get (k : S → Program S C T A)
  | put (s : S) (k : Program S C T A)
  | ask (c : C) (k : A → Program S C T A)
  | call (t : T) (body : Program S C T A) (k : A → Program S C T A)

/-- What answers the questions, refuses calls, and sees what a call gives. -/
structure Handler (σ C T A : Type) where
  ask : C → σ → A × σ
  refuse : T → Option A
  leave : T → A → A

/-- The run of a program. -/
def run (h : Handler σ C T A) : Program S C T A → S → σ → A × S × σ
  | .done a, s, x => (a, s, x)
  | .get k, s, x => run h (k s) s x
  | .put s k, _, x => run h k s x
  | .ask c k, s, x => run h (k (h.ask c x).1) s (h.ask c x).2
  | .call t body k, s, x =>
    match h.refuse t with
    | some a => run h (k a) s x
    | none =>
      let (a, s, x) := run h body s x
      run h (k (h.leave t a)) s x

/-- Every call of the program is of a kind. -/
def Program.Calls (P : T → Prop) : Program S C T A → Prop
  | .done _ => True
  | .get k => ∀ s, (k s).Calls P
  | .put _ k => k.Calls P
  | .ask _ k => ∀ a, (k a).Calls P
  | .call t body k => P t ∧ body.Calls P ∧ ∀ a, (k a).Calls P

variable {h : Handler σ C T A} {p : Program S C T A} {s : S}

/-- A call that is not refused. -/
theorem run_call {t : T} {body : Program S C T A} {k : A → Program S C T A} {x : σ}
    (ht : h.refuse t = none) :
    run h (.call t body k) s x =
      run h (k (h.leave t (run h body s x).1)) (run h body s x).2.1 (run h body s x).2.2 := by
  simp only [run, ht]

/-- What each question keeps is kept. -/
theorem run_keeps {P : σ → Prop} (hask : ∀ c x, P x → P (h.ask c x).2) {x : σ} (hx : P x) :
    P (run h p s x).2.2 := by
  induction p generalizing s x with
  | done a => exact hx
  | get k ih => exact ih s hx
  | put s' k ih => exact ih hx
  | ask c k ih => exact ih _ (hask c x hx)
  | call t body k ihbody ih =>
    cases ht : h.refuse t with
    | some a =>
      simp only [run, ht]
      exact ih a hx
    | none =>
      rw [run_call ht]
      exact ih _ (ihbody hx)

/-- Handlers that agree on the way to the end of the first run, run the program alike. -/
theorem run_agrees (h : Handler σ C T A) (h' : Handler σ' C T A) {P : T → Prop}
    (R : σ → σ' → Prop) (le : σ → σ → Prop) (last : σ)
    (hrefl : ∀ x, le x x) (htrans : ∀ x y z, le x y → le y z → le x z)
    (hgrows : ∀ c x, le x (h.ask c x).2)
    (hask : ∀ c x y, R x y → le (h.ask c x).2 last →
      (h'.ask c y).1 = (h.ask c x).1 ∧ R (h.ask c x).2 (h'.ask c y).2)
    (hrefuse : ∀ t, P t → h.refuse t = none ∧ h'.refuse t = none) (hleave : h'.leave = h.leave)
    (hp : p.Calls P) {x : σ} {y : σ'} (hxy : R x y) (hlast : le (run h p s x).2.2 last) :
    (run h' p s y).1 = (run h p s x).1 ∧ (run h' p s y).2.1 = (run h p s x).2.1 ∧
      R (run h p s x).2.2 (run h' p s y).2.2 := by
  have hrun : ∀ (p : Program S C T A) s x, le x (run h p s x).2.2 := fun p s x =>
    run_keeps (fun c z hz => htrans _ _ _ hz (hgrows c z)) (hrefl x)
  induction p generalizing s x y with
  | done a => exact ⟨rfl, rfl, hxy⟩
  | get k ih => exact ih s (hp s) hxy hlast
  | put s' k ih => exact ih hp hxy hlast
  | ask c k ih =>
    obtain ⟨heq, hnext⟩ := hask c x y hxy (htrans _ _ _ (hrun _ s _) hlast)
    have hk := ih _ (hp _) hnext hlast
    simp only [run, heq]
    exact hk
  | call t body k ihbody ih =>
    obtain ⟨ht, hcalls, hk⟩ := hp
    rw [run_call (hrefuse t ht).1] at hlast ⊢
    rw [run_call (hrefuse t ht).2]
    -- the body ends before the continuation
    obtain ⟨ha, hs, hr⟩ := ihbody hcalls hxy (htrans _ _ _ (hrun _ _ _) hlast)
    rw [ha, hs, hleave]
    exact ih _ (hk _) hr hlast

end
end Programs
