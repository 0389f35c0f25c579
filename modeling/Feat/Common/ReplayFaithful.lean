import Mathlib.Data.List.ReduceOption
import Feat.Common.Journal

/- When the replay of a journal entry does what the recorded call did: it ends in the state and with
   the result of the recording, and has consumed the recorded side effects and given their effects
   to the effect handler. On the way through the recorded calls it takes the result of a side
   effect from the record the recording wrote at that place (`replaying_agrees`); but the record
   of a side effect that raised is empty, and a replay never gets past it (`replaying_stuck`). A
   `Failure` that the function raises leaves the replay and is a failed fiber in the recording.
   The result of this file is that a replay is faithful in just the other cases
   (`replay_faithful_iff`). -/
namespace Feat.Common.Journal
open Programs

section
variable {S W V F X : Type} [Value V]

/-! ## The properties -/

/-- The effects of the side effects in an entry, as the effect handler is given them. -/
def applied (k : Keeper V F X) (sideEffects : List (Option (SideEffect F))) :
    List (String × List V × List (String × V)) :=
  sideEffects.reduceOption.flatMap fun effect => effect.effects.map (Effect.restore k)

/-- The replay reproduces the recorded call and consumes the recorded side effects. -/
def Faithful [DecidableEq V] (k : Keeper V F X) (registry : String → Option (Function S V X))
    (entry : Entry F) (s : S) (result : Result V X) (t : S) : Prop :=
  replay k registry entry s = some (.ok result, t,
    ⟨entry.sideEffects, entry.sideEffects.length, applied k entry.sideEffects⟩)

/-- A program runs without a journal: its side effects are performed, and it is known whether all
have returned. -/
def performing (k : Keeper V F X) (env : Environment W V X) :
    Handler (W × Bool) (Call V) Recorded (Answer V X) where
  ask c x :=
    match perform k env c x.1 with
    | (.ok (v, _), world) => (.ok v, world, x.2)
    | (.error t, world) => (.error t, world, false)
  refuse f := if f.reentrant then none else some (reentrantCall f.functionId)
  leave f := callFun f.functionId

/-- Each side effect the program calls returns, and the program does not raise a `Failure`. -/
def Harmless (k : Keeper V F X) (env : Environment W V X)
    (p : Program S (Call V) Recorded (Answer V X)) (s : S) (world : W) : Prop :=
  (run (performing k env) p s (world, true)).2.2.2 = true ∧
    ∀ e, (run (performing k env) p s (world, true)).1 ≠ .error (.failure e)

variable {k : Keeper V F X} {env : Environment W V X} {c : Call V} {v : V} {effect : SideEffect F}
  {world world' : W} {p : Program S (Call V) Recorded (Answer V X)} {s : S}

/-! ## One side effect -/

@[simp] theorem orNone_getD {α : Type} (l : List α) : (orNone l).getD [] = l := by
  cases l <;> rfl

omit [Value V] in
theorem newSideEffect_spec {args kwargs : F} (h : newSideEffect k c = .ok (args, kwargs)) :
    k.args.convert (orNone c.args) = .ok args ∧
      k.kwargs.convert (orNone c.kwargs) = .ok kwargs := by
  unfold newSideEffect at h
  cases ha : k.args.convert (orNone c.args) with
  | error e => simp [ha, bind, Except.bind] at h
  | ok a =>
    cases hb : k.kwargs.convert (orNone c.kwargs) with
    | error e => simp [ha, hb, bind, Except.bind] at h
    | ok b =>
      obtain ⟨rfl, rfl⟩ : a = args ∧ b = kwargs := by
        simpa [ha, hb, bind, Except.bind, pure, Except.pure] using h
      exact ⟨rfl, rfl⟩

/-- A result that is frozen is one that a side effect may return. -/
theorem setResult_spec {name : String} {result : F} (h : setResult k name v = .ok result) :
    k.result.convert v = .ok result := by
  unfold setResult checkSideEffectResult at h
  split at h
  · cases h
  · split at h
    · cases h
    · exact h

/-- A record has the call and the result of its side effect. -/
theorem perform_spec (h : perform k env c world = (.ok (v, effect), world')) :
    effect.functionId = c.name ∧ k.args.convert (orNone c.args) = .ok effect.args ∧
      k.kwargs.convert (orNone c.kwargs) = .ok effect.kwargs ∧
      k.result.convert v = .ok effect.result := by
  unfold perform at h
  split at h
  · cases h
  · rename_i args kwargs hnew
    split at h
    · cases h
    · rename_i v' effects world'' hrun
      split at h
      · rename_i result hresult
        obtain ⟨⟨rfl, rfl⟩, rfl⟩ : (v' = v ∧
            (⟨c.name, args, kwargs, effects, result⟩ : SideEffect F) = effect) ∧
            world'' = world' := by simpa using h
        obtain ⟨hargs, hkwargs⟩ := newSideEffect_spec hnew
        exact ⟨rfl, hargs, hkwargs, setResult_spec hresult⟩
      · cases h

/-- The replay gives the result that was recorded for the call. -/
theorem nextSideEffect_eq [DecidableEq V] (hk : k.RoundTrip)
    (h : perform k env c world = (.ok (v, effect), world')) {e : ReplayEntry V F}
    (he : e.sideEffects[e.nextEffect]? = some (some effect)) :
    nextSideEffect k c e = (.ok v, { e with
      nextEffect := e.nextEffect + 1
      applied := e.applied ++ effect.effects.map (Effect.restore k) }) := by
  obtain ⟨hname, hargs, hkwargs, hresult⟩ := perform_spec h
  unfold nextSideEffect
  rw [he]
  simp [hname, hk.args _ _ hargs, hk.kwargs _ _ hkwargs, hk.result _ _ hresult]

/-! ## Whole programs -/

variable (k env s) in
/-- The recording performs the side effects, and a record is empty where one did not return. -/
theorem performing_agrees (hp : p.Calls (·.reentrant = true)) (r : Recording W F)
    (hr : none ∉ r.sideEffects) :
    (run (performing k env) p s (r.world, true)).1 = (run (recording k env) p s r).1 ∧
      ((run (performing k env) p s (r.world, true)).2.2.2 = true ↔
        none ∉ (run (recording k env) p s r).2.2.sideEffects) := by
  have h := run_agrees (recording k env) (performing k env)
    (fun x y => y.1 = x.world ∧ (y.2 = true ↔ none ∉ x.sideEffects))
    (fun _ _ => True) r (fun _ => trivial) (fun _ _ _ _ _ => trivial)
    (fun _ _ => trivial) (fun c x y hxy _ => ?_)
    (fun f (hf : f.reentrant = true) => ⟨if_pos hf, if_pos hf⟩) rfl hp
    (x := r) (y := (r.world, true)) (s := s) ⟨rfl, by simpa using hr⟩ trivial
  · exact ⟨h.1, h.2.2.2⟩
  · obtain ⟨hworld, hall⟩ := hxy
    simp only [performing, recording, hworld]
    obtain ⟨⟨t⟩ | ⟨v, effect⟩, world'⟩ := perform k env c x.world
    · exact ⟨rfl, rfl, by simp⟩
    · exact ⟨rfl, rfl, by simpa using hall⟩

/-- Where no record is empty the replay goes as the recording. -/
theorem replaying_agrees [DecidableEq V] (hk : k.RoundTrip) (hp : p.Calls (·.reentrant = true))
    (hall : none ∉ (run (recording k env) p s ⟨world, []⟩).2.2.sideEffects) :
    let r := run (recording k env) p s ⟨world, []⟩
    run (replaying k) p s ⟨r.2.2.sideEffects, 0, []⟩ =
      (r.1, r.2.1, ⟨r.2.2.sideEffects, r.2.2.sideEffects.length, applied k r.2.2.sideEffects⟩) := by
  intro r
  have hgrows : ∀ (c : Call V) (x : Recording W F),
      x.sideEffects <+: ((recording k env).ask c x).2.sideEffects := by
    intro c x
    simp only [recording]
    match perform k env c x.world with
    | (.ok (v, effect), world') => exact List.prefix_append _ _
    | (.error t, world') => exact List.prefix_append _ _
  -- the replay is where the recording was
  have hask : ∀ (c : Call V) (x : Recording W F) (y : ReplayEntry V F),
      y = ⟨r.2.2.sideEffects, x.sideEffects.length, applied k x.sideEffects⟩ →
      ((recording k env).ask c x).2.sideEffects <+: r.2.2.sideEffects →
      ((replaying k).ask c y).1 = ((recording k env).ask c x).1 ∧ ((replaying k).ask c y).2 =
        ⟨r.2.2.sideEffects, ((recording k env).ask c x).2.sideEffects.length,
          applied k ((recording k env).ask c x).2.sideEffects⟩ := by
    rintro c x y rfl hlast
    simp only [recording] at hlast ⊢
    match hperform : perform k env c x.world with
    | (.ok (v, effect), world') =>
      rw [hperform] at hlast
      have hget : r.2.2.sideEffects[x.sideEffects.length]? = some (some effect) := by
        obtain ⟨rest, hrest⟩ := hlast
        rw [← hrest]
        simp
      simp only [replaying]
      rw [nextSideEffect_eq hk hperform hget]
      exact ⟨rfl, by simp [applied, List.reduceOption_append]⟩
    | (.error t, world') =>
      rw [hperform] at hlast
      exact absurd (hlast.subset (by simp)) hall
  obtain ⟨ha, hs, he⟩ := run_agrees (recording k env) (replaying k)
    (fun x y => y = ⟨r.2.2.sideEffects, x.sideEffects.length, applied k x.sideEffects⟩)
    (fun x y => x.sideEffects <+: y.sideEffects) r.2.2
    (fun _ => List.prefix_refl _) (fun _ _ _ => List.IsPrefix.trans) hgrows hask
    (fun f (hf : f.reentrant = true) => ⟨if_pos hf, rfl⟩) rfl hp
    (x := ⟨world, []⟩) (y := ⟨r.2.2.sideEffects, 0, []⟩) (s := s) rfl (List.prefix_refl _)
  exact Prod.ext ha (Prod.ext hs he)

/-- A replay does not get past an empty record. -/
theorem replaying_stuck [DecidableEq V] {sideEffects : List (Option (SideEffect F))}
    (h : none ∈ sideEffects) :
    (run (replaying k) p s ⟨sideEffects, 0, []⟩).2.2.nextEffect < sideEffects.length := by
  obtain ⟨n, hn⟩ := List.mem_iff_getElem?.mp h
  have hlt : n < sideEffects.length := (List.getElem?_eq_some_iff.mp hn).1
  have hkeeps := run_keeps (h := replaying k) (p := p) (s := s)
    (P := fun e => e.sideEffects = sideEffects ∧ e.nextEffect ≤ n) (x := ⟨sideEffects, 0, []⟩)
    (fun c e he => ?_) ⟨rfl, Nat.zero_le n⟩
  · exact Nat.lt_of_le_of_lt hkeeps.2 hlt
  · obtain ⟨hsame, hle⟩ := he
    simp only [replaying]
    unfold nextSideEffect
    split
    · exact ⟨hsame, hle⟩
    · exact ⟨hsame, hle⟩
    · rename_i expected hnext
      -- the record at `n` is empty, and this one is not
      have hne : e.nextEffect ≠ n := by
        rintro rfl
        rw [hsame, hn] at hnext
        cases hnext
      have hsucc : e.nextEffect + 1 ≤ n := by omega
      dsimp only
      split
      · exact ⟨hsame, hsucc⟩
      · split
        · exact ⟨hsame, hsucc⟩
        · split
          · exact ⟨hsame, hsucc⟩
          · exact ⟨hsame, hsucc⟩

/-! ## Recorded calls -/

/-- The result of a replay, and of the recording, where no `Failure` is raised. -/
theorem replayedCall_iff (functionId : String) (answer : Answer V X) :
    replayedCall (callFun functionId answer) = .ok (toResult (callFun functionId answer)) ↔
      ∀ e, answer ≠ .error (.failure e) := by
  match answer with
  | .ok v =>
    unfold callFun
    dsimp only
    split <;> simp [replayedCall, toResult]
  | .error (.exception e) => simp [replayedCall, toResult, callFun]
  | .error (.failure e) => simp [replayedCall, toResult, callFun]

/-- What a recorded call that is let in writes. -/
theorem recordedCall_spec {registry : String → Option (Function S V X)} {function : Function S V X}
    {f : Recorded} (hf : registry f.functionId = some function) {journalId : List Nat}
    {fiberId : String} {fiberDepth : Nat} (hfirst : fiberDepth = 0 ∨ f.reentrant = true)
    {args : List V} {kwargs : List (String × V)} {t : S} {entry : Entry F} {result : Result V X}
    (h : recordedCall k env registry journalId fiberId fiberDepth f args kwargs s world =
      some (entry, result, t, world')) :
    k.args.convert (orNone args) = .ok entry.args ∧
      k.kwargs.convert (orNone kwargs) = .ok entry.kwargs ∧ entry.functionId = f.functionId ∧
      entry.sideEffects =
        (run (recording k env) (function args kwargs) s ⟨world, []⟩).2.2.sideEffects ∧
      result = toResult (callFun f.functionId
        (run (recording k env) (function args kwargs) s ⟨world, []⟩).1) ∧
      t = (run (recording k env) (function args kwargs) s ⟨world, []⟩).2.1 := by
  unfold recordedCall at h
  simp only [hf, if_pos hfirst, Option.bind_eq_bind, Option.bind_some] at h
  obtain ⟨frozenArgs, hargs, h⟩ := Option.bind_eq_some_iff.mp h
  obtain ⟨frozenKwargs, hkwargs, h⟩ := Option.bind_eq_some_iff.mp h
  obtain ⟨frozenResult, -, h⟩ := Option.bind_eq_some_iff.mp h
  cases ha : k.args.convert (orNone args) with
  | error e => simp [ha, Except.toOption] at hargs
  | ok a =>
    cases hb : k.kwargs.convert (orNone kwargs) with
    | error e => simp [hb, Except.toOption] at hkwargs
    | ok b =>
      obtain rfl : a = frozenArgs := by simpa [ha, Except.toOption] using hargs
      obtain rfl : b = frozenKwargs := by simpa [hb, Except.toOption] using hkwargs
      cases h
      exact ⟨rfl, rfl, rfl, rfl, rfl, rfl⟩

/-- The replay of an entry reproduces the recorded call if and only if each side effect the function
calls returns and the function does not raise a `Failure`. -/
theorem replay_faithful_iff [DecidableEq V] (hk : k.RoundTrip) (env : Environment W V X)
    {registry : String → Option (Function S V X)} {function : Function S V X} {f : Recorded}
    (hf : registry f.functionId = some function) (journalId : List Nat) (fiberId : String)
    {fiberDepth : Nat} (hfirst : fiberDepth = 0 ∨ f.reentrant = true) {args : List V}
    {kwargs : List (String × V)} (hcalls : (function args kwargs).Calls (·.reentrant = true))
    {s t : S} {world world' : W} {entry : Entry F} {result : Result V X}
    (h : recordedCall k env registry journalId fiberId fiberDepth f args kwargs s world =
      some (entry, result, t, world')) :
    Faithful k registry entry s result t ↔ Harmless k env (function args kwargs) s world := by
  obtain ⟨hargs, hkwargs, hid, heffects, rfl, rfl⟩ := recordedCall_spec hf hfirst h
  obtain ⟨hanswer, hreturned⟩ := performing_agrees k env s hcalls ⟨world, []⟩
    List.not_mem_nil
  have hreplay : replay k registry entry s =
      let e := run (replaying k) (function args kwargs) s ⟨entry.sideEffects, 0, []⟩
      some (replayedCall (callFun f.functionId e.1), e.2.1, e.2.2) := by
    unfold replay
    rw [hk.args _ _ hargs, hk.kwargs _ _ hkwargs, hid, hf]
    simp
  unfold Faithful Harmless
  rw [hreplay, hanswer]
  by_cases hall : none ∉ entry.sideEffects
  · rw [heffects] at hall ⊢
    rw [replaying_agrees hk hcalls hall]
    have hflag := hreturned.mpr hall
    refine ⟨fun hfaithful => ⟨hflag, ?_⟩, fun hharmless => ?_⟩
    · exact (replayedCall_iff f.functionId _).mp (by simpa using hfaithful)
    · dsimp only
      rw [(replayedCall_iff f.functionId _).mpr hharmless.2]
  · have hempty : none ∈ entry.sideEffects := by simpa using hall
    refine ⟨fun hfaithful => ?_, fun hharmless => ?_⟩
    · have hlt := replaying_stuck (k := k) (p := function args kwargs) (s := s) hempty
      have heq : (run (replaying k) (function args kwargs) s ⟨entry.sideEffects, 0, []⟩).2.2 =
          ⟨entry.sideEffects, entry.sideEffects.length, applied k entry.sideEffects⟩ :=
        (Prod.mk.inj (Prod.mk.inj (Option.some.inj hfaithful)).2).2
      rw [heq] at hlt
      exact absurd hlt (Nat.lt_irrefl _)
    · rw [heffects] at hempty
      exact absurd hempty (hreturned.mp hharmless.1)

end

/-! ## A plain keeper -/

/-- Plain values are frozen as they are. -/
inductive Frozen where
  | args (args : Option (List Nat))
  | kwargs (kwargs : Option (List (String × Nat)))
  | result (v : Nat)
  | fail (e : Error Nat String)
  deriving DecidableEq, Repr

instance : Value Nat where
  isDeferred _ := false
  isFiber _ := false

def plain : Keeper Nat Frozen String where
  args := ⟨fun a => .ok (.args a), fun | .args a => a | _ => none⟩
  kwargs := ⟨fun a => .ok (.kwargs a), fun | .kwargs a => a | _ => none⟩
  result := ⟨fun a => .ok (.result a), fun | .result a => a | _ => 0⟩
  freeze
    | .value v => .ok (.result v)
    | .fail e => .ok (.fail e)

theorem plain_roundTrip : plain.RoundTrip where
  args a f h := by cases h; rfl
  kwargs a f h := by cases h; rfl
  result a f h := by cases h; rfl

/-- A function that reads a number and adds it to the state in a recorded call of its own. -/
def count : Function Nat Nat String := fun _ _ =>
  .ask ⟨"read", [], []⟩ fun
    | .ok v => .call ⟨"add", true⟩ (.get fun s => .put (s + v) (.done (.ok v))) .done
    | .error t => .done (.error t)

/-- Five is read. -/
theorem count_replayed :
    ∃ entry, recordedCall plain (fun _ () => .done (.ok 5) ()) (fun _ => some count) [1] "fiber" 0
        ⟨"count", true⟩ [] [] 2 () = some (entry, .value 5, 7, ()) ∧
      Faithful plain (fun _ => some count) entry 2 (.value 5) 7 := by
  have hcalls : (count [] []).Calls (·.reentrant = true) := by
    rintro (t | v)
    · exact trivial
    · exact ⟨rfl, fun _ => trivial, fun _ => trivial⟩
  have hharmless : Harmless plain (fun _ () => .done (.ok 5) ()) (count [] []) 2 () :=
    ⟨rfl, fun _ h => nomatch (show Except.ok 5 = Except.error _ from h)⟩
  exact ⟨_, rfl, (replay_faithful_iff plain_roundTrip _ rfl [1] "fiber" (.inl rfl) hcalls
    rfl).mpr hharmless⟩

/-- The read raises: the recorded call fails with that error, and its replay with another. -/
theorem raised_not_replayed :
    ∃ entry, recordedCall plain (fun _ () => .done (.error (.exception (.raised "closed"))) ())
        (fun _ => some count) [1] "fiber" 0 ⟨"count", true⟩ [] [] 2 () =
          some (entry, .fail (.raised "closed"), 2, ()) ∧
      ¬ Faithful plain (fun _ => some count) entry 2 (.fail (.raised "closed")) 2 := by
  refine ⟨_, rfl, fun h => ?_⟩
  have hreplay : some (Except.ok (.fail .unpack), 2, ⟨[none], 0, []⟩) =
      some (Except.ok (Result.fail (Error.raised "closed")), 2,
        (⟨[none], 1, []⟩ : ReplayEntry Nat Frozen)) := h
  simp at hreplay

end Feat.Common.Journal
