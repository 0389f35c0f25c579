import Feat.Lib.Run

/- Updates of the descriptor of an agent (`feat.agencies.agency`:
   `AgencyAgent.update_descriptor`, `_next_update`, `get_descriptor`).

   An update is a function that is run on a copy of the descriptor, which is then
   saved. `active` is the code `_next_update` is in the middle of: the function, or
   the callbacks of a Deferred that it fires. Both may call `update_descriptor`
   again, so that a call is an event that can happen at any time. `saves` are the
   saves that the database has not answered yet, `scheduled` is how often
   `_next_update` is going to be called by `call_next`.

   What an update does is `exec`, `withRev` is what saving a descriptor does to it.
   The calls, and what became of each function that was run, are kept for the
   record; no code reads them.

   `updates_serialized`: every function is run once, in the order of the calls, on
   the descriptor that the last successful update before it has left, one after the
   other, whatever fails. -/
namespace Feat.Agencies
open Transition

/-- A save that the database has not answered yet. -/
structure Save (D R : Type) where
  no : Nat
  desc : D
  result : R
  deriving DecidableEq

/-- The code that is running: the function of an update, or the callbacks of a Deferred. -/
inductive Active (U D : Type) where
  | function (no : Nat) (update : U) (desc : D)
  | callbacks
  deriving DecidableEq

/-- A function that was run, the descriptor it was run on, and what came of it: nothing yet, a
failure, or the descriptor that was saved. -/
structure Record (U D : Type) where
  no : Nat
  update : U
  input : D
  outcome : Option (Option D)

/-- The agent, as far as it updates its descriptor. -/
structure AgencyAgent (U D R E : Type) where
  descriptor : D
  updateQueue : List (Nat × U)
  updating : Bool
  active : Option (Active U D)
  saves : List (Save D R)
  scheduled : Nat
  fired : List (Nat × Except E R)
  calls : List U
  history : List (Record U D)

namespace AgencyAgent
variable {U D R E V : Type}

/-- An agent with a descriptor that is in the database. -/
def new (desc : D) : AgencyAgent U D R E := ⟨desc, [], false, none, [], 0, [], [], []⟩

/-- `get_descriptor`. -/
def getDescriptor (s : AgencyAgent U D R E) : D := s.descriptor

/-- `_next_update` up to the call of the function. -/
def nextUpdate (s : AgencyAgent U D R E) : AgencyAgent U D R E :=
  if s.updating then s
  else match s.updateQueue with
    | [] => s
    | (no, update) :: rest => { s with
        updateQueue := rest
        updating := true
        active := some (.function no update s.getDescriptor)
        history := s.history ++ [⟨no, update, s.getDescriptor, none⟩] }

/-- `update_descriptor`. -/
def updateDescriptor (s : AgencyAgent U D R E) (update : U) : AgencyAgent U D R E :=
  { s with
    updateQueue := s.updateQueue ++ [(s.calls.length, update)]
    calls := s.calls ++ [update] }.nextUpdate

/-- The Deferred of an update is fired: its callbacks come next. -/
def fire (s : AgencyAgent U D R E) (no : Nat) (result : Except E R) (outcome : Option D) :
    AgencyAgent U D R E :=
  { s with
    active := some .callbacks
    fired := s.fired ++ [(no, result)]
    history := s.history.map fun r => if r.no = no then { r with outcome := some outcome } else r }

/-- `next_update`. -/
def finishUpdate (s : AgencyAgent U D R E) : AgencyAgent U D R E :=
  { s with updating := false, active := none, scheduled := s.scheduled + 1 }

/-- What happens: a call of `update_descriptor`; the code that is running goes on; the database
answers a save; `_next_update` is called as it was scheduled. -/
inductive Event (U V E : Type) where
  | call (update : U)
  | run
  | saved (k : Nat) (rev : V)
  | failed (k : Nat) (error : E)
  | next

variable (exec : U → D → Except E (D × R)) (withRev : D → V → D)

/-- One event, when it can happen. -/
def step (s : AgencyAgent U D R E) : Event U V E → Option (AgencyAgent U D R E)
  | .call update => some (s.updateDescriptor update)
  | .run => match s.active with
    | some (.function no update desc) => match exec update desc with
      | .ok (desc, result) =>
        some { s with active := none, saves := s.saves ++ [⟨no, desc, result⟩] }
      | .error e => some (s.fire no (.error e) none)
    | some .callbacks => some s.finishUpdate
    | none => none
  | .saved k rev => match s.active, s.saves[k]? with
    | none, some save =>
      let desc := withRev save.desc rev
      some { s.fire save.no (.ok save.result) (some desc) with
        descriptor := desc, saves := s.saves.eraseIdx k }
    | _, _ => none
  | .failed k e => match s.active, s.saves[k]? with
    | none, some save =>
      some { s.fire save.no (.error e) none with saves := s.saves.eraseIdx k }
    | _, _ => none
  | .next => match s.active, s.scheduled with
    | none, n + 1 => some { s with scheduled := n }.nextUpdate
    | _, _ => none

/-! ## What the updates amount to -/

/-- The descriptor after what was run so far: the last one that was saved. -/
def lastSaved (desc : D) (history : List (Record U D)) : D :=
  history.foldl (fun desc r => (r.outcome.bind id).getD desc) desc

/-- The updates are run one after the other: every function once, in the order of the calls, each
on the descriptor left by the last successful update before it, and each finished before the next
one starts; the descriptor to be seen is the last one that was saved; and while a call is in the
queue, an update is under way or `_next_update` is scheduled. -/
structure Serialized (desc : D) (s : AgencyAgent U D R E) : Prop where
  order : s.history.map Record.update ++ s.updateQueue.map Prod.snd = s.calls
  input : ∀ before r after, s.history = before ++ r :: after → r.input = lastSaved desc before
  finished : ∀ before r after, s.history = before ++ r :: after → r.outcome = none → after = []
  visible : s.getDescriptor = lastSaved desc s.history
  outcome : ∀ r ∈ s.history, ∀ d, r.outcome = some (some d) →
    ∃ out result rev, exec r.update r.input = .ok (out, result) ∧ d = withRev out rev
  answered : s.fired.map Prod.fst = List.range s.fired.length ∧
    s.fired.length = (s.history.filter fun r => r.outcome.isSome).length
  single : s.saves.length ≤ 1
  underWay : s.updating = true → s.active.isSome ∨ s.saves ≠ []
  progress : s.updateQueue ≠ [] → s.updating = true ∨ 0 < s.scheduled

/-! ## The record -/

/-- Every function that was run has finished. -/
def Settled (history : List (Record U D)) : Prop := ∀ r ∈ history, r.outcome.isSome

/-- Every function was run on the descriptor that was saved last before it. -/
def Fed (desc : D) (history : List (Record U D)) : Prop :=
  ∀ before r after, history = before ++ r :: after → r.input = lastSaved desc before

section History
variable {desc : D} {history before : List (Record U D)} {r : Record U D}

theorem lastSaved_concat :
    lastSaved desc (history ++ [r]) = (r.outcome.bind id).getD (lastSaved desc history) := by
  simp [lastSaved]

/-- Where a list ends with an element, cutting it in two cuts what is before, or cuts that off. -/
theorem concat_eq_append_cons {α : Type} {l before after : List α} {a b : α}
    (h : l ++ [a] = before ++ b :: after) :
    (l = before ∧ a = b ∧ after = []) ∨ ∃ rest, after = rest ++ [a] ∧ l = before ++ b :: rest := by
  rcases List.eq_nil_or_concat after with rfl | ⟨rest, c, rfl⟩
  · obtain ⟨hl, ha⟩ := List.append_inj' h rfl
    exact Or.inl ⟨hl, List.singleton_inj.mp ha, rfl⟩
  · have h' : l ++ [a] = (before ++ b :: rest) ++ [c] := by simpa using h
    obtain ⟨hl, ha⟩ := List.append_inj' h' rfl
    have hac : a = c := List.singleton_inj.mp ha
    exact Or.inr ⟨rest, by rw [hac, List.concat_eq_append], hl⟩

theorem fed_concat :
    Fed desc (history ++ [r]) ↔ Fed desc history ∧ r.input = lastSaved desc history := by
  constructor
  · intro h
    refine ⟨?_, h history r [] rfl⟩
    intro before r' after heq
    exact h before r' (after ++ [r]) (by simp [heq])
  · rintro ⟨h, hr⟩ before r' after heq
    rcases concat_eq_append_cons heq with ⟨rfl, rfl, rfl⟩ | ⟨rest, rfl, hrest⟩
    · exact hr
    · exact h before r' rest hrest

theorem settled_concat : Settled (history ++ [r]) ↔ Settled history ∧ r.outcome.isSome := by
  simp [Settled, or_imp, forall_and]

/-- Settling the function that was run last. -/
theorem map_settle {no : Nat} {outcome : Option D} (hno : no ∉ before.map Record.no)
    (hr : r.no = no) :
    ((before ++ [r]).map fun r => if r.no = no then { r with outcome := some outcome } else r) =
      before ++ [{ r with outcome := some outcome }] := by
  rw [List.map_append, List.map_singleton, if_pos hr]
  congr 1
  calc before.map (fun r => if r.no = no then { r with outcome := some outcome } else r)
      = before.map id := by
        refine List.map_congr_left (fun r' hr' => ?_)
        have hne : r'.no ≠ no := fun heq => hno (heq ▸ List.mem_map_of_mem hr')
        simp [hne]
    _ = before := List.map_id before

end History

/-! ## The invariant -/

/-- Where `_next_update` is: it has nothing to do, runs a function, waits for a save, or fires a
Deferred. -/
inductive Phase (s : AgencyAgent U D R E) : Prop where
  | idle : s.updating = false → s.active = none → s.saves = [] → Settled s.history →
      (s.updateQueue ≠ [] → 0 < s.scheduled) → Phase s
  | running {before : List (Record U D)} {no : Nat} {update : U} : s.updating = true →
      s.active = some (.function no update s.descriptor) → s.saves = [] → Settled before →
      s.history = before ++ [⟨no, update, s.descriptor, none⟩] → Phase s
  | saving {before : List (Record U D)} {no : Nat} {update : U} {out : D} {result : R} :
      s.updating = true → s.active = none → s.saves = [⟨no, out, result⟩] → Settled before →
      s.history = before ++ [⟨no, update, s.descriptor, none⟩] →
      exec update s.descriptor = .ok (out, result) → Phase s
  | firing : s.updating = true → s.active = some .callbacks → s.saves = [] →
      Settled s.history → Phase s

/-- What holds of the record in every phase. -/
structure Logged (desc : D) (s : AgencyAgent U D R E) : Prop where
  order : s.history.map Record.update ++ s.updateQueue.map Prod.snd = s.calls
  numbered : s.history.map Record.no ++ s.updateQueue.map Prod.fst = List.range s.calls.length
  fed : Fed desc s.history
  visible : s.descriptor = lastSaved desc s.history
  outcome : ∀ r ∈ s.history, ∀ d, r.outcome = some (some d) →
    ∃ out result rev, exec r.update r.input = .ok (out, result) ∧ d = withRev out rev
  answered : s.fired.map Prod.fst =
    (s.history.filter fun r => r.outcome.isSome).map Record.no

/-- The invariant. -/
structure UpdateInv (desc : D) (s : AgencyAgent U D R E) : Prop where
  logged : Logged exec withRev desc s
  phase : Phase exec s

section Steps
variable {exec withRev} {desc : D} {s t : AgencyAgent U D R E}

theorem new_updates : UpdateInv exec withRev desc (new desc : AgencyAgent U D R E) := by
  refine ⟨⟨rfl, rfl, ?_, rfl, by simp [new], rfl⟩, .idle rfl rfl rfl (by simp [Settled, new])
    (by simp [new])⟩
  intro before r after h
  simp [new] at h

/-- `_next_update` takes the first call from the queue, unless an update is under way. -/
theorem Logged.nextUpdate (h : Logged exec withRev desc s)
    (hphase : s.updating = true ∧ Phase exec s ∨
      s.updating = false ∧ s.active = none ∧ s.saves = [] ∧ Settled s.history) :
    UpdateInv exec withRev desc s.nextUpdate := by
  rcases hphase with ⟨hupdating, hphase⟩ | ⟨hupdating, hactive, hsaves, hsettled⟩
  · rw [show s.nextUpdate = s by simp [AgencyAgent.nextUpdate, hupdating]]
    exact ⟨h, hphase⟩
  · unfold AgencyAgent.nextUpdate
    rw [if_neg (by simp [hupdating])]
    split
    · rename_i hqueue
      exact ⟨h, .idle hupdating hactive hsaves hsettled (fun hne => absurd hqueue hne)⟩
    · rename_i no update rest hqueue
      have horder := h.order
      have hnumbered := h.numbered
      rw [hqueue] at horder hnumbered
      refine ⟨⟨?_, ?_, ?_, ?_, ?_, ?_⟩, .running rfl rfl hsaves hsettled rfl⟩
      · simpa using horder
      · simpa using hnumbered
      · exact fed_concat.mpr ⟨h.fed, h.visible⟩
      · rw [lastSaved_concat]
        exact h.visible
      · intro r hr d hd
        rcases List.mem_append.mp hr with hr | hr
        · exact h.outcome r hr d hd
        · cases List.mem_singleton.mp hr
          cases hd
      · simpa using h.answered

/-- A call is put at the end of the queue. -/
theorem Logged.enqueue (h : Logged exec withRev desc s) (update : U) :
    Logged exec withRev desc { s with
      updateQueue := s.updateQueue ++ [(s.calls.length, update)]
      calls := s.calls ++ [update] } := by
  refine ⟨?_, ?_, h.fed, h.visible, h.outcome, h.answered⟩
  · show _ ++ (s.updateQueue ++ [(s.calls.length, update)]).map Prod.snd = s.calls ++ [update]
    rw [List.map_append, ← List.append_assoc, h.order]
    rfl
  · show _ ++ (s.updateQueue ++ [(s.calls.length, update)]).map Prod.fst =
      List.range (s.calls ++ [update]).length
    rw [List.map_append, ← List.append_assoc, h.numbered, List.length_append, List.length_singleton,
      List.range_succ]
    rfl

/-- The function that was run last has a number of its own. -/
theorem Logged.fresh (h : Logged exec withRev desc s) {before : List (Record U D)}
    {r : Record U D} (hhistory : s.history = before ++ [r]) : r.no ∉ before.map Record.no := by
  have hnodup : (s.history.map Record.no ++ s.updateQueue.map Prod.fst).Nodup := by
    rw [h.numbered]
    exact List.nodup_range
  have hlast := (List.nodup_append.mp hnodup).1
  rw [hhistory, List.map_append, List.nodup_append] at hlast
  intro hin
  exact hlast.2.2 _ hin _ (by simp) rfl

/-- The Deferred of the update under way is fired. -/
theorem Logged.settle (h : Logged exec withRev desc s) {before : List (Record U D)} {no : Nat}
    {update : U} (hupdating : s.updating = true) (hbefore : Settled before)
    (hhistory : s.history = before ++ [⟨no, update, s.descriptor, none⟩]) (result : Except E R)
    (outcome : Option D)
    (houtcome : ∀ d, outcome = some d → ∃ out result rev,
      exec update s.descriptor = .ok (out, result) ∧ d = withRev out rev) :
    let s' := { s.fire no result outcome with
      descriptor := outcome.getD s.descriptor, saves := [] }
    UpdateInv exec withRev desc s' := by
  intro s'
  have hsettle : s'.history = before ++ [⟨no, update, s.descriptor, some outcome⟩] := by
    show s.history.map _ = _
    rw [hhistory, map_settle (h.fresh hhistory) rfl]
  have horder := h.order
  have hnumbered := h.numbered
  have hfed := h.fed
  have hanswered := h.answered
  rw [hhistory] at horder hnumbered hfed hanswered
  obtain ⟨hfed, hinput⟩ := fed_concat.mp hfed
  have hall : (before.filter fun r => r.outcome.isSome) = before := List.filter_eq_self.mpr hbefore
  refine ⟨⟨?_, ?_, ?_, ?_, ?_, ?_⟩, .firing hupdating rfl rfl ?_⟩
  · rw [hsettle]
    show _ ++ s.updateQueue.map Prod.snd = s.calls
    simpa using horder
  · rw [hsettle]
    show _ ++ s.updateQueue.map Prod.fst = List.range s.calls.length
    simpa using hnumbered
  · rw [hsettle]
    exact fed_concat.mpr ⟨hfed, hinput⟩
  · rw [hsettle, lastSaved_concat]
    show outcome.getD s.descriptor = _
    rw [show s.descriptor = lastSaved desc before from hinput]
    rfl
  · rw [hsettle]
    intro r hr d hd
    rcases List.mem_append.mp hr with hr | hr
    · exact h.outcome r (by rw [hhistory]; exact List.mem_append_left _ hr) d hd
    · cases List.mem_singleton.mp hr
      exact houtcome d (by simpa using hd)
  · rw [hsettle]
    show (s.fired ++ [(no, result)]).map Prod.fst = _
    rw [List.map_append, hanswered]
    simp [List.filter_append, hall]
  · rw [hsettle]
    exact settled_concat.mpr ⟨hbefore, rfl⟩

/-- Every event keeps the invariant. -/
theorem step_updates {event : Event U V E} (hinv : UpdateInv exec withRev desc s)
    (hstep : s.step exec withRev event = some t) : UpdateInv exec withRev desc t := by
  obtain ⟨h, hphase⟩ := hinv
  cases event with
  | call update =>
    cases hstep
    refine (h.enqueue update).nextUpdate ?_
    -- the queue is not read while an update is under way
    cases hphase with
    | idle hupdating hactive hsaves hsettled _ =>
      exact Or.inr ⟨hupdating, hactive, hsaves, hsettled⟩
    | running hupdating hactive hsaves hbefore hhistory =>
      exact Or.inl ⟨hupdating, .running hupdating hactive hsaves hbefore hhistory⟩
    | saving hupdating hactive hsaves hbefore hhistory hexec =>
      exact Or.inl ⟨hupdating, .saving hupdating hactive hsaves hbefore hhistory hexec⟩
    | firing hupdating hactive hsaves hsettled =>
      exact Or.inl ⟨hupdating, .firing hupdating hactive hsaves hsettled⟩
  | run =>
    cases hphase with
    | idle _ hactive _ _ _ => simp [step, hactive] at hstep
    | saving _ hactive _ _ _ _ => simp [step, hactive] at hstep
    | @running before no update hupdating hactive hsaves hbefore hhistory =>
      simp only [step, hactive] at hstep
      split at hstep
      · rename_i out result hexec
        cases hstep
        exact ⟨⟨h.order, h.numbered, h.fed, h.visible, h.outcome, h.answered⟩,
          .saving hupdating rfl (by simp [hsaves]) hbefore hhistory hexec⟩
      · rename_i e hexec
        cases hstep
        have hsettled := h.settle hupdating hbefore hhistory (.error e) none
          (fun d hd => by cases hd)
        rw [← hsaves] at hsettled
        exact hsettled
    | firing hupdating hactive hsaves hsettled =>
      simp only [step, hactive] at hstep
      cases hstep
      exact ⟨⟨h.order, h.numbered, h.fed, h.visible, h.outcome, h.answered⟩,
        .idle rfl rfl hsaves hsettled (fun _ => Nat.succ_pos _)⟩
  | saved k rev =>
    cases hphase with
    | idle _ hactive hsaves _ _ => simp [step, hactive, hsaves] at hstep
    | running _ hactive _ _ _ => simp [step, hactive] at hstep
    | firing _ hactive _ _ => simp [step, hactive] at hstep
    | @saving before no update out result hupdating hactive hsaves hbefore hhistory hexec =>
      cases k with
      | succ k => simp [step, hactive, hsaves] at hstep
      | zero =>
        simp only [step, hactive, hsaves, List.getElem?_cons_zero] at hstep
        cases hstep
        exact h.settle hupdating hbefore hhistory (.ok result) (some (withRev out rev))
          (fun d hd => ⟨out, result, rev, hexec, by cases hd; rfl⟩)
  | failed k e =>
    cases hphase with
    | idle _ hactive hsaves _ _ => simp [step, hactive, hsaves] at hstep
    | running _ hactive _ _ _ => simp [step, hactive] at hstep
    | firing _ hactive _ _ => simp [step, hactive] at hstep
    | @saving before no update out result hupdating hactive hsaves hbefore hhistory hexec =>
      cases k with
      | succ k => simp [step, hactive, hsaves] at hstep
      | zero =>
        simp only [step, hactive, hsaves, List.getElem?_cons_zero] at hstep
        cases hstep
        exact h.settle hupdating hbefore hhistory (.error e) none
          (fun d hd => by cases hd)
  | next =>
    have hkeep : ∀ n, Logged exec withRev desc { s with active := none, scheduled := n } := fun _ =>
      ⟨h.order, h.numbered, h.fed, h.visible, h.outcome, h.answered⟩
    cases hphase with
    | running _ hactive _ _ _ => simp [step, hactive] at hstep
    | firing _ hactive _ _ => simp [step, hactive] at hstep
    | idle hupdating hactive hsaves hsettled _ =>
      simp only [step, hactive] at hstep
      split at hstep
      · cases hstep
        exact (hkeep _).nextUpdate (.inr ⟨hupdating, rfl, hsaves, hsettled⟩)
      · cases hstep
    | saving hupdating hactive hsaves hbefore hhistory hexec =>
      simp only [step, hactive] at hstep
      split at hstep
      · cases hstep
        exact (hkeep _).nextUpdate
          (.inl ⟨hupdating, .saving hupdating rfl hsaves hbefore hhistory hexec⟩)
      · cases hstep

/-- Nothing comes after a function that has not finished. -/
theorem Phase.finished (h : Phase exec s) : ∀ before r after, s.history = before ++ r :: after →
    r.outcome = none → after = [] := by
  intro before r after hhistory hnone
  have hopen : ∀ l : List (Record U D), Settled l → r ∈ l → False := by
    intro l hl hr
    have hsome := hl r hr
    rw [hnone] at hsome
    cases hsome
  have hsettled : Settled s.history → after = [] := fun hsettled =>
    (hopen _ hsettled (by simp [hhistory])).elim
  have hlast : ∀ {l r'}, Settled l → s.history = l ++ [r'] → after = [] := by
    intro l r' hl heq
    rw [heq] at hhistory
    rcases concat_eq_append_cons hhistory with ⟨_, _, hafter⟩ | ⟨rest, _, hrest⟩
    · exact hafter
    · exact (hopen l hl (by simp [hrest])).elim
  cases h with
  | idle _ _ _ hall _ => exact hsettled hall
  | running _ _ _ hbefore heq => exact hlast hbefore heq
  | saving _ _ _ hbefore heq _ => exact hlast hbefore heq
  | firing _ _ _ hall => exact hsettled hall

/-- The functions that have finished are the first ones. -/
theorem Phase.filter_settled (h : Phase exec s) :
    (s.history.filter fun r => r.outcome.isSome) <+: s.history := by
  have hall : ∀ {l : List (Record U D)}, Settled l → (l.filter fun r => r.outcome.isSome) = l :=
    fun hl => List.filter_eq_self.mpr hl
  cases h with
  | idle _ _ _ hsettled _ =>
    exact ⟨[], by rw [hall hsettled, List.append_nil]⟩
  | firing _ _ _ hsettled =>
    exact ⟨[], by rw [hall hsettled, List.append_nil]⟩
  | running _ _ _ hbefore heq =>
    rw [heq, List.filter_append, hall hbefore]
    simp
  | saving _ _ _ hbefore heq _ =>
    rw [heq, List.filter_append, hall hbefore]
    simp

/-- What the invariant says. -/
theorem UpdateInv.serialized (h : UpdateInv exec withRev desc s) :
    Serialized exec withRev desc s := by
  obtain ⟨h, hphase⟩ := h
  refine ⟨h.order, h.fed, hphase.finished, h.visible, h.outcome, ⟨?_, ?_⟩, ?_, ?_, ?_⟩
  · -- the numbers of those that have finished are the first ones
    have hfirst : s.fired.map Prod.fst <+: List.range s.calls.length := by
      rw [h.answered, ← h.numbered]
      exact (hphase.filter_settled.map Record.no).trans (List.prefix_append _ _)
    have htake := List.prefix_iff_eq_take.mp hfirst
    rw [List.length_map, List.take_range] at htake
    have hle := hfirst.length_le
    rw [List.length_map, List.length_range] at hle
    rw [htake, Nat.min_eq_left hle]
  · simpa using congrArg List.length h.answered
  · cases hphase <;> simp_all
  · intro hupdating
    cases hphase <;> simp_all
  · intro hqueue
    cases hphase <;> simp_all

end Steps

/-! ## Runs -/

/-- In every run the updates are run one after the other, each on what the last successful one
left. -/
theorem updates_serialized {desc : D} {events : List (Event U V E)} {s : AgencyAgent U D R E}
    (hrun : Run (Defined (step exec withRev)) (new desc) events s) :
    Serialized exec withRev desc s :=
  have hinv : UpdateInv exec withRev desc s :=
    hrun.preserves (fun _ _ _ h hstep => step_updates h hstep) new_updates
  hinv.serialized

/-- Of three calls the first function raises, the second is saved after its save has failed for
the third, which was made by a callback of the first. -/
theorem updates_serialized_failing :
    let exec : Nat → Nat → Except String (Nat × Nat) := fun update desc =>
      if update = 0 then .error "raised" else .ok (desc + update, update)
    let events : List (Event Nat Nat String) :=
      [.call 0, .call 1, .run, .call 2, .run, .next, .run, .failed 0 "conflict", .run, .next, .run,
        .saved 0 7, .run]
    ∃ s, Run (Defined (step exec fun desc _ => desc)) (new 10) events s ∧
      s.history.map Record.update = [0, 1, 2] ∧ s.getDescriptor = 12 ∧
      Serialized exec (fun desc (_ : Nat) => desc) 10 s := by
  intro exec events
  have hend : ((events.foldlM (step exec fun desc _ => desc) (new 10)).map fun s =>
      (s.history.map Record.update, s.getDescriptor)) = some ([0, 1, 2], 12) := by decide
  obtain ⟨s, hs, hparts⟩ := Option.map_eq_some_iff.mp hend
  have hrun := run_defined hs
  exact ⟨s, hrun, congrArg Prod.fst hparts, congrArg Prod.snd hparts, updates_serialized exec _ hrun⟩

end AgencyAgent
end Feat.Agencies
