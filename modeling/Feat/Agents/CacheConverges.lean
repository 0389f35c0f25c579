import Mathlib.Data.Set.Insert
import Feat.Agents.DocumentCache

/- A document cache converges when no response overtakes another.

   Whatever the order of calls, writes by others, notifications and responses, a cache
   every response of which is harmless (`Timely`) holds, once nothing is on its way, only
   the latest revisions of documents that are not deleted, each with one listener when
   there is no view, and it never reports a save that succeeded as failed (`converges`).

   Without that condition it does none of these (`overtaken`): responses that arrive in
   another order than the reads were served leave an old revision or a deleted document,
   and a cache without a view fails every save that succeeds. -/
namespace Feat.Agents.DocumentCache
open Transition

variable {Id : Type}

namespace State

/-! ## What is on its way -/

theorem brings_congr {s s' : State Id} {q : Request Id} (hview : s'.view = s.view)
    (hlive : s'.live q.doc = s.live q.doc) (hrev : s'.rev q.doc = s.rev q.doc) :
    Brings s' q ↔ Brings s q := by
  unfold Brings
  rw [hview, hlive, hrev]

/-- What is on its way stays so while more is sent and the document is not written. -/
theorem Owed.mono {s s' : State Id} {d : Id} (h : Owed s d) (hview : s'.view = s.view)
    (hlive : s'.live d = s.live d) (hrev : s'.rev d = s.rev d)
    (hnotes : ∀ n ∈ s.notifications, n.doc = d → n ∈ s'.notifications)
    (hreqs : ∀ q ∈ s.requests, q.doc = d → Brings s q →
      ∃ q' ∈ s'.requests, q'.doc = d ∧ Brings s q') :
    Owed s' d := by
  rcases h with ⟨n, hn, hdoc, hlatest⟩ | ⟨q, hq, hdoc, hb⟩
  · exact .inl ⟨n, hnotes n hn hdoc, hdoc, hlatest.trans hrev.symm⟩
  · obtain ⟨q', hq', hdoc', hb'⟩ := hreqs q hq hdoc hb
    subst hdoc'
    exact .inr ⟨q', hq', rfl, (brings_congr hview hlive hrev).mpr hb'⟩

theorem Storable.mono {s s' : State Id} {d : Id} {rev : Nat} (h : Storable s d rev)
    (hview : s'.view = s.view) (hlive : s'.live d = s.live d) (hrev : s'.rev d = s.rev d)
    (hnotes : ∀ n ∈ s.notifications, n.doc = d → n ∈ s'.notifications)
    (hreqs : ∀ q ∈ s.requests, q.doc = d → Brings s q →
      ∃ q' ∈ s'.requests, q'.doc = d ∧ Brings s q') :
    Storable s' d rev := by
  rcases h with ⟨hl, hr⟩ | howed
  · exact .inl ⟨hlive.trans hl, hr.trans hrev.symm⟩
  · exact .inr (howed.mono hview hlive hrev hnotes hreqs)

/-- An element survives the removal of another. -/
theorem mem_eraseIdx_of_ne {α : Type} {l : List α} {i : Nat} {x y : α} (hi : l[i]? = some x)
    (hy : y ∈ l) (hne : y ≠ x) : y ∈ l.eraseIdx i := by
  rw [List.mem_eraseIdx_iff_getElem?]
  obtain ⟨j, hj⟩ := List.mem_iff_getElem?.mp hy
  refine ⟨j, fun hji => ?_, hj⟩
  subst hji
  exact hne (Option.some.inj (hj.symm.trans hi))

/-! ## The invariant -/

/-- The documents are held as they should be, those of a set left aside. -/
structure Settled (aside : Set Id) (s : State Id) : Prop where
  saves : s.failedSaves = 0
  held : ∀ d ∉ aside, ∀ rev, s.documents d = some rev → Storable s d rev
  heard : s.view = false → ∀ d ∉ aside, s.documents d ≠ none → s.listeners d = 1
  told : ∀ n ∈ s.notifications, n.rev ≤ s.rev n.doc ∧
    (n.rev = s.rev n.doc → n.deleted = !s.live n.doc)

variable {s : State Id} {d : Id} {rev : Nat}

theorem settled_start (view : Bool) (rev : Id → Nat) (live loaded : Id → Bool) :
    Settled ∅ (start view rev live loaded) := by
  refine ⟨rfl, fun d _ rev' hd => ?_, fun hview d _ hd => ?_, fun n hn => ?_⟩
  · dsimp only [start] at hd
    split at hd
    · rename_i hkept
      simp only [Bool.and_eq_true] at hkept
      exact .inl ⟨hkept.1.2, (Option.some.inj hd).symm⟩
    · cases hd
  · dsimp only [start] at hview hd
    rw [hview] at hd
    exact absurd rfl hd
  · cases hn

theorem Settled.converged (h : Settled ∅ s) : Converged s := by
  refine ⟨h.saves, fun hreqs hnotes d rev hd => ?_⟩
  have hlistener : s.view = false → s.listeners d = 1 := fun hview =>
    h.heard hview d (Set.notMem_empty d) (by rw [hd]; exact Option.some_ne_none rev)
  rcases h.held d (Set.notMem_empty d) rev hd with ⟨hlive, hrev⟩ | ⟨n, hn, -⟩ | ⟨q, hq, -⟩
  · exact ⟨hlive, hrev, hlistener⟩
  · rw [hnotes] at hn
    cases hn
  · rw [hreqs] at hq
    cases hq

theorem Settled.aside (h : Settled ∅ s) (aside : Set Id) : Settled aside s :=
  ⟨h.saves, fun c _ => h.held c (Set.notMem_empty c), fun hview c _ =>
    h.heard hview c (Set.notMem_empty c), h.told⟩

/-- A run that ends with nothing on its way and a document that is held with a revision and that
the database has with another, or deleted, is not converged. -/
theorem not_converged {t : State Id} {d : Id} {rev : Nat} (hreqs : t.requests = [])
    (hnotes : t.notifications = []) (hd : t.documents d = some rev)
    (hbad : t.live d = false ∨ rev ≠ t.rev d ∨ t.view = false ∧ t.listeners d ≠ 1) :
    ¬ Converged t := by
  intro h
  obtain ⟨hlive, hrev, hlistener⟩ := h.held hreqs hnotes d rev hd
  rcases hbad with hdead | hold | ⟨hview, hcount⟩
  · cases hdead.symm.trans hlive
  · exact hold hrev
  · exact hcount (hlistener hview)

/-! ## Requests and notifications -/

theorem Settled.ask (h : Settled ∅ s) (d : Id) (kind : Kind) : Settled ∅ (s.ask d kind) := by
  refine ⟨h.saves, fun c hc rev hheld => ?_, h.heard, h.told⟩
  exact (h.held c hc rev hheld).mono rfl rfl rfl (fun n hn _ => hn)
    fun q hq hdoc hb => ⟨q, List.mem_append_left _ hq, hdoc, hb⟩

/-- An answer brings what its request was to bring. -/
theorem Settled.answered {i : Nat} {kind : Kind} {answer : Answer} (h : Settled ∅ s)
    (hi : s.requests[i]? = some ⟨d, kind, none⟩)
    (hb : Brings s ⟨d, kind, none⟩ → Brings s ⟨d, kind, some answer⟩) :
    Settled ∅ { s with requests := s.requests.set i ⟨d, kind, some answer⟩ } := by
  have hlt : i < s.requests.length := (List.getElem?_eq_some_iff.mp hi).1
  refine ⟨h.saves, fun c hc rev hheld => ?_, h.heard, h.told⟩
  refine (h.held c hc rev hheld).mono rfl rfl rfl (fun n hn _ => hn) fun q hq hdoc hq' => ?_
  obtain ⟨j, hj⟩ := List.mem_iff_getElem?.mp hq
  by_cases hji : i = j
  · subst hji
    cases hj.symm.trans hi
    exact ⟨_, List.mem_set hlt _, hdoc, hb hq'⟩
  · exact ⟨q, List.mem_iff_getElem?.mpr ⟨j, (List.getElem?_set_ne hji).trans hj⟩, hdoc, hq'⟩

/-- Of a request that is removed only its own document may depend. -/
theorem Settled.responded {i : Nat} {q : Request Id} (h : Settled ∅ s)
    (hi : s.requests[i]? = some q) :
    Settled {q.doc} { s with requests := s.requests.eraseIdx i } := by
  refine ⟨h.saves, fun c hc rev hheld => ?_, (h.aside _).heard, h.told⟩
  refine (h.held c (Set.notMem_empty c) rev hheld).mono rfl rfl rfl (fun n hn _ => hn)
    fun q' hq' hdoc hb => ⟨q', mem_eraseIdx_of_ne hi hq' fun he => hc ?_, hdoc, hb⟩
  exact hdoc.symm.trans (congrArg Request.doc he)

/-- Nothing depends on a request that brings nothing. -/
theorem Settled.refused {i : Nat} {q : Request Id} (h : Settled ∅ s)
    (hi : s.requests[i]? = some q) (hq : ¬ Brings s q) :
    Settled ∅ { s with requests := s.requests.eraseIdx i } := by
  refine ⟨h.saves, fun c hc rev hheld => ?_, h.heard, h.told⟩
  refine (h.held c hc rev hheld).mono rfl rfl rfl (fun n hn _ => hn)
    fun q' hq' hdoc hb => ⟨q', mem_eraseIdx_of_ne hi hq' fun he => hq (he ▸ hb), hdoc, hb⟩

/-- Of a notification that is removed only its own document may depend. -/
theorem Settled.delivered {i : Nat} {n : Notification Id} (h : Settled ∅ s)
    (hi : s.notifications[i]? = some n) :
    Settled {n.doc} { s with notifications := s.notifications.eraseIdx i } := by
  refine ⟨h.saves, fun c hc rev hheld => ?_, (h.aside _).heard, fun n' hn' =>
    h.told n' (List.mem_of_mem_eraseIdx hn')⟩
  refine (h.held c (Set.notMem_empty c) rev hheld).mono rfl rfl rfl
    (fun n' hn' hdoc => mem_eraseIdx_of_ne hi hn' fun he => hc ?_)
    fun q hq hdoc hb => ⟨q, hq, hdoc, hb⟩
  exact hdoc.symm.trans (congrArg Notification.doc he)

/-! ## What the cache does with one document -/

variable [DecidableEq Id]

theorem Settled.deleteDoc (h : Settled {d} s) : Settled ∅ (s.deleteDoc d) := by
  refine ⟨h.saves, fun c _ rev hc => ?_, fun hview c _ hc => ?_, h.told⟩
  · by_cases hcd : c = d
    · subst hcd
      cases (Function.update_self c _ s.documents).symm.trans hc
    · exact h.held c hcd rev ((Function.update_of_ne hcd _ s.documents).symm.trans hc)
  · by_cases hcd : c = d
    · subst hcd
      exact absurd (Function.update_self c _ s.documents) hc
    · exact h.heard hview c hcd fun hnone =>
        hc ((Function.update_of_ne hcd _ s.documents).trans hnone)

theorem Settled.storeDoc (h : Settled {d} s) (hrev : Storable s d rev)
    (hlistener : s.view = false → s.listeners d = 1) : Settled ∅ (s.storeDoc d rev) := by
  refine ⟨h.saves, fun c _ rev' hc => ?_, fun hview c _ hc => ?_, h.told⟩
  · by_cases hcd : c = d
    · subst hcd
      cases (Function.update_self c _ s.documents).symm.trans hc
      exact hrev
    · exact h.held c hcd rev' ((Function.update_of_ne hcd _ s.documents).symm.trans hc)
  · by_cases hcd : c = d
    · subst hcd
      exact hlistener hview
    · exact h.heard hview c hcd fun hnone =>
        hc ((Function.update_of_ne hcd _ s.documents).trans hnone)

/-- The listeners of a document that is left aside do not matter. -/
theorem Settled.withListeners (h : Settled {d} s) (k : Nat) :
    Settled {d} { s with listeners := Function.update s.listeners d k } := by
  refine ⟨h.saves, h.held, fun hview c hc hheld => ?_, h.told⟩
  exact (Function.update_of_ne hc k s.listeners).trans (h.heard hview c hc hheld)

/-- A read of a document that is left aside brings its latest revision. -/
theorem Settled.askAside (h : Settled {d} s) (hlistener : s.view = false →
    s.documents d ≠ none → s.listeners d = 1) : Settled ∅ (s.ask d .refresh) := by
  refine ⟨h.saves, fun c _ rev hheld => ?_, fun hview c _ hheld => ?_, h.told⟩
  · by_cases hcd : c = d
    · subst hcd
      exact .inr (.inr ⟨⟨c, .refresh, none⟩, List.mem_append_right _ (List.mem_singleton_self _),
        rfl, trivial⟩)
    · exact (h.held c hcd rev hheld).mono rfl rfl rfl (fun n hn _ => hn)
        fun q hq hdoc hb => ⟨q, List.mem_append_left _ hq, hdoc, hb⟩
  · by_cases hcd : c = d
    · subst hcd
      exact hlistener hview hheld
    · exact h.heard hview c hcd hheld

/-! ## Commits and notifications -/

/-- A commit is told of wherever the document is held. -/
theorem Settled.commit (h : Settled ∅ s) (d : Id) (deleted : Bool) :
    Settled ∅ (s.commit d deleted) := by
  have hother : ∀ {c}, c ≠ d → (s.commit d deleted).rev c = s.rev c ∧
      (s.commit d deleted).live c = s.live c := fun hcd =>
    ⟨Function.update_of_ne hcd _ _, Function.update_of_ne hcd _ _⟩
  refine ⟨h.saves, fun c hc rev hheld => ?_, h.heard, fun n hn => ?_⟩
  · by_cases hcd : c = d
    · subst hcd
      refine .inr (.inl ⟨⟨c, s.rev c + 1, deleted⟩, List.mem_append_right _ ?_, rfl, ?_⟩)
      · refine List.mem_replicate.mpr ⟨?_, rfl⟩
        by_cases hview : s.view = true
        · rw [if_pos hview]
          exact Nat.one_ne_zero
        · rw [if_neg hview, h.heard (Bool.eq_false_of_not_eq_true hview) c hc
            (fun hnone => by cases hheld.symm.trans hnone)]
          exact Nat.one_ne_zero
      · exact (Function.update_self c _ s.rev).symm
    · exact (h.held c hc rev hheld).mono rfl (hother hcd).2 (hother hcd).1
        (fun n hn _ => List.mem_append_left _ hn) fun q hq hdoc hb => ⟨q, hq, hdoc, hb⟩
  · rcases List.mem_append.mp hn with hn | hn
    · obtain ⟨hle, hdeleted⟩ := h.told n hn
      by_cases hnd : n.doc = d
      · subst hnd
        have hrev : (s.commit n.doc deleted).rev n.doc = s.rev n.doc + 1 :=
          Function.update_self n.doc _ s.rev
        rw [hrev]
        exact ⟨Nat.le_succ_of_le hle, fun he => by omega⟩
      · rw [(hother hnd).1, (hother hnd).2]
        exact ⟨hle, hdeleted⟩
    · obtain ⟨-, rfl⟩ := List.mem_replicate.mp hn
      refine ⟨Nat.le_of_eq (Function.update_self d _ s.rev).symm, fun _ => ?_⟩
      dsimp only [State.commit]
      rw [Function.update_self, Bool.not_not]

/-- Nothing depends on a notification of the revision that is held. -/
theorem Settled.known {i : Nat} {n : Notification Id} (h : Settled ∅ s)
    (hi : s.notifications[i]? = some n) (hn : n.deleted = false)
    (hheld : s.documents n.doc = some n.rev) :
    Settled ∅ { s with notifications := s.notifications.eraseIdx i } := by
  have hside := h.delivered hi
  refine ⟨h.saves, fun c hc rev hc' => ?_, h.heard, hside.told⟩
  by_cases hcd : c = n.doc
  · subst hcd
    cases hheld.symm.trans hc'
    by_cases hlatest : n.rev = s.rev n.doc
    · have hdeleted := (h.told n (List.mem_of_getElem? hi)).2 hlatest
      rw [hn] at hdeleted
      exact .inl ⟨by simpa using hdeleted.symm, hlatest⟩
    · rcases h.held n.doc hc n.rev hheld with hl | ⟨n', hn', hdoc, hrev⟩ | hreq
      · exact absurd hl.2 hlatest
      · refine .inr (.inl ⟨n', mem_eraseIdx_of_ne hi hn' fun he => hlatest ?_, hdoc, hrev⟩)
        exact he ▸ hrev
      · exact .inr (.inr hreq)
  · exact hside.held c hcd rev hc'

/-! ## One step -/

theorem Settled.performed {i : Nat} {kind : Kind} (h : Settled ∅ s)
    (hi : s.requests[i]? = some ⟨d, kind, none⟩) :
    Settled ∅ { (s.perform d kind).2 with
      requests := s.requests.set i ⟨d, kind, some (s.perform d kind).1⟩ } := by
  have hread : ∀ kind, Brings s ⟨d, kind, none⟩ → kind = .add ∨ kind = .refresh := by
    intro kind hb
    cases kind with
    | add => exact .inl rfl
    | refresh => exact .inr rfl
    | save _ | delete _ => exact hb.elim
  have hbrings : ∀ kind, kind = .add ∨ kind = .refresh → Brings s ⟨d, kind, some (s.read d)⟩ := by
    intro kind hkind
    unfold State.read
    by_cases hlive : s.live d = true
    · rw [if_pos hlive]
      rcases hkind with rfl | rfl <;> exact ⟨hlive, rfl⟩
    · rw [if_neg hlive]
      rcases hkind with rfl | rfl <;> trivial
  cases kind with
  | add => exact h.answered hi fun _ => hbrings _ (.inl rfl)
  | refresh => exact h.answered hi fun _ => hbrings _ (.inr rfl)
  | save base =>
    by_cases hbase : base = (if s.live d then some (s.rev d) else none)
    · have hp : s.perform d (.save base) = (.found (s.rev d + 1), s.commit d false) := if_pos hbase
      rw [hp]
      exact (h.commit d false).answered hi fun hb => hb.elim
    · have hp : s.perform d (.save base) = (.conflict, s) := if_neg hbase
      rw [hp]
      exact h.answered hi fun hb => hb.elim
  | delete base =>
    by_cases hlive : s.live d = true
    · have hp : s.perform d (.delete base) =
          if base = s.rev d then (.found (s.rev d + 1), s.commit d true) else (.conflict, s) :=
        if_pos hlive
      rw [hp]
      by_cases hbase : base = s.rev d
      · rw [if_pos hbase]
        exact (h.commit d true).answered hi fun hb => hb.elim
      · rw [if_neg hbase]
        exact h.answered hi fun hb => hb.elim
    · have hp : s.perform d (.delete base) = (.notFound, s) := if_neg hlive
      rw [hp]
      exact h.answered hi fun hb => hb.elim

theorem Settled.respond {i : Nat} {kind : Kind} {answer : Answer} (h : Settled ∅ s)
    (hi : s.requests[i]? = some ⟨d, kind, some answer⟩)
    (hsafe : Harmless { s with requests := s.requests.eraseIdx i } d kind answer) :
    Settled ∅ (respond { s with requests := s.requests.eraseIdx i } d kind answer) := by
  have hside := h.responded hi
  cases kind with
  | add =>
    cases answer with
    | found rev =>
      unfold State.respond
      dsimp only
      split
      · rename_i hview
        exact hside.storeDoc hsafe.1 fun hno => by cases hview.symm.trans hno
      · rename_i hview
        have hnone := hsafe.2.resolve_left hview
        -- the listener is registered last, but nothing depends on the order
        refine (hside.withListeners (s.listeners d + 1)).storeDoc ?_ fun _ => ?_
        · exact hsafe.1
        · exact (Function.update_self d _ s.listeners).trans (congrArg (· + 1) hnone)
    | notFound => exact hside.deleteDoc
    | conflict => exact h.refused hi id
  | refresh =>
    cases answer with
    | found rev =>
      refine hside.storeDoc hsafe.1 fun hview => hsafe.2.resolve_left fun hyes => ?_
      cases hview.symm.trans hyes
    | notFound => exact hside.deleteDoc
    | conflict => exact h.refused hi id
  | save base =>
    cases answer with
    | found rev =>
      unfold State.respond
      dsimp only
      rw [if_pos hsafe.2]
      exact hside.storeDoc hsafe.1 fun hno => by cases hsafe.2.symm.trans hno
    | notFound | conflict => exact h.refused hi id
  | delete base =>
    cases answer with
    | found _ | notFound | conflict => exact h.refused hi id

theorem Settled.documentChanged {i : Nat} {n : Notification Id} (h : Settled ∅ s)
    (hi : s.notifications[i]? = some n) :
    Settled ∅ (documentChanged { s with notifications := s.notifications.eraseIdx i } n) := by
  have hside := h.delivered hi
  unfold State.documentChanged
  split
  · exact hside.deleteDoc
  · rename_i hn
    split
    · rename_i hheld
      exact h.known hi (Bool.eq_false_of_not_eq_true hn) hheld
    · exact hside.askAside fun hview => h.heard hview _ (Set.notMem_empty _)

/-- What a timely step preserves. -/
theorem Settled.step {t : State Id} {e : Event Id} (h : Settled ∅ s) (hsafe : Timely s e)
    (hstep : s.step e = some t) : Settled ∅ t := by
  cases e with
  | add d =>
    cases hstep
    split
    · exact h.ask d .add
    · exact h
  | refresh d =>
    cases hstep
    exact h.ask d .refresh
  | forget d =>
    cases hstep
    split
    · exact (h.aside _).deleteDoc
    · exact ((h.aside {d}).withListeners 0).deleteDoc
  | save d base =>
    cases hstep
    exact h.ask d _
  | delete d base =>
    cases hstep
    exact h.ask d _
  | written d deleted =>
    unfold State.step at hstep
    dsimp only at hstep
    split at hstep
    · cases hstep
    · cases hstep
      exact h.commit d deleted
  | serve i =>
    unfold State.step at hstep
    dsimp only at hstep
    split at hstep
    · rename_i d kind hi
      cases hstep
      exact h.performed hi
    · cases hstep
  | respond i =>
    unfold State.step at hstep
    dsimp only at hstep
    split at hstep
    · rename_i d kind answer hi
      cases hstep
      exact h.respond hi (hsafe _ hi _ rfl)
    · cases hstep
  | notify i =>
    unfold State.step at hstep
    dsimp only at hstep
    split at hstep
    · rename_i n hi
      split at hstep
      · cases hstep
      · cases hstep
        exact h.documentChanged hi
    · cases hstep

/-! ## Whole runs -/

instance (s : State Id) (q : Request Id) : Decidable (Brings s q) := by
  unfold Brings
  split <;> infer_instance

instance (s : State Id) (d : Id) : Decidable (Owed s d) :=
  inferInstanceAs (Decidable (_ ∨ _))

instance (s : State Id) (d : Id) (rev : Nat) : Decidable (Storable s d rev) :=
  inferInstanceAs (Decidable (_ ∨ _))

instance (s : State Id) (d : Id) : ∀ kind answer, Decidable (Harmless s d kind answer) := by
  intro kind answer
  unfold Harmless
  split <;> infer_instance

instance (s : State Id) : ∀ e, Decidable (Timely s e) := by
  intro e
  unfold Timely
  split <;> infer_instance

/-- A run whose responses overtake nothing leaves the cache converged, in every state. -/
theorem converges {view : Bool} {rev : Id → Nat} {live loaded : Id → Bool}
    {es : List (Event Id)} {t : State Id}
    (h : Run (Guarded Timely (Defined step)) (start view rev live loaded) es t) :
    Converged t := by
  have hkeep : ∀ s (e : Event Id) t, Settled ∅ s → Guarded Timely (Defined step) s e t →
      Settled ∅ t := fun _ _ _ hs hstep => hs.step hstep.1 hstep.2
  exact (h.preserves hkeep (settled_start view rev live loaded)).converged

/-- Without a view a document is added, written by another and read again. -/
theorem converges_added : ∃ t : State Nat, t.documents 0 = some 2 ∧ t.requests = [] ∧
    t.notifications = [] ∧ Converged t := by
  have hrun : ∃ t : State Nat,
      [.add 0, .serve 0, .respond 0, .written 0 false, .notify 0, .serve 0, .respond 0].foldlM
        (checked Timely step) (start false (fun _ => 1) (fun _ => true) fun _ => true) = some t ∧
      decide (t.documents 0 = some 2 ∧ t.requests = [] ∧ t.notifications = []) = true := by
    apply Option.map_eq_some_iff.mp
    decide +kernel
  obtain ⟨t, ht, h⟩ := hrun
  obtain ⟨hdoc, hreqs, hnotes⟩ := of_decide_eq_true h
  exact ⟨t, hdoc, hreqs, hnotes, converges (run_checked ht)⟩

/-- With a view, a read that is answered before a write by another and responded after the read
that follows the write leaves the old revision, and one responded after the notification of a
deletion the deleted document. Without one, two calls of `add_document` register two listeners,
and a save that succeeds fails. -/
theorem overtaken :
    (∃ t : State Nat, Run (Defined step) (start true (fun _ => 1) (fun _ => true) fun _ => true)
      [.refresh 0, .serve 0, .written 0 false, .notify 0, .serve 1, .respond 1, .respond 0] t ∧
      ¬ Converged t) ∧
    (∃ t : State Nat, Run (Defined step) (start true (fun _ => 1) (fun _ => true) fun _ => true)
      [.refresh 0, .serve 0, .written 0 true, .notify 0, .respond 0] t ∧ ¬ Converged t) ∧
    (∃ t : State Nat, Run (Defined step) (start false (fun _ => 1) (fun _ => true) fun _ => true)
      [.add 0, .add 0, .serve 0, .serve 1, .respond 0, .respond 0] t ∧ ¬ Converged t) ∧
    ∃ t : State Nat, Run (Defined step) (start false (fun _ => 1) (fun _ => true) fun _ => true)
      [.save 0 (some 1), .serve 0, .respond 0] t ∧ ¬ Converged t := by
  have hbad : ∀ (view : Bool) (es : List (Event Nat)),
      ((es.foldlM step (start view (fun _ => 1) (fun _ => true) fun _ => true)).map
        fun t => decide (t.failedSaves ≠ 0 ∨ t.requests = [] ∧ t.notifications = [] ∧
          ∃ rev ∈ t.documents 0, t.live 0 = false ∨ rev ≠ t.rev 0 ∨
            t.view = false ∧ t.listeners 0 ≠ 1)) = some true →
      ∃ t, Run (Defined step) (start view (fun _ => 1) (fun _ => true) fun _ => true) es t ∧
        ¬ Converged t := by
    intro view es h
    obtain ⟨t, ht, h⟩ := Option.map_eq_some_iff.mp h
    refine ⟨t, run_defined ht, ?_⟩
    rcases of_decide_eq_true h with hsaves | ⟨hreqs, hnotes, rev, hd, hbad⟩
    · exact fun hc => hsaves hc.saves
    · exact not_converged hreqs hnotes hd hbad
  exact ⟨hbad _ _ (by decide +kernel), hbad _ _ (by decide +kernel), hbad _ _ (by decide +kernel),
    hbad _ _ (by decide +kernel)⟩

end State
end Feat.Agents.DocumentCache
