import Feat.Database.ConnectionLock
import Feat.Database.Emu

/- The verdict `own_change` that a connection hands on with every notification.

   The connection remembers for each document the revision of the last response
   that carried one, and a notification is taken for the echo of an own write when
   its revision is the remembered one or has a lower number. What the database is
   relied on for is `FromDatabase`: a revision of a live document is numbered one
   above the one it replaces, and what is read or notified has been committed.

   The verdict is right for every own write, and the remembered number never goes
   down (`own_change_exact`), in the runs all of whose steps are `InOrder`: no
   write of a `dict` succeeds, no response arrives after one with a newer revision
   of the document, and no document is created anew below the number it was deleted
   at. Without it both fail (`dict_not_own`): the revision of a saved `dict` is not
   remembered at all, and a slow read overwrites what a save has brought. -/
namespace Feat.Database
open Hash Transition

/-- The revision a notification tells of. -/
def Notification.response (n : Notification) : Response := ⟨n.docId, n.rev⟩

namespace Connection

/-! ## What the database does, and in which order it answers -/

/-- A revision that has been committed. -/
def Committed (s : Connection) (x : Response) : Prop := ∃ c ∈ s.committed, c.response = x

/-- A revision that was committed by a write of this connection. -/
def Own (s : Connection) (x : Response) : Prop := ∃ c ∈ s.committed, c.own = true ∧ c.response = x

instance (s : Connection) (x : Response) : Decidable (s.Committed x) :=
  inferInstanceAs (Decidable (∃ c ∈ s.committed, c.response = x))

/-- The last revision of a document. -/
def latest (s : Connection) (id : String) : Option Commit :=
  s.committed.find? (fun c => c.response.id = id)

/-- The revision the database commits in an event. -/
def commits (s : Connection) : Event → Option Response
  | .run => match s.stack with
    | .enter (.mk _ _ (.now answer) _) _ :: _ => answer
    | _ => none
  | .serve _ answer => answer
  | .other response _ => some response
  | _ => none

/-- The response an event brings to the connection, and whether it is one to an `IDocument`: a
read is noticed whatever the representation. -/
def brings (s : Connection) : Event → Option (Bool × Response)
  | .run => match s.stack with
    | .answered writing (some response) _ :: _ => some (writing.isDocument, response)
    | _ => none
  | .read response => some (true, response)
  | _ => none

/-- The revision a read or a notification claims to be one of the database. -/
def reports : Event → Option Response
  | .read response => some response
  | .change _ n => some n.response
  | _ => none

/-- The database numbers the revisions of a live document one after the other, and tells of
nothing it has not committed. -/
def FromDatabase (s : Connection) (e : Event) : Prop :=
  (∀ x ∈ s.commits e, ∀ c ∈ s.latest x.id, c.deleted = false →
    x.rev.index = c.response.rev.index + 1) ∧
  ∀ x ∈ reports e, s.Committed x

/-- No document is created anew below the number it was deleted at, no write of a `dict` succeeds,
and no response comes after one with a newer revision of the document. -/
def InOrder (s : Connection) (e : Event) : Prop :=
  (∀ x ∈ s.commits e, ∀ c ∈ s.latest x.id, c.deleted = true →
    c.response.rev.index < x.rev.index) ∧
  ∀ p ∈ s.brings e, p.1 = true ∧ ∀ x ∈ s.received, x.id = p.2.id → x.rev.index ≤ p.2.rev.index

/-- The condition on a step. -/
def Orderly (s : Connection) (e : Event) : Prop := s.FromDatabase e ∧ s.InOrder e

instance (s : Connection) (e : Event) : Decidable (s.FromDatabase e) :=
  inferInstanceAs (Decidable (_ ∧ _))

instance (s : Connection) (e : Event) : Decidable (s.InOrder e) :=
  inferInstanceAs (Decidable (_ ∧ _))

instance (s : Connection) (e : Event) : Decidable (s.Orderly e) :=
  inferInstanceAs (Decidable (_ ∧ _))

/-! ## The verdict -/

/-- What is remembered of a document is this revision, or one with a higher number. -/
def Covers (known : Dict String Revision) (x : Response) : Prop :=
  ∃ last, known.lookup x.id = some last ∧ (x.rev.index < last.index ∨ x.rev = last)

/-- Every notification of an own revision has been handed on as one. -/
def OwnMarked (s : Connection) : Prop :=
  ∀ d ∈ s.delivered, s.Own d.notification.response → d.ownChange = true

/-- No number that is remembered goes down. -/
def KnownGrows (s t : Connection) : Prop :=
  ∀ id last, s.knownRevisions.lookup id = some last →
    ∃ last', t.knownRevisions.lookup id = some last' ∧ last.index ≤ last'.index

theorem ownChange_of_covers {s : Connection} {n : Notification}
    (h : Covers s.knownRevisions n.response) : s.ownChange n = true := by
  obtain ⟨last, hlast, hrev⟩ := h
  simp only [Notification.response] at hlast hrev
  unfold ownChange
  rw [hlast]
  rcases hrev with hlt | rfl
  · simp [hlt]
  · simp

theorem KnownGrows.refl (s : Connection) : KnownGrows s s := fun _ last h => ⟨last, h, Nat.le_refl _⟩

theorem KnownGrows.trans {s t u : Connection} (h : KnownGrows s t) (h' : KnownGrows t u) :
    KnownGrows s u := by
  intro id last hlast
  obtain ⟨last', hlast', hle⟩ := h id last hlast
  obtain ⟨last'', hlast'', hle'⟩ := h' id last' hlast'
  exact ⟨last'', hlast'', hle.trans hle'⟩

theorem KnownGrows.of_eq {s t : Connection} (h : t.knownRevisions = s.knownRevisions) :
    KnownGrows s t := by
  intro id last hlast
  exact ⟨last, h ▸ hlast, Nat.le_refl _⟩

/-! ## The answers that are under way -/

/-- The revision an answer at hand carries. -/
def Frame.carries : Frame → Option Response
  | .answered _ answer _ => answer
  | _ => none

/-- The revisions of own writes that the connection has not seen yet. -/
def unnoticed (s : Connection) : List Response :=
  s.calls.filterMap (fun c => c.answer.join) ++ s.stack.filterMap Frame.carries

theorem carries_unwind (stack : List Frame) :
    (unwind stack).filterMap Frame.carries = stack.filterMap Frame.carries := by
  induction stack with
  | nil => rfl
  | cons frame rest ih =>
    cases frame with
    | unlocking _ => exact ih
    | unlocked _ => exact ih
    | enter _ _ => rfl
    | answered _ _ _ => rfl
    | resume _ _ => rfl
    | callback _ => rfl

theorem pending_unwind_subset {stack : List Frame} {l : Nat} (h : l ∈ pending (unwind stack)) :
    l ∈ pending stack := by
  induction stack with
  | nil => cases h
  | cons frame rest ih =>
    cases frame with
    | unlocking _ => exact List.mem_append_right _ (ih h)
    | unlocked _ => exact List.mem_cons_of_mem _ (ih h)
    | enter _ _ => exact h
    | answered _ _ _ => exact h
    | resume _ _ => exact h
    | callback _ => exact h

/-- A frame that stands for no write carries no answer. -/
theorem carries_of_saves {frames : List Frame} (h : (frames.map Frame.saves).sum = 0) :
    frames.filterMap Frame.carries = [] := by
  induction frames with
  | nil => rfl
  | cons frame rest ih =>
    rw [List.map_cons, List.sum_cons] at h
    have hrest := ih (by omega)
    cases frame with
    | answered _ _ _ =>
      simp only [Frame.saves] at h
      omega
    | enter _ _ => exact hrest
    | resume _ _ => exact hrest
    | unlocking _ => exact hrest
    | unlocked _ => exact hrest
    | callback _ => exact hrest

/-- When no write is in flight but for the frame on top, no answer is under way. -/
theorem unnoticed_nil {calls : List Call} {frames : List Frame}
    (h : (calls.map (fun c => c.outer.length + 1)).sum + (frames.map Frame.saves).sum = 0) :
    calls.filterMap (fun c => c.answer.join) ++ frames.filterMap Frame.carries = [] := by
  cases calls with
  | nil => exact carries_of_saves (by simpa using h)
  | cons call calls =>
    rw [List.map_cons, List.sum_cons] at h
    omega

/-! ## The invariant -/

/-- The invariant: an own revision is remembered or its answer under way; and what a loop has
still to hand on is of a revision whose answer has come. -/
structure OwnInv (s : Connection) : Prop where
  counter : s.updateLockCounter = s.inFlight
  distinct : s.committed.Pairwise (fun newer older =>
    newer.response.id = older.response.id → older.response.rev.index < newer.response.rev.index)
  answers : ∀ x ∈ s.unnoticed, s.Own x
  noticed : ∀ x, s.Own x → x ∈ s.unnoticed ∨ Covers s.knownRevisions x
  remembered : ∀ id last, s.knownRevisions.lookup id = some last → ⟨id, last⟩ ∈ s.received
  held : ∀ l, ∀ n ∈ s.buffer l, s.Committed n.response
  draining : ∀ l ∈ pending s.stack, ∀ n ∈ s.buffer l, s.Own n.response →
    Covers s.knownRevisions n.response
  marked : ∀ d ∈ s.delivered, s.Committed d.notification.response ∧
    (s.Own d.notification.response → d.ownChange = true)

section Steps
variable {o : HashOrder Nat} {react : List Delivery → Reaction} {s t : Connection} {e : Event}

theorem Own.committed {x : Response} (h : s.Own x) : s.Committed x := by
  obtain ⟨c, hc, _, hx⟩ := h
  exact ⟨c, hc, hx⟩

/-- Revisions of one document with one number are the same. -/
theorem OwnInv.unique (h : OwnInv s) {x y : Response} (hx : s.Committed x) (hy : s.Committed y)
    (hid : x.id = y.id) (hindex : x.rev.index = y.rev.index) : x = y := by
  obtain ⟨c, hc, rfl⟩ := hx
  obtain ⟨c', hc', rfl⟩ := hy
  have hall := List.Pairwise.forall_of_forall_of_flip
    (R := fun c c' : Commit => c.response.id = c'.response.id →
      c.response.rev.index = c'.response.rev.index → c.response = c'.response)
    (fun _ _ _ _ => rfl)
    (h.distinct.imp (fun hlt hid hi => absurd hi (Nat.ne_of_gt (hlt hid))))
    (h.distinct.imp (fun hlt hid hi => absurd hi (Nat.ne_of_lt (hlt hid.symm))))
  exact hall hc hc' hid hindex

/-- A step that leaves the revisions and the notifications alone. -/
theorem OwnInv.frame (h : OwnInv s) (hcounter : t.updateLockCounter = t.inFlight)
    (hcommitted : t.committed = s.committed) (hknown : t.knownRevisions = s.knownRevisions)
    (hreceived : t.received = s.received) (hbuffer : t.buffer = s.buffer)
    (hdelivered : t.delivered = s.delivered) (hunnoticed : ∀ x, x ∈ t.unnoticed ↔ x ∈ s.unnoticed)
    (hpending : ∀ l ∈ pending t.stack, l ∈ pending s.stack) : OwnInv t := by
  have hown : ∀ x, t.Own x ↔ s.Own x := fun x => by rw [Own, Own, hcommitted]
  have hcomm : ∀ x, t.Committed x ↔ s.Committed x := fun x => by rw [Committed, Committed, hcommitted]
  refine ⟨hcounter, hcommitted ▸ h.distinct, ?_, ?_, ?_, ?_, ?_, ?_⟩
  · intro x hx
    exact (hown x).mpr (h.answers x ((hunnoticed x).mp hx))
  · intro x hx
    rw [hunnoticed, hknown]
    exact h.noticed x ((hown x).mp hx)
  · intro id last hlast
    rw [hreceived]
    exact h.remembered id last (hknown ▸ hlast)
  · intro l n hn
    exact (hcomm _).mpr (h.held l n (hbuffer ▸ hn))
  · intro l hl n hn hx
    rw [hknown]
    exact h.draining l (hpending l hl) n (hbuffer ▸ hn) ((hown _).mp hx)
  · intro d hd
    rw [hcomm, hown]
    exact h.marked d (hdelivered ▸ hd)

/-- Of the revisions of a document the last has the highest number. -/
theorem OwnInv.latest_le (h : OwnInv s) {id : String} {c : Commit} (hlatest : s.latest id = some c)
    {c' : Commit} (hc' : c' ∈ s.committed) (hid : c'.response.id = id) :
    c'.response.rev.index ≤ c.response.rev.index := by
  obtain ⟨hcid, newer, older, hsplit, hnewer⟩ := List.find?_eq_some_iff_append.mp hlatest
  have hcid : c.response.id = id := by simpa using hcid
  rw [hsplit] at hc'
  rcases List.mem_append.mp hc' with hin | hin
  · exact absurd hid (by simpa using hnewer c' hin)
  · rcases List.mem_cons.mp hin with rfl | hin
    · exact Nat.le_refl _
    · have hdistinct := h.distinct
      rw [hsplit, List.pairwise_append] at hdistinct
      exact Nat.le_of_lt
        ((List.pairwise_cons.mp hdistinct.2.1).1 c' hin (hcid.trans hid.symm))

/-- What is committed is new. -/
theorem OwnInv.fresh (h : OwnInv s) (horderly : s.Orderly e) {x : Response}
    (hx : x ∈ s.commits e) {c' : Commit} (hc' : c' ∈ s.committed) (hid : c'.response.id = x.id) :
    c'.response.rev.index < x.rev.index := by
  cases hlatest : s.latest x.id with
  | none =>
    have hno := List.find?_eq_none.mp hlatest c' hc'
    exact absurd hid (by simpa using hno)
  | some c =>
    have hle := h.latest_le hlatest hc' hid
    cases hdeleted : c.deleted with
    | true => exact hle.trans_lt (horderly.2.1 x hx c hlatest hdeleted)
    | false =>
      have := horderly.1.1 x hx c hlatest hdeleted
      omega

/-- A step in which the database commits a revision, one of a write under way or of somebody
else. -/
theorem OwnInv.commit (h : OwnInv s) (c : Commit)
    (hfresh : ∀ c' ∈ s.committed, c'.response.id = c.response.id →
      c'.response.rev.index < c.response.rev.index)
    (hcounter : t.updateLockCounter = t.inFlight) (hcommitted : t.committed = c :: s.committed)
    (hknown : t.knownRevisions = s.knownRevisions) (hreceived : t.received = s.received)
    (hbuffer : t.buffer = s.buffer) (hdelivered : t.delivered = s.delivered)
    (hunnoticed : ∀ x, x ∈ t.unnoticed ↔ x ∈ s.unnoticed ∨ c.own = true ∧ x = c.response)
    (hpending : ∀ l ∈ pending t.stack, l ∈ pending s.stack) : OwnInv t := by
  have hnew : ¬ s.Committed c.response := by
    intro ⟨c', hc', he⟩
    have := hfresh c' hc' (congrArg Response.id he)
    rw [he] at this
    omega
  have hcomm : ∀ x, s.Committed x → t.Committed x := by
    intro x ⟨c', hc', he⟩
    exact ⟨c', hcommitted ▸ List.mem_cons_of_mem c hc', he⟩
  have hown : ∀ x, t.Own x ↔ s.Own x ∨ c.own = true ∧ x = c.response := by
    intro x
    rw [Own, hcommitted, List.exists_mem_cons_iff, or_comm]
    exact or_congr Iff.rfl (and_congr Iff.rfl eq_comm)
  have hold : ∀ x, s.Committed x → t.Own x → s.Own x := by
    intro x hx hx'
    rcases (hown x).mp hx' with hx' | ⟨_, rfl⟩
    · exact hx'
    · exact absurd hx hnew
  refine ⟨hcounter, ?_, ?_, ?_, ?_, ?_, ?_, ?_⟩
  · rw [hcommitted]
    exact List.pairwise_cons.mpr ⟨fun c' hc' hid => hfresh c' hc' hid.symm, h.distinct⟩
  · intro x hx
    exact (hown x).mpr (((hunnoticed x).mp hx).imp_left (h.answers x))
  · intro x hx
    rw [hunnoticed, hknown]
    rcases (hown x).mp hx with hx | hx
    · exact (h.noticed x hx).imp_left Or.inl
    · exact Or.inl (Or.inr hx)
  · intro id last hlast
    rw [hreceived]
    exact h.remembered id last (hknown ▸ hlast)
  · intro l n hn
    exact hcomm _ (h.held l n (hbuffer ▸ hn))
  · intro l hl n hn hx
    rw [hbuffer] at hn
    rw [hknown]
    exact h.draining l (hpending l hl) n hn (hold _ (h.held l n hn) hx)
  · intro d hd
    obtain ⟨hd₁, hd₂⟩ := h.marked d (hdelivered ▸ hd)
    exact ⟨hcomm _ hd₁, fun hx => hd₂ (hold _ hd₁ hx)⟩

/-- What is remembered covers no less when a revision that is none too old is noticed. -/
theorem OwnInv.covers_insert (h : OwnInv s) {x y : Response} (hx : s.Committed x)
    (horder : ∀ z ∈ s.received, z.id = x.id → z.rev.index ≤ x.rev.index) (hy : s.Committed y)
    (hcovers : Covers s.knownRevisions y) : Covers (s.knownRevisions.insert x.id x.rev) y := by
  obtain ⟨last, hlast, hrev⟩ := hcovers
  by_cases hid : y.id = x.id
  · have hle : last.index ≤ x.rev.index := horder _ (h.remembered y.id last hlast) hid
    refine ⟨x.rev, by rw [hid, AList.lookup_insert], ?_⟩
    rcases hrev with hlt | he
    · exact Or.inl (hlt.trans_le hle)
    · rw [← he] at hle
      rcases hle.lt_or_eq with hlt | hindex
      · exact Or.inl hlt
      · exact Or.inr (congrArg Response.rev (h.unique hy hx hid hindex))
  · exact ⟨last, by rw [AList.lookup_insert_ne hid]; exact hlast, hrev⟩

theorem OwnInv.grows (h : OwnInv s) {x : Response}
    (horder : ∀ z ∈ s.received, z.id = x.id → z.rev.index ≤ x.rev.index)
    (hknown : t.knownRevisions = s.knownRevisions.insert x.id x.rev) : KnownGrows s t := by
  intro id last hlast
  by_cases hid : id = x.id
  · refine ⟨x.rev, by rw [hknown, hid, AList.lookup_insert], ?_⟩
    exact horder _ (h.remembered id last hlast) hid
  · exact ⟨last, by rw [hknown, AList.lookup_insert_ne hid]; exact hlast, Nat.le_refl _⟩

/-- A step that notices the revision a response carries. -/
theorem OwnInv.notice (h : OwnInv s) {x : Response} (hx : s.Committed x)
    (horder : ∀ z ∈ s.received, z.id = x.id → z.rev.index ≤ x.rev.index)
    (hcounter : t.updateLockCounter = t.inFlight) (hcommitted : t.committed = s.committed)
    (hknown : t.knownRevisions = s.knownRevisions.insert x.id x.rev)
    (hreceived : t.received = x :: s.received) (hbuffer : t.buffer = s.buffer)
    (hdelivered : t.delivered = s.delivered) (hunnoticed : ∀ y ∈ t.unnoticed, y ∈ s.unnoticed)
    (hseen : ∀ y ∈ s.unnoticed, y ∈ t.unnoticed ∨ y = x)
    (hpending : ∀ l ∈ pending t.stack, l ∈ pending s.stack) : OwnInv t := by
  have hown : ∀ y, t.Own y ↔ s.Own y := fun y => by rw [Own, Own, hcommitted]
  have hcomm : ∀ y, t.Committed y ↔ s.Committed y := fun y => by rw [Committed, Committed, hcommitted]
  have hcovers : ∀ y, s.Own y → Covers s.knownRevisions y → Covers t.knownRevisions y := by
    intro y hy hcovers
    rw [hknown]
    exact h.covers_insert hx horder hy.committed hcovers
  refine ⟨hcounter, hcommitted ▸ h.distinct, ?_, ?_, ?_, ?_, ?_, ?_⟩
  · intro y hy
    exact (hown y).mpr (h.answers y (hunnoticed y hy))
  · intro y hy
    have hy := (hown y).mp hy
    rcases h.noticed y hy with hin | hin
    · refine (hseen y hin).imp_right ?_
      intro he
      exact ⟨x.rev, by rw [hknown, he, AList.lookup_insert], Or.inr (congrArg Response.rev he)⟩
    · exact Or.inr (hcovers y hy hin)
  · intro id last hlast
    rw [hreceived]
    rw [hknown] at hlast
    by_cases hid : id = x.id
    · rw [hid, AList.lookup_insert] at hlast
      cases hlast
      exact hid ▸ List.mem_cons_self
    · rw [AList.lookup_insert_ne hid] at hlast
      exact List.mem_cons_of_mem _ (h.remembered id last hlast)
  · intro l n hn
    exact (hcomm _).mpr (h.held l n (hbuffer ▸ hn))
  · intro l hl n hn hy
    have hy := (hown _).mp hy
    exact hcovers _ hy (h.draining l (hpending l hl) n (hbuffer ▸ hn) hy)
  · intro d hd
    rw [hcomm, hown]
    exact h.marked d (hdelivered ▸ hd)

/-- A step that hands on a notification, when what is remembered covers it. -/
theorem OwnInv.deliver (h : OwnInv s) {listener : Nat} {n : Notification} (hn : s.Committed n.response)
    (hcovers : s.Own n.response → Covers s.knownRevisions n.response)
    (hcounter : t.updateLockCounter = t.inFlight) (hcommitted : t.committed = s.committed)
    (hknown : t.knownRevisions = s.knownRevisions) (hreceived : t.received = s.received)
    (hbuffer : ∀ l, ∀ n' ∈ t.buffer l, n' ∈ s.buffer l)
    (hdelivered : t.delivered = s.delivered ++ [⟨listener, n, s.ownChange n⟩])
    (hunnoticed : t.unnoticed = s.unnoticed)
    (hpending : ∀ l ∈ pending t.stack, l ∈ pending s.stack) : OwnInv t := by
  have hown : ∀ x, t.Own x ↔ s.Own x := fun x => by rw [Own, Own, hcommitted]
  have hcomm : ∀ x, t.Committed x ↔ s.Committed x := fun x => by rw [Committed, Committed, hcommitted]
  refine ⟨hcounter, hcommitted ▸ h.distinct, ?_, ?_, ?_, ?_, ?_, ?_⟩
  · intro x hx
    exact (hown x).mpr (h.answers x (hunnoticed ▸ hx))
  · intro x hx
    rw [hunnoticed, hknown]
    exact h.noticed x ((hown x).mp hx)
  · intro id last hlast
    rw [hreceived]
    exact h.remembered id last (hknown ▸ hlast)
  · intro l n' hn'
    exact (hcomm _).mpr (h.held l n' (hbuffer l n' hn'))
  · intro l hl n' hn' hx
    rw [hknown]
    exact h.draining l (hpending l hl) n' (hbuffer l n' hn') ((hown _).mp hx)
  · intro d hd
    rw [hcomm, hown]
    rw [hdelivered, List.mem_append, List.mem_singleton] at hd
    rcases hd with hd | rfl
    · exact h.marked d hd
    · exact ⟨hn, fun hx => ownChange_of_covers (hcovers hx)⟩

/-- What the code does as it runs on. -/
theorem runs_own (h : OwnInv s) (horderly : s.Orderly .run) (hruns : Runs o react s t) :
    OwnInv t ∧ KnownGrows s t := by
  have hcounter := runs_counter h.counter hruns
  cases hruns with
  | asked hstack =>
    exact ⟨h.frame hcounter rfl rfl rfl rfl rfl (by simp [unnoticed, hstack, Frame.carries])
      (fun l hl => by rw [hstack]; exact hl), .of_eq rfl⟩
  | @askedNow _ deletes answer _ _ _ hstack =>
    cases answer with
    | none =>
      exact ⟨h.frame hcounter rfl rfl rfl rfl rfl
        (by simp [unnoticed, commitOwn, hstack, Frame.carries]) (fun l hl => by rw [hstack]; exact hl), .of_eq rfl⟩
    | some x =>
      have hx : x ∈ s.commits .run := by simp [commits, hstack]
      refine ⟨h.commit ⟨x, deletes, true⟩ (fun c' hc' hid => h.fresh horderly hx hc' hid) hcounter
        rfl rfl rfl rfl rfl ?_ (fun l hl => by rw [hstack]; exact hl), .of_eq rfl⟩
      intro y
      simp only [unnoticed, commitOwn, hstack, List.filterMap_cons, Frame.carries, List.mem_append,
        List.mem_cons]
      tauto
  | failed hstack =>
    exact ⟨h.frame hcounter rfl rfl rfl rfl rfl (by simp [unnoticed, hstack, Frame.carries])
      (fun l hl => by rw [hstack]; exact hl), .of_eq rfl⟩
  | @succeeded writing x outer rest links hstack =>
    have hbrings : (writing.isDocument, x) ∈ s.brings .run := by simp [brings, hstack]
    obtain ⟨hdoc, horder⟩ := horderly.2.2 _ hbrings
    have hin : x ∈ s.unnoticed := by simp [unnoticed, hstack, Frame.carries]
    simp only at hdoc
    rw [hdoc] at hcounter ⊢
    refine ⟨h.notice (h.answers x hin).committed horder hcounter rfl rfl rfl rfl rfl ?_ ?_
      (fun l hl => by rw [hstack]; exact hl), h.grows horder rfl⟩
    · intro y hy
      simp only [unnoticed, updateIdAndRev, noticeDocRevision, if_true, hstack, List.filterMap_cons,
        Frame.carries, List.mem_append, List.mem_cons] at hy ⊢
      tauto
    · intro y hy
      simp only [unnoticed, updateIdAndRev, noticeDocRevision, if_true, hstack, List.filterMap_cons,
        Frame.carries, List.mem_append, List.mem_cons] at hy ⊢
      tauto
  | done hstack =>
    exact ⟨h.frame hcounter rfl rfl rfl rfl rfl (by simp [unnoticed, hstack, Frame.carries])
      (fun l hl => by rw [hstack]; exact hl), .of_eq rfl⟩
  | link hstack =>
    exact ⟨h.frame hcounter rfl rfl rfl rfl rfl (by simp [unnoticed, hstack, Frame.carries])
      (fun l hl => by rw [hstack]; exact hl), .of_eq rfl⟩
  | released hstack hzero =>
    -- no other write is in flight, so every answer has come
    have hcount := h.counter
    rw [inFlight, hstack, List.map_cons, List.sum_cons] at hcount
    simp only [Frame.saves, List.length_cons] at hcount
    have hnil : s.unnoticed = [] := by
      rw [unnoticed, hstack, List.filterMap_cons_none rfl]
      exact unnoticed_nil (by omega)
    have hcovers : ∀ x, s.Own x → Covers s.knownRevisions x := by
      intro x hx
      refine (h.noticed x hx).resolve_left ?_
      rw [hnil]
      exact List.not_mem_nil
    refine ⟨⟨hcounter, h.distinct, ?_, ?_, h.remembered, h.held, ?_, h.marked⟩, .of_eq rfl⟩
    · intro x hx
      refine h.answers x ?_
      simpa [unnoticed, hstack, Frame.carries] using hx
    · exact fun x hx => Or.inr (hcovers x hx)
    · exact fun l _ n _ hx => hcovers _ hx
  | kept hstack _ =>
    exact ⟨h.frame hcounter rfl rfl rfl rfl rfl (by simp [unnoticed, hstack, Frame.carries])
      (fun l hl => by rw [hstack]; exact hl), .of_eq rfl⟩
  | unlocked hstack =>
    exact ⟨h.frame hcounter rfl rfl rfl rfl rfl (by simp [unnoticed, hstack, Frame.carries])
      (fun l hl => by rw [hstack]; exact hl), .of_eq rfl⟩
  | next hstack =>
    exact ⟨h.frame hcounter rfl rfl rfl rfl rfl (by simp [unnoticed, hstack, Frame.carries])
      (fun l hl => by rw [hstack]; exact hl), .of_eq rfl⟩
  | drained hstack _ =>
    exact ⟨h.frame hcounter rfl rfl rfl rfl rfl (by simp [unnoticed, hstack, Frame.carries])
      (fun l hl => by rw [hstack]; exact List.mem_cons_of_mem _ hl), .of_eq rfl⟩
  | @delivers listener rest n buffer hstack hbuffer =>
    have hn : n ∈ s.buffer listener := by rw [hbuffer]; exact List.mem_cons_self
    have hl : listener ∈ pending s.stack := by rw [hstack]; exact List.mem_cons_self
    refine ⟨h.deliver (h.held listener n hn) (h.draining listener hl n hn) hcounter rfl rfl rfl ?_ rfl
      (by rw [unnoticed, unnoticed, hstack]; rfl) (fun l hl => by rw [hstack]; exact hl), .of_eq rfl⟩
    intro l n' hn'
    by_cases he : l = listener
    · subst he
      rw [hbuffer]
      exact List.mem_cons_of_mem n (by simpa [processChange] using hn')
    · simpa [processChange, Function.update_of_ne he] using hn'
  | writes hstack =>
    exact ⟨h.frame hcounter rfl rfl rfl rfl rfl (by simp [unnoticed, hstack, Frame.carries])
      (fun l hl => by rw [hstack]; exact hl), .of_eq rfl⟩
  | returned hstack =>
    exact ⟨h.frame hcounter rfl rfl rfl rfl rfl (by simp [unnoticed, hstack, Frame.carries])
      (fun l hl => by rw [hstack]; exact hl), .of_eq rfl⟩
  | @raised rest hstack =>
    exact ⟨h.frame hcounter rfl rfl rfl rfl rfl
      (by simp [unnoticed, hstack, Frame.carries, carries_unwind])
      (fun l hl => by rw [hstack]; exact @pending_unwind_subset rest l hl), .of_eq rfl⟩

/-- The answer the database makes of a call is under way from then on. -/
theorem unnoticed_serve {calls : List Call} {i : Nat} {writing : Writing}
    {outer : List (List Saving)} (hcall : calls[i]? = some ⟨writing, none, outer⟩)
    (answer : Option Response) (x : Response) :
    x ∈ (calls.set i ⟨writing, some answer, outer⟩).filterMap (fun c => c.answer.join) ↔
      x ∈ calls.filterMap (fun c => c.answer.join) ∨ answer = some x := by
  obtain ⟨hi, he⟩ := List.getElem?_eq_some_iff.mp hcall
  have hset := (List.set_perm_cons_eraseIdx hi ⟨writing, some answer, outer⟩).filterMap
    (fun c : Call => c.answer.join)
  have hget := (List.getElem_cons_eraseIdx_perm hi).filterMap (fun c : Call => c.answer.join)
  rw [hset.mem_iff, ← hget.mem_iff, he]
  cases answer with
  | none => simp
  | some y => simp [or_comm, eq_comm]

/-- The answer that arrives is at hand instead of under way. -/
theorem unnoticed_reply {calls : List Call} {i : Nat} {writing : Writing} {answer : Option Response}
    {outer : List (List Saving)} (hcall : calls[i]? = some ⟨writing, some answer, outer⟩)
    (x : Response) :
    x ∈ calls.filterMap (fun c => c.answer.join) ↔
      x ∈ (calls.eraseIdx i).filterMap (fun c => c.answer.join) ∨ answer = some x := by
  obtain ⟨hi, he⟩ := List.getElem?_eq_some_iff.mp hcall
  have hget := (List.getElem_cons_eraseIdx_perm hi).filterMap (fun c : Call => c.answer.join)
  rw [← hget.mem_iff, he]
  cases answer with
  | none => simp
  | some y => simp [or_comm, eq_comm]

/-- Every orderly event keeps the invariant, and no number that is remembered goes down. -/
theorem step_own (h : OwnInv s) (horderly : s.Orderly e) (hstep : Step o react s e t) :
    OwnInv t ∧ KnownGrows s t := by
  have hcounter := step_counter h.counter hstep
  cases hstep with
  | run hruns => exact runs_own h horderly hruns
  | start saving hstack =>
    exact ⟨h.frame hcounter rfl rfl rfl rfl rfl (by simp [unnoticed, hstack, Frame.carries])
      (fun l hl => by rw [hstack]; exact hl), .of_eq rfl⟩
  | @serve i writing outer answer hcall =>
    have hserve := unnoticed_serve hcall answer
    cases answer with
    | none =>
      refine ⟨h.frame hcounter rfl rfl rfl rfl rfl ?_ (fun l hl => hl), .of_eq rfl⟩
      intro x
      simp only [unnoticed, commitOwn, List.mem_append, hserve]
      simp
    | some x =>
      refine ⟨h.commit ⟨x, writing.deletes, true⟩ (fun c' hc' hid => h.fresh horderly rfl hc' hid)
        hcounter rfl rfl rfl rfl rfl ?_ (fun l hl => hl), .of_eq rfl⟩
      intro y
      simp only [unnoticed, commitOwn, List.mem_append, hserve, Option.some.injEq, true_and,
        eq_comm]
      tauto
  | @reply i writing answer outer hstack hcall =>
    refine ⟨h.frame hcounter rfl rfl rfl rfl rfl ?_ (fun l hl => by rw [hstack]; exact hl),
      .of_eq rfl⟩
    intro x
    simp only [unnoticed, hstack, List.mem_append, unnoticed_reply hcall]
    cases answer <;> simp [Frame.carries, eq_comm]
  | read x hstack =>
    have hx : s.Committed x := horderly.1.2 x rfl
    obtain ⟨_, horder⟩ := horderly.2.2 (true, x) rfl
    exact ⟨h.notice hx horder hcounter rfl rfl rfl rfl rfl (fun y hy => hy) (fun y hy => Or.inl hy)
      (fun l hl => hl), h.grows horder rfl⟩
  | other x deleted =>
    refine ⟨h.commit ⟨x, deleted, false⟩ (fun c' hc' hid => h.fresh horderly rfl hc' hid) hcounter
      rfl rfl rfl rfl rfl ?_ (fun l hl => hl), .of_eq rfl⟩
    intro y
    simp [unnoticed]
  | buffered listener n hstack hlock =>
    have hn : s.Committed n.response := horderly.1.2 n.response rfl
    refine ⟨⟨hcounter, h.distinct, h.answers, h.noticed, h.remembered, ?_, ?_, h.marked⟩, .of_eq rfl⟩
    · intro l n' hn'
      simp only at hn'
      by_cases he : l = listener
      · subst he
        rw [Function.update_self, List.mem_append, List.mem_singleton] at hn'
        rcases hn' with hn' | rfl
        · exact h.held l n' hn'
        · exact hn
      · rw [Function.update_of_ne he] at hn'
        exact h.held l n' hn'
    · intro l hl
      rw [hstack] at hl
      cases hl
  | handed listener n hstack hlock =>
    have hn : s.Committed n.response := horderly.1.2 n.response rfl
    have hcount := h.counter
    rw [inFlight, hlock] at hcount
    have hnil : s.unnoticed = [] := unnoticed_nil hcount.symm
    refine ⟨h.deliver hn ?_ hcounter rfl rfl rfl (fun l n' hn' => hn') rfl
      (by simp [unnoticed, hstack, Frame.carries, processChange])
      (fun l hl => by rw [hstack]; exact hl), .of_eq rfl⟩
    intro hx
    refine (h.noticed _ hx).resolve_left ?_
    rw [hnil]
    exact List.not_mem_nil

theorem new_own : OwnInv Connection.new := by
  refine ⟨rfl, .nil, ?_, ?_, ?_, ?_, ?_, ?_⟩
  · exact fun x hx => absurd hx List.not_mem_nil
  · intro x ⟨c, hc, _⟩
    exact absurd hc List.not_mem_nil
  · exact fun id last hlast => by simp [Connection.new] at hlast
  · exact fun l n hn => absurd hn List.not_mem_nil
  · exact fun l hl => absurd hl List.not_mem_nil
  · exact fun d hd => absurd hd List.not_mem_nil

/-- The invariant along a run, with what it says of the remembered numbers. -/
theorem run_own {events : List Event}
    (hrun : Run (Guarded Orderly (Defined (step o react))) s events t) (h : OwnInv s) :
    OwnInv t ∧ KnownGrows s t := by
  have hkept : ∀ u e v, OwnInv u ∧ KnownGrows s u → Guarded Orderly (Defined (step o react)) u e v →
      OwnInv v ∧ KnownGrows s v := by
    intro u e v hu hstep
    obtain ⟨hv, hgrows⟩ := step_own hu.1 hstep.1 (step_cases hstep.2)
    exact ⟨hv, hu.2.trans hgrows⟩
  have hend := hrun.preserves hkept ⟨h, .refl s⟩
  exact hend

end Steps

/-! ## Runs -/

/-- In every orderly run the notifications of own writes are handed on as such, and the number
that is remembered of a document never goes down. -/
theorem own_change_exact (o : HashOrder Nat) (react : List Delivery → Reaction)
    {events events' : List Event} {s t : Connection}
    (hs : Run (Guarded Orderly (Defined (step o react))) .new events s)
    (ht : Run (Guarded Orderly (Defined (step o react))) s events' t) :
    OwnMarked t ∧ KnownGrows s t := by
  have hinv := (run_own hs new_own).1
  obtain ⟨hinv', hgrows⟩ := run_own ht hinv
  exact ⟨fun d hd => (hinv'.marked d hd).2, hgrows⟩

/-- While a save waits for its answer another connection saves the document again; both
notifications are held back, and a read follows. -/
theorem own_change_exact_overtaken :
    let events : List Event :=
      [.start (.mk true false .later []), .run, .serve 0 (some ⟨"d", 1, "a"⟩),
        .change 0 ⟨"d", ⟨1, "a"⟩, false⟩, .other ⟨"d", 2, "b"⟩ false,
        .change 0 ⟨"d", ⟨2, "b"⟩, false⟩, .reply 0, .run]
    let events' : List Event := List.replicate 9 .run ++ [.read ⟨"d", 2, "b"⟩]
    ∃ s t, Run (Guarded Orderly (Defined (step .stored fun _ => ⟨[], false⟩))) .new events s ∧
      Run (Guarded Orderly (Defined (step .stored fun _ => ⟨[], false⟩))) s events' t ∧
      t.delivered.map Delivery.ownChange = [true, false] ∧ OwnMarked t ∧ KnownGrows s t := by
  intro events events'
  have hend : ((events.foldlM (checked Orderly (step .stored fun _ => ⟨[], false⟩)) .new).bind
      fun s => (events'.foldlM (checked Orderly (step .stored fun _ => ⟨[], false⟩)) s).map
        fun t => t.delivered.map Delivery.ownChange) = some [true, false] := by decide
  obtain ⟨s, hs, hend⟩ := Option.bind_eq_some_iff.mp hend
  obtain ⟨t, ht, hmarks⟩ := Option.map_eq_some_iff.mp hend
  have hrun := run_checked hs
  have hrun' := run_checked ht
  exact ⟨s, t, hrun, hrun', hmarks, own_change_exact .stored _ hrun hrun'⟩

/-- A saved `dict` is notified as somebody else's change. And the answer to a read that was made
before a save, arriving after it, takes what is remembered back. -/
theorem own_change_misjudged :
    let Runs := Run (Guarded FromDatabase (Defined (step .stored fun _ => ⟨[], false⟩)))
    let dictSaved : List Event := .start (.mk false false (.now (some ⟨"d", 1, "a"⟩)) []) ::
      List.replicate 5 .run ++ [.change 0 ⟨"d", ⟨1, "a"⟩, false⟩]
    let saved : List Event := .other ⟨"d", 1, "a"⟩ false ::
      .start (.mk true false (.now (some ⟨"d", 2, "b"⟩)) []) :: List.replicate 5 .run
    (∃ s, Runs .new dictSaved s ∧ ¬ OwnMarked s) ∧
    ∃ s t, Runs .new saved s ∧ Runs s [.read ⟨"d", 1, "a"⟩] t ∧ ¬ KnownGrows s t := by
  intro Runs dictSaved saved
  let next : Connection → Event → Option Connection :=
    checked FromDatabase (step .stored fun _ => ⟨[], false⟩)
  refine ⟨?_, ?_⟩
  · have hend : ((dictSaved.foldlM next .new).map fun s => (s.delivered, s.committed)) =
        some ([⟨0, ⟨"d", ⟨1, "a"⟩, false⟩, false⟩], [⟨⟨"d", 1, "a"⟩, false, true⟩]) := by decide
    obtain ⟨s, hs, hparts⟩ := Option.map_eq_some_iff.mp hend
    have hdelivered := congrArg Prod.fst hparts
    have hcommitted := congrArg Prod.snd hparts
    simp only at hdelivered hcommitted
    refine ⟨s, run_checked hs, fun hmarked => ?_⟩
    have hfalse := hmarked ⟨0, ⟨"d", ⟨1, "a"⟩, false⟩, false⟩ (by rw [hdelivered]; decide)
      ⟨⟨⟨"d", 1, "a"⟩, false, true⟩, by rw [hcommitted]; decide, rfl, rfl⟩
    cases hfalse
  · have hend : ((saved.foldlM next .new).bind fun s =>
        (next s (.read ⟨"d", 1, "a"⟩)).map fun t =>
          (s.knownRevisions.lookup "d", t.knownRevisions.lookup "d")) =
        some (some ⟨2, "b"⟩, some ⟨1, "a"⟩) := by decide
    obtain ⟨s, hs, hend⟩ := Option.bind_eq_some_iff.mp hend
    obtain ⟨t, ht, hparts⟩ := Option.map_eq_some_iff.mp hend
    have hbefore := congrArg Prod.fst hparts
    have hafter := congrArg Prod.snd hparts
    simp only at hbefore hafter
    refine ⟨s, t, run_checked hs, run_checked (by simpa [next] using ht), fun hgrows => ?_⟩
    obtain ⟨last', hlast', hle⟩ := hgrows "d" _ hbefore
    rw [hafter] at hlast'
    cases hlast'
    exact absurd hle (by decide)

end Connection

/-! ## The emulated database numbers its revisions so -/

namespace EmuDatabase
variable {Fields K V : Type}

theorem storeDoc_reply {o : HashOrder String} {db : EmuDatabase Fields K V} {doc : Doc Fields}
    {following : Option (Dict String String)} {x : Response}
    (h : (storeDoc o db doc following).1 = .ok x) : x = ⟨doc.id, doc.rev⟩ := by
  unfold storeDoc at h
  simp only at h
  split at h
  · cases h
  · cases h
    rfl

theorem nextIndex_str {r : Revision} {index : Nat} (h : nextIndex (some r.str) = .ok index) :
    index = r.index + 1 := by
  simp only [nextIndex] at h
  split at h
  · rename_i hempty
    have := congrArg String.toList hempty
    rw [str_toList] at this
    simp at this
  · rw [parseRev_str] at h
    simp only at h
    split at h
    · cases h
    · cases h
      rfl

/-- A body that is saved over a live document gets the next number. -/
theorem saveDoc_next {o : HashOrder String} {db : EmuDatabase Fields K V} {body : Body Fields}
    {docId : Option String} {following : Option (Dict String String)} {id : String}
    {old : Doc Fields} {x : Response} (hid : givenId body docId = some id)
    (hold : db.documents.lookup id = some old) (hlive : old.deleted = false)
    (h : (db.saveDoc o (some body) docId following).1 = .ok x) :
    x.id = id ∧ x.rev.index = old.rev.index + 1 := by
  have hset : ∀ doc db', db.setIdAndRevision body docId = (.ok doc, db') →
      doc.id = id ∧ doc.rev.index = old.rev.index + 1 := by
    intro doc db' hset
    rw [setIdAndRevision, hid] at hset
    simp only at hset
    split at hset
    · cases hset
    · rename_i hno
      have hrev : body.rev = some old.rev.str := by
        simpa [conflicts, hold, hlive] using hno
      unfold setIdAndRevision.store at hset
      split at hset
      · cases hset
      · rename_i index hindex
        rw [hrev] at hindex
        cases hset
        exact ⟨rfl, nextIndex_str hindex⟩
  unfold saveDoc at h
  simp only at h
  split at h
  · cases h
  · rename_i doc db' hdoc
    rw [storeDoc_reply h]
    exact hset doc db' hdoc

end EmuDatabase
end Feat.Database
