import Mathlib.Data.List.Basic
import Feat.Agents.NotificationSender

/- Pending notifications are not dropped, and are delivered in order as long as their
   recipient is not found to be deleted.

   In every run an entry leaves its list only after an equal notification was delivered
   to its recipient or the document of the recipient was found to be deleted, and as long
   as it was not found to be, the first deliveries to a recipient are in the order of its
   notifications (`kept_and_in_order`). The order holds because what was delivered,
   followed by what is pending, has the same first occurrences as what was notified
   (`Sound.ahead`): no notification is sent before all earlier ones were delivered.

   Once a recipient is forgotten, a delivery that was on its way may succeed after that
   of a later notification (`late_delivery`). -/
namespace Feat.Agents.NotificationSender
open Transition

/-! ## First occurrences -/

section EraseDups

variable {α : Type} [DecidableEq α] {l m r : List α} {x : α}

/-- What already occurred adds nothing. -/
theorem eraseDups_append_cons (h : x ∈ l) : (l ++ x :: r).eraseDups = (l ++ r).eraseDups := by
  have hrest : (x :: r).removeAll l = r.removeAll l := by
    rw [List.cons_removeAll, if_neg]
    simpa using h
  rw [List.eraseDups_append, List.eraseDups_append, hrest]

theorem eraseDups_append_mid (h : x ∈ l) :
    (l ++ (m ++ x :: r)).eraseDups = (l ++ (m ++ r)).eraseDups := by
  rw [← List.append_assoc, ← List.append_assoc]
  exact eraseDups_append_cons (List.mem_append_left m h)

theorem eraseDups_append_congr (h : l.eraseDups = m.eraseDups) (r : List α) :
    (l ++ r).eraseDups = (m ++ r).eraseDups := by
  have hmem : ∀ x, x ∈ l ↔ x ∈ m := fun x => by
    rw [← List.mem_eraseDups, h, List.mem_eraseDups]
  have hrest : r.removeAll l = r.removeAll m := by
    refine List.filter_congr fun x _ => ?_
    have helem : List.elem x l = List.elem x m := by
      rw [Bool.eq_iff_iff, List.elem_iff, List.elem_iff]
      exact hmem x
    rw [helem]
  rw [List.eraseDups_append, List.eraseDups_append, h, hrest]

end EraseDups

variable {Key Route Body : Type}

namespace State

/-! ## What leaves a list -/

variable {s t : State Key Route Body} {key : Key}

theorem flushNext_pending (s : State Key Route Body) (key : Key) :
    (s.flushNext key).pending = s.pending := by
  unfold State.flushNext
  split <;> rfl

theorem keeps_of_subset (h : ∀ key, ∀ e ∈ s.pending key, e ∈ t.pending key) : Keeps s t :=
  fun key e he => .inl ⟨e, h key e he, rfl⟩

theorem keeps_of_eq (h : t.pending = s.pending) : Keeps s t :=
  keeps_of_subset fun _ _ he => h ▸ he

variable [DecidableEq Key]

/-- What leaves the list of one recipient. -/
theorem keeps_change {l : List (Entry Key Route Body)}
    (hpending : t.pending = Function.update s.pending key l)
    (hl : ∀ e ∈ s.pending key, (∃ e' ∈ l, e'.serial = e.serial) ∨
      e.notification ∈ s.delivered ∧ e.notification.recipient.key = key ∨ key ∈ s.deleted) :
    Keeps s t := by
  intro k e he
  rw [hpending]
  by_cases hk : k = key
  · subst hk
    rw [Function.update_self]
    exact hl e he
  · rw [Function.update_of_ne hk]
    exact .inl ⟨e, he, rfl⟩

theorem append_subset (ns : List (Notification Key Route Body)) (s : State Key Route Body) :
    ∀ key, ∀ e ∈ s.pending key, e ∈ (ns.foldl append s).pending key := by
  induction ns generalizing s with
  | nil => exact fun _ _ he => he
  | cons n ns ih =>
    refine fun key e he => ih (s.append n) key e ?_
    unfold State.append
    dsimp only
    by_cases hkey : key = n.recipient.key
    · subst hkey
      rw [Function.update_self]
      exact List.mem_append_left _ he
    · rw [Function.update_of_ne hkey]
      exact he

theorem keeps_forget (hkey : key ∈ s.deleted) : Keeps s (s.forget key) :=
  keeps_change rfl fun _ _ => .inr (.inr hkey)

theorem keeps_readdress (recp : Recipient Key Route) : Keeps s (s.readdress recp) :=
  keeps_change rfl fun e he => .inl
    ⟨{ e with notification := { e.notification with recipient := recp } },
      List.mem_map.mpr ⟨e, he, rfl⟩, rfl⟩

theorem keeps_remove [DecidableEq Body] [DecidableEq Route] {n : Notification Key Route Body}
    (hn : n ∈ s.delivered) : Keeps s (s.remove n) := by
  refine keeps_change rfl fun e he => ?_
  by_cases hen : e.notification = n
  · subst hen
    exact .inr (.inl ⟨hn, rfl⟩)
  · exact .inl ⟨e, (List.mem_eraseP_of_neg (by simpa using hen)).mpr he, rfl⟩

/-! ## What was delivered -/


theorem mem_deliveredTo {s : State Key Route Body} {n : Notification Key Route Body}
    (h : n ∈ s.delivered) : n.body ∈ s.deliveredTo n.recipient.key :=
  List.mem_map_of_mem (List.mem_filter.mpr ⟨h, decide_eq_true rfl⟩)

theorem filterTo_append (l : List (Notification Key Route Body))
    (n : Notification Key Route Body) (key : Key) :
    ((l ++ [n]).filter (·.recipient.key = key)).map (·.body) =
      (l.filter (·.recipient.key = key)).map (·.body) ++
        if n.recipient.key = key then [n.body] else [] := by
  rw [List.filter_append, List.map_append]
  by_cases hkey : n.recipient.key = key
  · rw [if_pos hkey, List.filter_cons_of_pos (by exact decide_eq_true hkey)]
    rfl
  · rw [if_neg hkey, List.filter_cons_of_neg (by simpa using hkey)]
    rfl

/-! ## The invariant -/

variable [DecidableEq Body]

def bodies (l : List (Entry Key Route Body)) : List Body := l.map (·.notification.body)

/-- What is on its way was delivered or is first in its list, and what is delivered and pending
has the first occurrences of what was notified. -/
structure Sound (s : State Key Route Body) : Prop where
  keyed : ∀ key, ∀ e ∈ s.pending key, e.notification.recipient.key = key
  removes : ∀ n, .remove n ∈ s.updates → n ∈ s.delivered
  forgets : ∀ key, .forget key ∈ s.updates → key ∈ s.deleted
  ahead : ∀ key ∉ s.deleted,
    (s.deliveredTo key ++ bodies (s.pending key)).eraseDups = (s.notifiedTo key).eraseDups
  sending : ∀ n, .sending n ∈ s.chains → n.recipient.key ∉ s.deleted →
    n.body ∈ s.deliveredTo n.recipient.key ∨
      (bodies (s.pending n.recipient.key)).head? = some n.body

theorem sound_start : Sound (start : State Key Route Body) where
  keyed _ _ h := nomatch h
  removes _ h := nomatch h
  forgets _ h := nomatch h
  ahead _ _ := rfl
  sending _ h := nomatch h

theorem Sound.inOrder (h : Sound s) (hkey : key ∉ s.deleted) : InOrder s key := by
  unfold InOrder
  rw [← h.ahead key hkey, List.eraseDups_append]
  exact List.sublist_append_left _ _

/-! ## The lists -/

theorem Sound.flushNext (h : Sound s) (key : Key) : Sound (s.flushNext key) := by
  unfold State.flushNext
  split
  · rename_i entry rest hp
    refine ⟨h.keyed, h.removes, h.forgets, h.ahead, fun n hn hdel => ?_⟩
    rcases List.mem_append.mp hn with hold | hnew
    · exact h.sending n hold hdel
    · cases List.mem_singleton.mp hnew
      refine .inr ?_
      have hkey := h.keyed key entry (by rw [hp]; exact List.mem_cons_self)
      dsimp only
      rw [hkey, hp]
      rfl
  · exact h

/-- A change of the list of one recipient. -/
theorem Sound.change {l : List (Entry Key Route Body)} (h : Sound s)
    (hpending : t.pending = Function.update s.pending key l) (hupdates : t.updates = s.updates)
    (hchains : t.chains = s.chains) (hdelivered : t.delivered = s.delivered)
    (hdeleted : t.deleted = s.deleted)
    (hnotified : ∀ k, k ≠ key → t.notifiedTo k = s.notifiedTo k)
    (hkeyed : ∀ e ∈ l, e.notification.recipient.key = key)
    (hahead : key ∉ s.deleted →
      (s.deliveredTo key ++ bodies l).eraseDups = (t.notifiedTo key).eraseDups)
    (hhead : key ∉ s.deleted → ∀ b, (bodies (s.pending key)).head? = some b →
      b ∈ s.deliveredTo key ∨ (bodies l).head? = some b) : Sound t := by
  have hto : ∀ k, t.deliveredTo k = s.deliveredTo k := fun k => by
    unfold deliveredTo
    rw [hdelivered]
  have hother : ∀ {k}, k ≠ key → t.pending k = s.pending k := fun hk => by
    rw [hpending, Function.update_of_ne hk]
  have hself : t.pending key = l := by rw [hpending, Function.update_self]
  refine ⟨fun k e he => ?_, ?_, ?_, fun k hk => ?_, fun n hn hdel => ?_⟩
  · by_cases hkey : k = key
    · subst hkey
      rw [hself] at he
      exact hkeyed e he
    · rw [hother hkey] at he
      exact h.keyed k e he
  · rw [hupdates, hdelivered]
    exact h.removes
  · rw [hupdates, hdeleted]
    exact h.forgets
  · rw [hdeleted] at hk
    rw [hto]
    by_cases hkey : k = key
    · subst hkey
      rw [hself]
      exact hahead hk
    · rw [hother hkey, hnotified k hkey]
      exact h.ahead k hk
  · rw [hchains] at hn
    rw [hdeleted] at hdel
    rw [hto]
    by_cases hkey : n.recipient.key = key
    · subst hkey
      rw [hself]
      rcases h.sending n hn hdel with hsent | hfirst
      · exact .inl hsent
      · exact hhead hdel _ hfirst
    · rw [hother hkey]
      exact h.sending n hn hdel

theorem Sound.append (h : Sound s) (n : Notification Key Route Body) : Sound (s.append n) := by
  have hnotified : ∀ k, (s.append n).notifiedTo k =
      s.notifiedTo k ++ if n.recipient.key = k then [n.body] else [] :=
    fun k => filterTo_append s.notified n k
  have hbodies : bodies (s.pending n.recipient.key ++ [⟨s.serial, n⟩]) =
      bodies (s.pending n.recipient.key) ++ [n.body] := List.map_append
  refine h.change rfl rfl rfl rfl rfl (fun k hk => ?_) (fun e he => ?_) (fun hdel => ?_)
    fun _ b hb => .inr ?_
  · rw [hnotified, if_neg (Ne.symm hk), List.append_nil]
  · rcases List.mem_append.mp he with hold | hnew
    · exact h.keyed _ e hold
    · rw [List.mem_singleton.mp hnew]
  · rw [hnotified, if_pos rfl, hbodies, ← List.append_assoc]
    exact eraseDups_append_congr (h.ahead _ hdel) [n.body]
  · rw [hbodies, List.head?_append, hb]
    rfl

theorem Sound.forget (h : Sound s) (hkey : key ∈ s.deleted) : Sound (s.forget key) :=
  h.change rfl rfl rfl rfl rfl (fun _ _ => rfl) (fun _ he => nomatch he)
    (fun hdel => absurd hkey hdel) fun hdel => absurd hkey hdel

/-- A new address changes no body. -/
theorem Sound.readdress (h : Sound s) (recp : Recipient Key Route) : Sound (s.readdress recp) := by
  have hbodies : bodies ((s.pending recp.key).map fun e =>
      { e with notification := { e.notification with recipient := recp } }) =
        bodies (s.pending recp.key) := List.map_map.trans rfl
  refine h.change rfl rfl rfl rfl rfl (fun _ _ => rfl) (fun e he => ?_) (fun hdel => ?_)
    fun _ b hb => .inr ?_
  · obtain ⟨e', -, rfl⟩ := List.mem_map.mp he
    rfl
  · rw [hbodies]
    exact h.ahead _ hdel
  · rw [hbodies]
    exact hb

/-! ## Updates and chains -/

/-- An update that is taken from the queue. -/
theorem Sound.popped {u : Update Key Route Body} {rest : List (Update Key Route Body)}
    (h : Sound s) (hu : s.updates = u :: rest) : Sound { s with updates := rest } := by
  refine ⟨h.keyed, fun n hn => h.removes n ?_, fun k hk => h.forgets k ?_, h.ahead, h.sending⟩
  · rw [hu]
    exact List.mem_cons_of_mem u hn
  · rw [hu]
    exact List.mem_cons_of_mem u hk

/-- A chain that is called back. -/
theorem Sound.called (h : Sound s) (i : Nat) : Sound { s with chains := s.chains.eraseIdx i } :=
  ⟨h.keyed, h.removes, h.forgets, h.ahead, fun n hn => h.sending n (List.mem_of_mem_eraseIdx hn)⟩

/-- An update that removes and forgets nothing. -/
theorem Sound.queued {u : Update Key Route Body} (h : Sound s) (hremove : ∀ n, u ≠ .remove n)
    (hforget : ∀ key, u ≠ .forget key) : Sound { s with updates := s.updates ++ [u] } := by
  refine ⟨h.keyed, fun n hn => ?_, fun k hk => ?_, h.ahead, h.sending⟩
  · rcases List.mem_append.mp hn with hold | hnew
    · exact h.removes n hold
    · exact absurd (List.mem_singleton.mp hnew).symm (hremove n)
  · rcases List.mem_append.mp hk with hold | hnew
    · exact h.forgets k hold
    · exact absurd (List.mem_singleton.mp hnew).symm (hforget k)

/-- A delivery is that of a notification that was delivered already, or of the first one. -/
theorem Sound.sent {n : Notification Key Route Body} {i : Nat} (h : Sound s)
    (hi : s.chains[i]? = some (.sending n)) : Sound { s with
      chains := s.chains.eraseIdx i
      delivered := s.delivered ++ [n]
      updates := s.updates ++ [.remove n] } := by
  have hto : ∀ k, ((s.delivered ++ [n]).filter (·.recipient.key = k)).map (·.body) =
      s.deliveredTo k ++ if n.recipient.key = k then [n.body] else [] :=
    filterTo_append s.delivered n
  refine ⟨h.keyed, fun m hm => ?_, fun k hk => ?_, fun k hk => ?_, fun m hm hdel => ?_⟩
  · rcases List.mem_append.mp hm with hold | hnew
    · exact List.mem_append_left _ (h.removes m hold)
    · cases List.mem_singleton.mp hnew
      exact List.mem_append_right _ (List.mem_singleton_self _)
  · rcases List.mem_append.mp hk with hold | hnew
    · exact h.forgets k hold
    · cases List.mem_singleton.mp hnew
  · refine Eq.trans ?_ (h.ahead k hk)
    unfold deliveredTo
    dsimp only
    rw [hto]
    by_cases hkey : n.recipient.key = k
    · subst hkey
      rw [if_pos rfl, List.append_assoc]
      rcases h.sending n (List.mem_of_getElem? hi) hk with hsent | hfirst
      · exact eraseDups_append_cons hsent
      · obtain ⟨l, hl⟩ := List.head?_eq_some_iff.mp hfirst
        rw [hl, ← List.append_assoc]
        refine (eraseDups_append_cons ?_).trans ?_
        · exact List.mem_append_right _ (List.mem_singleton_self _)
        · rw [List.append_assoc]
          rfl
    · rw [if_neg hkey, List.append_nil]
      rfl
  · rcases h.sending m (List.mem_of_mem_eraseIdx hm) hdel with hsent | hfirst
    · refine .inl ?_
      unfold deliveredTo
      dsimp only
      rw [hto]
      exact List.mem_append_left _ hsent
    · exact .inr hfirst

variable [DecidableEq Route]

/-- What is removed was delivered. -/
theorem Sound.remove {n : Notification Key Route Body} (h : Sound s) (hn : n ∈ s.delivered) :
    Sound (s.remove n) := by
  have hdelivered := mem_deliveredTo hn
  refine h.change rfl rfl rfl rfl rfl (fun _ _ => rfl) (fun e he => ?_) (fun hdel => ?_)
    fun _ b hb => ?_
  · exact h.keyed _ e (List.mem_of_mem_eraseP he)
  · refine Eq.trans ?_ (h.ahead _ hdel)
    rcases List.exists_or_eq_self_of_eraseP (·.notification = n) (s.pending n.recipient.key) with
      hsame | ⟨e, l₁, l₂, -, he, hl, herase⟩
    · rw [hsame]
    · rw [herase, hl]
      unfold bodies
      rw [List.map_append, List.map_append, List.map_cons, of_decide_eq_true he]
      exact (eraseDups_append_mid hdelivered).symm
  · cases hl : s.pending n.recipient.key with
    | nil =>
      rw [hl] at hb
      cases hb
    | cons e l =>
      rw [hl] at hb
      cases hb
      by_cases he : e.notification = n
      · subst he
        exact .inl hdelivered
      · rw [List.eraseP_cons_of_neg (by simpa using he)]
        exact .inr rfl

/-! ## One step -/

theorem Sound.saved {u : Update Key Route Body} {rest : List (Update Key Route Body)}
    (h : Sound s) (hu : s.updates = u :: rest) :
    Sound (save { s with updates := rest } u) ∧ Keeps s (save { s with updates := rest } u) := by
  have hpopped := h.popped hu
  have hmem : u ∈ s.updates := by
    rw [hu]
    exact List.mem_cons_self
  cases u with
  | append ns =>
    refine ⟨?_, keeps_of_subset (append_subset ns { s with updates := rest })⟩
    exact List.foldlRecOn (motive := Sound) ns State.append hpopped fun t ht n _ => ht.append n
  | remove n =>
    have hn := h.removes n hmem
    refine ⟨(hpopped.remove hn).flushNext _, ?_⟩
    intro key e he
    rw [show (save { s with updates := rest } (.remove n)).pending = _ from
      flushNext_pending _ _]
    exact keeps_remove (s := { s with updates := rest }) hn key e he
  | forget key =>
    have hkey := h.forgets key hmem
    exact ⟨hpopped.forget hkey, keeps_forget (s := { s with updates := rest }) hkey⟩
  | readdress recp =>
    exact ⟨hpopped.readdress recp, keeps_readdress (s := { s with updates := rest }) recp⟩

/-- What a step preserves, and what it keeps. -/
theorem Sound.step {e : Event Key Route Body} (h : Sound s) (hstep : s.step e = some t) :
    Sound t ∧ Keeps s t := by
  cases e with
  | notify ns =>
    cases hstep
    exact ⟨h.queued (fun _ he => nomatch he) (fun _ he => nomatch he), keeps_of_eq rfl⟩
  | run keys =>
    cases hstep
    have hrun : ∀ (keys : List Key) (s : State Key Route Body), Sound s →
        Sound (keys.foldl State.flushNext s) ∧
          (keys.foldl State.flushNext s).pending = s.pending := by
      intro keys
      induction keys with
      | nil => exact fun s hs => ⟨hs, rfl⟩
      | cons key keys ih =>
        intro s hs
        obtain ⟨hsound, hpending⟩ := ih _ (hs.flushNext key)
        exact ⟨hsound, hpending.trans (flushNext_pending s key)⟩
    obtain ⟨hsound, hpending⟩ := hrun keys s h
    exact ⟨hsound, keeps_of_eq hpending⟩
  | flush key =>
    cases hstep
    exact ⟨h.flushNext key, keeps_of_eq (flushNext_pending s key)⟩
  | delivered i =>
    unfold State.step at hstep
    dsimp only at hstep
    split at hstep
    · rename_i n hi
      cases hstep
      exact ⟨h.sent hi, keeps_of_eq rfl⟩
    · cases hstep
  | failed i protocol =>
    unfold State.step at hstep
    dsimp only at hstep
    split at hstep
    · rename_i n hi
      cases hstep
      refine ⟨?_, keeps_of_eq rfl⟩
      have hcalled := h.called i
      refine ⟨hcalled.keyed, hcalled.removes, hcalled.forgets, hcalled.ahead, fun m hm => ?_⟩
      dsimp only at hm
      split at hm
      · rcases List.mem_append.mp hm with hold | hnew
        · exact hcalled.sending m hold
        · cases List.mem_singleton.mp hnew
      · exact hcalled.sending m hm
    · cases hstep
  | document i answer =>
    unfold State.step at hstep
    dsimp only at hstep
    split at hstep
    · rename_i recp hi
      have hcalled := h.called i
      cases answer with
      | found route =>
        cases hstep
        unfold checkRecipient
        split
        · exact ⟨hcalled.queued (fun _ he => nomatch he) (fun _ he => nomatch he),
            keeps_of_eq rfl⟩
        · exact ⟨hcalled, keeps_of_eq rfl⟩
      | notFound =>
        cases hstep
        refine ⟨⟨h.keyed, fun n hn => ?_, fun k hk => ?_, fun k hk => ?_, fun n hn hdel => ?_⟩,
          keeps_of_eq rfl⟩
        · rcases List.mem_append.mp hn with hold | hnew
          · exact h.removes n hold
          · cases List.mem_singleton.mp hnew
        · rcases List.mem_append.mp hk with hold | hnew
          · exact List.mem_append_left _ (h.forgets k hold)
          · cases List.mem_singleton.mp hnew
            exact List.mem_append_right _ (List.mem_singleton_self _)
        · exact h.ahead k fun hmem => hk (List.mem_append_left _ hmem)
        · exact hcalled.sending n hn fun hmem => hdel (List.mem_append_left _ hmem)
      | failed =>
        cases hstep
        exact ⟨hcalled, keeps_of_eq rfl⟩
    · cases hstep
  | updated =>
    unfold State.step at hstep
    dsimp only at hstep
    split at hstep
    · cases hstep
    · rename_i u rest hu
      cases hstep
      exact h.saved hu
  | updateFails =>
    unfold State.step at hstep
    dsimp only at hstep
    split at hstep
    · cases hstep
    · rename_i u rest hu
      cases hstep
      have hpopped := h.popped hu
      cases u with
      | remove n =>
        exact ⟨hpopped.flushNext _, keeps_of_eq (flushNext_pending { s with updates := rest } _)⟩
      | append _ | forget _ | readdress _ => exact ⟨hpopped, keeps_of_eq rfl⟩

/-! ## Whole runs -/

/-- In a run no entry leaves its list undelivered, but for recipients that were found to be
deleted, and to each other recipient the first deliveries are in the order of the
notifications. -/
theorem kept_and_in_order {es : List (Event Key Route Body)}
    (h : Run (Defined step) start es t) :
    Run (Relating Keeps (Defined step)) start es t ∧ ∀ key ∉ t.deleted, InOrder t key := by
  have hkeep : ∀ s (e : Event Key Route Body) t, Sound s → Defined step s e t → Sound t :=
    fun s e t hs hstep => (hs.step hstep).1
  refine ⟨h.relating hkeep (fun s e t hs hstep => (hs.step hstep).2) sound_start, ?_⟩
  exact fun key hkey => (h.preserves hkeep sound_start).inOrder hkey

instance (s : State Key Route Body) (key : Key) : Decidable (InOrder s key) :=
  inferInstanceAs (Decidable (List.Sublist _ _))

/-- Two chains for one recipient, one of which finds a new address before the other succeeds. -/
theorem kept_two : ∃ t : State Nat Nat Nat, t.deliveredTo 0 = [7, 7, 8] ∧ t.pending 0 = [] ∧
    InOrder t 0 := by
  have hrun : ∃ t : State Nat Nat Nat,
      [.notify [⟨7, 0, some 1⟩, ⟨8, 0, some 1⟩], .updated, .run [0], .flush 0, .failed 0 true,
        .document 1 (.found (some 2)), .updated, .delivered 0, .updated, .delivered 0, .updated,
        .delivered 0, .updated].foldlM step start = some t ∧
      decide (t.deliveredTo 0 = [7, 7, 8] ∧ t.pending 0 = [] ∧ t.deleted = []) = true := by
    apply Option.map_eq_some_iff.mp
    decide +kernel
  obtain ⟨t, ht, h⟩ := hrun
  obtain ⟨hdelivered, hpending, hdeleted⟩ := of_decide_eq_true h
  exact ⟨t, hdelivered, hpending, (kept_and_in_order (run_defined ht)).2 0 (by simp [hdeleted])⟩

/-- The second of two deliveries fails, and the document of the recipient is not found. The first
one succeeds after that of a later notification. -/
theorem late_delivery : ∃ t : State Nat Nat Nat,
    Run (Defined step) start
      [.notify [⟨7, 0, some 1⟩], .updated, .flush 0, .flush 0, .failed 1 true,
        .document 1 .notFound, .updated, .notify [⟨8, 0, some 1⟩], .updated, .flush 0,
        .delivered 1, .delivered 0] t ∧ ¬ ∀ key, InOrder t key := by
  have hrun : ∃ t : State Nat Nat Nat,
      [.notify [⟨7, 0, some 1⟩], .updated, .flush 0, .flush 0, .failed 1 true,
        .document 1 .notFound, .updated, .notify [⟨8, 0, some 1⟩], .updated, .flush 0,
        .delivered 1, .delivered 0].foldlM step start = some t ∧
      decide (InOrder t 0) = false := by
    apply Option.map_eq_some_iff.mp
    decide +kernel
  obtain ⟨t, ht, h⟩ := hrun
  exact ⟨t, run_defined ht, fun hall => of_decide_eq_false h (hall 0)⟩

end State
end Feat.Agents.NotificationSender
