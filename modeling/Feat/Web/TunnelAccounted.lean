import Feat.Web.Tunnel

/- What becomes of the messages that are posted through a tunnel.

   Every Deferred is accounted for (`Ledger`): it is fired once, or its message is in
   flight, or it is pending, once and under its key. Each operation moves a message
   from one of these places to another. A key is in quarantine exactly while messages
   are pending for it, and then a handshake is in flight or a timer is set.

   This holds in every run in which the tunnel has a version, posts are answered by
   servers that accept them, and no handshake succeeds after the Peer of its key was
   removed while messages wait for it (`accounted_of_sound`). Else a message that was
   refused is reported as delivered, or one is left behind (`left_behind_or_refused`):
   the connection of an earlier Peer is lost, which removes the later one, and the
   messages that are posted when its handshake succeeds find no Peer. -/
namespace Feat.Web.Tunneling
open Hash Transition

namespace Tunnel
variable {κ D : Type} [DecidableEq κ] {s t : Tunnel κ D}

/-! ## What is promised, and when -/

def firedCount (s : Tunnel κ D) (d : Nat) : Nat := s.fired.countP fun p => p.1 = d

def flightCount (s : Tunnel κ D) (d : Nat) : Nat := s.posts.countP fun f => f.record.deferred = d

def pendingCount (s : Tunnel κ D) (key : κ) (d : Nat) : Nat :=
  ((s.pendings.lookup key).getD []).countP fun r => r.deferred = d

/-- A handshake for the key is in flight or a retry is scheduled. -/
def Attended (s : Tunnel κ D) (key : κ) : Prop :=
  (∃ peer ∈ s.heads, s.made[peer]? = some key) ∨ key ∈ s.retries

/-- Every message is accounted for until it is delivered or expires. -/
structure Accounted (s : Tunnel κ D) : Prop where
  once : ∀ d key exp, s.posted[d]? = some (key, exp) →
    s.firedCount d + s.flightCount d + s.pendingCount key d = 1
  only : ∀ d key exp, s.posted[d]? = some (key, exp) → ∀ key' ≠ key, s.pendingCount key' d = 0
  delivered : ∀ d, (d, true) ∈ s.fired → d ∈ s.accepted
  expired : ∀ d, (d, false) ∈ s.fired → ∃ key e, s.posted[d]? = some (key, some e) ∧ e ≤ s.now
  attended : ∀ key, (s.pendings.lookup key).isSome → s.Attended key

/-- Posts are accepted where they are answered, and a handshake succeeds while the Peer of the key
is there, or nothing waits for it that has not expired. -/
def Sound (s : Tunnel κ D) : Event κ D → Prop
  | .answered _ status => status = statusOk
  | .handshake peer true => peer ∉ s.detached → ∀ key ∈ s.made[peer]?,
    (s.peers.lookup key).isSome ∨ ∀ records ∈ s.pendings.lookup key,
      ∀ r ∈ records, expired s.now r.expiration = true
  | _ => True

instance : ∀ (s : Tunnel κ D) (e : Event κ D), Decidable (Sound s e)
  | _, .answered _ status => inferInstanceAs (Decidable (status = statusOk))
  | s, .handshake peer true => inferInstanceAs (Decidable (peer ∉ s.detached →
      ∀ key ∈ s.made[peer]?, (s.peers.lookup key).isSome ∨ ∀ records ∈ s.pendings.lookup key,
        ∀ r ∈ records, expired s.now r.expiration = true))
  | _, .handshake _ false => isTrue trivial
  | _, .tick _ => isTrue trivial
  | _, .post _ _ _ => isTrue trivial
  | _, .failed _ => isTrue trivial
  | _, .gone _ => isTrue trivial
  | _, .retry _ => isTrue trivial

/-! ## The ledger -/

/-- Messages that are on their way from one place to another, with their keys. -/
def looseCount (loose : List (κ × Record D)) (d : Nat) : Nat :=
  loose.countP fun p => p.2.deferred = d

/-- Every Deferred is fired, in flight, pending or loose, once and under its key. -/
structure Ledger (s : Tunnel κ D) (loose : List (κ × Record D)) : Prop where
  once : ∀ d key exp, s.posted[d]? = some (key, exp) →
    s.firedCount d + s.flightCount d + s.pendingCount key d + looseCount loose d = 1
  knownPending : ∀ key r, r ∈ (s.pendings.lookup key).getD [] →
    s.posted[r.deferred]? = some (key, r.expiration)
  knownFlight : ∀ f ∈ s.posts, s.posted[f.record.deferred]? = some (f.key, f.record.expiration)
  knownLoose : ∀ p ∈ loose, s.posted[p.2.deferred]? = some (p.1, p.2.expiration)
  knownFired : ∀ p ∈ s.fired, p.1 < s.posted.length
  delivered : ∀ d, (d, true) ∈ s.fired → d ∈ s.accepted
  expired : ∀ d, (d, false) ∈ s.fired → ∃ key e, s.posted[d]? = some (key, some e) ∧ e ≤ s.now

/-- The ledger is about some fields only. -/
theorem Ledger.of_eq {loose : List (κ × Record D)} (h : Ledger s loose)
    (hposted : t.posted = s.posted) (hfired : t.fired = s.fired) (hposts : t.posts = s.posts)
    (hpendings : ∀ key, t.pendings.lookup key = s.pendings.lookup key)
    (haccepted : t.accepted = s.accepted) (hnow : s.now ≤ t.now) : Ledger t loose where
  once d key exp hd := by
    have := h.once d key exp (hposted ▸ hd)
    simpa only [firedCount, flightCount, pendingCount, hfired, hposts, hpendings] using this
  knownPending key r hr := by
    rw [hposted]
    exact h.knownPending key r (hpendings key ▸ hr)
  knownFlight f hf := by
    rw [hposted]
    exact h.knownFlight f (hposts ▸ hf)
  knownLoose p hp := by
    rw [hposted]
    exact h.knownLoose p hp
  knownFired p hp := by
    rw [hposted]
    exact h.knownFired p (hfired ▸ hp)
  delivered d hd := by
    rw [haccepted]
    exact h.delivered d (hfired ▸ hd)
  expired d hd := by
    obtain ⟨key, e, hd, he⟩ := h.expired d (hfired ▸ hd)
    exact ⟨key, e, hposted ▸ hd, he.trans hnow⟩

theorem Ledger.perm {loose loose' : List (κ × Record D)} (h : Ledger s loose)
    (hperm : loose'.Perm loose) : Ledger s loose' where
  once d key exp hd := by
    rw [looseCount, hperm.countP_eq]
    exact h.once d key exp hd
  knownPending := h.knownPending
  knownFlight := h.knownFlight
  knownLoose p hp := h.knownLoose p (hperm.mem_iff.mp hp)
  knownFired := h.knownFired
  delivered := h.delivered
  expired := h.expired

omit [DecidableEq κ] in
theorem looseCount_cons (key : κ) (r : Record D) (loose : List (κ × Record D)) (d : Nat) :
    looseCount ((key, r) :: loose) d = looseCount loose d + if r.deferred = d then 1 else 0 := by
  simp [looseCount, List.countP_cons]

theorem pendingCount_addPending (s : Tunnel κ D) (key key' : κ) (r : Record D) (d : Nat) :
    (s.addPending key r).pendingCount key' d =
      s.pendingCount key' d + if key' = key ∧ r.deferred = d then 1 else 0 := by
  unfold pendingCount addPending
  by_cases hkey : key' = key
  · subst hkey
    simp [List.countP_append, List.countP_cons]
  · simp [AList.lookup_insert_ne hkey, hkey]

/-- A loose message is pending. -/
theorem Ledger.addPending {key : κ} {r : Record D} {loose : List (κ × Record D)}
    (h : Ledger s ((key, r) :: loose)) : Ledger (s.addPending key r) loose where
  once d key' exp hd := by
    have honce := h.once d key' exp hd
    have hr := h.knownLoose (key, r) List.mem_cons_self
    rw [looseCount_cons] at honce
    have hsame : (s.addPending key r).firedCount d + (s.addPending key r).flightCount d =
        s.firedCount d + s.flightCount d := rfl
    rw [hsame, pendingCount_addPending]
    by_cases hdef : r.deferred = d
    · -- it is recorded under the key it was posted for
      rw [show (key, r).2.deferred = d from hdef, show s.posted[d]? = _ from hd] at hr
      cases hr
      simp only [hdef, and_self, if_true] at honce ⊢
      omega
    · simp only [hdef, and_false, if_false] at honce ⊢
      omega
  knownPending key' r' hr' := by
    by_cases hkey : key' = key
    · subst hkey
      rw [Tunnel.addPending, AList.lookup_insert, Option.getD_some] at hr'
      rcases List.mem_append.mp hr' with hr' | hr'
      · exact h.knownPending key' r' hr'
      · rw [List.mem_singleton.mp hr']
        exact h.knownLoose (key', r) List.mem_cons_self
    · rw [Tunnel.addPending, AList.lookup_insert_ne hkey] at hr'
      exact h.knownPending key' r' hr'
  knownFlight := h.knownFlight
  knownLoose p hp := h.knownLoose p (List.mem_cons_of_mem _ hp)
  knownFired := h.knownFired
  delivered := h.delivered
  expired := h.expired

/-- A loose message is in flight. -/
theorem Ledger.fly {key : κ} {r : Record D} {loose : List (κ × Record D)} (peer : Nat)
    (h : Ledger s ((key, r) :: loose)) :
    Ledger { s with posts := s.posts ++ [⟨peer, key, r⟩] } loose where
  once d key' exp hd := by
    have honce := h.once d key' exp hd
    rw [looseCount_cons] at honce
    have hflight : flightCount { s with posts := s.posts ++ [⟨peer, key, r⟩] } d =
        s.flightCount d + if r.deferred = d then 1 else 0 := by
      simp [flightCount, List.countP_append, List.countP_cons]
    rw [hflight]
    show s.firedCount d + _ + s.pendingCount key' d + _ = 1
    omega
  knownPending := h.knownPending
  knownFlight f hf := by
    rcases List.mem_append.mp hf with hf | hf
    · exact h.knownFlight f hf
    · rw [List.mem_singleton.mp hf]
      exact h.knownLoose (key, r) List.mem_cons_self
  knownLoose p hp := h.knownLoose p (List.mem_cons_of_mem _ hp)
  knownFired := h.knownFired
  delivered := h.delivered
  expired := h.expired

theorem lt_of_getElem?_eq_some {α : Type} {l : List α} {i : Nat} {a : α} (h : l[i]? = some a) :
    i < l.length :=
  (List.getElem?_eq_some_iff.mp h).1

/-- The Deferred of a loose message is fired. -/
theorem Ledger.fire {key : κ} {r : Record D} {loose : List (κ × Record D)} {value : Bool}
    (h : Ledger s ((key, r) :: loose)) (haccepted : value = true → r.deferred ∈ s.accepted)
    (hexpired : value = false → ∃ e, r.expiration = some e ∧ e ≤ s.now) :
    Ledger (s.fire r.deferred value) loose where
  once d key' exp hd := by
    have honce := h.once d key' exp hd
    rw [looseCount_cons] at honce
    have hfired : (s.fire r.deferred value).firedCount d =
        s.firedCount d + if r.deferred = d then 1 else 0 := by
      simp [firedCount, Tunnel.fire, List.countP_append, List.countP_cons]
    rw [hfired]
    show _ + s.flightCount d + s.pendingCount key' d + _ = 1
    omega
  knownPending := h.knownPending
  knownFlight := h.knownFlight
  knownLoose p hp := h.knownLoose p (List.mem_cons_of_mem _ hp)
  knownFired p hp := by
    rcases List.mem_append.mp hp with hp | hp
    · exact h.knownFired p hp
    · rw [List.mem_singleton.mp hp]
      exact lt_of_getElem?_eq_some (h.knownLoose (key, r) List.mem_cons_self)
  delivered d hd := by
    rcases List.mem_append.mp hd with hd | hd
    · exact h.delivered d hd
    · cases List.mem_singleton.mp hd
      exact haccepted rfl
  expired d hd := by
    rcases List.mem_append.mp hd with hd | hd
    · exact h.expired d hd
    · cases List.mem_singleton.mp hd
      obtain ⟨e, he, hle⟩ := hexpired rfl
      exact ⟨key, e, he ▸ h.knownLoose (key, r) List.mem_cons_self, hle⟩

/-- A message in flight is loose. -/
theorem Ledger.land {i : Nat} {flight : Flight κ D} {loose : List (κ × Record D)}
    (h : Ledger s loose) (hi : s.posts[i]? = some flight) :
    Ledger { s with posts := s.posts.eraseIdx i } ((flight.key, flight.record) :: loose) where
  once d key' exp hd := by
    have honce := h.once d key' exp hd
    obtain ⟨hlt, hget⟩ := List.getElem?_eq_some_iff.mp hi
    have hperm : s.posts.Perm (flight :: s.posts.eraseIdx i) := by
      rw [← hget]
      exact (List.getElem_cons_eraseIdx_perm hlt).symm
    have hflight : s.flightCount d =
        flightCount { s with posts := s.posts.eraseIdx i } d +
          if flight.record.deferred = d then 1 else 0 := by
      rw [flightCount, hperm.countP_eq, List.countP_cons]
      simp [flightCount]
    rw [looseCount_cons]
    show s.firedCount d + _ + s.pendingCount key' d + _ = 1
    omega
  knownPending := h.knownPending
  knownFlight f hf := h.knownFlight f (List.mem_of_mem_eraseIdx hf)
  knownLoose p hp := by
    rcases List.mem_cons.mp hp with rfl | hp
    · exact h.knownFlight flight (List.mem_of_getElem? hi)
    · exact h.knownLoose p hp
  knownFired := h.knownFired
  delivered := h.delivered
  expired := h.expired

/-- What is pending for a key is loose. -/
theorem Ledger.take {key : κ} {records : List (Record D)} {loose : List (κ × Record D)}
    (h : Ledger s loose) (hrecords : s.pendings.lookup key = some records) :
    Ledger { s with pendings := s.pendings.erase key }
      (records.map (fun r => (key, r)) ++ loose) where
  once d key' exp hd := by
    have honce := h.once d key' exp hd
    have hloose : looseCount (records.map (fun r => (key, r)) ++ loose) d =
        s.pendingCount key d + looseCount loose d := by
      simp [looseCount, pendingCount, hrecords, List.countP_append, List.countP_map,
        Function.comp_def]
    rw [hloose]
    show s.firedCount d + s.flightCount d + _ + _ = 1
    by_cases hkey : key' = key
    · subst hkey
      have hnone : pendingCount { s with pendings := s.pendings.erase key' } key' d = 0 := by
        simp [pendingCount]
      omega
    · have hsame : pendingCount { s with pendings := s.pendings.erase key } key' d =
          s.pendingCount key' d := by
        simp [pendingCount, AList.lookup_erase_ne hkey]
      have hother : s.pendingCount key d = 0 := by
        refine List.countP_eq_zero.mpr ?_
        intro r hr hdef
        have hknown := h.knownPending key r hr
        rw [of_decide_eq_true hdef, hd] at hknown
        cases hknown
        exact hkey rfl
      omega
  knownPending key' r hr := by
    by_cases hkey : key' = key
    · subst hkey
      simp at hr
    · rw [AList.lookup_erase_ne hkey] at hr
      exact h.knownPending key' r hr
  knownFlight := h.knownFlight
  knownLoose p hp := by
    rcases List.mem_append.mp hp with hp | hp
    · obtain ⟨r, hr, rfl⟩ := List.mem_map.mp hp
      exact h.knownPending key r (by rw [hrecords]; exact hr)
    · exact h.knownLoose p hp
  knownFired := h.knownFired
  delivered := h.delivered
  expired := h.expired

/-- Loose messages are pending where nothing else is. -/
theorem Ledger.put {key : κ} {records : List (Record D)} {loose : List (κ × Record D)}
    (h : Ledger s (records.map (fun r => (key, r)) ++ loose))
    (hnone : s.pendings.lookup key = none) :
    Ledger { s with pendings := s.pendings.insert key records } loose where
  once d key' exp hd := by
    have honce := h.once d key' exp hd
    have hloose : looseCount (records.map (fun r => (key, r)) ++ loose) d =
        (records.countP fun r => r.deferred = d) + looseCount loose d := by
      simp [looseCount, List.countP_append, List.countP_map, Function.comp_def]
    rw [hloose] at honce
    show s.firedCount d + s.flightCount d + _ + _ = 1
    by_cases hkey : key' = key
    · subst hkey
      have hzero : s.pendingCount key' d = 0 := by simp [pendingCount, hnone]
      have hput : pendingCount { s with pendings := s.pendings.insert key' records } key' d =
          records.countP fun r => r.deferred = d := by
        simp [pendingCount]
      omega
    · have hsame : pendingCount { s with pendings := s.pendings.insert key records } key' d =
          s.pendingCount key' d := by
        simp [pendingCount, AList.lookup_insert_ne hkey]
      have hother : (records.countP fun r => r.deferred = d) = 0 := by
        refine List.countP_eq_zero.mpr ?_
        intro r hr hdef
        have hknown := h.knownLoose (key, r)
          (List.mem_append_left _ (List.mem_map_of_mem (f := fun r => (key, r)) hr))
        rw [show (key, r).2.deferred = d from of_decide_eq_true hdef, hd] at hknown
        cases hknown
        exact hkey rfl
      omega
  knownPending key' r hr := by
    by_cases hkey : key' = key
    · subst hkey
      rw [AList.lookup_insert, Option.getD_some] at hr
      exact h.knownLoose (key', r)
        (List.mem_append_left _ (List.mem_map_of_mem (f := fun r => (key', r)) hr))
    · rw [AList.lookup_insert_ne hkey] at hr
      exact h.knownPending key' r hr
  knownFlight := h.knownFlight
  knownLoose p hp := h.knownLoose p (List.mem_append_right _ hp)
  knownFired := h.knownFired
  delivered := h.delivered
  expired := h.expired

/-- A message that is posted is loose at first. -/
theorem Ledger.new {key : κ} {exp : Option ℚ} {location : String} {data : D}
    (h : Ledger s []) :
    Ledger { s with posted := s.posted ++ [(key, exp)] }
      [(key, ⟨s.posted.length, location, data, exp⟩)] := by
  have hgrow : ∀ {d : Nat} {x : κ × Option ℚ}, s.posted[d]? = some x →
      (s.posted ++ [(key, exp)])[d]? = some x := by
    intro d x hx
    rw [List.getElem?_append_left (lt_of_getElem?_eq_some hx)]
    exact hx
  have hnew : (s.posted ++ [(key, exp)])[s.posted.length]? = some (key, exp) := by
    simp
  refine ⟨?_, ?_, ?_, ?_, ?_, h.delivered, ?_⟩
  · intro d key' exp' hd
    rcases Nat.lt_or_ge d s.posted.length with hlt | hge
    · rw [show (s.posted ++ [(key, exp)])[d]? = s.posted[d]? from
        List.getElem?_append_left hlt] at hd
      have honce := h.once d key' exp' hd
      rw [looseCount_cons, if_neg (show ¬ s.posted.length = d by omega)]
      exact honce
    · have hlast : d = s.posted.length := by
        have := lt_of_getElem?_eq_some hd
        rw [List.length_append, List.length_singleton] at this
        omega
      subst hlast
      -- nothing knows the new number yet
      have hfired : s.firedCount s.posted.length = 0 := by
        refine List.countP_eq_zero.mpr ?_
        intro p hp hdef
        have := h.knownFired p hp
        have := of_decide_eq_true hdef
        omega
      have hflight : s.flightCount s.posted.length = 0 := by
        refine List.countP_eq_zero.mpr ?_
        intro f hf hdef
        have := lt_of_getElem?_eq_some (h.knownFlight f hf)
        have := of_decide_eq_true hdef
        omega
      have hpending : s.pendingCount key' s.posted.length = 0 := by
        refine List.countP_eq_zero.mpr ?_
        intro r hr hdef
        have := lt_of_getElem?_eq_some (h.knownPending key' r hr)
        have := of_decide_eq_true hdef
        omega
      rw [looseCount_cons, if_pos rfl]
      show s.firedCount _ + s.flightCount _ + s.pendingCount _ _ + _ = 1
      rw [hfired, hflight, hpending]
      rfl
  · exact fun key' r hr => hgrow (h.knownPending key' r hr)
  · exact fun f hf => hgrow (h.knownFlight f hf)
  · intro p hp
    rw [List.mem_singleton.mp hp]
    exact hnew
  · intro p hp
    rw [List.length_append]
    exact Nat.lt_add_right _ (h.knownFired p hp)
  · intro d hd
    obtain ⟨key', e, hkey, he⟩ := h.expired d hd
    exact ⟨key', e, hgrow hkey, he⟩

/-! ## Posting -/

theorem expired_le {now : ℚ} {expiration : Option ℚ} (h : expired now expiration = true) :
    ∃ e, expiration = some e ∧ e ≤ now := by
  cases expiration with
  | none => cases h
  | some e => exact ⟨e, rfl, (of_decide_eq_true h).2⟩

theorem Ledger.postRecord {key : κ} {r : Record D} {loose : List (κ × Record D)}
    (h : Ledger s ((key, r) :: loose)) (hpost : s.postRecord key r = some t) : Ledger t loose := by
  unfold Tunnel.postRecord at hpost
  split at hpost
  · rename_i hexpired
    cases hpost
    exact h.fire (fun h => (nomatch h)) fun _ => expired_le hexpired
  · split at hpost
    · cases hpost
      exact h.fly _
    · cases hpost

/-- Posting changes what is fired and what is in flight. -/
theorem postRecord_frame {key : κ} {r : Record D} (h : s.postRecord key r = some t) :
    t = { s with fired := t.fired, posts := t.posts } := by
  unfold Tunnel.postRecord at h
  split at h
  · cases h
    rfl
  · split at h
    · cases h
      rfl
    · cases h

theorem postRecord_pendings (s : Tunnel κ D) (pendings : Dict κ (List (Record D))) (key : κ)
    (r : Record D) : { s with pendings }.postRecord key r =
      (s.postRecord key r).map fun t => { t with pendings } := by
  unfold Tunnel.postRecord
  split
  · rfl
  · cases s.peers.lookup key <;> rfl

theorem Ledger.postAll {key : κ} {records : List (Record D)} {loose : List (κ × Record D)}
    (h : Ledger s (records.map (fun r => (key, r)) ++ loose))
    (hall : postAll key s records = (t, true)) : Ledger t loose := by
  induction records generalizing s with
  | nil =>
    cases hall
    exact h
  | cons r records ih =>
    unfold Tunnel.postAll at hall
    split at hall
    · rename_i s' hpost
      exact ih (Ledger.postRecord h hpost) hall
    · cases hall

theorem postAll_frame {key : κ} {records : List (Record D)} {ended : Bool}
    (h : postAll key s records = (t, ended)) : t = { s with fired := t.fired, posts := t.posts } := by
  induction records generalizing s with
  | nil =>
    cases h
    rfl
  | cons r records ih =>
    unfold Tunnel.postAll at h
    split at h
    · rename_i s' hpost
      rw [ih h, postRecord_frame hpost]
    · cases h
      rfl

theorem postAll_pendings {pendings : Dict κ (List (Record D))} {key : κ}
    {records : List (Record D)} {ended : Bool} (h : postAll key s records = (t, ended)) :
    postAll key { s with pendings } records = ({ t with pendings }, ended) := by
  induction records generalizing s with
  | nil =>
    cases h
    rfl
  | cons r records ih =>
    unfold Tunnel.postAll at h ⊢
    rw [postRecord_pendings]
    split at h
    · rename_i s' hpost
      rw [hpost]
      exact ih h
    · rename_i hpost
      cases h
      rw [hpost]
      rfl

/-- Everything is posted where there is a Peer, or everything has expired. -/
theorem postAll_ends {key : κ} {records : List (Record D)}
    (h : (s.peers.lookup key).isSome ∨ ∀ r ∈ records, expired s.now r.expiration = true) :
    ∃ t, postAll key s records = (t, true) := by
  induction records generalizing s with
  | nil => exact ⟨s, rfl⟩
  | cons r records ih =>
    obtain ⟨s', hpost⟩ : ∃ s', s.postRecord key r = some s' := by
      unfold Tunnel.postRecord
      split
      · exact ⟨_, rfl⟩
      · rename_i hnot
        rcases h with h | h
        · obtain ⟨peer, hpeer⟩ := Option.isSome_iff_exists.mp h
          rw [hpeer]
          exact ⟨_, rfl⟩
        · exact absurd (h r List.mem_cons_self) hnot
    have hframe := postRecord_frame hpost
    unfold Tunnel.postAll
    rw [hpost]
    refine ih ?_
    rw [hframe]
    exact h.imp_right fun h r' hr' => h r' (List.mem_cons_of_mem _ hr')

/-! ## The invariant -/

/-- The ledger is balanced; the keys in quarantine are those with pending messages, and they are
attended to. -/
structure Inv (s : Tunnel κ D) : Prop where
  ledger : Ledger s []
  quarantine : ∀ key, key ∈ s.quarantined ↔ (s.pendings.lookup key).isSome
  attended : ∀ key, (s.pendings.lookup key).isSome → s.Attended key
  version : s.version ≠ 0

theorem Inv.accounted (h : Inv s) : Accounted s where
  once := h.ledger.once
  only d key exp hd key' hne := by
    refine List.countP_eq_zero.mpr ?_
    intro r hr hdef
    have hknown := h.ledger.knownPending key' r hr
    rw [of_decide_eq_true hdef, hd] at hknown
    cases hknown
    exact hne rfl
  delivered := h.ledger.delivered
  expired := h.ledger.expired
  attended := h.attended

theorem isSome_addPending (s : Tunnel κ D) (key key' : κ) (r : Record D) :
    ((s.addPending key r).pendings.lookup key').isSome ↔
      key' = key ∨ (s.pendings.lookup key').isSome := by
  unfold addPending
  by_cases hkey : key' = key
  · subst hkey
    simp
  · simp [AList.lookup_insert_ne hkey, hkey]

omit [DecidableEq κ] in
/-- Whoever is attended to still is while handshakes go on and timers stay set. -/
theorem Attended.mono {key : κ} (h : s.Attended key) (hheads : s.heads ⊆ t.heads)
    (hmade : ∀ peer : Nat, s.made[peer]? = some key → t.made[peer]? = some key)
    (hretries : key ∈ s.retries → key ∈ t.retries) : t.Attended key := by
  rcases h with ⟨peer, hpeer, hkey⟩ | h
  · exact Or.inl ⟨peer, hheads hpeer, hmade peer hkey⟩
  · exact Or.inr (hretries h)

theorem connect_attended (hversion : s.version ≠ 0) (key : κ) : (s.connect key).Attended key := by
  refine Or.inl ⟨s.made.length, ?_, ?_⟩
  · simp [connect, hversion]
  · simp [connect]

theorem Attended.connect {key key' : κ} (h : s.Attended key') : (s.connect key).Attended key' := by
  refine h.mono ?_ ?_ id
  · unfold Tunnel.connect
    split
    · exact List.subset_append_left _ _
    · exact fun _ h => h
  · intro peer hpeer
    exact (List.getElem?_append_left (lt_of_getElem?_eq_some hpeer)).trans hpeer

theorem Inv.post (h : Inv s) (url : Url κ) (data : D) (expiration : Option ℚ) :
    Inv (s.post url data expiration) := by
  unfold Tunnel.post
  by_cases hquarantined : url.key ∈ s.quarantined
  · simp only [if_pos hquarantined]
    refine ⟨h.ledger.new.addPending, ?_, ?_, h.version⟩
    · intro key
      rw [isSome_addPending]
      refine (h.quarantine key).trans ⟨Or.inr, ?_⟩
      rintro (rfl | hsome)
      · exact (h.quarantine url.key).mp hquarantined
      · exact hsome
    · intro key hsome
      rcases (isSome_addPending _ _ _ _).mp hsome with rfl | hsome
      · exact h.attended _ ((h.quarantine _).mp hquarantined)
      · exact h.attended key hsome
  · simp only [if_neg hquarantined]
    split
    · refine ⟨h.ledger.new.addPending.of_eq rfl rfl rfl (fun _ => rfl) rfl le_rfl, ?_, ?_, h.version⟩
      · intro key
        show key ∈ insert url.key s.quarantined ↔ _
        rw [Finset.mem_insert, h.quarantine]
        exact (isSome_addPending _ _ _ _).symm
      · intro key hsome
        rcases (isSome_addPending _ _ _ _).mp hsome with rfl | hsome
        · exact connect_attended h.version _
        · exact Attended.connect (h.attended key hsome)
    · rename_i hpeer
      obtain ⟨t, ht⟩ : ∃ t, postRecord { s with posted := s.posted ++
          [(url.key, expiration.map (· + s.now))] } url.key
          ⟨s.posted.length, url.location, data, expiration.map (· + s.now)⟩ = some t := by
        obtain ⟨peer, hpeer⟩ := Option.isSome_iff_exists.mp
          (Option.isSome_iff_ne_none.mpr fun hnone => hpeer (Option.isNone_iff_eq_none.mpr hnone))
        unfold Tunnel.postRecord
        split
        · exact ⟨_, rfl⟩
        · rw [show AList.lookup url.key _ = _ from hpeer]
          exact ⟨_, rfl⟩
      rw [ht, Option.getD_some]
      have hledger := Ledger.postRecord h.ledger.new ht
      have hframe := postRecord_frame ht
      refine ⟨hledger, ?_, ?_, ?_⟩
      · rw [hframe]
        exact h.quarantine
      · rw [hframe]
        exact h.attended
      · rw [hframe]
        exact h.version

/-- A handshake fails. -/
theorem Inv.handshakeFailed {peer : Nat} {key : κ} (h : Inv s) (hmade : s.made[peer]? = some key) :
    Inv ({ s with heads := s.heads.erase peer }.scheduleRetry key) where
  ledger := h.ledger.of_eq rfl rfl rfl (fun _ => rfl) rfl le_rfl
  quarantine := h.quarantine
  attended key' hsome := by
    by_cases hkey : key' = key
    · exact Or.inr (hkey ▸ Finset.mem_insert_self key s.retries)
    · rcases h.attended key' hsome with ⟨peer', hpeer', hmade'⟩ | hretry
      · refine Or.inl ⟨peer', (List.mem_erase_of_ne ?_).mpr hpeer', hmade'⟩
        rintro rfl
        rw [hmade] at hmade'
        cases hmade'
        exact hkey rfl
      · exact Or.inr (Finset.mem_insert_of_mem hretry)
  version := h.version

theorem gotRootHeaders_of_mem {key : κ} (h : key ∈ s.quarantined) : s.gotRootHeaders key =
    postPendings { s with
      retries := s.retries.erase key, quarantined := s.quarantined.erase key } key :=
  if_pos h

theorem gotRootHeaders_of_notMem {key : κ} (h : key ∉ s.quarantined) :
    s.gotRootHeaders key = s.resetRetry key :=
  if_neg h

/-- A handshake succeeds, and what was pending is posted. -/
theorem Inv.handshakeOk {peer : Nat} {key : κ} (h : Inv s) (hmade : s.made[peer]? = some key)
    (hsound : (s.peers.lookup key).isSome ∨ ∀ records, s.pendings.lookup key = some records →
      ∀ r ∈ records, expired s.now r.expiration = true) :
    Inv ({ s with heads := s.heads.erase peer }.gotRootHeaders key) := by
  -- the other keys are attended to as before
  have hothers : ∀ key', key' ≠ key → (s.pendings.lookup key').isSome →
      (∃ peer' ∈ s.heads.erase peer, s.made[peer']? = some key') ∨ key' ∈ s.retries.erase key := by
    intro key' hkey hsome
    rcases h.attended key' hsome with ⟨peer', hpeer', hmade'⟩ | hretry
    · refine Or.inl ⟨peer', (List.mem_erase_of_ne ?_).mpr hpeer', hmade'⟩
      rintro rfl
      rw [hmade] at hmade'
      cases hmade'
      exact hkey rfl
    · exact Or.inr (Finset.mem_erase.mpr ⟨hkey, hretry⟩)
  by_cases hquarantined : key ∈ s.quarantined
  · rw [gotRootHeaders_of_mem
      (show key ∈ ({ s with heads := s.heads.erase peer } : Tunnel κ D).quarantined from
        hquarantined)]
    obtain ⟨records, hrecords⟩ := Option.isSome_iff_exists.mp ((h.quarantine key).mp hquarantined)
    generalize hs' : ({ s with
      heads := s.heads.erase peer
      retries := s.retries.erase key
      quarantined := s.quarantined.erase key } : Tunnel κ D) = s'
    have hlookup : s'.pendings.lookup key = some records := by
      rw [← hs']
      exact hrecords
    have hledger : Ledger s' [] := by
      rw [← hs']
      exact h.ledger.of_eq rfl rfl rfl (fun _ => rfl) rfl le_rfl
    obtain ⟨t, ht⟩ : ∃ t, postAll key s' records = (t, true) := by
      refine postAll_ends ?_
      rw [← hs']
      exact hsound.imp_right fun hall => hall records hrecords
    have hposted : Ledger { t with pendings := s'.pendings.erase key } [] := by
      have htake := hledger.take hlookup
      exact Ledger.postAll htake (postAll_pendings ht)
    have hframe := postAll_frame ht
    have hpendings : t.pendings = s'.pendings := by
      rw [hframe]
    unfold postPendings
    rw [hlookup]
    simp only [ht, hpendings]
    refine ⟨hposted, ?_, ?_, ?_⟩
    · intro key'
      rw [hframe, ← hs']
      show key' ∈ s.quarantined.erase key ↔ (AList.lookup key' (s.pendings.erase key)).isSome
      by_cases hkey : key' = key
      · subst hkey
        simp
      · rw [Finset.mem_erase, AList.lookup_erase_ne hkey, h.quarantine]
        exact and_iff_right hkey
    · intro key' hsome
      rw [hframe, ← hs']
      have hsome' : (AList.lookup key' (s.pendings.erase key)).isSome := by
        rw [← hs'] at hsome
        exact hsome
      have hkey : key' ≠ key := by
        rintro rfl
        simp at hsome'
      rw [AList.lookup_erase_ne hkey] at hsome'
      exact hothers key' hkey hsome'
    · rw [hframe, ← hs']
      exact h.version
  · rw [gotRootHeaders_of_notMem
      (show key ∉ ({ s with heads := s.heads.erase peer } : Tunnel κ D).quarantined from
        hquarantined)]
    refine ⟨h.ledger.of_eq rfl rfl rfl (fun _ => rfl) rfl le_rfl, h.quarantine, ?_, h.version⟩
    intro key' hsome
    refine hothers key' ?_ hsome
    rintro rfl
    exact hquarantined ((h.quarantine _).mpr hsome)

/-- A post is answered. -/
theorem Inv.answered {i : Nat} {flight : Flight κ D} (h : Inv s) (hi : s.posts[i]? = some flight) :
    Inv { ({ s with posts := s.posts.eraseIdx i }.fire flight.record.deferred true) with
      accepted := s.accepted ++ [flight.record.deferred] } := by
  refine ⟨?_, h.quarantine, h.attended, h.version⟩
  -- the server accepted it, then the Deferred is fired
  have haccepted : Ledger { s with accepted := s.accepted ++ [flight.record.deferred] } [] :=
    ⟨h.ledger.once, h.ledger.knownPending, h.ledger.knownFlight, h.ledger.knownLoose,
      h.ledger.knownFired, fun d hd => List.mem_append_left _ (h.ledger.delivered d hd),
      h.ledger.expired⟩
  exact (haccepted.land hi).fire (fun _ => List.mem_append_right _ (List.mem_singleton_self _))
    fun h => (nomatch h)

theorem Inv.failed {i : Nat} {flight : Flight κ D} (h : Inv s) (hi : s.posts[i]? = some flight) :
    Inv ({ s with posts := s.posts.eraseIdx i }.postFailed flight.key flight.record) := by
  refine ⟨((h.ledger.land hi).addPending).of_eq rfl rfl rfl (fun _ => rfl) rfl le_rfl, ?_, ?_,
    h.version⟩
  · intro key
    show key ∈ insert flight.key s.quarantined ↔ _
    rw [Finset.mem_insert, h.quarantine]
    exact (isSome_addPending _ _ _ _).symm
  · intro key hsome
    rcases (isSome_addPending _ _ _ _).mp hsome with rfl | hsome
    · exact Or.inr (Finset.mem_insert_self _ _)
    · exact (h.attended key hsome).mono (fun _ h => h) (fun _ h => h) Finset.mem_insert_of_mem

/-- Losing a Peer can only set a timer. -/
theorem gone_frame (s : Tunnel κ D) (peer : Nat) (key : κ) :
    ∃ retries peers detached, s.retries ⊆ retries ∧
      s.gone peer key = { s with retries, peers, detached } := by
  unfold Tunnel.gone removePeer
  split
  · exact ⟨s.retries, s.peers, s.detached, fun _ h => h, rfl⟩
  · cases s.peers.lookup key with
    | none => exact ⟨s.retries, s.peers, s.detached, fun _ h => h, rfl⟩
    | some _ =>
      simp only [Option.map_some]
      split
      · exact ⟨insert key s.retries, s.peers.erase key, peer :: s.detached,
          fun _ h => Finset.mem_insert_of_mem h, rfl⟩
      · exact ⟨s.retries, s.peers.erase key, peer :: s.detached, fun _ h => h, rfl⟩

theorem Inv.gone (h : Inv s) (peer : Nat) (key : κ) : Inv (s.gone peer key) := by
  obtain ⟨retries, peers, detached, hretries, heq⟩ := gone_frame s peer key
  rw [heq]
  refine ⟨h.ledger.of_eq rfl rfl rfl (fun _ => rfl) rfl le_rfl, h.quarantine, ?_, h.version⟩
  intro key' hsome
  exact Attended.mono (h.attended key' hsome) (fun _ h => h) (fun _ h => h) (fun h => hretries h)

/-! ## Retrying -/

theorem le_of_expired {now : ℚ} {r : Record D} (h : ¬ notExpired now r = true) :
    ∃ e, r.expiration = some e ∧ e ≤ now := by
  unfold notExpired at h
  cases hexp : r.expiration with
  | none => simp [hexp] at h
  | some e =>
    rw [hexp] at h
    exact ⟨e, rfl, not_lt.mp fun hlt => h (decide_eq_true hlt)⟩

/-- The Deferreds of expired messages are fired. -/
theorem Ledger.fires {key : κ} {records : List (Record D)} {loose : List (κ × Record D)}
    (h : Ledger s (records.map (fun r => (key, r)) ++ loose))
    (hexpired : ∀ r ∈ records, ∃ e, r.expiration = some e ∧ e ≤ s.now) :
    Ledger { s with fired := s.fired ++ records.map fun r => (r.deferred, false) } loose := by
  induction records generalizing s with
  | nil => exact h.of_eq rfl (List.append_nil _) rfl (fun _ => rfl) rfl le_rfl
  | cons r records ih =>
    have hone : Ledger (s.fire r.deferred false) (records.map (fun r => (key, r)) ++ loose) :=
      Ledger.fire h (fun h => (nomatch h)) fun _ => hexpired r List.mem_cons_self
    have hall := ih hone fun r' hr' => hexpired r' (List.mem_cons_of_mem _ hr')
    refine hall.of_eq rfl ?_ rfl (fun _ => rfl) rfl le_rfl
    show s.fired ++ _ :: _ = s.fired ++ [_] ++ _
    rw [List.append_assoc]
    rfl

/-- `_cleanup_expired` fires what has expired and keeps the rest. -/
theorem Ledger.cleanupExpired {key : κ} (h : Ledger s []) (ht : s.cleanupExpired key = some t) :
    Ledger t [] := by
  unfold Tunnel.cleanupExpired at ht
  obtain ⟨records, hrecords, rfl⟩ := Option.map_eq_some_iff.mp ht
  have htake := h.take hrecords
  have hsplit : ((records.filter fun r => ! notExpired s.now r).map (fun r => (key, r)) ++
      ((records.filter (notExpired s.now)).map (fun r => (key, r)) ++ [])).Perm
      (records.map (fun r => (key, r)) ++ []) := by
    rw [List.append_nil, List.append_nil, ← List.map_append]
    exact (List.perm_append_comm.trans
      (List.filter_append_perm (notExpired s.now) records)).map _
  have hfired := (htake.perm hsplit).fires fun r hr =>
    le_of_expired (by simpa using (List.mem_filter.mp hr).2)
  by_cases hleft : records.filter (notExpired s.now) = []
  · rw [hleft] at hfired
    simp only [hleft, ne_eq, not_true_eq_false, if_false]
    exact hfired
  · have hput := hfired.put (by simp)
    refine hput.of_eq rfl rfl rfl ?_ rfl le_rfl
    intro key'
    simp only [ne_eq, hleft, not_false_eq_true, if_true]
    by_cases hkey : key' = key
    · subst hkey
      simp
    · simp [AList.lookup_insert_ne hkey, AList.lookup_erase_ne hkey]

/-- Only the pending messages of the key change. -/
theorem cleanupExpired_frame {key : κ} (ht : s.cleanupExpired key = some t) :
    t = { s with fired := t.fired, pendings := t.pendings } ∧
      ∀ key' ≠ key, t.pendings.lookup key' = s.pendings.lookup key' := by
  unfold Tunnel.cleanupExpired at ht
  obtain ⟨records, hrecords, rfl⟩ := Option.map_eq_some_iff.mp ht
  refine ⟨rfl, fun key' hkey => ?_⟩
  dsimp only
  split
  · exact AList.lookup_insert_ne hkey
  · exact AList.lookup_erase_ne hkey

/-- A timer fires. -/
theorem Inv.retry (h : Inv s) (key : κ) : Inv (s.doRetry key) := by
  -- the other keys are attended to as before
  have hothers : ∀ key', key' ≠ key → (s.pendings.lookup key').isSome →
      Attended { s with retries := s.retries.erase key } key' := by
    intro key' hkey hsome
    exact Attended.mono (h.attended key' hsome) (fun _ h => h) (fun _ h => h)
      (fun h => Finset.mem_erase.mpr ⟨hkey, h⟩)
  have hledger : Ledger { s with retries := s.retries.erase key } [] :=
    h.ledger.of_eq rfl rfl rfl (fun _ => rfl) rfl le_rfl
  unfold doRetry
  cases ht : cleanupExpired { s with retries := s.retries.erase key } key with
  | none =>
    simp only [ht]
    refine ⟨hledger, h.quarantine, ?_, h.version⟩
    intro key' hsome
    refine hothers key' ?_ hsome
    rintro rfl
    rw [Tunnel.cleanupExpired, Option.map_eq_none_iff] at ht
    rw [show AList.lookup key' s.pendings = none from ht] at hsome
    cases hsome
  | some t =>
    simp only [ht]
    obtain ⟨hframe, hsame⟩ := cleanupExpired_frame ht
    have hclean := hledger.cleanupExpired ht
    have hquarantined : t.quarantined = s.quarantined := by
      rw [hframe]
    have hversion : t.version ≠ 0 := by
      rw [hframe]
      exact h.version
    have hattended : ∀ key', key' ≠ key → (t.pendings.lookup key').isSome → t.Attended key' := by
      intro key' hkey hsome
      rw [hsame key' hkey] at hsome
      rw [hframe]
      exact hothers key' hkey hsome
    have hwas : (s.pendings.lookup key).isSome := by
      unfold Tunnel.cleanupExpired at ht
      obtain ⟨records, hrecords, _⟩ := Option.map_eq_some_iff.mp ht
      exact Option.isSome_iff_exists.mpr ⟨records, hrecords⟩
    have hin : key ∈ t.quarantined := by
      rw [hquarantined]
      exact (h.quarantine key).mpr hwas
    split
    · rename_i hleft
      refine ⟨hclean.of_eq rfl rfl rfl (fun _ => rfl) rfl le_rfl, ?_, ?_, hversion⟩
      · intro key'
        show key' ∈ insert key t.quarantined ↔ (t.pendings.lookup key').isSome
        by_cases hkey : key' = key
        · rw [hkey]
          exact iff_of_true (Finset.mem_insert_self _ _) hleft
        · rw [Finset.mem_insert, hsame key' hkey, hquarantined, h.quarantine]
          exact or_iff_right hkey
      · intro key' hsome
        by_cases hkey : key' = key
        · rw [hkey]
          exact connect_attended hversion key
        · exact Attended.connect (hattended key' hkey hsome)
    · rename_i hleft
      refine ⟨hclean.of_eq rfl rfl rfl (fun _ => rfl) rfl le_rfl, ?_, ?_, hversion⟩
      · intro key'
        show key' ∈ t.quarantined.erase key ↔ (t.pendings.lookup key').isSome
        by_cases hkey : key' = key
        · rw [hkey]
          exact iff_of_false (Finset.notMem_erase _ _) hleft
        · rw [Finset.mem_erase, hsame key' hkey, hquarantined, h.quarantine]
          exact and_iff_right hkey
      · intro key' hsome
        have hkey : key' ≠ key := by
          rintro rfl
          exact hleft hsome
        exact Attended.mono (hattended key' hkey hsome) (fun _ h => h) (fun _ h => h)
          (fun h => Finset.mem_erase.mpr ⟨hkey, h⟩)

/-! ## Runs -/

/-- A sound step keeps everything accounted for. -/
theorem Inv.step {e : Event κ D} (h : Inv s) (hsound : Sound s e) (hstep : s.step e = some t) :
    Inv t := by
  cases e with
  | tick now =>
    simp only [Tunnel.step] at hstep
    split at hstep
    · rename_i hle
      cases hstep
      exact ⟨h.ledger.of_eq rfl rfl rfl (fun _ => rfl) rfl hle, h.quarantine, h.attended, h.version⟩
    · cases hstep
  | post url data expiration =>
    cases hstep
    exact h.post url data expiration
  | handshake peer ok =>
    simp only [Tunnel.step] at hstep
    split at hstep
    · obtain ⟨key, hmade, rfl⟩ := Option.map_eq_some_iff.mp hstep
      split
      · rename_i hok
        obtain ⟨rfl, hattached⟩ := hok
        exact h.handshakeOk hmade (hsound hattached key hmade)
      · exact h.handshakeFailed hmade
    · cases hstep
  | answered i status =>
    obtain ⟨flight, hi, rfl⟩ := Option.map_eq_some_iff.mp hstep
    rw [if_pos (show status = statusOk from hsound)]
    exact h.answered hi
  | failed i =>
    obtain ⟨flight, hi, rfl⟩ := Option.map_eq_some_iff.mp hstep
    exact h.failed hi
  | gone peer =>
    obtain ⟨key, _, rfl⟩ := Option.map_eq_some_iff.mp hstep
    exact h.gone peer key
  | retry key =>
    simp only [Tunnel.step] at hstep
    split at hstep
    · cases hstep
      exact h.retry key
    · cases hstep

theorem Inv.start {version : Nat} (hversion : version ≠ 0) (now : ℚ) :
    Inv (Tunnel.new version now : Tunnel κ D) where
  ledger :=
    { once := fun _ _ _ hd => by simp [Tunnel.new] at hd
      knownPending := fun _ _ hr => by simp [Tunnel.new] at hr
      knownFlight := fun _ hf => by simp [Tunnel.new] at hf
      knownLoose := fun _ hp => (nomatch hp)
      knownFired := fun _ hp => by simp [Tunnel.new] at hp
      delivered := fun _ hd => by simp [Tunnel.new] at hd
      expired := fun _ hd => by simp [Tunnel.new] at hd }
  quarantine := by simp [Tunnel.new]
  attended := by simp [Tunnel.new]
  version := hversion

/-- Every message that is posted is accounted for in every state of a sound run. -/
theorem accounted_of_sound {version : Nat} (hversion : version ≠ 0) {now : ℚ}
    {events : List (Event κ D)} (hrun : Run (Guarded Sound (Defined step)) (new version now) events s) :
    Accounted s :=
  have hinv : Inv s := hrun.preserves (fun _ _ _ h hstep => h.step hstep.1 hstep.2)
    (Inv.start hversion now)
  hinv.accounted

/-! ## Three runs -/

/-- A URL of the one server that is posted to. -/
def someUrl : Url String := ⟨"host:80", "/path", ""⟩

/-- A message is posted, the post fails with the connection, and a new Peer delivers it. -/
theorem accounted_retried :
    let events : List (Event String String) :=
      [.post someUrl "data" (some 60), .handshake 0 true, .failed 0, .gone 0, .tick 3,
        .retry "host:80", .handshake 1 true, .answered 0 200]
    ∃ s, Run (Guarded Sound (Defined step)) (new 1 0) events s ∧ s.fired = [(0, true)] ∧
      Accounted s := by
  intro events
  have hend : ((events.foldlM (checked Sound step) (new 1 0)).map fun s => s.fired) =
      some [(0, true)] := by decide +kernel
  obtain ⟨s, hs, hfired⟩ := Option.map_eq_some_iff.mp hend
  have hrun := run_checked hs
  exact ⟨s, hrun, hfired, accounted_of_sound (by decide) hrun⟩

/-- The first Peer's handshake fails, and its connection is lost only when a second Peer was made:
the second is removed, and the message it was made for stays pending for ever. And a message that
the server refuses is reported as delivered. -/
theorem left_behind_or_refused :
    let lost : List (Event String String) :=
      [.post someUrl "data" none, .handshake 0 false, .retry "host:80", .gone 0, .handshake 1 true]
    let refused : List (Event String String) :=
      [.post someUrl "data" none, .handshake 0 true, .answered 0 415]
    (∃ s, Run (Defined step) (new 1 0) lost s ∧ ¬ Accounted s) ∧
      ∃ s, Run (Defined step) (new 1 0) refused s ∧ ¬ Accounted s := by
  intro lost refused
  constructor
  · have hend : ((lost.foldlM step (new 1 0)).map fun s =>
        ((s.pendings.lookup "host:80").isSome, s.heads, s.retries)) = some (true, [], ∅) := by
      decide +kernel
    obtain ⟨s, hs, heq⟩ := Option.map_eq_some_iff.mp hend
    obtain ⟨hpending, heq⟩ := Prod.mk.inj heq
    obtain ⟨hheads, hretries⟩ := Prod.mk.inj heq
    refine ⟨s, run_defined hs, fun h => ?_⟩
    rcases h.attended "host:80" hpending with ⟨peer, hpeer, _⟩ | hretry
    · rw [hheads] at hpeer
      cases hpeer
    · rw [hretries] at hretry
      exact Finset.notMem_empty _ hretry
  · have hend : ((refused.foldlM step (new 1 0)).map fun s => (s.fired, s.accepted)) =
        some ([(0, true)], []) := by decide +kernel
    obtain ⟨s, hs, heq⟩ := Option.map_eq_some_iff.mp hend
    obtain ⟨hfired, haccepted⟩ := Prod.mk.inj heq
    refine ⟨s, run_defined hs, fun h => ?_⟩
    have hdelivered := h.delivered 0 (by rw [hfired]; exact List.mem_cons_self)
    rw [haccepted] at hdelivered
    cases hdelivered

end Tunnel
end Feat.Web.Tunneling
