import Feat.Web.TunnelVersions
import Feat.Web.TunnelAccounted

/- A tunnelled message is the same whichever way it goes.

   Every POST carries the data and the location of its message, the posts to one server are made in
   the order of the calls while none fails, and the body is serialized for the version that the
   header names, at most the sender's and at most the one its server announced (`Same`).

   This holds in every run in which no message that has to wait has a query, and nothing is posted
   on a Peer before its handshake has succeeded (`same_of_ready`). A message that waits is recorded
   with its path alone (`query_lost`); and the handshake of an earlier Peer posts what waits on the
   present one, whose server may not have answered. -/
namespace Feat.Web.Tunneling
open Hash Transition

/-! ## What the tunnel does -/

namespace Tunnel
variable {κ D : Type} [DecidableEq κ] {s t : Tunnel κ D}

/-- What waits for a key. -/
def waiting (s : Tunnel κ D) (key : κ) : List (Record D) := (s.pendings.lookup key).getD []

/-- What is pending for a key that is not in quarantine is left over from a handshake without a
Peer. -/
def Apart (s : Tunnel κ D) : Prop :=
  ∀ key, (s.pendings.lookup key).isSome → key ∉ s.quarantined → s.peers.lookup key = none

theorem waiting_addPending (s : Tunnel κ D) (key key' : κ) (r : Record D) :
    (s.addPending key r).waiting key' = if key' = key then s.waiting key ++ [r] else s.waiting key' := by
  unfold waiting addPending
  by_cases hkey : key' = key
  · subst hkey
    simp
  · simp [AList.lookup_insert_ne hkey, hkey]

theorem Apart.addPending (h : s.Apart) {key : κ} {r : Record D} (hkey : key ∈ s.quarantined) :
    (s.addPending key r).Apart := by
  intro key' hsome hnot
  rcases (isSome_addPending _ _ _ _).mp hsome with rfl | hsome
  · exact absurd hkey hnot
  · exact h key' hsome hnot

theorem Apart.connect (h : s.Apart) (key : κ) : (s.connect key).Apart := by
  intro key' hsome hnot
  have hne : key' ≠ key := fun heq => hnot (by rw [heq]; exact Finset.mem_insert_self _ _)
  have hout : key' ∉ s.quarantined := fun hmem => hnot (Finset.mem_insert_of_mem hmem)
  exact (AList.lookup_insert_ne hne).trans (h key' hsome hout)

/-- A message waits, alone or for a Peer that is made, or has expired, or is posted. -/
theorem post_cases (s : Tunnel κ D) (url : Url κ) (data : D) (expiration : Option ℚ) :
    let exp := expiration.map (· + s.now)
    let s' := { s with posted := s.posted ++ [(url.key, exp)] }
    let wait := s'.addPending url.key ⟨s.posted.length, url.path, data, exp⟩
    let t := s.post url data expiration
    (url.key ∈ s.quarantined ∧ t = wait) ∨
    (url.key ∉ s.quarantined ∧ s.peers.lookup url.key = none ∧ t = wait.connect url.key) ∨
    (url.key ∉ s.quarantined ∧ (s.peers.lookup url.key).isSome ∧ expired s.now exp = true ∧
      t = s'.fire s.posted.length false) ∨
    ∃ peer, url.key ∉ s.quarantined ∧ s.peers.lookup url.key = some peer ∧
      expired s.now exp = false ∧
      t = { s' with posts := s.posts ++
        [⟨peer, url.key, ⟨s.posted.length, url.location, data, exp⟩⟩] } := by
  intro exp s' wait t
  by_cases hquarantined : url.key ∈ s.quarantined
  · exact .inl ⟨hquarantined, if_pos hquarantined⟩
  · have ht : t = if (s.peers.lookup url.key).isNone then wait.connect url.key
        else (s'.postRecord url.key ⟨s.posted.length, url.location, data, exp⟩).getD s' :=
      if_neg hquarantined
    cases hpeer : s.peers.lookup url.key with
    | none =>
      rw [hpeer] at ht
      exact .inr (.inl ⟨hquarantined, rfl, ht⟩)
    | some peer =>
      have hlookup : s'.peers.lookup url.key = some peer := hpeer
      rw [hpeer, Option.isNone_some, if_neg Bool.false_ne_true, postRecord, hlookup] at ht
      cases hexpired : expired s.now exp with
      | true =>
        have hnow : expired s'.now exp = true := hexpired
        rw [if_pos hnow] at ht
        exact .inr (.inr (.inl ⟨hquarantined, rfl, rfl, ht⟩))
      | false =>
        have hnow : ¬ expired s'.now exp = true := by
          show ¬ expired s.now exp = true
          rw [hexpired]
          exact Bool.false_ne_true
        rw [if_neg hnow] at ht
        exact .inr (.inr (.inr ⟨peer, hquarantined, rfl, rfl, ht⟩))

/-- Messages that have not expired. -/
def due (now : ℚ) (records : List (Record D)) : List (Record D) :=
  records.filter fun r => ! expired now r.expiration

/-- What is posted on a Peer. -/
theorem postAll_peer {key : κ} {peer : Nat} {records : List (Record D)}
    (hpeer : s.peers.lookup key = some peer) : ∃ fired, postAll key s records =
      ({ s with fired, posts := s.posts ++ (due s.now records).map (⟨peer, key, ·⟩) }, true) := by
  induction records generalizing s with
  | nil => exact ⟨s.fired, by rw [postAll, due, List.filter_nil, List.map_nil, List.append_nil]⟩
  | cons r records ih =>
    cases hexpired : expired s.now r.expiration with
    | true =>
      have hpost : s.postRecord key r = some (s.fire r.deferred false) := by
        rw [postRecord, hexpired]
        rfl
      obtain ⟨fired, hall⟩ := ih (s := s.fire r.deferred false) hpeer
      refine ⟨fired, ?_⟩
      rw [postAll, hpost]
      refine hall.trans ?_
      rw [due, due, List.filter_cons_of_neg (by simp [hexpired])]
      rfl
    | false =>
      have hpost : s.postRecord key r = some { s with posts := s.posts ++ [⟨peer, key, r⟩] } := by
        rw [postRecord, hexpired, hpeer]
        rfl
      obtain ⟨fired, hall⟩ := ih (s := { s with posts := s.posts ++ [⟨peer, key, r⟩] }) hpeer
      refine ⟨fired, ?_⟩
      rw [postAll, hpost]
      refine hall.trans ?_
      rw [due, due, List.filter_cons_of_pos (by simp [hexpired])]
      simp

/-- Without a Peer nothing is posted. -/
theorem postAll_none {key : κ} {records : List (Record D)} (hpeer : s.peers.lookup key = none) :
    ∃ fired ended, postAll key s records = ({ s with fired }, ended) := by
  induction records generalizing s with
  | nil => exact ⟨s.fired, true, rfl⟩
  | cons r records ih =>
    cases hexpired : expired s.now r.expiration with
    | true =>
      have hpost : s.postRecord key r = some (s.fire r.deferred false) := by
        rw [postRecord, hexpired]
        rfl
      obtain ⟨fired, ended, hall⟩ := ih (s := s.fire r.deferred false) hpeer
      refine ⟨fired, ended, ?_⟩
      rw [postAll, hpost]
      exact hall
    | false =>
      have hpost : s.postRecord key r = none := by
        rw [postRecord, hexpired, hpeer]
        rfl
      refine ⟨s.fired, false, ?_⟩
      rw [postAll, hpost]

/-- A key leaves quarantine. -/
theorem Apart.erase (h : s.Apart) {key : κ}
    (hkey : (s.pendings.lookup key).isSome → s.peers.lookup key = none) :
    Apart { s with quarantined := s.quarantined.erase key } := by
  intro key' hsome hnot
  by_cases hne : key' = key
  · subst hne
    exact hkey hsome
  · exact h key' hsome fun hmem => hnot (Finset.mem_erase.mpr ⟨hne, hmem⟩)

/-- A handshake that succeeds posts what waits and is due, where there is a Peer. -/
theorem gotRootHeaders_cases (s : Tunnel κ D) (key : κ) :
    (∃ retries quarantined fired, (s.Apart → Apart { s with quarantined }) ∧
      s.gotRootHeaders key = { s with retries, quarantined, fired }) ∨
    ∃ retries fired posts, key ∈ s.quarantined ∧
      (posts = [] ∨ ∃ peer, s.peers.lookup key = some peer ∧
        posts = (due s.now (s.waiting key)).map (⟨peer, key, ·⟩)) ∧
      s.gotRootHeaders key = { s with
        retries, fired
        quarantined := s.quarantined.erase key
        posts := s.posts ++ posts
        pendings := s.pendings.erase key } := by
  by_cases hkey : key ∈ s.quarantined
  · rw [gotRootHeaders_of_mem hkey]
    unfold postPendings
    cases hpending : s.pendings.lookup key with
    | none =>
      have hnone : (s.pendings.lookup key).isSome → s.peers.lookup key = none := fun hsome => by
        rw [hpending] at hsome
        cases hsome
      exact .inl ⟨_, _, s.fired, fun h => h.erase hnone, rfl⟩
    | some records =>
      have hwaiting : s.waiting key = records := by rw [waiting, hpending]; rfl
      cases hpeer : s.peers.lookup key with
      | none =>
        obtain ⟨fired, ended, hall⟩ := @postAll_none κ D _ { s with
          retries := s.retries.erase key, quarantined := s.quarantined.erase key } key records hpeer
        simp only [hall]
        cases ended with
        | false => exact .inl ⟨_, _, fired, fun h => h.erase fun _ => hpeer, rfl⟩
        | true =>
          refine .inr ⟨s.retries.erase key, fired, [], hkey, .inl rfl, ?_⟩
          rw [List.append_nil]
      | some peer =>
        obtain ⟨fired, hall⟩ := @postAll_peer κ D _ { s with
          retries := s.retries.erase key, quarantined := s.quarantined.erase key } key peer records
          hpeer
        simp only [hall]
        refine .inr ⟨s.retries.erase key, fired, _, hkey, .inr ⟨peer, rfl, ?_⟩, rfl⟩
        rw [hwaiting]
  · rw [gotRootHeaders_of_notMem hkey]
    exact .inl ⟨_, s.quarantined, s.fired, fun h => h, rfl⟩

/-- A timer that fires gives up what has expired, and makes a Peer for the rest. -/
theorem doRetry_frame (s : Tunnel κ D) (key : κ) : ∃ retries quarantined fired pendings,
    (∀ key', (waiting { s with pendings } key').Sublist (s.waiting key')) ∧
    (s.Apart → Apart { s with quarantined, pendings }) ∧
    (s.doRetry key = { s with retries, quarantined, fired, pendings } ∨
      s.doRetry key = connect { s with retries, quarantined, fired, pendings } key) := by
  unfold doRetry cleanupExpired
  cases hpending : s.pendings.lookup key with
  | none =>
    simp only [hpending, Option.map_none]
    exact ⟨_, _, _, s.pendings, fun _ => .refl _, fun h => h, .inl rfl⟩
  | some records =>
    simp only [hpending, Option.map_some]
    have hwaiting : s.waiting key = records := by rw [waiting, hpending]; rfl
    by_cases hleft : records.filter (notExpired s.now) = []
    · -- nothing is left
      have herase : ∀ key', (waiting { s with pendings := s.pendings.erase key } key').Sublist
          (s.waiting key') := by
        intro key'
        by_cases hkey : key' = key
        · subst hkey
          simp [waiting]
        · simp [waiting, AList.lookup_erase_ne hkey]
      have hapart : ∀ quarantined, (∀ key' ≠ key, key' ∈ s.quarantined → key' ∈ quarantined) →
          s.Apart → Apart { s with quarantined, pendings := s.pendings.erase key } := by
        intro quarantined hsub h key' hsome hnot
        by_cases hkey : key' = key
        · subst hkey
          simp at hsome
        · rw [AList.lookup_erase_ne hkey] at hsome
          exact h key' hsome fun hmem => hnot (hsub key' hkey hmem)
      simp only [hleft, ne_eq, not_true_eq_false, if_false, AList.lookup_erase, Option.isSome_none,
        Bool.false_eq_true]
      split
      · exact ⟨_, _, _, _, herase, hapart _ fun key' hkey hmem =>
          Finset.mem_erase.mpr ⟨hkey, hmem⟩, .inl rfl⟩
      · exact ⟨_, _, _, _, herase, hapart _ fun _ _ hmem => hmem, .inl rfl⟩
    · simp only [ne_eq, hleft, not_false_eq_true, if_true, AList.lookup_insert, Option.isSome_some]
      refine ⟨_, _, _, _, fun key' => ?_, fun h key' hsome hnot => ?_, .inr rfl⟩
      · by_cases hkey : key' = key
        · subst hkey
          rw [hwaiting]
          simp [waiting]
        · simp [waiting, AList.lookup_insert_ne hkey]
      · by_cases hkey : key' = key
        · subst hkey
          exact h key' (by rw [hpending]; rfl) hnot
        · rw [AList.lookup_insert_ne hkey] at hsome
          exact h key' hsome hnot

/-- Losing a Peer leaves nothing pending that a Peer is there for. -/
theorem Apart.gone (h : s.Apart) (peer : Nat) (key : κ) : (s.gone peer key).Apart := by
  have herase : Apart { s with peers := s.peers.erase key } := by
    intro key' hsome hnot
    by_cases hkey : key' = key
    · subst hkey
      exact AList.lookup_erase _ _
    · exact (AList.lookup_erase_ne hkey).trans (h key' hsome hnot)
  unfold Tunnel.gone removePeer
  split
  · exact h
  · cases s.peers.lookup key with
    | none => exact h
    | some _ =>
      simp only [Option.map_some]
      split <;> exact herase

end Tunnel

/-! ## What is promised, and when -/

namespace Traffic
variable {κ D : Type} [DecidableEq κ] {s t : Traffic κ D}

/-- A record of a message that was posted for a key. -/
def Known (s : Traffic κ D) (key : κ) (r : Record D) : Prop :=
  ∃ url, s.messages[r.deferred]? = some (url, r.data) ∧ url.key = key ∧ r.location = url.location

def flights (s : Traffic κ D) : List (Flight κ D) := s.requests.map (·.flight)

/-- The messages that were posted to a key, in the order of the posts. -/
def sent (s : Traffic κ D) (key : κ) : List Nat :=
  (s.flights.filter (·.key = key)).map (·.record.deferred)

/-- A message is sent as it was posted, in its order, and for a version that both sides know. -/
structure Same (s : Traffic κ D) : Prop where
  location : ∀ f ∈ s.flights, s.Known f.key f.record
  order : ∀ key ∉ s.failures, (s.sent key).Pairwise (· < ·)
  version : ∀ r ∈ s.requests, r.body ≤ s.tunnel.version ∧
    ∀ v, (s.peers r.flight.peer).peerVersion = some v → r.body ≤ v
  received : ∀ r ∈ s.requests, ∀ own vcli v, r.userAgent = some vcli →
    unserializedFrom own vcli = some v → v = r.body

/-- A message that has to wait has no query, and what is posted goes to a Peer whose handshake has
succeeded. -/
def Ready (s : Traffic κ D) : Event κ D → Prop
  | .post url _ expiration =>
    if url.key ∈ s.tunnel.quarantined ∨ (s.tunnel.peers.lookup url.key).isNone then url.query = ""
    else ∀ p ∈ s.tunnel.peers.lookup url.key, (s.peers p).targetVersion.isSome ∨
      Tunnel.expired s.tunnel.now (expiration.map (· + s.tunnel.now))
  | .handshake peer _ => peer ∉ s.tunnel.detached → ∀ key ∈ s.tunnel.made[peer]?,
    key ∈ s.tunnel.quarantined → ∀ p ∈ s.tunnel.peers.lookup key,
      p = peer ∨ (s.peers p).targetVersion.isSome ∨
        ∀ r ∈ s.tunnel.waiting key, Tunnel.expired s.tunnel.now r.expiration
  | _ => True

instance : ∀ (s : Traffic κ D) (e : Event κ D), Decidable (Ready s e)
  | s, .post url _ expiration => inferInstanceAs (Decidable
      (if url.key ∈ s.tunnel.quarantined ∨ (s.tunnel.peers.lookup url.key).isNone then url.query = ""
      else ∀ p ∈ s.tunnel.peers.lookup url.key, (s.peers p).targetVersion.isSome ∨
        Tunnel.expired s.tunnel.now (expiration.map (· + s.tunnel.now))))
  | s, .handshake peer _ => inferInstanceAs (Decidable (peer ∉ s.tunnel.detached →
      ∀ key ∈ s.tunnel.made[peer]?, key ∈ s.tunnel.quarantined → ∀ p ∈ s.tunnel.peers.lookup key,
        p = peer ∨ (s.peers p).targetVersion.isSome ∨
          ∀ r ∈ s.tunnel.waiting key, Tunnel.expired s.tunnel.now r.expiration))
  | _, .tick _ => isTrue trivial
  | _, .connected _ => isTrue trivial
  | _, .handshakeFailed _ => isTrue trivial
  | _, .written _ => isTrue trivial
  | _, .answered _ _ => isTrue trivial
  | _, .failed _ => isTrue trivial
  | _, .refused _ => isTrue trivial
  | _, .lost _ => isTrue trivial
  | _, .retry _ => isTrue trivial

/-! ## Messages on their way -/

/-- Every record is that of a message, and the messages that are sent or wait for a key are in the
order of their posts. -/
structure Carried (s : Traffic κ D) : Prop where
  length : s.messages.length = s.tunnel.posted.length
  waiting : ∀ key, ∀ r ∈ s.tunnel.waiting key, s.Known key r
  posts : ∀ f ∈ s.tunnel.posts, s.Known f.key f.record
  flights : ∀ f ∈ s.flights, s.Known f.key f.record
  apart : s.tunnel.Apart
  order : ∀ key ∉ s.failures,
    (s.sent key ++ (s.tunnel.waiting key).map (·.deferred)).Pairwise (· < ·)

omit [DecidableEq κ] in
theorem Known.mono {key : κ} {r : Record D} (h : s.Known key r)
    (hmessages : s.messages <+: t.messages) : t.Known key r := by
  obtain ⟨url, hurl, hkey, hlocation⟩ := h
  obtain ⟨rest, hrest⟩ := hmessages
  refine ⟨url, ?_, hkey, hlocation⟩
  rw [← hrest, List.getElem?_append_left (Tunnel.lt_of_getElem?_eq_some hurl)]
  exact hurl

omit [DecidableEq κ] in
theorem Known.lt {key : κ} {r : Record D} (h : s.Known key r) : r.deferred < s.messages.length := by
  obtain ⟨url, hurl, _⟩ := h
  exact Tunnel.lt_of_getElem?_eq_some hurl

/-- A step that posts nothing. -/
theorem Carried.of_frame (h : Carried s) (hmessages : t.messages = s.messages)
    (hflights : t.flights = s.flights) (hposted : t.tunnel.posted = s.tunnel.posted)
    (hwaiting : ∀ key, (t.tunnel.waiting key).Sublist (s.tunnel.waiting key))
    (hposts : ∀ f ∈ t.tunnel.posts, f ∈ s.tunnel.posts) (hapart : t.tunnel.Apart)
    (hfailures : t.failures = s.failures) : Carried t where
  length := by rw [hmessages, hposted]; exact h.length
  waiting key r hr := (h.waiting key r ((hwaiting key).subset hr)).mono (by rw [hmessages])
  posts f hf := (h.posts f (hposts f hf)).mono (by rw [hmessages])
  flights f hf := (h.flights f (hflights ▸ hf)).mono (by rw [hmessages])
  apart := hapart
  order key hkey := by
    have hsent : t.sent key = s.sent key := by rw [sent, sent, hflights]
    rw [hsent]
    exact (h.order key (hfailures ▸ hkey)).sublist (((hwaiting key).map _).append_left _)

omit [DecidableEq κ] in
/-- What the tunnel posts is sent in its order. -/
theorem foldl_send (s : Traffic κ D) (fs : List (Flight κ D)) :
    (fs.foldl send s).flights = s.flights ++ fs ∧ (fs.foldl send s).tunnel = s.tunnel ∧
      (fs.foldl send s).messages = s.messages ∧ (fs.foldl send s).failures = s.failures := by
  induction fs generalizing s with
  | nil => exact ⟨(List.append_nil _).symm, rfl, rfl, rfl⟩
  | cons f fs ih =>
    obtain ⟨hflights, htunnel, hmessages, hfailures⟩ := ih (s.send f)
    refine ⟨?_, htunnel, hmessages, hfailures⟩
    rw [List.foldl_cons, hflights, Traffic.flights, Traffic.flights, send, List.map_append,
      List.append_assoc]
    rfl

omit [DecidableEq κ] in
theorem posting_eq {tunnel : Tunnel κ D} {fs : List (Flight κ D)}
    (hposts : tunnel.posts = s.tunnel.posts ++ fs) :
    s.posting tunnel = fs.foldl send { s with tunnel } := by
  rw [posting, hposts, List.drop_left]

/-- A step that posts what waited, or a message that comes. -/
theorem Carried.posting (h : Carried s) {tunnel : Tunnel κ D} {fs : List (Flight κ D)}
    {messages : List (Url κ × D)} (hposts : tunnel.posts = s.tunnel.posts ++ fs)
    (hmessages : s.messages <+: messages) (hlength : messages.length = tunnel.posted.length)
    (hfs : ∀ f ∈ fs, Known { s with messages } f.key f.record)
    (hwaiting : ∀ key, ∀ r ∈ tunnel.waiting key, Known { s with messages } key r)
    (hapart : tunnel.Apart)
    (horder : ∀ key ∉ s.failures, (s.sent key ++ ((fs.filter (·.key = key)).map (·.record.deferred) ++
      (tunnel.waiting key).map (·.deferred))).Pairwise (· < ·)) :
    Carried ({ s with messages }.posting tunnel) := by
  have heq : Traffic.posting { s with messages } tunnel = fs.foldl send { s with messages, tunnel } :=
    posting_eq hposts
  obtain ⟨hflights, htunnel, hmsgs, hfailures⟩ := foldl_send { s with messages, tunnel } fs
  have hall : Traffic.flights { s with messages, tunnel } = s.flights := rfl
  rw [hall] at hflights
  rw [heq]
  have hknown : ∀ {key r}, Known { s with messages } key r →
      Known (fs.foldl send { s with messages, tunnel }) key r := fun h => h.mono (by rw [hmsgs])
  exact
    { length := by rw [hmsgs, htunnel]; exact hlength
      waiting := fun key r hr => hknown (hwaiting key r (by rw [htunnel] at hr; exact hr))
      posts := fun f hf => by
        rw [htunnel] at hf
        rcases List.mem_append.mp (hposts ▸ hf) with hf | hf
        · exact hknown ((h.posts f hf).mono hmessages)
        · exact hknown (hfs f hf)
      flights := fun f hf => by
        rw [hflights] at hf
        rcases List.mem_append.mp hf with hf | hf
        · exact hknown ((h.flights f hf).mono hmessages)
        · exact hknown (hfs f hf)
      apart := by rw [htunnel]; exact hapart
      order := fun key hkey => by
        rw [hfailures] at hkey
        have hsent := horder key hkey
        rw [← List.append_assoc] at hsent
        rw [sent, hflights, htunnel, List.filter_append, List.map_append]
        exact hsent }

/-- A message is posted. -/
theorem Carried.post (h : Carried s) {url : Url κ} {data : D} {expiration : Option ℚ}
    (hready : s.Ready (.post url data expiration)) :
    Carried ({ s with messages := s.messages ++ [(url, data)] }.posting
      (s.tunnel.post url data expiration)) := by
  have hlast : (s.messages ++ [(url, data)])[s.tunnel.posted.length]? = some (url, data) := by
    rw [← h.length, List.getElem?_concat_length]
  have hprefix : s.messages <+: s.messages ++ [(url, data)] := List.prefix_append _ _
  have hlength : ∀ e, (s.messages ++ [(url, data)]).length =
      (s.tunnel.posted ++ [(url.key, e)]).length := fun e => by
    rw [List.length_append, List.length_append, h.length]
    rfl
  -- the new message comes after all others
  have hlater : ∀ key, ∀ d ∈ s.sent key ++ (s.tunnel.waiting key).map (·.deferred),
      d < s.tunnel.posted.length := by
    intro key d hd
    rw [← h.length]
    rcases List.mem_append.mp hd with hd | hd
    · obtain ⟨f, hf, rfl⟩ := List.mem_map.mp hd
      exact (h.flights f (List.mem_of_mem_filter hf)).lt
    · obtain ⟨r, hr, rfl⟩ := List.mem_map.mp hd
      exact (h.waiting key r hr).lt
  -- a message without a query waits
  have hwait : ∀ (t : Tunnel κ D) exp, url.query = "" →
      t.posts = s.tunnel.posts ∧ t.posted = s.tunnel.posted ++ [(url.key, exp)] ∧ t.Apart ∧
        (∀ key, t.waiting key = if key = url.key
          then s.tunnel.waiting url.key ++ [⟨s.tunnel.posted.length, url.path, data, exp⟩]
          else s.tunnel.waiting key) →
      Carried ({ s with messages := s.messages ++ [(url, data)] }.posting t) := by
    rintro t exp hquery ⟨hposts, hposted, hapart, hwaiting⟩
    have hlocation : url.location = url.path := if_neg (not_not.mpr hquery)
    have hnone : t.posts = s.tunnel.posts ++ [] := by rw [hposts, List.append_nil]
    refine h.posting hnone hprefix (by rw [hposted]; exact hlength exp) (fun _ h => nomatch h)
      (fun key r hr => ?_) hapart (fun key hkey => ?_)
    · rw [hwaiting] at hr
      split at hr
      · next hkey =>
        rcases List.mem_append.mp hr with hr | hr
        · exact (h.waiting key r (hkey ▸ hr)).mono hprefix
        · cases List.mem_singleton.mp hr
          exact ⟨url, hlast, hkey.symm, hlocation.symm⟩
      · exact (h.waiting key r hr).mono hprefix
    · rw [hwaiting]
      split
      · next heq =>
        cases heq
        rw [List.filter_nil, List.map_nil, List.nil_append, List.map_append, ← List.append_assoc]
        refine List.pairwise_append.mpr ⟨h.order _ hkey, List.pairwise_singleton _ _, ?_⟩
        intro d hd d' hd'
        cases List.mem_singleton.mp hd'
        exact hlater _ d hd
      · exact h.order key hkey
  rcases s.tunnel.post_cases url data expiration with ⟨hquarantined, ht⟩ | ⟨hnot, hnone, ht⟩ |
    ⟨hnot, hsome, hexpired, ht⟩ | ⟨peer, hnot, hpeer, hexpired, ht⟩
  · rw [ht]
    rw [Ready, if_pos (.inl hquarantined)] at hready
    exact hwait _ _ hready ⟨rfl, rfl, Tunnel.Apart.addPending h.apart hquarantined,
      fun key => Tunnel.waiting_addPending _ _ _ _⟩
  · rw [ht]
    rw [Ready, if_pos (.inr (by rw [hnone]; rfl))] at hready
    refine hwait _ _ hready ⟨rfl, rfl, ?_, fun key => Tunnel.waiting_addPending _ _ _ _⟩
    intro key hpending hout
    have hne : key ≠ url.key := fun heq => hout (by rw [heq]; exact Finset.mem_insert_self _ _)
    rcases (Tunnel.isSome_addPending _ _ _ _).mp hpending with rfl | hpending
    · exact absurd rfl hne
    · have hout' : key ∉ s.tunnel.quarantined := fun hmem => hout (Finset.mem_insert_of_mem hmem)
      exact (AList.lookup_insert_ne hne).trans (h.apart key hpending hout')
  · rw [ht]
    refine h.posting (List.append_nil _).symm hprefix (hlength _) (fun f hf => ?_)
      (fun key r hr => (h.waiting key r hr).mono hprefix) h.apart fun key hkey => h.order key hkey
    cases hf
  · rw [ht]
    refine h.posting rfl hprefix (hlength _) (fun f hf => ?_)
      (fun key r hr => (h.waiting key r hr).mono hprefix) h.apart fun key hkey => ?_
    · cases List.mem_singleton.mp hf
      exact ⟨url, hlast, rfl, rfl⟩
    · by_cases heq : url.key = key
      · subst heq
        have hnone : s.tunnel.waiting url.key = [] := by
          cases hpending : s.tunnel.pendings.lookup url.key with
          | none => rw [Tunnel.waiting, hpending]; rfl
          | some records =>
            rw [h.apart url.key (by rw [hpending]; rfl) hnot] at hpeer
            cases hpeer
        have hsent := h.order url.key hkey
        have hbefore := hlater url.key
        rw [hnone, List.map_nil, List.append_nil] at hsent hbefore
        have hempty : Tunnel.waiting { s.tunnel with
            posted := s.tunnel.posted ++ [(url.key, expiration.map (· + s.tunnel.now))]
            posts := s.tunnel.posts ++ [⟨peer, url.key, ⟨s.tunnel.posted.length, url.location, data,
              expiration.map (· + s.tunnel.now)⟩⟩] } url.key = [] := hnone
        rw [hempty, List.filter_cons_of_pos (by simp)]
        refine List.pairwise_append.mpr ⟨hsent, List.pairwise_singleton _ _, ?_⟩
        intro d hd d' hd'
        cases List.mem_singleton.mp hd'
        exact hbefore d hd
      · rw [List.filter_cons_of_neg (by simpa using heq)]
        exact h.order key hkey

/-- A handshake succeeds. -/
theorem Carried.handshake (h : Carried s) {peers : Nat → Peer} {heads : List Nat} {key : κ} :
    Carried ({ s with peers }.posting ({ s.tunnel with heads }.gotRootHeaders key)) := by
  have hcarried : Carried { s with peers } := h.of_frame rfl rfl rfl (fun _ => .refl _)
    (fun _ h => h) h.apart rfl
  rcases Tunnel.gotRootHeaders_cases { s.tunnel with heads } key with
    ⟨retries, quarantined, fired, hapart, ht⟩ | ⟨retries, fired, posts, hkey, hposts, ht⟩
  · rw [ht]
    refine hcarried.posting (List.append_nil _).symm (List.prefix_refl _) h.length (fun f hf => ?_)
      h.waiting (hapart h.apart) h.order
    cases hf
  · rw [ht]
    -- what is posted waited, and is in its order
    have hsub : ∃ records, records.Sublist (s.tunnel.waiting key) ∧
        posts.map (·.record) = records ∧ ∀ f ∈ posts, f.key = key := by
      rcases hposts with rfl | ⟨peer, _, rfl⟩
      · exact ⟨[], List.nil_sublist _, rfl, fun _ h => nomatch h⟩
      · refine ⟨Tunnel.due s.tunnel.now (s.tunnel.waiting key), List.filter_sublist, ?_,
          fun f hf => ?_⟩
        · rw [List.map_map]
          exact List.map_id _
        · obtain ⟨r, _, rfl⟩ := List.mem_map.mp hf
          rfl
    obtain ⟨records, hsub, hrecords, hkeys⟩ := hsub
    have hothers : ∀ key' ≠ key, Tunnel.waiting { s.tunnel with
        pendings := s.tunnel.pendings.erase key } key' = s.tunnel.waiting key' := by
      intro key' hne
      rw [Tunnel.waiting, AList.lookup_erase_ne hne]
      rfl
    have hnil : Tunnel.waiting { s.tunnel with pendings := s.tunnel.pendings.erase key } key = [] := by
      rw [Tunnel.waiting, AList.lookup_erase]
      rfl
    refine hcarried.posting rfl (List.prefix_refl _) h.length (fun f hf => ?_)
      (fun key' r hr => ?_) ?_ fun key' hkey' => ?_
    · rw [hkeys f hf]
      exact h.waiting key _ (hsub.subset (by rw [← hrecords]; exact List.mem_map_of_mem hf))
    · by_cases heq : key' = key
      · subst heq
        have hr : r ∈ Tunnel.waiting { s.tunnel with
          pendings := s.tunnel.pendings.erase key' } key' := hr
        rw [hnil] at hr
        cases hr
      · have hr : r ∈ Tunnel.waiting { s.tunnel with
          pendings := s.tunnel.pendings.erase key } key' := hr
        rw [hothers key' heq] at hr
        exact h.waiting key' r hr
    · intro key' hsome hnot
      by_cases heq : key' = key
      · subst heq
        simp at hsome
      · have hsome : ((s.tunnel.pendings.erase key).lookup key').isSome := hsome
        rw [AList.lookup_erase_ne heq] at hsome
        exact h.apart key' hsome fun hmem => hnot (Finset.mem_erase.mpr ⟨heq, hmem⟩)
    · by_cases heq : key' = key
      · subst heq
        have hall : posts.filter (·.key = key') = posts :=
          List.filter_eq_self.mpr fun f hf => by simpa using hkeys f hf
        have hmap : posts.map (·.record.deferred) = records.map (·.deferred) := by
          rw [← hrecords, List.map_map]
          rfl
        have hwaiting : Tunnel.waiting { s.tunnel with
            heads, retries, fired
            quarantined := s.tunnel.quarantined.erase key'
            posts := s.tunnel.posts ++ posts
            pendings := s.tunnel.pendings.erase key' } key' = [] := hnil
        rw [hall, hmap, hwaiting, List.map_nil, List.append_nil]
        exact (h.order key' hkey').sublist ((hsub.map _).append_left _)
      · have hnone : posts.filter (·.key = key') = [] :=
          List.filter_eq_nil_iff.mpr fun f hf => by
            rw [hkeys f hf]
            simpa using fun h => heq h.symm
        have hwaiting : Tunnel.waiting { s.tunnel with
            heads, retries, fired
            quarantined := s.tunnel.quarantined.erase key
            posts := s.tunnel.posts ++ posts
            pendings := s.tunnel.pendings.erase key } key' = s.tunnel.waiting key' :=
          hothers key' heq
        rw [hnone, hwaiting]
        exact h.order key' hkey'

/-! ## Versions -/

omit [DecidableEq κ] in
theorem setPeer_self {peer : Nat} {p : Peer} : (s.setPeer peer p).peers peer = p :=
  Function.update_self _ _ _

omit [DecidableEq κ] in
theorem setPeer_of_ne {peer peer' : Nat} {p : Peer} (h : peer' ≠ peer) :
    (s.setPeer peer p).peers peer' = s.peers peer' := Function.update_of_ne h _ _

/-- A Peer whose handshake has succeeded has the version it serializes for, and what was posted went
to such Peers. -/
structure Negotiated (s : Traffic κ D) : Prop where
  heads : s.tunnel.heads.Nodup
  made : ∀ p ∈ s.tunnel.heads, p < s.tunnel.made.length
  fresh : ∀ p, p ∈ s.tunnel.heads ∨ s.tunnel.made.length ≤ p → (s.peers p).targetVersion = none
  settled : ∀ p v, (s.peers p).targetVersion = some v → v ≤ s.tunnel.version ∧
    (∀ w, (s.peers p).peerVersion = some w → v ≤ w) ∧ (s.peers p).userAgent = v
  bodies : ∀ r ∈ s.requests, (s.peers r.flight.peer).targetVersion = some r.body
  written : ∀ r ∈ s.requests, ∀ v, r.userAgent = some v → v = r.body

omit [DecidableEq κ] in
/-- A step that sends nothing. -/
theorem Negotiated.of_frame (h : Negotiated s) (hversion : t.tunnel.version = s.tunnel.version)
    (hheads : t.tunnel.heads.Nodup) (hmade : ∀ p ∈ t.tunnel.heads, p < t.tunnel.made.length)
    (hfresh : ∀ p, p ∈ t.tunnel.heads ∨ t.tunnel.made.length ≤ p →
      p ∈ s.tunnel.heads ∨ s.tunnel.made.length ≤ p)
    (hpeers : ∀ p, t.peers p = { s.peers p with connected := (t.peers p).connected })
    (hrequests : t.requests = s.requests) : Negotiated t where
  heads := hheads
  made := hmade
  fresh p hp := by
    rw [hpeers]
    exact h.fresh p (hfresh p hp)
  settled p v := by
    rw [hpeers, hversion]
    exact h.settled p v
  bodies r hr := by
    rw [hpeers]
    exact h.bodies r (hrequests ▸ hr)
  written r hr := h.written r (hrequests ▸ hr)

omit [DecidableEq κ] in
/-- The same Peers. -/
theorem Negotiated.of_tunnel (h : Negotiated s) {tunnel : Tunnel κ D}
    (hversion : tunnel.version = s.tunnel.version) (hheads : tunnel.heads.Sublist s.tunnel.heads)
    (hmade : tunnel.made = s.tunnel.made) {messages : List (Url κ × D)} {failures : List κ} :
    Negotiated { s with tunnel, messages, failures } := by
  refine h.of_frame hversion (h.heads.sublist hheads) (fun p hp => ?_) (fun p hp => ?_)
    (fun _ => rfl) rfl
  · rw [hmade]
    exact h.made p (hheads.subset hp)
  · rw [← hmade]
    exact hp.imp (fun hp => hheads.subset hp) id

/-- A new Peer. -/
theorem Negotiated.connect (h : Negotiated s) (key : κ) :
    Negotiated { s with tunnel := s.tunnel.connect key } := by
  have hmem : ∀ p ∈ (s.tunnel.connect key).heads,
      p ∈ s.tunnel.heads ∨ p = s.tunnel.made.length := by
    intro p hp
    unfold Tunnel.connect at hp
    split at hp
    · exact (List.mem_append.mp hp).imp id List.mem_singleton.mp
    · exact .inl hp
  refine h.of_frame rfl ?_ (fun p hp => ?_) (fun p hp => ?_) (fun _ => rfl) rfl
  · show (Tunnel.connect s.tunnel key).heads.Nodup
    unfold Tunnel.connect
    split
    · refine List.nodup_append.mpr ⟨h.heads, List.nodup_singleton _, fun p hp q hq heq => ?_⟩
      cases List.mem_singleton.mp hq
      exact absurd (h.made p hp) (by omega)
    · exact h.heads
  · show p < (s.tunnel.made ++ [key]).length
    rw [List.length_append]
    rcases hmem p hp with hp | rfl
    · exact Nat.lt_add_right _ (h.made p hp)
    · exact Nat.lt_succ_self _
  · rcases hp with hp | hp
    · exact (hmem p hp).imp id fun heq => heq.ge
    · have hp : (s.tunnel.made ++ [key]).length ≤ p := hp
      rw [List.length_append] at hp
      exact .inr (Nat.le_of_add_right_le hp)

omit [DecidableEq κ] in
/-- What is posted on a Peer whose handshake has succeeded. -/
theorem Negotiated.send (h : Negotiated s) {f : Flight κ D}
    (hsettled : (s.peers f.peer).targetVersion.isSome) :
    Negotiated (s.send f) ∧ ∀ p, ((s.send f).peers p).targetVersion = (s.peers p).targetVersion := by
  obtain ⟨vout, hvout⟩ := Option.isSome_iff_exists.mp hsettled
  have hfor : (s.peers f.peer).serializedFor s.tunnel.version = vout := by
    rw [Peer.serializedFor, hvout]
    rfl
  -- the header is the same as before
  have hpeers : (s.send f).peers = s.peers := by
    show Function.update s.peers f.peer _ = s.peers
    rw [hfor, ← (h.settled _ _ hvout).2.2]
    exact Function.update_eq_self _ _
  have hrequests : (s.send f).requests = s.requests ++
      [⟨f, vout, if (s.peers f.peer).connected then some vout else none⟩] := by
    rw [Traffic.send, hfor]
  refine ⟨⟨h.heads, h.made, ?_, ?_, fun r hr => ?_, fun r hr v hv => ?_⟩, fun p => by rw [hpeers]⟩
  · rw [hpeers]
    exact h.fresh
  · rw [hpeers]
    exact h.settled
  · rw [hpeers]
    rw [hrequests] at hr
    rcases List.mem_append.mp hr with hr | hr
    · exact h.bodies r hr
    · cases List.mem_singleton.mp hr
      exact hvout
  · rw [hrequests] at hr
    rcases List.mem_append.mp hr with hr | hr
    · exact h.written r hr v hv
    · cases List.mem_singleton.mp hr
      dsimp only at hv ⊢
      split at hv
      · exact (Option.some.inj hv).symm
      · cases hv

omit [DecidableEq κ] in
theorem Negotiated.posting {tunnel : Tunnel κ D} (fs : List (Flight κ D))
    (h : Negotiated { s with tunnel }) (hposts : tunnel.posts = s.tunnel.posts ++ fs)
    (hsettled : ∀ f ∈ fs, (s.peers f.peer).targetVersion.isSome) :
    Negotiated (s.posting tunnel) := by
  rw [posting_eq hposts]
  have hall : ∀ u : Traffic κ D, Negotiated u →
      (∀ f ∈ fs, (u.peers f.peer).targetVersion.isSome) → Negotiated (fs.foldl Traffic.send u) := by
    clear hposts hsettled
    induction fs with
    | nil => exact fun u hu _ => hu
    | cons f fs ih =>
      intro u hu hfs
      obtain ⟨hsend, hsame⟩ := hu.send (hfs f List.mem_cons_self)
      refine ih _ hsend fun f' hf' => ?_
      rw [hsame]
      exact hfs f' (List.mem_cons_of_mem _ hf')
  exact hall _ h hsettled

/-- A message is posted. -/
theorem Negotiated.post (h : Negotiated s) {url : Url κ} {data : D} {expiration : Option ℚ}
    (hready : s.Ready (.post url data expiration)) :
    Negotiated ({ s with messages := s.messages ++ [(url, data)] }.posting
      (s.tunnel.post url data expiration)) := by
  have hframe : ∀ tunnel : Tunnel κ D, tunnel.version = s.tunnel.version →
      tunnel.heads = s.tunnel.heads → tunnel.made = s.tunnel.made →
      Negotiated { s with tunnel, messages := s.messages ++ [(url, data)] } :=
    fun tunnel hversion hheads hmade => h.of_tunnel hversion (by rw [hheads]) hmade
  rcases s.tunnel.post_cases url data expiration with ⟨_, ht⟩ | ⟨_, _, ht⟩ | ⟨_, _, _, ht⟩ |
    ⟨peer, hnot, hpeer, hexpired, ht⟩
  · rw [ht]
    refine Negotiated.posting [] (hframe _ ?_ ?_ ?_) (List.append_nil _).symm fun f hf => ?_
    · rfl
    · rfl
    · rfl
    · cases hf
  · rw [ht]
    have hconnected := Negotiated.connect
      (hframe (Tunnel.addPending { s.tunnel with
        posted := s.tunnel.posted ++ [(url.key, expiration.map (· + s.tunnel.now))] } url.key
        ⟨s.tunnel.posted.length, url.path, data, expiration.map (· + s.tunnel.now)⟩)
        rfl rfl rfl) url.key
    refine Negotiated.posting [] hconnected (List.append_nil _).symm fun f hf => ?_
    cases hf
  · rw [ht]
    refine Negotiated.posting [] (hframe _ ?_ ?_ ?_) (List.append_nil _).symm fun f hf => ?_
    · rfl
    · rfl
    · rfl
    · cases hf
  · rw [ht]
    have hdirect : ¬ (url.key ∈ s.tunnel.quarantined ∨ (s.tunnel.peers.lookup url.key).isNone) := by
      rw [hpeer]
      rintro (hin | hnone)
      · exact hnot hin
      · cases hnone
    rw [Ready, if_neg hdirect] at hready
    have hsettled : (s.peers peer).targetVersion.isSome := by
      refine (hready peer hpeer).resolve_right ?_
      rw [hexpired]
      exact Bool.false_ne_true
    refine Negotiated.posting [⟨peer, url.key, ⟨s.tunnel.posted.length, url.location, data,
      expiration.map (· + s.tunnel.now)⟩⟩] (hframe _ ?_ ?_ ?_) rfl fun f hf => ?_
    · rfl
    · rfl
    · rfl
    · cases List.mem_singleton.mp hf
      exact hsettled

omit [DecidableEq κ] in
/-- The version that both sides know. -/
theorem updatePeerVersion_le (p : Peer) (version : Nat) (server : Option Nat) :
    ∃ v, (p.updatePeerVersion version server).targetVersion = some v ∧ v ≤ version ∧
      (∀ w, (p.updatePeerVersion version server).peerVersion = some w → v ≤ w) ∧
      (p.updatePeerVersion version server).userAgent = v := by
  refine ⟨_, rfl, ?_, ?_, rfl⟩
  · cases server with
    | none => exact le_rfl
    | some vser =>
      dsimp only
      split <;> omega
  · rintro w hw
    cases (show server = some w from hw)
    dsimp only
    split <;> omega

/-- A handshake succeeds. -/
theorem Negotiated.handshake (h : Negotiated s) {peer : Nat} {server : Option Nat}
    (hpeer : peer ∈ s.tunnel.heads) (hattached : peer ∉ s.tunnel.detached) {key : κ}
    (hkey : s.tunnel.made[peer]? = some key) (hready : s.Ready (.handshake peer server)) :
    Negotiated ((s.setPeer peer ((s.peers peer).updatePeerVersion s.tunnel.version server)).posting
      ({ s.tunnel with heads := s.tunnel.heads.erase peer }.gotRootHeaders key)) := by
  obtain ⟨v, htarget, hversion, hannounced, hagent⟩ :=
    updatePeerVersion_le (s.peers peer) s.tunnel.version server
  have hsame : ∀ p ≠ peer, (s.setPeer peer
      ((s.peers peer).updatePeerVersion s.tunnel.version server)).peers p = s.peers p :=
    fun p hne => setPeer_of_ne hne
  have hself : (s.setPeer peer
      ((s.peers peer).updatePeerVersion s.tunnel.version server)).peers peer =
      (s.peers peer).updatePeerVersion s.tunnel.version server := setPeer_self
  -- the Peer is settled by then
  have hnext : ∀ tunnel : Tunnel κ D, tunnel.version = s.tunnel.version →
      tunnel.heads = s.tunnel.heads.erase peer → tunnel.made = s.tunnel.made →
      Negotiated { s.setPeer peer ((s.peers peer).updatePeerVersion s.tunnel.version server) with
        tunnel } := by
    intro tunnel htversion htheads htmade
    refine ⟨?_, fun p hp => ?_, fun p hp => ?_, fun p w hw => ?_, fun r hr => ?_, h.written⟩
    · rw [htheads]
      exact h.heads.erase _
    · rw [htheads] at hp
      rw [htmade]
      exact h.made p (List.mem_of_mem_erase hp)
    · rw [htheads, htmade] at hp
      have hne : p ≠ peer := by
        rintro rfl
        rcases hp with hp | hp
        · exact ((h.heads.mem_erase_iff).mp hp).1 rfl
        · exact absurd (h.made p hpeer) (by omega)
      rw [hsame p hne]
      exact h.fresh p (hp.imp List.mem_of_mem_erase id)
    · rw [htversion]
      by_cases hp : p = peer
      · cases hp
        rw [hself] at hw ⊢
        rw [htarget] at hw
        cases hw
        exact ⟨hversion, hannounced, hagent⟩
      · rw [hsame p hp] at hw ⊢
        exact h.settled p w hw
    · have hne : r.flight.peer ≠ peer := by
        intro heq
        have hnone := h.fresh peer (.inl hpeer)
        rw [← heq, h.bodies r hr] at hnone
        cases hnone
      rw [hsame _ hne]
      exact h.bodies r hr
  have hsettled : ∀ p, p = peer ∨ (s.peers p).targetVersion.isSome → ((s.setPeer peer
      ((s.peers peer).updatePeerVersion s.tunnel.version server)).peers p).targetVersion.isSome := by
    intro p hp
    by_cases heq : p = peer
    · cases heq
      rw [hself, htarget]
      rfl
    · rw [hsame p heq]
      exact hp.resolve_left heq
  rcases Tunnel.gotRootHeaders_cases { s.tunnel with heads := s.tunnel.heads.erase peer } key with
    ⟨retries, quarantined, fired, _, ht⟩ | ⟨retries, fired, posts, hin, hposts, ht⟩
  · rw [ht]
    refine Negotiated.posting [] (hnext _ rfl rfl rfl) (List.append_nil _).symm fun f hf => ?_
    cases hf
  · rw [ht]
    refine Negotiated.posting posts (hnext _ rfl rfl rfl) rfl fun f hf => ?_
    rcases hposts with rfl | ⟨p, hp, rfl⟩
    · cases hf
    · obtain ⟨r, hr, rfl⟩ := List.mem_map.mp hf
      rcases hready hattached key hkey hin p hp with heq | hsome | hexpired
      · exact hsettled p (.inl heq)
      · exact hsettled p (.inr hsome)
      · obtain ⟨hr, hdue⟩ := List.mem_filter.mp hr
        have hlate := hexpired r hr
        rw [hlate] at hdue
        cases hdue

/-! ## Runs -/

structure Inv (s : Traffic κ D) : Prop where
  carried : Carried s
  negotiated : Negotiated s

theorem Inv.same (h : Inv s) : Same s where
  location := h.carried.flights
  order key hkey := (h.carried.order key hkey).sublist (List.sublist_append_left _ _)
  version r hr := by
    obtain ⟨hversion, hannounced, _⟩ := h.negotiated.settled _ _ (h.negotiated.bodies r hr)
    exact ⟨hversion, hannounced⟩
  received r hr own vcli v hwritten hfrom := by
    unfold unserializedFrom at hfrom
    split at hfrom
    · cases hfrom
    · cases hfrom
      exact h.negotiated.written r hr _ hwritten

theorem inv_new (version : Nat) (now : ℚ) : Inv (new version now : Traffic κ D) where
  carried :=
    { length := rfl
      waiting := fun _ _ hr => nomatch hr
      posts := fun _ hf => nomatch hf
      flights := fun _ hf => nomatch hf
      apart := fun _ hsome => nomatch hsome
      order := fun _ _ => .nil }
  negotiated :=
    { heads := List.nodup_nil
      made := fun _ hp => nomatch hp
      fresh := fun _ _ => rfl
      settled := fun _ _ h => nomatch h
      bodies := fun _ hr => nomatch hr
      written := fun _ hr => nomatch hr }

/-- A step of the tunnel that posts nothing and makes no Peer. -/
theorem Inv.of_tunnel (h : Inv s) {tunnel : Tunnel κ D} (hposted : tunnel.posted = s.tunnel.posted)
    (hpendings : tunnel.pendings = s.tunnel.pendings)
    (hposts : ∀ f ∈ tunnel.posts, f ∈ s.tunnel.posts) (hapart : tunnel.Apart)
    (hversion : tunnel.version = s.tunnel.version) (hheads : tunnel.heads.Sublist s.tunnel.heads)
    (hmade : tunnel.made = s.tunnel.made) : Inv { s with tunnel } := by
  refine ⟨h.carried.of_frame rfl rfl hposted (fun key => ?_) hposts hapart rfl,
    h.negotiated.of_tunnel hversion hheads hmade⟩
  show (Tunnel.waiting tunnel key).Sublist (Tunnel.waiting s.tunnel key)
  rw [Tunnel.waiting, Tunnel.waiting, hpendings]

/-- Connections come and go. -/
theorem Inv.setConnected (h : Inv s) (peer : Nat) (connected : Bool) :
    Inv (s.setPeer peer { s.peers peer with connected }) := by
  refine ⟨h.carried.of_frame rfl rfl rfl (fun _ => .refl _) (fun _ hf => hf) h.carried.apart rfl,
    h.negotiated.of_frame rfl h.negotiated.heads h.negotiated.made (fun _ hp => hp) (fun p => ?_) rfl⟩
  by_cases hp : p = peer
  · subst hp
    rw [setPeer_self]
  · rw [setPeer_of_ne hp]

/-- A request is written. -/
theorem Inv.write (h : Inv s) {i : Nat} {r : Post κ D} (hr : s.requests[i]? = some r) :
    Inv (s.write i r) := by
  have hconnected := h.setConnected r.flight.peer true
  have hmem := List.mem_of_getElem? hr
  obtain ⟨_, _, hagent⟩ := h.negotiated.settled _ _ (h.negotiated.bodies r hmem)
  have hrequests : ∀ r' ∈ (s.write i r).requests, r' ∈ s.requests ∨
      r' = { r with userAgent := some (s.peers r.flight.peer).userAgent } :=
    fun r' hr' => List.mem_or_eq_of_mem_set hr'
  have hflights : (s.write i r).flights = s.flights := by
    obtain ⟨hi, rfl⟩ := List.getElem?_eq_some_iff.mp hr
    show (s.requests.set i _).map (·.flight) = s.requests.map (·.flight)
    rw [List.map_set]
    have hi' : i < (s.requests.map (·.flight)).length := by rwa [List.length_map]
    have hget : (s.requests.map (·.flight))[i] = s.requests[i].flight := List.getElem_map _
    rw [← hget, List.set_getElem_self]
  refine ⟨hconnected.carried.of_frame rfl hflights rfl (fun _ => .refl _) (fun _ hf => hf)
    h.carried.apart rfl, ?_⟩
  exact
    { heads := hconnected.negotiated.heads
      made := hconnected.negotiated.made
      fresh := hconnected.negotiated.fresh
      settled := hconnected.negotiated.settled
      bodies := fun r' hr' => by
        rcases hrequests r' hr' with hr' | rfl
        · exact hconnected.negotiated.bodies r' hr'
        · exact hconnected.negotiated.bodies r hmem
      written := fun r' hr' v hv => by
        rcases hrequests r' hr' with hr' | rfl
        · exact h.negotiated.written r' hr' v hv
        · cases hv
          exact hagent }

/-- A post fails, and its message waits again. -/
theorem Inv.failed (h : Inv s) {i : Nat} {flight : Flight κ D}
    (hflight : s.tunnel.posts[i]? = some flight) :
    Inv { s with
      tunnel := { s.tunnel with posts := s.tunnel.posts.eraseIdx i }.postFailed flight.key
        flight.record
      failures := flight.key :: s.failures } := by
  have hwaiting := Tunnel.waiting_addPending { s.tunnel with posts := s.tunnel.posts.eraseIdx i }
    flight.key
  have hframe : ∀ tunnel : Tunnel κ D, tunnel.version = s.tunnel.version →
      tunnel.heads = s.tunnel.heads → tunnel.made = s.tunnel.made →
      Negotiated { s with tunnel, failures := flight.key :: s.failures } :=
    fun tunnel hversion hheads hmade => h.negotiated.of_tunnel hversion (by rw [hheads]) hmade
  refine ⟨?_, hframe _ rfl rfl rfl⟩
  exact
    { length := h.carried.length
      waiting := fun key r hr => by
        have hr : r ∈ (Tunnel.addPending { s.tunnel with posts := s.tunnel.posts.eraseIdx i }
          flight.key flight.record).waiting key := hr
        rw [hwaiting] at hr
        split at hr
        · next hkey =>
          rcases List.mem_append.mp hr with hr | hr
          · exact h.carried.waiting key r (hkey ▸ hr)
          · cases List.mem_singleton.mp hr
            rw [hkey]
            exact h.carried.posts flight (List.mem_of_getElem? hflight)
        · exact h.carried.waiting key r hr
      posts := fun f hf => h.carried.posts f (List.mem_of_mem_eraseIdx hf)
      flights := h.carried.flights
      apart := fun key hsome hnot => by
        have hne : key ≠ flight.key := fun heq => hnot (by
          rw [heq]
          exact Finset.mem_insert_self _ _)
        rcases (Tunnel.isSome_addPending _ _ _ _).mp hsome with heq | hsome
        · exact absurd heq hne
        · exact h.carried.apart key hsome fun hmem => hnot (Finset.mem_insert_of_mem hmem)
      order := fun key hkey => by
        obtain ⟨hne, hkey⟩ := not_or.mp fun hor => hkey (List.mem_cons.mpr hor)
        have hothers : Tunnel.waiting ({ s.tunnel with posts := s.tunnel.posts.eraseIdx i }.postFailed
            flight.key flight.record) key = s.tunnel.waiting key :=
          (hwaiting key _).trans (if_neg hne)
        rw [hothers]
        exact h.carried.order key hkey }

/-- A timer fires. -/
theorem Inv.retry (h : Inv s) (key : κ) : Inv { s with tunnel := s.tunnel.doRetry key } := by
  obtain ⟨retries, quarantined, fired, pendings, hwaiting, hapart, ht⟩ := s.tunnel.doRetry_frame key
  have hcarried : ∀ tunnel : Tunnel κ D, tunnel.posted = s.tunnel.posted →
      tunnel.pendings = pendings → tunnel.posts = s.tunnel.posts → tunnel.Apart →
      Carried { s with tunnel } := by
    intro tunnel hposted hpendings hposts hapart
    refine h.carried.of_frame rfl rfl hposted (fun key' => ?_) (fun f hf => hposts ▸ hf) hapart rfl
    have hsub := hwaiting key'
    rw [Tunnel.waiting] at hsub
    show (Tunnel.waiting tunnel key').Sublist _
    rw [Tunnel.waiting, hpendings]
    exact hsub
  have hframe : ∀ tunnel : Tunnel κ D, tunnel.version = s.tunnel.version →
      tunnel.heads = s.tunnel.heads → tunnel.made = s.tunnel.made → Negotiated { s with tunnel } :=
    fun tunnel hversion hheads hmade => h.negotiated.of_tunnel hversion (by rw [hheads]) hmade
  have hapart := hapart h.carried.apart
  rcases ht with ht | ht
  · rw [ht]
    exact ⟨hcarried _ rfl rfl rfl hapart, hframe _ rfl rfl rfl⟩
  · rw [ht]
    have hconnected := Negotiated.connect
      (hframe { s.tunnel with retries, quarantined, fired, pendings } rfl rfl rfl) key
    exact ⟨hcarried _ rfl rfl rfl (Tunnel.Apart.connect hapart key), hconnected⟩

/-- A Peer is gone. -/
theorem Inv.gone (h : Inv s) (peer : Nat) (key : κ) :
    Inv { s with tunnel := s.tunnel.gone peer key } := by
  obtain ⟨retries, peers, detached, _, heq⟩ := Tunnel.gone_frame s.tunnel peer key
  have hapart := Tunnel.Apart.gone h.carried.apart peer key
  rw [heq] at hapart ⊢
  exact h.of_tunnel rfl rfl (fun _ hf => hf) hapart rfl (.refl _) rfl

/-- A step that meets the condition. -/
theorem Inv.step {e : Event κ D} (h : Inv s) (hready : s.Ready e) (hstep : s.step e = some t) :
    Inv t := by
  cases e with
  | tick now =>
    obtain ⟨tunnel, htunnel, rfl⟩ := Option.map_eq_some_iff.mp hstep
    rw [Tunnel.step] at htunnel
    split at htunnel
    · cases htunnel
      exact h.of_tunnel rfl rfl (fun _ hf => hf) h.carried.apart rfl (.refl _) rfl
    · cases htunnel
  | post url data expiration =>
    cases hstep
    exact ⟨h.carried.post hready, h.negotiated.post hready⟩
  | connected peer =>
    rw [Traffic.step] at hstep
    split at hstep
    · cases hstep
      exact h.setConnected peer true
    · cases hstep
  | handshake peer server =>
    obtain ⟨tunnel, htunnel, rfl⟩ := Option.map_eq_some_iff.mp hstep
    rw [Tunnel.step] at htunnel
    split at htunnel
    · next hpeer =>
      obtain ⟨key, hkey, rfl⟩ := Option.map_eq_some_iff.mp htunnel
      by_cases hattached : peer ∈ s.tunnel.detached
      · have hnot : ¬ (true = true ∧ peer ∉ s.tunnel.detached) := fun hboth => hboth.2 hattached
        dsimp only
        rw [if_pos hattached, if_neg hnot]
        have hframe : Inv { s with
            tunnel := { s.tunnel with heads := s.tunnel.heads.erase peer }.scheduleRetry key } :=
          h.of_tunnel rfl rfl (fun _ hf => hf) h.carried.apart rfl (List.erase_sublist ..) rfl
        have hnone : ({ s.tunnel with heads := s.tunnel.heads.erase peer }.scheduleRetry key).posts =
            s.tunnel.posts ++ [] := (List.append_nil _).symm
        rw [posting_eq hnone]
        exact hframe
      · have hboth : true = true ∧ peer ∉ s.tunnel.detached := ⟨rfl, hattached⟩
        dsimp only
        rw [if_neg hattached, if_pos hboth]
        exact ⟨h.carried.handshake, h.negotiated.handshake hpeer hattached hkey hready⟩
    · cases htunnel
  | handshakeFailed peer =>
    obtain ⟨tunnel, htunnel, rfl⟩ := Option.map_eq_some_iff.mp hstep
    rw [Tunnel.step] at htunnel
    split at htunnel
    · obtain ⟨key, hkey, rfl⟩ := Option.map_eq_some_iff.mp htunnel
      exact h.of_tunnel rfl rfl (fun _ hf => hf) h.carried.apart rfl (List.erase_sublist ..) rfl
    · cases htunnel
  | written i =>
    rw [Traffic.step] at hstep
    split at hstep
    · next r hr =>
      split at hstep
      · cases hstep
        exact h.write hr
      · cases hstep
    · cases hstep
  | answered i status =>
    obtain ⟨tunnel, htunnel, rfl⟩ := Option.map_eq_some_iff.mp hstep
    obtain ⟨flight, _, rfl⟩ := Option.map_eq_some_iff.mp htunnel
    have hmem : ∀ f ∈ s.tunnel.posts.eraseIdx i, f ∈ s.tunnel.posts :=
      fun f hf => List.mem_of_mem_eraseIdx hf
    dsimp only
    split
    · exact h.of_tunnel rfl rfl hmem h.carried.apart rfl (.refl _) rfl
    · exact h.of_tunnel rfl rfl hmem h.carried.apart rfl (.refl _) rfl
  | failed i =>
    rw [Traffic.step] at hstep
    split at hstep
    · next flight hflight =>
      obtain ⟨tunnel, htunnel, rfl⟩ := Option.map_eq_some_iff.mp hstep
      obtain ⟨flight', hflight', rfl⟩ := Option.map_eq_some_iff.mp htunnel
      cases hflight.symm.trans hflight'
      exact h.failed hflight
    · cases hstep
  | refused peer =>
    obtain ⟨tunnel, htunnel, rfl⟩ := Option.map_eq_some_iff.mp hstep
    obtain ⟨key, _, rfl⟩ := Option.map_eq_some_iff.mp htunnel
    exact h.gone peer key
  | lost peer =>
    obtain ⟨tunnel, htunnel, rfl⟩ := Option.map_eq_some_iff.mp hstep
    obtain ⟨key, _, rfl⟩ := Option.map_eq_some_iff.mp htunnel
    exact (h.setConnected peer false).gone peer key
  | retry key =>
    obtain ⟨tunnel, htunnel, rfl⟩ := Option.map_eq_some_iff.mp hstep
    rw [Tunnel.step] at htunnel
    split at htunnel
    · cases htunnel
      exact h.retry key
    · cases htunnel

/-- In a run in which no message that has to wait has a query and nothing is posted before the
handshake of its Peer, messages are sent as they were posted. -/
theorem same_of_ready {version : Nat} {now : ℚ} {es : List (Event κ D)}
    (hrun : Run (Guarded Ready (Defined step)) (new version now) es s) : Same s := by
  have hinv : Inv s :=
    hrun.preserves (fun _ _ _ h hstep => Inv.step h hstep.1 hstep.2) (inv_new version now)
  exact hinv.same

/-- A message waits for the handshake, and one with a query is posted after it. The server announced
an older version. -/
theorem same_of_two :
    let url : Url String := ⟨"host:80", "/path", ""⟩
    let events : List (Event String String) :=
      [.post url "first" none, .connected 0, .handshake 0 (some 1),
        .post { url with query := "a=b" } "second" none]
    ∃ s, Run (Guarded Ready (Defined step)) (new 2 0) events s ∧
      s.requests.map (fun r => (r.flight.record.location, r.body, r.userAgent)) =
        [("/path", 1, some 1), ("/path?a=b", 1, some 1)] ∧ Same s := by
  intro url events
  have hend : ((events.foldlM (checked Ready step) (new 2 0)).map fun s =>
      s.requests.map fun r => (r.flight.record.location, r.body, r.userAgent)) =
        some [("/path", 1, some 1), ("/path?a=b", 1, some 1)] := by decide +kernel
  obtain ⟨s, hs, hrequests⟩ := Option.map_eq_some_iff.mp hend
  have hrun := run_checked hs
  exact ⟨s, hrun, hrequests, same_of_ready hrun⟩

/-- A message with a query waits for the handshake, and is posted to its path alone. -/
theorem query_lost : ¬ ∀ (version : Nat) (now : ℚ) (es : List (Event String String))
    (s : Traffic String String), Run (Defined step) (new version now) es s → Same s := by
  intro h
  let events : List (Event String String) :=
    [.post ⟨"host:80", "/path", "a=b"⟩ "data" none, .connected 0, .handshake 0 (some 1)]
  have hend : ((events.foldlM step (new 1 0)).map fun s =>
      (s.flights.map fun f => (f.record.deferred, f.record.location),
        s.messages.map fun m => m.1.location)) = some ([(0, "/path")], ["/path?a=b"]) := by
    decide +kernel
  obtain ⟨s, hs, heq⟩ := Option.map_eq_some_iff.mp hend
  obtain ⟨hflights, hmessages⟩ := Prod.mk.inj heq
  obtain ⟨f, hf, hrecord⟩ := List.map_eq_singleton_iff.mp hflights
  obtain ⟨m, hm, hlocation⟩ := List.map_eq_singleton_iff.mp hmessages
  obtain ⟨hdeferred, hpath⟩ := Prod.mk.inj hrecord
  obtain ⟨url, hurl, _, hsame⟩ := (h 1 0 events s (run_defined hs)).location f
    (by rw [hf]; exact List.mem_singleton.mpr rfl)
  rw [hm, hdeferred] at hurl
  cases hurl
  rw [hpath, hlocation] at hsame
  exact absurd hsame (by decide)

end Traffic
end Feat.Web.Tunneling
