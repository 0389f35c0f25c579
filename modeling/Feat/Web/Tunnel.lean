import Mathlib.Algebra.Order.Ring.Rat
import Mathlib.Data.Finset.Erase
import Mathlib.Data.Finset.Insert
import Feat.Lib.Hash
import Feat.Lib.Run

/- The tunnel that carries messages to other servers (`feat.web.tunnel`: `Tunnel`,
   `Peer`).

   A message is posted on the connection of the Peer of its key. While there is
   none, or the key is in quarantine, the message is pending, and it is posted when
   a handshake for the key succeeds. What fails becomes pending again, and a timer
   is set to connect anew.

   What is posted can be serialized. Requests of a Peer end in any order, answered or not, and a Peer loses its
   connection at any time, or fails to get one, whatever is in flight on it. The
   delays between retries are not kept: a timer that is set fires at any time.
   Where the source would raise a `KeyError` or an `AttributeError`, what was done
   before it stays done and nothing else is. -/
namespace Feat.Web.Tunneling
open Hash

/-- A URL as `http.parse` takes it apart: the scheme, host and port as the key of a peer. -/
structure Url (κ : Type) where
  key : κ
  path : String
  query : String

/-- `http.compose` of a path and a query. -/
def Url.location {κ : Type} (url : Url κ) : String :=
  if url.query ≠ "" then url.path ++ "?" ++ url.query else url.path

/-- A pending message. -/
structure Record (D : Type) where
  deferred : Nat
  location : String
  data : D
  expiration : Option ℚ

/-- A message that is posted to a Peer and neither answered nor failed. -/
structure Flight (κ D : Type) where
  peer : Nat
  key : κ
  record : Record D

/-- `Tunnel`. Peers and Deferreds have numbers; `made` has the keys of the Peers, `detached` those
Peers whose `_tunnel` is `None`, and `heads` those with a handshake in flight. What was posted,
with its key and expiration, and which messages their servers accepted is on record too. -/
structure Tunnel (κ D : Type) where
  now : ℚ
  version : Nat
  retries : Finset κ
  quarantined : Finset κ
  pendings : Dict κ (List (Record D))
  peers : Dict κ Nat
  made : List κ
  detached : List Nat
  heads : List Nat
  posts : List (Flight κ D)
  fired : List (Nat × Bool)
  posted : List (κ × Option ℚ)
  accepted : List Nat

/-- `http.Status.OK`. -/
def statusOk : Nat := 200

namespace Tunnel
variable {κ D : Type} [DecidableEq κ]

def new (version : Nat) (now : ℚ) : Tunnel κ D :=
  ⟨now, version, ∅, ∅, ∅, ∅, [], [], [], [], [], [], []⟩

/-- `Deferred.callback`. -/
def fire (s : Tunnel κ D) (deferred : Nat) (value : Bool) : Tunnel κ D :=
  { s with fired := s.fired ++ [(deferred, value)] }

/-- `_add_pending`. -/
def addPending (s : Tunnel κ D) (key : κ) (record : Record D) : Tunnel κ D :=
  { s with pendings := s.pendings.insert key ((s.pendings.lookup key).getD [] ++ [record]) }

/-- `_connect`: without a version there is no handshake. -/
def connect (s : Tunnel κ D) (key : κ) : Tunnel κ D :=
  { s with
    quarantined := insert key s.quarantined
    made := s.made ++ [key]
    peers := s.peers.insert key s.made.length
    heads := if s.version ≠ 0 then s.heads ++ [s.made.length] else s.heads }

/-- `_schedule_retry`. -/
def scheduleRetry (s : Tunnel κ D) (key : κ) : Tunnel κ D :=
  { s with retries := insert key s.retries }

/-- `_reset_retry`. -/
def resetRetry (s : Tunnel κ D) (key : κ) : Tunnel κ D :=
  { s with retries := s.retries.erase key }

/-- `expiration and expiration <= curr_time`. -/
def expired (now : ℚ) (expiration : Option ℚ) : Bool :=
  expiration.any fun e => e ≠ 0 ∧ e ≤ now

/-- `_post`, unless there is no Peer. -/
def postRecord (s : Tunnel κ D) (key : κ) (record : Record D) : Option (Tunnel κ D) :=
  if expired s.now record.expiration then some (s.fire record.deferred false)
  else match s.peers.lookup key with
    | some peer => some { s with posts := s.posts ++ [⟨peer, key, record⟩] }
    | none => none

/-- The loop of `_post_pendings`, and whether it came to its end. -/
def postAll (key : κ) : Tunnel κ D → List (Record D) → Tunnel κ D × Bool
  | s, [] => (s, true)
  | s, record :: records => match s.postRecord key record with
    | some s' => postAll key s' records
    | none => (s, false)

/-- `_post_pendings`. -/
def postPendings (s : Tunnel κ D) (key : κ) : Tunnel κ D :=
  match s.pendings.lookup key with
  | none => s
  | some records => match postAll key s records with
    | (s, true) => { s with pendings := s.pendings.erase key }
    | (s, false) => s

/-- `_got_root_headers`. -/
def gotRootHeaders (s : Tunnel κ D) (key : κ) : Tunnel κ D :=
  let s := s.resetRetry key
  if key ∈ s.quarantined then
    { s with quarantined := s.quarantined.erase key }.postPendings key
  else s

/-- `post`. A message that has to wait is recorded with its path alone. -/
def post (s : Tunnel κ D) (url : Url κ) (data : D) (expiration : Option ℚ) : Tunnel κ D :=
  let exp := expiration.map (· + s.now)
  let d := s.posted.length
  let s := { s with posted := s.posted ++ [(url.key, exp)] }
  if url.key ∈ s.quarantined then s.addPending url.key ⟨d, url.path, data, exp⟩
  else if (s.peers.lookup url.key).isNone then
    (s.addPending url.key ⟨d, url.path, data, exp⟩).connect url.key
  else (s.postRecord url.key ⟨d, url.location, data, exp⟩).getD s

/-- `_post_failed`. -/
def postFailed (s : Tunnel κ D) (key : κ) (record : Record D) : Tunnel κ D :=
  let s := s.addPending key record
  { s with quarantined := insert key s.quarantined }.scheduleRetry key

/-- What `_cleanup_expired` keeps. -/
def notExpired (now : ℚ) (record : Record D) : Bool :=
  record.expiration.all fun e => now < e

/-- `_cleanup_expired`, unless nothing is pending. -/
def cleanupExpired (s : Tunnel κ D) (key : κ) : Option (Tunnel κ D) :=
  (s.pendings.lookup key).map fun records =>
    let left := records.filter (notExpired s.now)
    { s with
      fired := s.fired ++
        (records.filter fun record => ! notExpired s.now record).map fun r => (r.deferred, false)
      pendings := if left ≠ [] then s.pendings.insert key left else s.pendings.erase key }

/-- `_do_retry`. -/
def doRetry (s : Tunnel κ D) (key : κ) : Tunnel κ D :=
  let s := { s with retries := s.retries.erase key }
  match s.cleanupExpired key with
  | none => s
  | some s =>
    if (s.pendings.lookup key).isSome then s.connect key
    else if key ∈ s.quarantined then
      { s with quarantined := s.quarantined.erase key }.resetRetry key
    else s

/-- `_remove_peer`, unless there is none. -/
def removePeer (s : Tunnel κ D) (key : κ) : Option (Tunnel κ D) :=
  (s.peers.lookup key).map fun _ =>
    let s := { s with peers := s.peers.erase key }
    if (s.pendings.lookup key).isSome then s.scheduleRetry key else s

/-- `onClientConnectionFailed` and `onClientConnectionLost` of a Peer. -/
def gone (s : Tunnel κ D) (peer : Nat) (key : κ) : Tunnel κ D :=
  if peer ∈ s.detached then s
  else match s.removePeer key with
    | none => s
    | some s => { s with detached := peer :: s.detached }

/-- What happens: time passes, a message is posted, a handshake succeeds or fails, a post is answered
with a status or fails, a connection is refused or lost, a timer fires. Posts in flight are named by
their places. -/
inductive Event (κ D : Type) where
  | tick (now : ℚ)
  | post (url : Url κ) (data : D) (expiration : Option ℚ)
  | handshake (peer : Nat) (ok : Bool)
  | answered (i : Nat) (status : Nat)
  | failed (i : Nat)
  | gone (peer : Nat)
  | retry (key : κ)

/-- A step. The version of a peer is kept with the tunnel's: a handshake of a Peer without tunnel
fails whatever is answered. -/
def step (s : Tunnel κ D) : Event κ D → Option (Tunnel κ D)
  | .tick now => if s.now ≤ now then some { s with now } else none
  | .post url data expiration => some (s.post url data expiration)
  | .handshake peer ok =>
    if peer ∈ s.heads then
      (s.made[peer]?).map fun key =>
        let s := { s with heads := s.heads.erase peer }
        if ok ∧ peer ∉ s.detached then s.gotRootHeaders key else s.scheduleRetry key
    else none
  | .answered i status => (s.posts[i]?).map fun flight =>
    let s := { s with posts := s.posts.eraseIdx i }.fire flight.record.deferred true
    if status = statusOk then { s with accepted := s.accepted ++ [flight.record.deferred] } else s
  | .failed i => (s.posts[i]?).map fun flight =>
    { s with posts := s.posts.eraseIdx i }.postFailed flight.key flight.record
  | .gone peer => (s.made[peer]?).map fun key => s.gone peer key
  | .retry key => if key ∈ s.retries then some (s.doRetry key) else none

end Tunnel
end Feat.Web.Tunneling
