import Feat.Web.Tunnel

/- What is sent through the tunnel, and for which version (`feat.web.tunnel`: `Peer` and `Request`).

   A handshake tells a Peer the version of its server; what it posts is serialized for the lower of
   the two versions, and the `user-agent` header of the request names it. The headers of a Peer are
   one dictionary, which every request rewrites and which is read when a request is written: at
   once on a connection that is made, else when a connection is made for the request.

   What was posted is on record, with the requests that were made for it and the keys whose posts
   have failed. -/
namespace Feat.Web.Tunneling
open Hash

/-! ## The other side -/

/-- `Request.onAllContentReceived` of a HEAD: the version that the server announces. -/
def announced (own vcli : Nat) : Nat := if vcli < own then vcli else own

/-- `Request.onAllContentReceived` of a POST: the version that the message is unserialized from,
unless it is refused. -/
def unserializedFrom (own vcli : Nat) : Option Nat := if vcli > own then none else some vcli

/-! ## A Peer -/

/-- A `Peer`: whether `_protocol` is set, `_peer_version` and `_target_version`, and the version in
the `user-agent` header. -/
structure Peer where
  connected : Bool
  peerVersion : Option Nat
  targetVersion : Option Nat
  userAgent : Nat

namespace Peer

def new (version : Nat) : Peer := ⟨false, none, none, version⟩

/-- `_update_peer_version`, with the version in the `server` header. -/
def updatePeerVersion (p : Peer) (version : Nat) (server : Option Nat) : Peer :=
  let vout := match server with
    | some vser => if vser < version then vser else version
    | none => version
  { p with peerVersion := server, targetVersion := some vout, userAgent := vout }

/-- The version that `_serialize` takes. -/
def serializedFor (p : Peer) (version : Nat) : Nat := p.targetVersion.getD version

end Peer

/-! ## The traffic -/

/-- A POST: the message that is in flight with it, the version its body is serialized for, and the
one in the header that was written. -/
structure Post (κ D : Type) where
  flight : Flight κ D
  body : Nat
  userAgent : Option Nat

structure Traffic (κ D : Type) where
  tunnel : Tunnel κ D
  peers : Nat → Peer
  messages : List (Url κ × D)
  requests : List (Post κ D)
  failures : List κ

namespace Traffic
variable {κ D : Type} [DecidableEq κ]

/-- What happens: as for the tunnel, with the server's version in the answer to a handshake, and
the connections for a handshake and for a request. -/
inductive Event (κ D : Type) where
  | tick (now : ℚ)
  | post (url : Url κ) (data : D) (expiration : Option ℚ)
  | connected (peer : Nat)
  | handshake (peer : Nat) (server : Option Nat)
  | handshakeFailed (peer : Nat)
  | written (i : Nat)
  | answered (i : Nat) (status : Nat)
  | failed (i : Nat)
  | refused (peer : Nat)
  | lost (peer : Nat)
  | retry (key : κ)

def new (version : Nat) (now : ℚ) : Traffic κ D :=
  ⟨.new version now, fun _ => .new version, [], [], []⟩

/-- Something changes a Peer. -/
def setPeer (s : Traffic κ D) (peer : Nat) (p : Peer) : Traffic κ D :=
  { s with peers := Function.update s.peers peer p }

/-- `Peer.post`. -/
def send (s : Traffic κ D) (flight : Flight κ D) : Traffic κ D :=
  let p := s.peers flight.peer
  let vout := p.serializedFor s.tunnel.version
  { s.setPeer flight.peer { p with userAgent := vout } with
    requests := s.requests ++ [⟨flight, vout, if p.connected then some vout else none⟩] }

/-- What the tunnel posts is sent. -/
def posting (s : Traffic κ D) (tunnel : Tunnel κ D) : Traffic κ D :=
  (tunnel.posts.drop s.tunnel.posts.length).foldl send { s with tunnel }

/-- Whether a request waits for its connection. -/
def waits (s : Traffic κ D) (r : Post κ D) : Bool :=
  r.userAgent.isNone && s.tunnel.posts.any fun f =>
    f.peer = r.flight.peer ∧ f.record.deferred = r.flight.record.deferred

/-- A request is written with the headers as they are. -/
def write (s : Traffic κ D) (i : Nat) (r : Post κ D) : Traffic κ D :=
  let p := s.peers r.flight.peer
  { s.setPeer r.flight.peer { p with connected := true } with
    requests := s.requests.set i { r with userAgent := some p.userAgent } }

def step (s : Traffic κ D) : Event κ D → Option (Traffic κ D)
  | .tick now => (s.tunnel.step (.tick now)).map fun tunnel => { s with tunnel }
  | .post url data expiration =>
    some ({ s with messages := s.messages ++ [(url, data)] }.posting
      (s.tunnel.post url data expiration))
  | .connected peer =>
    if peer ∈ s.tunnel.heads then some (s.setPeer peer { s.peers peer with connected := true })
    else none
  | .handshake peer server => (s.tunnel.step (.handshake peer true)).map fun tunnel =>
    let s := if peer ∈ s.tunnel.detached then s
      else s.setPeer peer ((s.peers peer).updatePeerVersion s.tunnel.version server)
    s.posting tunnel
  | .handshakeFailed peer => (s.tunnel.step (.handshake peer false)).map fun tunnel =>
    { s with tunnel }
  | .written i => match s.requests[i]? with
    | some r => if s.waits r then some (s.write i r) else none
    | none => none
  | .answered i status => (s.tunnel.step (.answered i status)).map fun tunnel => { s with tunnel }
  | .failed i => match s.tunnel.posts[i]? with
    | some flight => (s.tunnel.step (.failed i)).map fun tunnel =>
      { s with tunnel, failures := flight.key :: s.failures }
    | none => none
  | .refused peer => (s.tunnel.step (.gone peer)).map fun tunnel => { s with tunnel }
  | .lost peer => (s.tunnel.step (.gone peer)).map fun tunnel =>
    { s.setPeer peer { s.peers peer with connected := false } with tunnel }
  | .retry key => (s.tunnel.step (.retry key)).map fun tunnel => { s with tunnel }

end Traffic
end Feat.Web.Tunneling
