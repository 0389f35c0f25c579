import Mathlib.Data.List.Basic
import Feat.Lib.Run

/- A pool of HTTP connections (`ConnectionPool` of `feat.web.httpclient`).

   A request takes an idle connection, or is pipelined, or waits until a connection is
   made or returns to the pool; what is handed to a waiting request that was cancelled is
   handed to nobody. When a connection is lost, its requests without a response are
   requested again, at most three times, while the lost connection still counts.

   The set of idle connections is a flag of each; only connected ones are in it. Which of
   several idle or pipelining connections is taken is free. A request says whether it may
   be pipelined at all (`pipelinable`: neither the caller, the pool, its method nor its
   headers forbid it). A cancelled request closes its connection, which is lost some time
   later. The pool is not disconnected, and a response that ends with its connection is
   answered before the connection is lost. -/
namespace Feat.Web.ConnectionPool

/-- A request, `retry` counting from one; `live` until its Deferred is cancelled. -/
structure Request where
  pipelinable : Bool
  outside : Bool
  retry : Nat
  live : Bool
  deriving DecidableEq

/-- `can_pipeline`. -/
def Request.canPipeline (r : Request) : Bool := r.pipelinable && r.retry = 1

/-- What a protocol is doing: ready for a status line, receiving a response, or stuck in one whose
request was given up. -/
inductive Phase where
  | ready
  | responding
  | stuck
  deriving DecidableEq

/-- `PoolProtocol`. The first of the outstanding requests is the one that is responded. -/
structure Protocol where
  idle : Bool
  inPool : Bool
  canPipeline : Bool
  phase : Phase
  closing : Bool
  outstanding : List Request
  deriving DecidableEq

namespace Protocol

/-- A connection that was just made. -/
def made : Protocol := ⟨false, false, false, .ready, false, []⟩

/-- `_request` of the pool: the flags are those of the request. -/
def send (c : Protocol) (r : Request) : Protocol :=
  { c with
    idle := false
    inPool := !r.outside
    canPipeline := r.canPipeline
    outstanding := c.outstanding ++ [r] }

/-- `_client_error`: the response that is received fails, and the connection is closed. -/
def clientError (c : Protocol) : Protocol :=
  match c.phase with
  | .responding => { c with phase := .stuck, closing := true, outstanding := c.outstanding.tail }
  | _ => { c with closing := true }

/-- `process_timeout`. Without a response the first request fails. -/
def timeout (c : Protocol) : Protocol :=
  match c.phase with
  | .ready => { c with closing := true, outstanding := c.outstanding.tail }
  | _ => c.clientError

/-- `_cancel_request` for one of the outstanding requests. -/
def cancel (c : Protocol) (j : Nat) (r : Request) : Protocol :=
  clientError { c with outstanding := c.outstanding.set j { r with live := false } }

/-- The requests that get no response when the connection is lost. The one that is being responded
fails in another way. -/
def unanswered (c : Protocol) : List Request :=
  match c.phase with
  | .responding => c.outstanding.tail
  | _ => c.outstanding

end Protocol

structure Pool where
  max : Nat
  connected : List Protocol
  /-- `_awaiting_client`. -/
  awaiting : List Request
  /-- The connections that are being established. -/
  connecting : Nat

/-- What happens. A connection is referred to by its position. -/
inductive Event where
  | request (pipelinable outside : Bool) (choice : Nat)
  | cancelWaiting (i : Nat)
  | cancelSent (i j : Nat)
  | timeout (i : Nat)
  | statusLine (i : Nat)
  | answered (i : Nat)
  | made
  | failed
  | lost (i : Nat)

namespace Pool

/-- `_pool_len`. -/
def poolLen (s : Pool) : Nat := s.connected.countP (·.inPool) + s.connecting

/-- A new connection is established if there is room. -/
def grow (s : Pool) : Pool :=
  if s.poolLen < s.max then { s with connecting := s.connecting + 1 } else s

/-- A request waits for a connection. -/
def enqueue (s : Pool) (r : Request) : Pool := grow { s with awaiting := s.awaiting ++ [r] }

/-- `_return_to_the_pool`: what becomes of a connection and of those that wait. -/
def returnToThePool (awaiting : List Request) (c : Protocol) : Protocol × List Request :=
  match awaiting with
  | [] => ({ c with idle := true }, [])
  | r :: rest => (if r.live then c.send r else c, rest)

/-- `_handle_connection_reset`. -/
def handleConnectionReset (s : Pool) (r : Request) : Pool :=
  if r.live && r.retry ≤ 3 then s.enqueue { r with retry := r.retry + 1 } else s

/-- The extra connections of `onClientConnectionLost`. -/
def spawn (s : Pool) : Pool :=
  if s.awaiting ≠ [] ∧ s.poolLen < s.max then
    { s with connecting := s.connecting + min s.awaiting.length (s.max - s.poolLen) }
  else s

def step (s : Pool) : Event → Option Pool
  | .request pipelinable outside choice =>
    let r : Request := ⟨pipelinable, outside, 1, true⟩
    if s.connected.any (·.idle) then
      match s.connected[choice]? with
      | some c =>
        if c.idle then some { s with connected := s.connected.set choice (c.send r) } else none
      | none => none
    else if r.canPipeline && s.connected.any (fun c => c.canPipeline && c.inPool) then
      match s.connected[choice]? with
      | some c =>
        if c.canPipeline && c.inPool then
          some { s.grow with connected := s.connected.set choice (c.send r) }
        else none
      | none => none
    else some (s.enqueue r)
  | .cancelWaiting i =>
    match s.awaiting[i]? with
    | some r =>
      if r.live then some { s with awaiting := s.awaiting.set i { r with live := false } } else none
    | none => none
  | .cancelSent i j =>
    match s.connected[i]? with
    | some c =>
      match c.outstanding[j]? with
      | some r =>
        if r.live then some { s with connected := s.connected.set i (c.cancel j r) } else none
      | none => none
    | none => none
  | .timeout i =>
    match s.connected[i]? with
    | some c => some { s with connected := s.connected.set i c.timeout }
    | none => none
  | .statusLine i =>
    match s.connected[i]? with
    | some c =>
      if c.phase = .ready ∧ c.outstanding ≠ [] then
        some { s with connected := s.connected.set i { c with phase := .responding } }
      else none
    | none => none
  | .answered i =>
    match s.connected[i]? with
    | some c =>
      if c.phase = .responding then
        match c.outstanding with
        | [] => none
        | [_] =>
          let (c', awaiting) :=
            returnToThePool s.awaiting { c with phase := .ready, outstanding := [] }
          some { s with connected := s.connected.set i c', awaiting := awaiting }
        | _ :: rest =>
          some { s with
            connected := s.connected.set i { c with phase := .ready, outstanding := rest } }
      else none
    | none => none
  | .made =>
    match s.connecting with
    | 0 => none
    | n + 1 =>
      let (c, awaiting) := returnToThePool s.awaiting .made
      some { s with connected := s.connected ++ [c], awaiting := awaiting, connecting := n }
  | .failed =>
    match s.connecting with
    | 0 => none
    | n + 1 => some { s with connecting := n, awaiting := [] }
  | .lost i =>
    match s.connected[i]? with
    | some c =>
      let s' := c.unanswered.foldl handleConnectionReset s
      some (spawn { s' with connected := s'.connected.eraseIdx i })
    | none => none

/-- A pool that was not used. -/
def start (max : Nat) : Pool := ⟨max, [], [], 0⟩

/-! ## Neither leaks nor starvation -/

/-- Someone waits for a connection. -/
def Waited (s : Pool) : Prop := ∃ r ∈ s.awaiting, r.live = true

/-- What is asked of a pool. A connection that is being closed is no longer one that is busy or
idle. -/
structure Healthy (s : Pool) : Prop where
  busy : ∀ c ∈ s.connected, c.idle = false → c.closing = true ∨ c.outstanding ≠ []
  idle : ∀ c ∈ s.connected, c.idle = true → c.outstanding = []
  bounded : s.poolLen ≤ s.max
  served : s.Waited → 0 < s.connecting ∨ ∃ c ∈ s.connected, c.idle = false

/-- A connection that is handed a request counts already, will not count, or there is room. -/
def Room (s : Pool) (c : Protocol) (outside : Bool) : Prop :=
  c.inPool = true ∨ outside = true ∨ s.poolLen < s.max

/-- The condition of a step: the pool may have a connection, no cancelled request is handed one
that is not being closed, one that does not count is handed a request only if there is room, and
when one that does not count is lost for a request that goes on, there is room, or another is being
established or busy. -/
def Orderly (s : Pool) : Event → Prop
  | .request _ outside choice =>
    0 < s.max ∧ ∀ c ∈ s.connected[choice]?, c.idle = true → s.Room c outside
  | .made => ∀ r ∈ s.awaiting.head?, r.live = true
  | .answered i =>
    ∀ c ∈ s.connected[i]?, c.outstanding.length = 1 → ∀ r ∈ s.awaiting.head?,
      if r.live then s.Room c r.outside else c.closing = true
  | .lost i =>
    ∀ c ∈ s.connected[i]?,
      (s.Waited ∨ ∃ r ∈ c.unanswered, r.live = true ∧ r.retry ≤ 3) →
      c.inPool = true ∨ s.poolLen < s.max ∨ 0 < s.connecting ∨
        ∃ c' ∈ s.connected.eraseIdx i, c'.idle = false
  | _ => True

end Pool
end Feat.Web.ConnectionPool
