import Feat.Lib.Raising
import Feat.Web.HttpServer

/- The protocol that the HTTP server and the HTTP client are built on (`feat.web.http`:
   `BaseProtocol`): a message is a first line, header lines, a blank line and a body.

   What a protocol made from it does is given by its `Hooks`, the `process_` methods, which act
   on fields of its own (`sub`). An exception leaves the state as it was when it was raised, so
   methods are programs over a state that can fail.

   The lines and the data come from a `LineReceiver`, in line mode or in raw mode, and the
   transfer decoders are not part of the sources: what a decoder makes of data is part of what
   is received (`Decoding`).

   Left out are the timers, which the protocols let strike at any time, and the counters that
   only the log reads. -/
namespace Feat.Web.Http
open HttpServer (Bytes lower strip isHeaderMultifield)
open Raising (bind_of_ok)

/-- `STATE_REQLINE`, `STATE_HEADERS` and `STATE_BODY`. -/
inductive Stage where
  | reqline
  | headers
  | body
  deriving DecidableEq, Repr

/-- The transfer decoders: all that follows, or so many bytes of it, or chunks. -/
inductive Decoder where
  | identity (length : Option Int)
  | chunked
  deriving DecidableEq, Repr

/-- The exceptions that the protocols raise or that Python raises in them. -/
inductive Raised where
  | parseError (message : Bytes)
  | dataLoss
  | valueError
  | typeError
  | indexError
  | attributeError
  | unboundLocalError
  | assertionError
  | alreadyCalledError
  deriving DecidableEq, Repr

/-- The fields of `BaseProtocol`, with the mode of the `LineReceiver`. -/
structure Framing where
  state : Stage
  header : Bytes
  headerCount : Nat
  noContentFollows : Bool
  bodyDecoder : Option Decoder
  lineMode : Bool
  deriving DecidableEq, Repr

/-- `_reset`. -/
def Framing.reset (f : Framing) : Framing :=
  { f with
    state := .reqline
    header := []
    headerCount := 0
    noContentFollows := false
    bodyDecoder := none }

/-- The fields of a new connection. -/
def Framing.new : Framing := ⟨.reqline, [], 0, false, none, true⟩

structure Protocol (σ : Type) extends Framing where
  sub : σ

abbrev Action (σ : Type) (α : Type) : Type := EStateM Raised (Protocol σ) α

/-- The methods that `BaseProtocol` leaves to the protocols made from it. -/
structure Hooks (σ : Type) where
  processRequestLine : Bytes → Action σ Unit
  processLength : Int → Action σ Unit
  processExtendHeader : Bytes → List Bytes → Action σ Unit
  processSetHeader : Bytes → Bytes → Action σ Unit
  processBodyStart : Action σ Unit
  processBodyData : Bytes → Action σ Unit
  processBodyFinished : Action σ Unit
  processReset : Action σ Unit
  processCleanup : Action σ Unit
  processError : Raised → Action σ Unit

/-- What a decoder makes of data: the data it passes on, what follows the body where the body
ends with it, and whether it raises. -/
structure Decoding where
  data : List Bytes
  extra : Option Bytes
  raises : Option Raised

/-! ## Strings -/

/-- `line.split(':', 1)`. -/
def splitColon (line : Bytes) : Option (Bytes × Bytes) :=
  match line.dropWhile (· ≠ ':') with
  | [] => none
  | _ :: data => some (line.takeWhile (· ≠ ':'), data)

/-- The number that digits stand for. -/
def digits (s : Bytes) : Option Nat :=
  if s ≠ [] ∧ s.all Char.isDigit then
    some (s.foldl (fun n c => 10 * n + (c.toNat - '0'.toNat)) 0)
  else none

/-- `int`. -/
def parseInt (s : Bytes) : Option Int :=
  match strip s with
  | '+' :: rest => (digits rest).map Int.ofNat
  | '-' :: rest => (digits rest).map fun n => - Int.ofNat n
  | rest => (digits rest).map Int.ofNat

/-- `data.split(",")`, stripped. -/
def fields (data : Bytes) : List Bytes := (data.splitOn ',').map strip

/-! ## The methods of `BaseProtocol` -/

section
variable {σ : Type} (hooks : Hooks σ) (maxHeaders : Nat)

/-- `_error`. -/
def error (exception : Raised) : Action σ Unit := do
  modify fun p => { p with bodyDecoder := none }
  hooks.processError exception

/-- `_setup_identity_decoding`. -/
def setupIdentityDecoding (length : Option Int) : Action σ Unit :=
  modify fun p =>
    if length = some 0 then { p with noContentFollows := true }
    else { p with bodyDecoder := some (.identity length) }

/-- `_setup_chunked_decoding`. -/
def setupChunkedDecoding : Action σ Unit :=
  modify fun p => { p with bodyDecoder := some .chunked }

/-- The end of `_got_header_entry`. -/
def storeHeader (header data : Bytes) : Action σ Unit :=
  if isHeaderMultifield header then hooks.processExtendHeader header (fields data)
  else if header = "set-cookie".toList then hooks.processExtendHeader header [data]
  else hooks.processSetHeader header data

/-- `_got_header_entry`. -/
def gotHeaderEntry (line : Bytes) : Action σ Unit := do
  modify fun p => { p with headerCount := p.headerCount + 1 }
  if (← get).headerCount > maxHeaders then
    error hooks (.parseError "Too much http headers".toList)
  else match splitColon line with
    | none => throw .valueError
    | some (header, data) =>
      let header := lower header
      let data := strip data
      if header = "content-length".toList then
        match parseInt data with
        | none => throw .valueError
        | some length =>
          hooks.processLength length
          setupIdentityDecoding (some length)
          storeHeader hooks header data
      else if header = "transfer-encoding".toList then
        if lower data ≠ "chunked".toList then
          error hooks (.parseError ("Unsupported transfer encoding: ".toList ++ data))
        else
          setupChunkedDecoding
          storeHeader hooks header data
      else storeHeader hooks header data

/-- `_got_all_content`. What follows the content is received again, as lines. -/
def gotAllContent : Action σ Unit := do
  hooks.processBodyFinished
  modify fun p => { p with toFraming := p.toFraming.reset }
  hooks.processReset
  modify fun p => { p with lineMode := true }

/-- `_got_all_headers`. -/
def gotAllHeaders : Action σ Unit := do
  modify fun p => { p with state := .body }
  hooks.processBodyStart
  let p ← get
  if p.bodyDecoder = none ∨ p.noContentFollows then gotAllContent hooks
  else modify fun p => { p with lineMode := false }

/-- The entry that is complete, if there is one, when another header line is received. -/
def flushHeader : Action σ Unit := do
  let p ← get
  if p.header ≠ [] then gotHeaderEntry hooks maxHeaders p.header

def isBlank (c : Char) : Bool := c = ' ' || c = '\t'

/-- `_got_header_line`. -/
def gotHeaderLine (line : Bytes) : Action σ Unit :=
  match line with
  | [] => do
    flushHeader hooks maxHeaders
    modify fun p => { p with header := [] }
    gotAllHeaders hooks
  | c :: _ =>
    if isBlank c then modify fun p => { p with header := p.header ++ '\n' :: line }
    else do
      flushHeader hooks maxHeaders
      modify fun p => { p with header := line }

/-- `_got_request_line`. -/
def gotRequestLine (line : Bytes) : Action σ Unit := do
  hooks.processRequestLine line
  modify fun p => { p with state := .headers }

/-- `dataReceived` of the body decoder. -/
def dataReceived (decoding : Decoding) : Action σ Unit := do
  decoding.data.forM hooks.processBodyData
  match decoding.raises with
  | some exception => throw exception
  | none => if decoding.extra.isSome then gotAllContent hooks

/-- `_handle_received`. -/
def handleReceived (decoding : Decoding) : Action σ Unit := do
  match (← get).bodyDecoder with
  | none => throw .attributeError
  | some _ => dataReceived hooks decoding

/-- `lineReceived`. -/
def lineReceived (line : Bytes) (decoding : Decoding) : Action σ Unit := do
  match (← get).state with
  | .reqline => gotRequestLine hooks line
  | .headers => gotHeaderLine hooks maxHeaders line
  | .body => handleReceived hooks decoding

/-- `noMoreData` of the body decoder: a decoder without a length ends the body, but cannot know
that it has all of it; any other one waits for more. -/
def noMoreData : Decoder → Action σ Unit
  | .identity none => do
    gotAllContent hooks
    throw .dataLoss
  | _ => throw .dataLoss

/-- `connectionLost`. -/
def connectionLost : Action σ Unit := do
  match (← get).bodyDecoder with
  | none => pure ()
  | some decoder =>
    let noticed ← try noMoreData hooks decoder; pure none catch e => pure (some e)
    match noticed with
    | some exception => error hooks exception
    | none => hooks.processBodyFinished
  modify fun p => { p with toFraming := p.toFraming.reset }
  hooks.processCleanup

end

/-! ## What the hooks keep -/

/-- The state that a program ends in, whether it raises or not. -/
def final {σ α : Type} (a : Action σ α) (p : Protocol σ) : Protocol σ :=
  match a p with
  | .ok _ q => q
  | .error _ q => q

/-- A program that keeps a property of the state. -/
def Keeps {σ α : Type} (P : Protocol σ → Prop) (a : Action σ α) : Prop := ∀ p, P p → P (final a p)

section
variable {σ α β : Type} {P : Protocol σ → Prop} {hooks : Hooks σ} {maxHeaders : Nat}

theorem final_eq (a : Action σ α) (p : Protocol σ) : final a p = Raising.final a p := by
  unfold final Raising.final
  cases a p <;> rfl

theorem keeps_iff {a : Action σ α} : Keeps P a ↔ Raising.Keeps P a := by
  unfold Keeps Raising.Keeps
  simp only [final_eq]

theorem Keeps.ok {a : Action σ α} (h : Keeps P a) {p q : Protocol σ} {x : α} (hp : P p)
    (hout : a p = .ok x q) : P q := Raising.Keeps.ok (keeps_iff.mp h) hp hout

theorem Keeps.into {Q : Protocol σ → Prop} {a : Action σ α} {f : α → Action σ β} (ha : Keeps P a)
    (himp : ∀ p, P p → Q p) (hf : ∀ x p, P p → Q (final (f x) p)) :
    ∀ p, P p → Q (final (a >>= f) p) := by
  simp only [final_eq] at hf ⊢
  exact Raising.Keeps.into (keeps_iff.mp ha) himp hf

theorem Keeps.bind {a : Action σ α} {f : α → Action σ β} (ha : Keeps P a)
    (hf : ∀ x, Keeps P (f x)) : Keeps P (a >>= f) :=
  keeps_iff.mpr ((keeps_iff.mp ha).bind fun x => keeps_iff.mp (hf x))

theorem keeps_pure (x : α) : Keeps P (pure x : Action σ α) := fun _ hp => hp

theorem keeps_throw (e : Raised) : Keeps P (throw e : Action σ α) := fun _ hp => hp

theorem keeps_get : Keeps P (get : Action σ (Protocol σ)) := fun _ hp => hp

theorem keeps_modify {f : Protocol σ → Protocol σ} (h : ∀ p, P p → P (f p)) :
    Keeps P (modify f : Action σ Unit) := h

theorem Keeps.forM {ι : Type} {f : ι → Action σ Unit} (h : ∀ i, Keeps P (f i)) (l : List ι) :
    Keeps P (l.forM f) := keeps_iff.mpr (Raising.Keeps.forM (fun i => keeps_iff.mp (h i)) l)

/-- A line is a request line where none was received. -/
theorem lineReceived_reqline {q : Protocol σ} {line : Bytes} {decoding : Decoding}
    (hstage : q.state = .reqline) :
    lineReceived hooks maxHeaders line decoding q = gotRequestLine hooks line q := by
  show (match q.state with
    | .reqline => gotRequestLine hooks line
    | .headers => gotHeaderLine hooks maxHeaders line
    | .body => handleReceived hooks decoding) q = _
  rw [hstage]

/-- A line is a header line while the headers are received. -/
theorem lineReceived_headers {q : Protocol σ} {line : Bytes} {decoding : Decoding}
    (hstage : q.state = .headers) :
    lineReceived hooks maxHeaders line decoding q = gotHeaderLine hooks maxHeaders line q := by
  show (match q.state with
    | .reqline => gotRequestLine hooks line
    | .headers => gotHeaderLine hooks maxHeaders line
    | .body => handleReceived hooks decoding) q = _
  rw [hstage]

/-- The end of `connectionLost`. -/
def cleanup (hooks : Hooks σ) : Action σ Unit := do
  modify fun p => { p with toFraming := p.toFraming.reset }
  hooks.processCleanup

/-- The body is finished, or in error, before the end of `connectionLost`. -/
theorem final_connectionLost (p : Protocol σ) : final (connectionLost hooks) p =
    match p.bodyDecoder with
    | none => final (cleanup hooks) p
    | some decoder => match noMoreData hooks decoder p with
      | .error e q => final (error hooks e >>= fun _ => cleanup hooks) q
      | .ok _ q => final (hooks.processBodyFinished >>= fun _ => cleanup hooks) q := by
  have hnoticed (decoder : Decoder) :
      (tryCatch (do noMoreData hooks decoder; pure none) fun e => pure (some e) : Action σ _) p =
        match noMoreData hooks decoder p with
        | .error e q => .ok (some e) q
        | .ok _ q => .ok none q := by
    show EStateM.tryCatch (EStateM.bind (noMoreData hooks decoder) _) _ p = _
    unfold EStateM.tryCatch EStateM.bind
    cases noMoreData hooks decoder p <;> rfl
  unfold final connectionLost
  rw [bind_of_ok (show (get : Action σ _) p = .ok p p from rfl)]
  cases p.bodyDecoder with
  | none => rfl
  | some decoder =>
    specialize hnoticed decoder
    dsimp only
    cases hno : noMoreData hooks decoder p with
    | error e q =>
      rw [hno] at hnoticed
      rw [bind_of_ok hnoticed]
      rfl
    | ok x q =>
      rw [hno] at hnoticed
      rw [bind_of_ok hnoticed]
      rfl

/-- A property that what is met of the headers has nothing to do with, as long as no decoder is
dropped. -/
def Unheaded (P : Protocol σ → Prop) : Prop := ∀ p count empty decoder,
  (decoder = p.bodyDecoder ∨ decoder.isSome) → P p →
    P { p with headerCount := count, noContentFollows := empty, bodyDecoder := decoder }

/-- A property of the fields that the protocol adds to those of `BaseProtocol`. -/
def Unframed (P : Protocol σ → Prop) : Prop := ∀ p framing, P p → P { p with toFraming := framing }

theorem Unframed.unheaded (h : Unframed P) : Unheaded P := fun p _ _ _ _ hp => h p _ hp

/-- Hooks that keep a property of the state while the head and the body are received. -/
structure Hooks.Keep (hooks : Hooks σ) (P : Protocol σ → Prop) : Prop where
  length : ∀ n, Keeps P (hooks.processLength n)
  extendHeader : ∀ name values, Keeps P (hooks.processExtendHeader name values)
  setHeader : ∀ name value, Keeps P (hooks.processSetHeader name value)
  error : ∀ e, Keeps P (Http.error hooks e)

/-- Hooks that keep a property of the fields of the protocol. -/
structure Hooks.KeepAll (hooks : Hooks σ) (P : Protocol σ → Prop) : Prop
    extends hooks.Keep P where
  requestLine : ∀ line, Keeps P (hooks.processRequestLine line)
  bodyStart : Keeps P hooks.processBodyStart
  bodyData : ∀ data, Keeps P (hooks.processBodyData data)
  bodyFinished : Keeps P hooks.processBodyFinished
  reset : Keeps P hooks.processReset

namespace Hooks.Keep
variable (h : hooks.Keep P)
include h

theorem storeHeader (header data : Bytes) : Keeps P (storeHeader hooks header data) := by
  unfold Http.storeHeader
  split
  · exact h.extendHeader _ _
  · split
    · exact h.extendHeader _ _
    · exact h.setHeader _ _

theorem gotHeaderEntry (hP : Unheaded P) (line : Bytes) :
    Keeps P (gotHeaderEntry hooks maxHeaders line) := by
  have hidentity (length : Option Int) : Keeps P (setupIdentityDecoding length) := by
    refine keeps_modify fun p hp => ?_
    split
    · exact hP p _ _ _ (.inl rfl) hp
    · exact hP p _ _ _ (.inr rfl) hp
  refine (keeps_modify fun p hp => hP p _ _ _ (.inl rfl) hp).bind fun _ => keeps_get.bind fun q => ?_
  split
  · exact h.error _
  · cases splitColon line with
    | none => exact keeps_throw _
    | some entry =>
      dsimp only
      split
      · cases parseInt (strip entry.2) with
        | none => exact keeps_throw _
        | some n =>
          exact (h.length n).bind fun _ => (hidentity _).bind fun _ => h.storeHeader _ _
      · split
        · split
          · exact h.error _
          · exact (keeps_modify fun p hp => hP p _ _ _ (.inr rfl) hp).bind fun _ => h.storeHeader _ _
        · exact h.storeHeader _ _

theorem flushHeader (hP : Unheaded P) : Keeps P (flushHeader hooks maxHeaders) := by
  refine keeps_get.bind fun p => ?_
  split
  · exact h.gotHeaderEntry hP _
  · exact keeps_pure _

end Hooks.Keep

namespace Hooks.KeepAll
variable (h : hooks.KeepAll P) (hP : Unframed P)
include h hP

theorem gotAllContent : Keeps P (gotAllContent hooks) :=
  h.bodyFinished.bind fun _ => (keeps_modify fun p hp => hP p _ hp).bind fun _ =>
    h.reset.bind fun _ => keeps_modify fun p hp => hP p _ hp

theorem gotAllHeaders : Keeps P (gotAllHeaders hooks) := by
  refine (keeps_modify fun p hp => hP p _ hp).bind fun _ => h.bodyStart.bind fun _ =>
    keeps_get.bind fun p => ?_
  split
  · exact h.gotAllContent hP
  · exact keeps_modify fun p hp => hP p _ hp

theorem gotHeaderLine (line : Bytes) : Keeps P (gotHeaderLine hooks maxHeaders line) := by
  cases line with
  | nil =>
    exact (h.flushHeader hP.unheaded).bind fun _ =>
      (keeps_modify fun p hp => hP p _ hp).bind fun _ => h.gotAllHeaders hP
  | cons c rest =>
    unfold Http.gotHeaderLine
    dsimp only
    split
    · exact keeps_modify fun p hp => hP p _ hp
    · exact (h.flushHeader hP.unheaded).bind fun _ => keeps_modify fun p hp => hP p _ hp

theorem dataReceived (decoding : Decoding) : Keeps P (dataReceived hooks decoding) := by
  refine (Keeps.forM h.bodyData _).bind fun _ => ?_
  cases decoding.raises with
  | some e => exact keeps_throw _
  | none =>
    dsimp only
    split
    · exact h.gotAllContent hP
    · exact keeps_pure _

theorem handleReceived (decoding : Decoding) : Keeps P (handleReceived hooks decoding) := by
  refine keeps_get.bind fun p => ?_
  cases p.bodyDecoder with
  | none => exact keeps_throw _
  | some _ => exact h.dataReceived hP decoding

theorem lineReceived (line : Bytes) (decoding : Decoding) :
    Keeps P (lineReceived hooks maxHeaders line decoding) := by
  refine keeps_get.bind fun p => ?_
  cases p.state with
  | reqline => exact (h.requestLine line).bind fun _ => keeps_modify fun p hp => hP p _ hp
  | headers => exact h.gotHeaderLine hP line
  | body => exact h.handleReceived hP decoding

end Hooks.KeepAll
end

end Feat.Web.Http
