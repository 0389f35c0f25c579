import Feat.Web.BaseProtocol

/- Request heads that a channel of the HTTP server receives (`feat.web.httpserver`: the
   `process_` methods of `Channel`).

   A request is built with what its head says; what building and initiating it does to the
   transport is given (`writing`). `never_rejected`: whatever the lines of a head are, an
   exception leaves `lineReceived` or a request is built from them, because an error neither ends
   the head nor closes the channel: `process_error`, which `_error` calls, is not a method of
   `Channel`, and `http_bad_request` is not a method at all. -/
namespace Feat.Web.Http
open HttpServer (Bytes HeaderValue Protocols isSpace)
open Raising (ok_of_bind)

/-- `http.Methods`. -/
inductive Methods where
  | HEAD
  | GET
  | POST
  | PUT
  | DELETE
  deriving DecidableEq, Repr

def Methods.name : Methods → Bytes
  | .HEAD => "HEAD".toList
  | .GET => "GET".toList
  | .POST => "POST".toList
  | .PUT => "PUT".toList
  | .DELETE => "DELETE".toList

/-- `http.Methods[name]`. -/
def Methods.get (name : Bytes) : Option Methods :=
  [Methods.HEAD, .GET, .POST, .PUT, .DELETE].find? (·.name = name)

/-- `http.Protocols[name]`. -/
def protocolNamed (name : Bytes) : Option Protocols :=
  [Protocols.HTTP10, .HTTP11].find? (·.name = name)

/-- `line.split()`. -/
def words (line : Bytes) : List Bytes := (line.splitOnP isSpace).filter (· ≠ [])

namespace Server

/-- `RequestInfo`. -/
structure RequestInfo where
  protocol : Protocols
  method : Methods
  uri : Bytes
  headers : List (Bytes × HeaderValue)
  length : Option Int

/-- The headers with a value set. -/
def setHeader (headers : List (Bytes × HeaderValue)) (name : Bytes) (value : HeaderValue) :
    List (Bytes × HeaderValue) :=
  headers.filter (·.1 ≠ name) ++ [(name, value)]

/-- The fields that are known of a header. -/
def fieldsNamed (headers : List (Bytes × HeaderValue)) (name : Bytes) : List Bytes :=
  headers.flatMap fun header => match header with
    | (key, .fields values) => if key = name then values else []
    | _ => []

/-- The fields of `Channel`. A request is what `_requests` holds of it: whether it is writing.
`built` are all requests that were built, and `errors` the status codes of `_http_error`, with
whether a response was written. -/
structure Channel where
  forceVersion : Option Protocols
  requests : Option (List Bool)
  protocol : Option Protocols
  reqinfo : Option RequestInfo
  built : List RequestInfo
  errors : List (Nat × Bool)
  closing : Bool

/-- `_http_error`. -/
def httpError (statusCode : Nat) : Action Channel Unit :=
  modify fun p =>
    let responds := match p.sub.requests with
      | some (writing :: _) => !writing
      | _ => false
    { p with sub := { p.sub with
      errors := p.sub.errors ++ [(statusCode, responds)]
      closing := true } }

/-- The version of a request is not the one that the channel insists on. The first protocol is the
number zero, and no version to insist on. -/
def Channel.refuses (c : Channel) (protocol : Protocols) : Bool :=
  c.forceVersion = some .HTTP11 && protocol ≠ .HTTP11

/-- `process_request_line`. Where the method or the protocol is not known, its variable is read
without having been set. -/
def processRequestLine (line : Bytes) : Action Channel Unit := do
  match (← get).sub.reqinfo with
  | some _ => throw .assertionError
  | none =>
    match words line with
    | [methodName, uri, protocolName] =>
      match Methods.get methodName, protocolNamed protocolName with
      | some method, some protocol =>
        if (← get).sub.refuses protocol then httpError 505
        else modify fun p => { p with sub := { p.sub with
          protocol := some protocol
          reqinfo := some ⟨protocol, method, uri, [], none⟩ } }
      | _, _ => do
        httpError 400
        throw .unboundLocalError
    | _ => throw .attributeError

/-- The request information is changed. -/
def withInfo (f : RequestInfo → RequestInfo) : Action Channel Unit := do
  match (← get).sub.reqinfo with
  | none => throw .assertionError
  | some info => modify fun p => { p with sub := { p.sub with reqinfo := some (f info) } }

/-- `process_length`. -/
def processLength (length : Int) : Action Channel Unit :=
  withInfo fun info => { info with length := some length }

/-- `process_extend_header`. -/
def processExtendHeader (name : Bytes) (values : List Bytes) : Action Channel Unit :=
  withInfo fun info => { info with
    headers := setHeader info.headers name (.fields (fieldsNamed info.headers name ++ values)) }

/-- `process_set_header`. -/
def processSetHeader (name value : Bytes) : Action Channel Unit :=
  withInfo fun info => { info with headers := setHeader info.headers name (.text value) }

/-- `process_body_start`. -/
def processBodyStart (writing : RequestInfo → Bool) : Action Channel Unit := do
  let c := (← get).sub
  match c.reqinfo with
  | none => throw .assertionError
  | some info =>
    match c.requests with
    | none => throw .typeError
    | some requests =>
      modify fun p => { p with sub := { p.sub with
        requests := some (requests ++ [writing info])
        built := p.sub.built ++ [info] } }

/-- `process_body_data` and `process_body_finished`: the last request is told. -/
def processLast : Action Channel Unit := do
  match (← get).sub.requests with
  | some (_ :: _) => pure ()
  | _ => throw .assertionError

/-- The hooks of `Channel`. -/
def hooks (writing : RequestInfo → Bool) : Hooks Channel where
  processRequestLine := processRequestLine
  processLength := processLength
  processExtendHeader := processExtendHeader
  processSetHeader := processSetHeader
  processBodyStart := processBodyStart writing
  processBodyData _ := processLast
  processBodyFinished := processLast
  processReset := modify fun p => { p with sub := { p.sub with protocol := none, reqinfo := none } }
  processCleanup := modify fun p => { p with sub := { p.sub with requests := none } }
  processError _ := pure ()

/-- A line that a channel receives, with the exceptions that have left `lineReceived`. -/
def receiveLine (writing : RequestInfo → Bool) (maxHeaders : Nat)
    (s : Protocol Channel × List Raised) (line : Bytes) : Protocol Channel × List Raised :=
  match lineReceived (hooks writing) maxHeaders line ⟨[], none, none⟩ s.1 with
  | .ok _ q => (q, s.2)
  | .error e q => (q, s.2 ++ [e])

/-- The lines of a head, received by a channel that waits for a request. -/
def receive (writing : RequestInfo → Bool) (maxHeaders : Nat) (c : Channel) (lines : List Bytes) :
    Protocol Channel × List Raised :=
  lines.foldl (receiveLine writing maxHeaders) (⟨Framing.new, c⟩, [])

/-- A head is rejected cleanly: no exception leaves `lineReceived`, no request is built, and the
one error is reported and closes the connection. -/
structure Rejected (before after : Channel) (escaped : List Raised) : Prop where
  silent : escaped = []
  unbuilt : after.built = before.built
  reported : after.errors.length = before.errors.length + 1
  closing : after.closing = true

section
variable {writing : RequestInfo → Bool} {maxHeaders : Nat} {p q : Protocol Channel}

/-- The hooks change only the fields of the channel, and build at most more. -/
theorem hooks_keep {P : Protocol Channel → Prop}
    (hdecoder : ∀ p, P p → P { p with bodyDecoder := none })
    (h : ∀ p c, p.sub.built <+: c.built → P p → P { p with sub := c }) :
    (hooks writing).KeepAll P := by
  have hsame {f : Protocol Channel → Channel} (hf : ∀ p, (f p).built = p.sub.built) :
      Keeps P (modify fun p => { p with sub := f p }) :=
    keeps_modify fun p hp => h p _ (hf p ▸ List.prefix_rfl) hp
  have hinfo (f : RequestInfo → RequestInfo) : Keeps P (withInfo f) := by
    refine keeps_get.bind fun p => ?_
    split
    · exact keeps_throw _
    · exact hsame (by intro p; rfl)
  have hlast : Keeps P processLast := by
    refine keeps_get.bind fun p => ?_
    split
    · exact keeps_pure _
    · exact keeps_throw _
  have herror (statusCode : Nat) : Keeps P (httpError statusCode) := hsame (by intro p; rfl)
  refine ⟨⟨fun _ => hinfo _, fun _ _ => hinfo _, fun _ _ => hinfo _,
    fun _ => (keeps_modify hdecoder).bind fun _ => keeps_pure _⟩, fun line => ?_, ?_,
    fun _ => hlast, hlast, hsame (by intro p; rfl)⟩
  · refine keeps_get.bind fun p => ?_
    split
    · exact keeps_throw _
    · split
      · split
        · refine keeps_get.bind fun q => ?_
          split
          · exact herror 505
          · exact hsame (by intro p; rfl)
        · exact (herror 400).bind fun _ => keeps_throw _
      · exact keeps_throw _
  · refine keeps_get.bind fun p => ?_
    dsimp only
    split
    · exact keeps_throw _
    · split
      · exact keeps_throw _
      · exact keeps_modify fun p hp => h p _ (List.prefix_append _ _) hp

/-- Requests that are built stay built. -/
theorem keep_built (n : Nat) : (hooks writing).KeepAll fun p => n ≤ p.sub.built.length :=
  hooks_keep (fun _ hp => hp) fun _ _ hprefix hn => le_trans hn hprefix.length_le

/-- The stage is no business of the hooks. -/
theorem keep_stage (stage : Stage) : (hooks writing).KeepAll fun p => p.state = stage :=
  hooks_keep (fun _ hp => hp) fun _ _ _ hp => hp

/-- `process_body_start` builds a request, or an exception leaves it. -/
theorem processBodyStart_built (hout : processBodyStart writing p = .ok () q) :
    p.sub.built.length + 1 ≤ q.sub.built.length := by
  have heq : processBodyStart writing p = (match p.sub.reqinfo with
      | none => .error .assertionError p
      | some info =>
        match p.sub.requests with
        | none => .error .typeError p
        | some requests => .ok () { p with sub := { p.sub with
            requests := some (requests ++ [writing info])
            built := p.sub.built ++ [info] } }) := by
    show (match p.sub.reqinfo with
      | none => _
      | some info => _ : Action Channel Unit) p = _
    cases p.sub.reqinfo with
    | none => rfl
    | some info => cases p.sub.requests <;> rfl
  rw [heq] at hout
  split at hout
  · cases hout
  · split at hout
    · cases hout
    · cases hout
      simp

/-- An exception has left `lineReceived`, or a request was built. -/
def Spoilt (n : Nat) (s : Protocol Channel × List Raised) : Prop :=
  s.2 ≠ [] ∨ n + 1 ≤ s.1.sub.built.length

/-- The headers are being received. -/
def Heading (n : Nat) (s : Protocol Channel × List Raised) : Prop :=
  s.1.state = .headers ∧ n ≤ s.1.sub.built.length

/-- A line that is received with the headers. -/
theorem gotHeaderLine_cases {n : Nat} {line : Bytes} (hstage : p.state = .headers)
    (hbuilt : n ≤ p.sub.built.length)
    (hout : gotHeaderLine (hooks writing) maxHeaders line p = .ok () q) :
    n + 1 ≤ q.sub.built.length ∨ (line ≠ [] ∧ q.state = .headers ∧ n ≤ q.sub.built.length) := by
  have hflush {t : Protocol Channel}
      (ht : flushHeader (hooks writing) maxHeaders p = .ok () t) :
      t.state = .headers ∧ n ≤ t.sub.built.length :=
    ⟨((keep_stage .headers).flushHeader fun _ _ _ _ _ hp => hp).ok hstage ht,
      ((keep_built n).flushHeader fun _ _ _ _ _ hp => hp).ok hbuilt ht⟩
  cases line with
  | nil =>
    obtain ⟨_, t, ht, hrest⟩ := ok_of_bind hout
    obtain ⟨_, t', ht', hheaders⟩ := ok_of_bind hrest
    obtain ⟨_, t'', ht'', hbody⟩ := ok_of_bind hheaders
    obtain ⟨_, u, hu, hmode⟩ := ok_of_bind hbody
    cases ht'
    cases ht''
    have hstart := processBodyStart_built hu
    have hmore : n + 1 ≤ u.sub.built.length :=
      le_trans (Nat.add_le_add_right (hflush ht).2 1) hstart
    have hkeep : Keeps (fun p : Protocol Channel => n + 1 ≤ p.sub.built.length) (do
        let p ← get
        if p.bodyDecoder = none ∨ p.noContentFollows then gotAllContent (hooks writing)
        else modify fun p => { p with lineMode := false }) := by
      refine keeps_get.bind fun p => ?_
      split
      · exact (keep_built (n + 1)).gotAllContent fun _ _ hp => hp
      · exact keeps_modify fun _ hp => hp
    exact .inl (hkeep.ok hmore hmode)
  | cons c rest =>
    refine .inr ⟨List.cons_ne_nil _ _, ?_⟩
    unfold gotHeaderLine at hout
    dsimp only at hout
    split at hout
    · cases hout
      exact ⟨hstage, hbuilt⟩
    · obtain ⟨_, t, ht, hrest⟩ := ok_of_bind hout
      have hkept := hflush ht
      cases hrest
      exact hkept

/-- What was spoilt stays so. -/
theorem Spoilt.receiveLine {n : Nat} {s : Protocol Channel × List Raised} (h : Spoilt n s)
    (line : Bytes) : Spoilt n (receiveLine writing maxHeaders s line) := by
  unfold Server.receiveLine
  cases hout : lineReceived (hooks writing) maxHeaders line ⟨[], none, none⟩ s.1 with
  | error e q => exact .inl (by simp)
  | ok _ q =>
    rcases h with hescaped | hbuilt
    · exact .inl hescaped
    · exact .inr (((keep_built (n + 1)).lineReceived (fun _ _ hp => hp) _ _).ok hbuilt hout)

/-- A line of a head. -/
theorem Heading.receiveLine {n : Nat} {s : Protocol Channel × List Raised} (h : Heading n s)
    (line : Bytes) : Spoilt n (receiveLine writing maxHeaders s line) ∨
      (line ≠ [] ∧ Heading n (receiveLine writing maxHeaders s line)) := by
  unfold Server.receiveLine
  cases hout : lineReceived (hooks writing) maxHeaders line ⟨[], none, none⟩ s.1 with
  | error e q => exact .inl (.inl (by simp))
  | ok _ q =>
    rw [lineReceived_headers h.1] at hout
    rcases gotHeaderLine_cases h.1 h.2 hout with hmore | ⟨hne, hrest⟩
    · exact .inl (.inr hmore)
    · exact .inr ⟨hne, hrest⟩

theorem Spoilt.receive {n : Nat} {s : Protocol Channel × List Raised} (h : Spoilt n s)
    (lines : List Bytes) : Spoilt n (lines.foldl (Server.receiveLine writing maxHeaders) s) := by
  induction lines generalizing s with
  | nil => exact h
  | cons line lines ih => exact ih (h.receiveLine line)

/-- The lines of a head, with the blank one. -/
theorem Heading.receive {n : Nat} {s : Protocol Channel × List Raised} (h : Heading n s)
    {lines : List Bytes} (hblank : [] ∈ lines) :
    Spoilt n (lines.foldl (Server.receiveLine writing maxHeaders) s) := by
  induction lines generalizing s with
  | nil => cases hblank
  | cons line lines ih =>
    have hline : Spoilt n (Server.receiveLine writing maxHeaders s line) ∨
        (line ≠ [] ∧ Heading n (Server.receiveLine writing maxHeaders s line)) := h.receiveLine line
    rcases hline with hspoilt | ⟨hne, hheading⟩
    · exact hspoilt.receive lines
    · exact ih hheading ((List.mem_cons.mp hblank).resolve_left (Ne.symm hne))

/-- The first line of a head. -/
theorem first_line (c : Channel) (line : Bytes) :
    Spoilt c.built.length (receiveLine writing maxHeaders (⟨Framing.new, c⟩, []) line) ∨
      Heading c.built.length (receiveLine writing maxHeaders (⟨Framing.new, c⟩, []) line) := by
  unfold receiveLine
  have hfirst : lineReceived (hooks writing) maxHeaders line ⟨[], none, none⟩ ⟨Framing.new, c⟩ =
      gotRequestLine (hooks writing) line ⟨Framing.new, c⟩ := rfl
  dsimp only
  rw [hfirst]
  cases hout : gotRequestLine (hooks writing) line ⟨Framing.new, c⟩ with
  | error e q => exact .inl (.inl (by simp))
  | ok _ q =>
    obtain ⟨_, t, ht, hstage⟩ := ok_of_bind hout
    have hbuilt := ((keep_built c.built.length).requestLine line).ok
      (p := (⟨Framing.new, c⟩ : Protocol Channel)) (le_refl c.built.length) ht
    cases hstage
    exact .inr ⟨rfl, hbuilt⟩

end

end Server
end Feat.Web.Http
