import Mathlib.Data.List.Sort
import Mathlib.Data.Rat.Defs
import Mathlib.Algebra.Order.Ring.Rat
import Mathlib.Algebra.GroupWithZero.Nat
import Feat.Lib.Raising

/- What a web response sends (`feat.web.webserver`: `Response`, and what `Server` does with it
   when an error is rendered).

   A response keeps what is written in a cache, or hands it to the request of the HTTP server
   (`_ref`), which sends the headers as they are when it is first written to. An encoding, a
   mime type or a language that is not set is the empty string. The body is what was handed to
   `_ref`: that no body follows some requests and statuses is left to the HTTP server. Requests
   are not cancelled, and mime types have no parameters. -/
namespace Feat.Web.Answering

abbrev Bytes : Type := List UInt8

/-- What is raised. -/
inductive Exc where
  | alreadyPrepared
  | notAcceptable
  | unicodeEncode
  | typeError
  | attributeError
  deriving DecidableEq

/-- A string or a unicode string. -/
inductive Data where
  | str (bytes : Bytes)
  | unicode (text : String)
  deriving DecidableEq

/-- `len`. -/
def Data.len : Data → Nat
  | .str bytes => bytes.length
  | .unicode text => text.length

/-- The codecs of the interpreter: the unicode strings a codec can encode. -/
structure Codecs where
  lookup : String → Option (String → Option Bytes)
  nameless : lookup "" = none

/-! ## Charsets -/

/-- `_python2http`. -/
def python2httpNames : List (String × String) :=
  [("ascii", "us-ascii"), ("646", "us-ascii"), ("latin_1", "iso-8859-1"),
    ("iso8859_1", "iso-8859-1"), ("iso8859-1", "iso-8859-1"), ("8859", "iso-8859-1"),
    ("cp819", "iso-8859-1"), ("latin", "iso-8859-1"), ("latin1", "iso-8859-1"),
    ("L1", "iso-8859-1"), ("iso8859_2", "iso-8859-2"), ("iso8859-2", "iso-8859-2"),
    ("latin2", "iso-8859-2"), ("latin_2", "iso-8859-2"), ("L2", "iso-8859-2"),
    ("L3", "iso-8859-3"), ("iso8859_3", "iso-8859-3"), ("iso8859-3", "iso-8859-3"),
    ("latin3", "iso-8859-3"), ("latin_3", "iso-8859-3"), ("L4", "iso-8859-4"),
    ("iso8859_4", "iso-8859-4"), ("iso8859-4", "iso-8859-4"), ("latin4", "iso-8859-4"),
    ("latin_4", "iso-8859-4"), ("iso8859_5", "iso-8859-5"), ("iso8859-5", "iso-8859-5"),
    ("cyrillic", "iso-8859-5"), ("iso8859_6", "iso-8859-6"), ("iso8859-6", "iso-8859-6"),
    ("arabic", "iso-8859-6"), ("iso8859_7", "iso-8859-7"), ("iso8859-7", "iso-8859-7"),
    ("greek", "iso-8859-7"), ("greek8", "iso-8859-7"), ("iso8859_8", "iso-8859-8"),
    ("iso8859-8", "iso-8859-8"), ("hebrew", "iso-8859-8"), ("L5", "iso-8859-9"),
    ("iso8859_9", "iso-8859-9"), ("iso8859-9", "iso-8859-9"), ("latin5", "iso-8859-9"),
    ("latin_5", "iso-8859-9"), ("L6", "iso-8859-10"), ("iso8859_10", "iso-8859-10"),
    ("iso8859-10", "iso-8859-10"), ("latin6", "iso-8859-10"), ("latin_6", "iso-8859-10"),
    ("iso8859_13", "iso-8859-13"), ("iso8859-13", "iso-8859-13"), ("L8", "iso-8859-14"),
    ("iso8859_14", "iso-8859-14"), ("iso8859-14", "iso-8859-14"), ("latin8", "iso-8859-14"),
    ("latin_8", "iso-8859-14"), ("iso8859_15", "iso-8859-15"), ("iso8859-15", "iso-8859-15"),
    ("iso2022_jp", "iso-2022-jp"), ("csiso2022jp", "iso-2022-jp"), ("iso2022jp", "iso-2022-jp"),
    ("iso2022_jp_1", "iso-2022-jp-1"), ("iso2022jp-1", "iso-2022-jp-1"),
    ("iso2022_jp_2", "iso-2022-jp-2"), ("iso2022jp-2", "iso-2022-jp-2"),
    ("iso2022_jp_3", "iso-2022-jp-3"), ("iso2022jp-3", "iso-2022-jp-3"),
    ("iso2022_kr", "iso-2022-kr"), ("csiso2022kr", "iso-2022-kr"), ("iso2022kr", "iso-2022-kr"),
    ("utf_7", "unicode-1-1-utf-7"), ("utf-7", "unicode-1-1-utf-7"), ("u7", "unicode-1-1-utf-7"),
    ("utf7", "unicode-1-1-utf-7"), ("utf_8", "unicode-1-1-utf-8"),
    ("utf-8", "unicode-1-1-utf-8"), ("u8", "unicode-1-1-utf-8"), ("utf8", "unicode-1-1-utf-8"),
    ("utf", "unicode-1-1-utf-8")]

/-- `python2http`. -/
def python2http (encoding : String) : String :=
  let name := encoding.toLower
  (python2httpNames.lookup name).getD name

/-- The charset of the content type of an encoding: two are not announced. -/
def charset (encoding : String) : Option String :=
  if encoding = "" then none
  else
    let charset := python2http encoding.toLower
    if charset ∈ ["iso-8859-1", "us-ascii"] then none else some charset

/-! ## The request -/

/-- What the headers of a request accept, with priorities, in the order of the dictionaries. Of an
empty part of a header there is no name. -/
structure Request where
  acceptedEncodings : List (Option String × ℚ)
  acceptedLanguages : List (Option String × ℚ)
  acceptedMimeTypes : List (String × ℚ)
  /-- Whether `_ref` has `writelines`. -/
  writelines : Bool

/-- `does_accept_encoding` and `does_accept_language`. -/
def doesAccept (accepted : List (Option String × ℚ)) (value : String) : Bool :=
  (accepted.map Prod.fst).contains (some value) || (accepted.map Prod.fst).contains (some "*")

/-- `mime2tuple`. -/
def mime2tuple (mime : String) : String × String :=
  match mime.toList.span (· ≠ '/') with
  | ([], []) => ("*", "*")
  | (type, []) => ((String.ofList type).toLower, "*")
  | (type, _ :: sub) => ((String.ofList type).toLower, (String.ofList sub).toLower)

/-- `does_accept_mime_type`, with the tree of the types that are accepted. -/
def Request.doesAcceptMimeType (request : Request) (mimeType : String) : Bool :=
  let (type, sub) := mime2tuple mimeType
  request.acceptedMimeTypes.any fun accepted =>
    let (type', sub') := mime2tuple accepted.1
    (type' == type || type' == "*") && (sub' == sub || sub' == "*")

/-- `_get_preferred`. A name that is missing is no string to look for a star in. -/
def preferred (values : List (Option String × ℚ)) (default : String) : Option String :=
  match ((values.insertionSort fun v w => v.2 ≤ w.2).map Prod.fst).getLast? with
  | none => some default
  | some none => none
  | some (some preferred) =>
    some (if preferred.toList.contains '*' then default else preferred)

/-! ## The response -/

structure ContentType where
  mimeType : String
  charset : Option String
  deriving DecidableEq

/-- The headers that `_ref` has. -/
structure Headers where
  status : Nat
  contentType : Option ContentType
  contentLanguage : Option String
  deriving DecidableEq

/-- The charset that is announced. -/
def Headers.charset (headers : Headers) : Option String :=
  headers.contentType.bind ContentType.charset

structure Response where
  encoding : String
  mimeType : String
  language : String
  prepared : Bool
  /-- `None` when the response is written directly. -/
  cache : Option Bytes
  bytes : Nat
  headers : Headers
  /-- The headers that were sent. -/
  sent : Option Headers
  body : Bytes
  deriving DecidableEq

/-- `Response.__init__`. -/
def Response.new : Response where
  encoding := ""
  mimeType := ""
  language := ""
  prepared := false
  cache := some []
  bytes := 0
  headers := ⟨200, none, none⟩
  sent := none
  body := []

abbrev Action (α : Type) : Type := EStateM Exc Response α

/-- `_ref.write`. -/
def Response.send (data : Bytes) (r : Response) : Response :=
  { r with sent := some (r.sent.getD r.headers), body := r.body ++ data }

/-- Data go to the cache or to `_ref`. -/
def Response.put (data : Bytes) (r : Response) : Response :=
  match r.cache with
  | some cached => { r with cache := some (cached ++ data) }
  | none => r.send data

/-- The headers that `_update_headers` sets. -/
def Response.updatedHeaders (r : Response) : Headers where
  status := r.headers.status
  contentType :=
    if r.mimeType = "" then r.headers.contentType
    else some ⟨r.mimeType.toLower, charset r.encoding⟩
  contentLanguage :=
    if r.language = "" ∨ r.language.toLower = "en" then r.headers.contentLanguage
    else some r.language.toLower

variable (request : Request) (codecs : Codecs)

/-- `ENCODING_TRANSLATION`. -/
def translated (encoding : String) : String := if encoding = "x-gbk" then "gbk" else encoding

/-- `_get_preferred`, where it can raise. -/
def getPreferred (values : List (Option String × ℚ)) (default : String) : Action String :=
  match preferred values default with
  | some value => pure value
  | none => throw .typeError

/-- `_select_suitable_encoding`. -/
def selectSuitableEncoding : Action Unit := do
  if (← get).encoding = "" then
    let selected ← getPreferred request.acceptedEncodings "iso-8859-1"
    modify fun r => { r with encoding := translated selected }

/-- `_select_suitable_language`. -/
def selectSuitableLanguage : Action Unit := do
  if (← get).language = "" then
    let selected ← getPreferred request.acceptedLanguages "en"
    modify fun r => { r with language := selected }

/-- `_select_suitable_mime_type`. -/
def selectSuitableMimeType : Action Unit := do
  if (← get).mimeType = "" then
    modify fun r => { r with mimeType := "text/plain" }
    let accepted := request.acceptedMimeTypes.map fun t => (some t.1, t.2)
    let selected ← getPreferred accepted "text/plain"
    modify fun r => { r with mimeType := selected }

/-- `prepare`. -/
def prepare : Action Unit := do
  if !(← get).prepared then
    modify fun r => { r with prepared := true }
    selectSuitableEncoding request
    selectSuitableLanguage request
    selectSuitableMimeType request
    modify fun r => { r with headers := r.updatedHeaders }

/-- `_encode`. -/
def encode (value : Data) : Action Bytes :=
  match value with
  | .str bytes => pure bytes
  | .unicode text => do
    selectSuitableEncoding request
    match codecs.lookup (← get).encoding with
    | none => throw .notAcceptable
    | some codec => match codec text with
      | none => throw .unicodeEncode
      | some bytes => pure bytes

/-- `write`. -/
def write (data : Data) : Action Unit := do
  modify fun r => { r with bytes := r.bytes + data.len }
  prepare request
  let data ← encode request codecs data
  modify (·.put data)

/-- `writelines`. -/
def writelines (sequence : List Data) : Action Unit := do
  prepare request
  let lines ← sequence.mapM (encode request codecs)
  modify fun r => { r with bytes := r.bytes + (lines.map List.length).sum }
  if (← get).cache = none ∧ request.writelines = false then throw .attributeError
  modify (·.put lines.flatten)

/-- `_check_header_not_sent`. -/
def checkHeaderNotSent : Action Unit := do
  let r ← get
  if r.cache = none ∧ r.prepared then throw .alreadyPrepared

/-- The check that `strict_negotiation` asks for. -/
def checkAccepted (accepted : Bool) : Action Unit :=
  if accepted then pure () else throw .notAcceptable

/-- `set_encoding`. -/
def setEncoding (encoding : String) : Action Unit := do
  checkHeaderNotSent
  checkAccepted (doesAccept request.acceptedEncodings encoding)
  modify fun r => { r with encoding := encoding }

/-- `force_encoding`. -/
def forceEncoding (encoding : String) : Action Unit := do
  checkHeaderNotSent
  modify fun r => { r with encoding := encoding }

/-- `set_mime_type`. -/
def setMimeType (mimeType : String) : Action Unit := do
  checkHeaderNotSent
  checkAccepted (request.doesAcceptMimeType mimeType)
  modify fun r => { r with mimeType := mimeType }

/-- `set_language`. -/
def setLanguage (language : String) : Action Unit := do
  checkHeaderNotSent
  checkAccepted (doesAccept request.acceptedLanguages language)
  modify fun r => { r with language := language.toLower }

/-- `set_status`. -/
def setStatus (code : Nat) : Action Unit := do
  checkHeaderNotSent
  modify fun r => { r with headers := { r.headers with status := code } }

/-- `do_not_cache`. -/
def doNotCache : Action Unit := do
  let data := (← get).cache.getD []
  modify fun r => { r with cache := none }
  if data ≠ [] then write request codecs (.str data)

/-! ## Errors -/

/-- `_try_reset`. -/
def tryReset : Action Unit :=
  modify fun r =>
    match r.cache with
    | some _ =>
      { r with encoding := "", mimeType := "", language := "", prepared := false, cache := some [] }
    | none => r

/-- The line that reports a failure, "Error: " and the message. -/
def errorLine (message : Bytes) : Bytes := [69, 114, 114, 111, 114, 58, 32] ++ message ++ [10]

/-- `_emergency_termination`. -/
def emergencyTermination (message : Bytes) : Action Unit :=
  tryCatch (do
    if (← get).cache ≠ none then
      modify fun r =>
        { r with headers := { r.headers with contentType := some ⟨"text/plain", none⟩ } }
      forceEncoding "ascii"
      if message ≠ [] then write request codecs (.str (errorLine message)))
    fun _ => pure ()

/-- `_finish`. What is raised is only reported, and the headers go out at the end at the
latest. -/
def finish : Action Unit := do
  match (← get).cache with
  | some data => tryCatch (do prepare request; modify (·.send data)) fun _ => pure ()
  | none => pure ()
  modify (·.send [])

/-! ## What is called -/

inductive Call where
  | write (data : Data)
  | writelines (sequence : List Data)
  | setEncoding (encoding : String)
  | forceEncoding (encoding : String)
  | setMimeType (mimeType : String)
  | setLanguage (language : String)
  | setStatus (code : Nat)
  | doNotCache
  | reset
  | emergencyTermination (message : Bytes)

def perform : Call → Action Unit
  | .write data => write request codecs data
  | .writelines sequence => writelines request codecs sequence
  | .setEncoding encoding => setEncoding request encoding
  | .forceEncoding encoding => forceEncoding encoding
  | .setMimeType mimeType => setMimeType request mimeType
  | .setLanguage language => setLanguage request language
  | .setStatus code => setStatus code
  | .doNotCache => doNotCache request codecs
  | .reset => tryReset
  | .emergencyTermination message => emergencyTermination request codecs message

end Feat.Web.Answering
