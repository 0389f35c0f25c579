import Feat.Web.Response
import Feat.Lib.Run

/- What is sent can be decoded by what is announced, and is counted, after each call if and only
   if every call meets a condition (`InOrder`): what is counted are characters and not bytes, what
   was not written and what is written again is counted too, and between the first data and their
   sending the encoding may change, but not the headers. -/
namespace Feat.Web.Answering

open Raising Transition

/-! ## What is written, and what is announced -/

/-- Data that were written, with what they were encoded as. -/
abbrev Part : Type := Data × Bytes

/-- A charset that is announced, or not, names an encoding. -/
def Names (announced : Option String) (encoding : String) : Prop :=
  match announced with
  | some charset => python2http encoding.toLower = charset
  | none =>
    python2http encoding.toLower = "iso-8859-1" ∨ python2http encoding.toLower = "us-ascii"

/-- Strings are themselves, and unicode strings are encoded in the charset that is announced. -/
def Encoded (codecs : Codecs) (announced : Option String) : Part → Prop
  | (.str bytes, encoded) => encoded = bytes
  | (.unicode text, encoded) => ∃ encoding codec, Names announced encoding ∧
      codecs.lookup encoding = some codec ∧ codec text = some encoded

theorem encoded_charset {codecs : Codecs} {encoding text : String}
    {codec : String → Option Bytes} {encoded : Bytes}
    (hlookup : codecs.lookup encoding = some codec) (hcodec : codec text = some encoded) :
    Encoded codecs (charset encoding) (.unicode text, encoded) := by
  refine ⟨encoding, codec, ?_, hlookup, hcodec⟩
  have hname : encoding ≠ "" := by
    rintro rfl
    rw [codecs.nameless] at hlookup
    cases hlookup
  unfold charset
  rw [if_neg hname]
  unfold Names
  by_cases hcommon : python2http encoding.toLower ∈ ["iso-8859-1", "us-ascii"]
  · rw [if_pos hcommon]
    simpa using hcommon
  · rw [if_neg hcommon]

variable (request : Request) (codecs : Codecs)

namespace Response

/-- The body, as far as it is written. -/
def content (r : Response) : Bytes := r.cache.getD r.body

/-! ## What is selected -/

/-- The encoding that is set or selected. -/
def encodingFor (r : Response) : Option String :=
  if r.encoding = "" then (preferred request.acceptedEncodings "iso-8859-1").map translated
  else some r.encoding

/-- The language that is set or selected. -/
def languageFor (r : Response) : Option String :=
  if r.language = "" then preferred request.acceptedLanguages "en" else some r.language

/-- The mime type that is set or selected. -/
def mimeTypeFor (r : Response) : Option String :=
  if r.mimeType = "" then
    preferred (request.acceptedMimeTypes.map fun t => (some t.1, t.2)) "text/plain"
  else some r.mimeType

/-- What is not set can be selected. -/
def ready (r : Response) : Bool :=
  r.prepared || (r.encodingFor request).isSome && (r.languageFor request).isSome &&
    (r.mimeTypeFor request).isSome

/-- What data are encoded as. -/
def encodes (r : Response) : Data → Option Bytes
  | .str bytes => some bytes
  | .unicode text => ((r.encodingFor request).bind codecs.lookup).bind fun codec => codec text

/-- What data are encoded as when they are written. -/
def accepts (r : Response) (data : Data) : Option Bytes :=
  if r.ready request then r.encodes request codecs data else none

def acceptsLines (r : Response) (sequence : List Data) : Option (List Bytes) :=
  if r.ready request then sequence.mapM (r.encodes request codecs) else none

/-- Lines go nowhere where `_ref` has no `writelines`. -/
def Lost (r : Response) : Prop := r.cache = none ∧ request.writelines = false

instance (r : Response) : Decidable (r.Lost request) :=
  inferInstanceAs (Decidable (_ ∧ _))

/-- The response with which a failure is reported. -/
def reporting (r : Response) : Response :=
  { r with
    headers := { r.headers with contentType := some ⟨"text/plain", none⟩ }
    encoding := "ascii" }

/-- What a call writes, when it does not raise. -/
def written (r : Response) : Call → List Part
  | .write data => ((r.accepts request codecs data).map fun encoded => (data, encoded)).toList
  | .writelines sequence =>
    if r.Lost request then []
    else ((r.acceptsLines request codecs sequence).map sequence.zip).getD []
  | .emergencyTermination message =>
    if r.cache = none ∨ message = [] then []
    else ((r.reporting.accepts request codecs (.str (errorLine message))).map fun encoded =>
      (.str (errorLine message), encoded)).toList
  | _ => []

/-- The headers name the encoding of a part: they are to be set to it, or they stay and do so. -/
def Settles (r : Response) (part : Part) : Prop :=
  (r.prepared = false ∧ r.mimeTypeFor request ≠ some "") ∨ Encoded codecs r.headers.charset part

end Response

/-- A response, with what was written to it since it was reset. -/
structure Observed where
  response : Response
  parts : List Part

def Observed.new : Observed := ⟨.new, []⟩

/-- A call, whether it raises or not. -/
def observe (o : Observed) (call : Call) : Observed where
  response := final (perform request codecs call) o.response
  parts :=
    match call with
    | .reset => if o.response.cache = none then o.parts else []
    | _ => o.parts ++ o.response.written request codecs call

/-- The response that is sent when the calls end here can be decoded by what it announces. -/
structure Decodable (o : Observed) : Prop where
  body : (final (finish request) o.response).body = o.parts.flatMap Prod.snd
  announced : ∀ part ∈ o.parts, ∃ headers,
    (final (finish request) o.response).sent = some headers ∧ Encoded codecs headers.charset part
  bytes : (final (finish request) o.response).bytes =
    (final (finish request) o.response).body.length

/-- Text is encoded to as many bytes as it has characters and by what is announced, nothing that
raises is counted, and what is cached is neither dropped nor written again. -/
def InOrder (o : Observed) (call : Call) : Prop :=
  match call with
  | .write data =>
    match o.response.accepts request codecs data with
    | some encoded =>
      encoded.length = data.len ∧ o.response.Settles request codecs (data, encoded)
    | none => data.len = 0
  | .writelines sequence =>
    match o.response.acceptsLines request codecs sequence with
    | some lines =>
      if o.response.Lost request then lines.flatten = []
      else ∀ part ∈ sequence.zip lines, o.response.Settles request codecs part
    | none => True
  | .doNotCache | .reset => o.response.cache.getD [] = []
  | .emergencyTermination message =>
    o.response.cache = none ∨
      (∀ part ∈ o.parts, Encoded codecs none part) ∧
        (message = [] ∨ o.response.reporting.ready request = true)
  | _ => True

variable {request codecs} {r r' t : Response}

/-! ## Preparing -/

theorem getPreferred_bind (values : List (Option String × ℚ)) (default : String)
    (set : String → Response → Response) (r : Response) :
    (getPreferred values default >>= fun selected => modify (set selected)) r =
      match preferred values default with
      | some value => .ok () (set value r)
      | none => .error .typeError r := by
  unfold getPreferred
  cases preferred values default <;> rfl

theorem selectSuitableEncoding_eq (request : Request) (r : Response) :
    selectSuitableEncoding request r =
      match r.encodingFor request with
      | some encoding => .ok () { r with encoding := encoding }
      | none => .error .typeError r := by
  unfold selectSuitableEncoding Response.encodingFor
  rw [get_bind]
  by_cases hset : r.encoding = ""
  · rw [if_pos hset, if_pos hset, getPreferred_bind]
    cases preferred request.acceptedEncodings "iso-8859-1" <;> rfl
  · rw [if_neg hset, if_neg hset]
    rfl

theorem selectSuitableLanguage_eq (request : Request) (r : Response) :
    selectSuitableLanguage request r =
      match r.languageFor request with
      | some language => .ok () { r with language := language }
      | none => .error .typeError r := by
  unfold selectSuitableLanguage Response.languageFor
  rw [get_bind]
  by_cases hset : r.language = ""
  · rw [if_pos hset, if_pos hset, getPreferred_bind]
  · rw [if_neg hset, if_neg hset]
    rfl

theorem selectSuitableMimeType_eq (request : Request) (r : Response) :
    selectSuitableMimeType request r =
      match r.mimeTypeFor request with
      | some mimeType => .ok () { r with mimeType := mimeType }
      | none => .error .typeError { r with mimeType := "text/plain" } := by
  unfold selectSuitableMimeType Response.mimeTypeFor
  rw [get_bind]
  by_cases hset : r.mimeType = ""
  · rw [if_pos hset, if_pos hset, modify_bind, getPreferred_bind]
  · rw [if_neg hset, if_neg hset]
    rfl

/-- What preparing leaves as it was. -/
structure Prepares (r r' : Response) : Prop where
  prepared : r'.prepared = true
  cache : r'.cache = r.cache
  bytes : r'.bytes = r.bytes
  sent : r'.sent = r.sent
  body : r'.body = r.body
  kept : r.prepared = true → r'.headers.contentType = r.headers.contentType

/-- What preparing fixes. -/
structure Fixes (request : Request) (r r' : Response) : Prop extends Prepares r r' where
  encodingFor : r'.encodingFor request = r.encodingFor request
  stays : r.prepared = true ∨ r.mimeTypeFor request = some "" →
    r'.headers.charset = r.headers.charset
  announced : r.prepared = false → r.mimeTypeFor request ≠ some "" →
    ∀ encoding, r.encodingFor request = some encoding → r'.headers.charset = charset encoding

theorem prepare_of_prepared (h : r.prepared = true) : prepare request r = .ok () r := by
  unfold prepare
  rw [get_bind, h]
  rfl

theorem Prepares.refl (h : r.prepared = true) : Prepares r r :=
  ⟨h, rfl, rfl, rfl, rfl, fun _ => rfl⟩

/-- The encoding that is set is not selected again. -/
theorem encodingFor_set {encoding : String} (h : r.encodingFor request = some encoding) :
    { r with encoding := encoding }.encodingFor request = some encoding := by
  unfold Response.encodingFor at h ⊢
  by_cases hset : r.encoding = ""
  · rw [if_pos hset] at h
    by_cases hempty : encoding = ""
    · rw [if_pos hempty]
      exact h
    · rw [if_neg hempty]
  · rw [if_neg hset] at h
    cases h
    rw [if_neg hset]

/-- What `prepare` does once it is sure that it was not called before. -/
theorem prepare_eq (h : r.prepared = false) :
    prepare request r =
      (do
        selectSuitableEncoding request
        selectSuitableLanguage request
        selectSuitableMimeType request
        modify fun r => { r with headers := r.updatedHeaders } : Action Unit)
        { r with prepared := true } := by
  unfold prepare
  rw [get_bind, h]
  rfl

/-- The selections of a response that is not prepared, one after the other. -/
def Response.selected (r : Response) (encoding language mimeType : String) : Response :=
  { r with prepared := true, encoding := encoding, language := language, mimeType := mimeType }

theorem prepare_selected {e l m : String} (hprep : r.prepared = false)
    (he : r.encodingFor request = some e) (hl : r.languageFor request = some l)
    (hm : r.mimeTypeFor request = some m) :
    prepare request r =
      .ok () { r.selected e l m with headers := (r.selected e l m).updatedHeaders } := by
  have hencoding := selectSuitableEncoding_eq request { r with prepared := true }
  have hlanguage := selectSuitableLanguage_eq request
    { r with prepared := true, encoding := e }
  have hmime := selectSuitableMimeType_eq request
    { r with prepared := true, encoding := e, language := l }
  rw [show Response.encodingFor request { r with prepared := true } = some e from he] at hencoding
  rw [show Response.languageFor request { r with prepared := true, encoding := e } = some l
    from hl] at hlanguage
  rw [show Response.mimeTypeFor request
    { r with prepared := true, encoding := e, language := l } = some m from hm] at hmime
  rw [prepare_eq hprep, bind_of_ok hencoding, bind_of_ok hlanguage, bind_of_ok hmime]
  rfl

theorem prepare_ok (h : r.ready request = true) :
    ∃ r', prepare request r = .ok () r' ∧ Fixes request r r' := by
  by_cases hprep : r.prepared = true
  · exact ⟨r, prepare_of_prepared hprep, .refl hprep, rfl, fun _ => rfl, by simp [hprep]⟩
  · unfold Response.ready at h
    simp only [Bool.not_eq_true] at hprep
    simp only [hprep, Bool.false_or, Bool.and_eq_true, Option.isSome_iff_exists] at h
    obtain ⟨⟨⟨e, he⟩, l, hl⟩, m, hm⟩ := h
    refine ⟨_, prepare_selected hprep he hl hm,
      ⟨rfl, rfl, rfl, rfl, rfl, by simp [hprep]⟩, ?_, ?_, ?_⟩
    · rw [he]
      exact encodingFor_set (r := r) he
    · rintro (hnot | hempty)
      · simp [hprep] at hnot
      · rw [hempty] at hm
        cases hm
        rfl
    · intro _ hmime e' he'
      rw [he] at he'
      cases he'
      rw [hm] at hmime
      have hne : m ≠ "" := fun h => hmime (by rw [h])
      simp [Headers.charset, Response.updatedHeaders, Response.selected, hne]

theorem prepare_error (h : r.ready request = false) :
    ∃ r', prepare request r = .error .typeError r' ∧ Prepares r r' := by
  unfold Response.ready at h
  simp only [Bool.or_eq_false_iff] at h
  obtain ⟨hprep, hnone⟩ := h
  rw [prepare_eq hprep]
  have hencoding := selectSuitableEncoding_eq request { r with prepared := true }
  cases he : r.encodingFor request with
  | none =>
    rw [show Response.encodingFor request { r with prepared := true } = none from he] at hencoding
    exact ⟨_, bind_of_error hencoding, rfl, rfl, rfl, rfl, rfl, fun _ => rfl⟩
  | some e =>
    rw [show Response.encodingFor request { r with prepared := true } = some e from he] at hencoding
    rw [bind_of_ok hencoding]
    have hlanguage := selectSuitableLanguage_eq request
      { r with prepared := true, encoding := e }
    cases hl : r.languageFor request with
    | none =>
      rw [show Response.languageFor request { r with prepared := true, encoding := e } = none
        from hl] at hlanguage
      exact ⟨_, bind_of_error hlanguage, rfl, rfl, rfl, rfl, rfl, fun _ => rfl⟩
    | some l =>
      rw [show Response.languageFor request { r with prepared := true, encoding := e } = some l
        from hl] at hlanguage
      rw [bind_of_ok hlanguage]
      have hmime := selectSuitableMimeType_eq request
        { r with prepared := true, encoding := e, language := l }
      have hm : r.mimeTypeFor request = none := by simpa [he, hl] using hnone
      rw [show Response.mimeTypeFor request
        { r with prepared := true, encoding := e, language := l } = none from hm] at hmime
      exact ⟨_, bind_of_error hmime, rfl, rfl, rfl, rfl, rfl, fun _ => rfl⟩

/-! ## Encoding -/

/-- Encoding may set the encoding to the one that is selected. -/
structure Selects (request : Request) (r r' : Response) : Prop where
  frame : r' = { r with encoding := r'.encoding }
  encodingFor : r'.encodingFor request = r.encodingFor request

theorem Selects.refl (r : Response) : Selects request r r := ⟨rfl, rfl⟩

theorem Selects.trans (h : Selects request r r') (h' : Selects request r' t) :
    Selects request r t := by
  refine ⟨?_, h'.encodingFor.trans h.encodingFor⟩
  rw [h'.frame, h.frame]

theorem Selects.encodes (h : Selects request r r') :
    r'.encodes request codecs = r.encodes request codecs := by
  funext d
  unfold Response.encodes
  rw [h.encodingFor]

theorem encode_ok {d : Data} {encoded : Bytes} (h : r.encodes request codecs d = some encoded) :
    ∃ r', encode request codecs d r = .ok encoded r' ∧ Selects request r r' := by
  cases d with
  | str bytes =>
    cases h
    exact ⟨r, rfl, .refl r⟩
  | unicode text =>
    simp only [Response.encodes, Option.bind_eq_some_iff] at h
    obtain ⟨codec, ⟨e, he, hlookup⟩, hcodec⟩ := h
    have hselect := selectSuitableEncoding_eq request r
    rw [he] at hselect
    refine ⟨{ r with encoding := e }, (bind_of_ok hselect).trans ?_, rfl, ?_⟩
    · rw [get_bind]
      simp only [hlookup, hcodec]
      rfl
    · rw [he]
      exact encodingFor_set he

theorem encode_error {d : Data} (h : r.encodes request codecs d = none) :
    ∃ x r', encode request codecs d r = .error x r' ∧ Selects request r r' := by
  cases d with
  | str bytes => cases h
  | unicode text =>
    have hselect := selectSuitableEncoding_eq request r
    cases he : r.encodingFor request with
    | none =>
      rw [he] at hselect
      exact ⟨_, r, bind_of_error hselect, .refl r⟩
    | some e =>
      rw [he] at hselect
      have hset : Selects request r { r with encoding := e } :=
        ⟨rfl, (encodingFor_set he).trans he.symm⟩
      simp only [Response.encodes, he, Option.bind_some] at h
      unfold encode
      cases hlookup : codecs.lookup e with
      | none =>
        refine ⟨.notAcceptable, _, (bind_of_ok hselect).trans ?_, hset⟩
        rw [get_bind]
        simp only [hlookup]
        rfl
      | some codec =>
        rw [hlookup] at h
        refine ⟨.unicodeEncode, _, (bind_of_ok hselect).trans ?_, hset⟩
        rw [get_bind]
        simp only [hlookup, show codec text = none from h]
        rfl

theorem mapM_encode_ok {ds : List Data} {lines : List Bytes}
    (h : ds.mapM (r.encodes request codecs) = some lines) :
    ∃ r', ds.mapM (encode request codecs) r = .ok lines r' ∧ Selects request r r' := by
  induction ds generalizing r lines with
  | nil =>
    cases h
    exact ⟨r, rfl, .refl r⟩
  | cons d ds ih =>
    rw [List.mapM_cons] at h ⊢
    obtain ⟨encoded, hd, h⟩ := Option.bind_eq_some_iff.mp h
    obtain ⟨rest, hds, h⟩ := Option.bind_eq_some_iff.mp h
    cases h
    obtain ⟨s, hs, hsel⟩ := encode_ok hd
    rw [← hsel.encodes] at hds
    obtain ⟨t, ht, hsel'⟩ := ih hds
    exact ⟨t, (bind_of_ok hs).trans ((bind_of_ok ht).trans rfl), hsel.trans hsel'⟩

theorem mapM_encode_error {ds : List Data} (h : ds.mapM (r.encodes request codecs) = none) :
    ∃ x r', ds.mapM (encode request codecs) r = .error x r' ∧ Selects request r r' := by
  induction ds generalizing r with
  | nil => cases h
  | cons d ds ih =>
    rw [List.mapM_cons] at h ⊢
    cases hd : r.encodes request codecs d with
    | none =>
      obtain ⟨x, s, hs, hsel⟩ := encode_error hd
      exact ⟨x, s, bind_of_error hs, hsel⟩
    | some encoded =>
      obtain ⟨s, hs, hsel⟩ := encode_ok hd
      cases hds : ds.mapM (r.encodes request codecs) with
      | none =>
        rw [← hsel.encodes] at hds
        obtain ⟨x, t, ht, hsel'⟩ := ih hds
        exact ⟨x, t, (bind_of_ok hs).trans (bind_of_error ht), hsel.trans hsel'⟩
      | some rest =>
        rw [hd, hds] at h
        cases h

/-! ## What calls add -/

theorem Prepares.select (h : Prepares r r') (h' : Selects request r' t) : Prepares r t := by
  rw [h'.frame]
  exact ⟨h.prepared, h.cache, h.bytes, h.sent, h.body, h.kept⟩

theorem Fixes.select (h : Fixes request r r') (h' : Selects request r' t) : Fixes request r t := by
  refine ⟨h.toPrepares.select h', h'.encodingFor.trans h.encodingFor, ?_, ?_⟩
  · rw [h'.frame]
    exact h.stays
  · rw [h'.frame]
    exact h.announced

/-- Once the headers are fixed a part is as they announce if and only if they name its
encoding. -/
theorem Fixes.encoded_iff (h : Fixes request r r') {d : Data} {encoded : Bytes}
    (hd : r.encodes request codecs d = some encoded) :
    Encoded codecs r'.headers.charset (d, encoded) ↔ r.Settles request codecs (d, encoded) := by
  unfold Response.Settles
  by_cases hstay : r.prepared = true ∨ r.mimeTypeFor request = some ""
  · rw [h.stays hstay]
    refine ⟨Or.inr, fun hsettles => hsettles.resolve_left ?_⟩
    rintro ⟨hprep, hmime⟩
    rcases hstay with hstay | hstay
    · simp [hprep] at hstay
    · exact hmime hstay
  · simp only [not_or, Bool.not_eq_true] at hstay
    refine ⟨fun _ => Or.inl hstay, fun _ => ?_⟩
    cases d with
    | str bytes =>
      cases hd
      rfl
    | unicode text =>
      simp only [Response.encodes, Option.bind_eq_some_iff] at hd
      obtain ⟨codec, ⟨e, he, hlookup⟩, hcodec⟩ := hd
      rw [h.announced hstay.1 hstay.2 e he]
      exact encoded_charset hlookup hcodec

namespace Response

@[simp] theorem put_bytes (data : Bytes) (r : Response) : (r.put data).bytes = r.bytes := by
  unfold put
  split <;> rfl

theorem put_counted (data : Bytes) (n : Nat) (r : Response) :
    put data { r with bytes := n } = { r.put data with bytes := n } := by
  obtain ⟨_, _, _, _, cache, _, _, _, _⟩ := r
  cases cache <;> rfl

@[simp] theorem put_prepared (data : Bytes) (r : Response) :
    (r.put data).prepared = r.prepared := by
  unfold put
  split <;> rfl

@[simp] theorem put_headers (data : Bytes) (r : Response) : (r.put data).headers = r.headers := by
  unfold put
  split <;> rfl

@[simp] theorem put_content (data : Bytes) (r : Response) :
    (r.put data).content = r.content ++ data := by
  unfold put content
  cases hc : r.cache with
  | none => simp [send, hc]
  | some cached => simp

/-- Nothing is sent from a response that is cached, and headers that were sent stay. -/
structure Formed (r : Response) : Prop where
  cached : ∀ data, r.cache = some data → r.body = [] ∧ r.sent = none
  sent : ∀ headers, r.sent = some headers →
    r.prepared = true ∧ headers.contentType = r.headers.contentType

theorem Formed.put (h : r.Formed) (hprep : r.prepared = true) (data : Bytes) :
    (r.put data).Formed := by
  unfold Response.put
  cases hc : r.cache with
  | none =>
    refine ⟨fun _ hcache => by simp [send, hc] at hcache, fun headers hsent => ?_⟩
    refine ⟨hprep, ?_⟩
    cases hs : r.sent with
    | none =>
      simp only [send, hs, Option.getD_none, Option.some.injEq] at hsent
      rw [← hsent]
      rfl
    | some sent =>
      simp only [send, hs, Option.getD_some, Option.some.injEq] at hsent
      rw [← hsent]
      exact (h.sent sent hs).2
  | some cached => exact ⟨fun _ _ => h.cached cached hc, h.sent⟩

end Response

theorem Prepares.formed (h : Prepares r r') (hform : r.Formed) : r'.Formed := by
  refine ⟨fun data hdata => ?_, fun headers hsent => ?_⟩
  · rw [h.body, h.sent]
    exact hform.cached data (h.cache ▸ hdata)
  · obtain ⟨hprep, heq⟩ := hform.sent headers (h.sent ▸ hsent)
    exact ⟨h.prepared, heq.trans (h.kept hprep).symm⟩

theorem Prepares.content (h : Prepares r r') : r'.content = r.content := by
  unfold Response.content
  rw [h.cache, h.body]

/-- A call that writes parts, and counts so many bytes. -/
structure Adds (request : Request) (codecs : Codecs) (parts : List Part) (n : Nat)
    (r r' : Response) : Prop where
  formed : r'.Formed
  content : r'.content = r.content ++ parts.flatMap Prod.snd
  bytes : r'.bytes = r.bytes + n
  prepared : r.prepared = true ∨ parts ≠ [] → r'.prepared = true
  kept : r.prepared = true → r'.headers.charset = r.headers.charset
  announced : ∀ part ∈ parts,
    (Encoded codecs r'.headers.charset part ↔ r.Settles request codecs part)

theorem Prepares.adds (h : Prepares r r') (hform : r.Formed) : Adds request codecs [] 0 r r' where
  formed := h.formed hform
  content := by simpa using h.content
  bytes := h.bytes
  prepared _ := h.prepared
  kept hprep := by rw [Headers.charset, h.kept hprep, Headers.charset]
  announced _ hpart := by simp at hpart

/-- Parts are encoded and put where they belong. -/
theorem Fixes.adds (h : Fixes request r r') (hform : r.Formed) {parts : List Part}
    (hparts : ∀ part ∈ parts, r.encodes request codecs part.1 = some part.2) {data : Bytes}
    (hdata : parts.flatMap Prod.snd = data) :
    Adds request codecs parts 0 r (r'.put data) where
  formed := (h.formed hform).put h.prepared data
  content := by rw [Response.put_content, h.content, hdata]
  bytes := by rw [Response.put_bytes, h.bytes, Nat.add_zero]
  prepared _ := by rw [Response.put_prepared, h.prepared]
  kept hprep := by rw [Response.put_headers, Headers.charset, h.kept hprep, Headers.charset]
  announced part hpart := by
    rw [Response.put_headers]
    exact h.encoded_iff (hparts part hpart)

/-- More bytes are counted before. -/
theorem Adds.counted {parts : List Part} {k n : Nat}
    (h : Adds request codecs parts n { r with bytes := r.bytes + k } r') :
    Adds request codecs parts (k + n) r r' :=
  ⟨h.formed, h.content, h.bytes.trans (Nat.add_assoc _ _ _), h.prepared, h.kept, h.announced⟩

/-- More bytes are counted afterwards. -/
theorem Adds.counts {parts : List Part} (h : Adds request codecs parts 0 r r') (n : Nat) :
    Adds request codecs parts n r { r' with bytes := r'.bytes + n } :=
  ⟨⟨h.formed.cached, h.formed.sent⟩, h.content, congrArg (· + n) h.bytes, h.prepared, h.kept,
    h.announced⟩

/-! ## The calls -/

theorem write_eq (request : Request) (codecs : Codecs) (d : Data) (r : Response) :
    write request codecs d r =
      (prepare request >>= fun _ => encode request codecs d >>= fun data => modify (·.put data))
        { r with bytes := r.bytes + d.len } :=
  rfl

theorem Fixes.encodes (h : Fixes request r r') (codecs : Codecs) :
    r'.encodes request codecs = r.encodes request codecs := by
  funext d
  unfold Response.encodes
  rw [h.encodingFor]

theorem write_adds (request : Request) (codecs : Codecs) (hform : r.Formed) (d : Data) :
    Adds request codecs ((r.accepts request codecs d).map fun encoded => (d, encoded)).toList d.len
      r (final (write request codecs d) r) := by
  refine Adds.counted (k := d.len) (n := 0) ?_
  have hcounted : Response.Formed { r with bytes := r.bytes + d.len } := ⟨hform.cached, hform.sent⟩
  have hwrite := write_eq request codecs d r
  unfold Response.accepts
  cases hready : r.ready request with
  | false =>
    obtain ⟨s, hs, hprep⟩ := prepare_error (r := { r with bytes := r.bytes + d.len }) hready
    rw [final_error (hwrite.trans (bind_of_error hs))]
    exact hprep.adds hcounted
  | true =>
    obtain ⟨s, hs, hfix⟩ := prepare_ok (r := { r with bytes := r.bytes + d.len }) hready
    cases hd : r.encodes request codecs d with
    | none =>
      obtain ⟨x, t, ht, hsel⟩ := encode_error ((congrFun (hfix.encodes codecs) d).trans hd)
      rw [final_error (hwrite.trans ((bind_of_ok hs).trans (bind_of_error ht)))]
      exact (hfix.toPrepares.select hsel).adds hcounted
    | some encoded =>
      obtain ⟨t, ht, hsel⟩ := encode_ok ((congrFun (hfix.encodes codecs) d).trans hd)
      rw [final_ok (hwrite.trans ((bind_of_ok hs).trans ((bind_of_ok ht).trans rfl)))]
      refine (hfix.select hsel).adds hcounted ?_ ?_
      · intro part hpart
        obtain rfl : (d, encoded) = part := by simpa [eq_comm] using hpart
        exact hd
      · simp

/-- The parts that lines are encoded as. -/
theorem mapM_zip {ds : List Data} {lines : List Bytes} {f : Data → Option Bytes}
    (h : ds.mapM f = some lines) :
    (ds.zip lines).flatMap Prod.snd = lines.flatten ∧
      ∀ part ∈ ds.zip lines, f part.1 = some part.2 := by
  induction ds generalizing lines with
  | nil =>
    cases h
    simp
  | cons d ds ih =>
    rw [List.mapM_cons] at h
    obtain ⟨encoded, hd, h⟩ := Option.bind_eq_some_iff.mp h
    obtain ⟨rest, hds, h⟩ := Option.bind_eq_some_iff.mp h
    cases h
    obtain ⟨hflat, hparts⟩ := ih hds
    refine ⟨?_, ?_⟩
    · rw [List.zip_cons_cons, List.flatMap_cons, hflat, List.flatten_cons]
    · rw [List.zip_cons_cons, List.forall_mem_cons]
      exact ⟨hd, hparts⟩

theorem writelines_eq (request : Request) (codecs : Codecs) (ds : List Data) :
    writelines request codecs ds =
      (prepare request >>= fun _ => ds.mapM (encode request codecs) >>= fun lines => do
        modify fun r => { r with bytes := r.bytes + (lines.map List.length).sum }
        if (← get).cache = none ∧ request.writelines = false then throw .attributeError
        modify (·.put lines.flatten)) :=
  rfl

theorem writelines_final {ds : List Data} {lines : List Bytes} {s : Response}
    (hs : prepare request r = .ok () s) (ht : ds.mapM (encode request codecs) s = .ok lines t) :
    final (writelines request codecs ds) r =
      if t.Lost request then { t with bytes := t.bytes + lines.flatten.length }
      else { t.put lines.flatten with bytes := t.bytes + lines.flatten.length } := by
  unfold final
  rw [writelines_eq, bind_of_ok hs, bind_of_ok ht, modify_bind, get_bind, List.length_flatten]
  by_cases hlost : t.Lost request
  · rw [if_pos hlost]
    have hthrow : t.cache = none ∧ request.writelines = false := hlost
    simp only [if_pos hthrow]
    rfl
  · rw [if_neg hlost]
    have hthrow : ¬ (t.cache = none ∧ request.writelines = false) := hlost
    simp only [if_neg hthrow]
    exact Response.put_counted _ _ t

theorem writelines_adds (hform : r.Formed) (ds : List Data) :
    Adds request codecs
      (if r.Lost request then []
        else ((r.acceptsLines request codecs ds).map ds.zip).getD [])
      ((r.acceptsLines request codecs ds).getD []).flatten.length
      r (final (writelines request codecs ds) r) := by
  have heq := congrFun (writelines_eq request codecs ds) r
  unfold Response.acceptsLines
  cases hready : r.ready request with
  | false =>
    obtain ⟨s, hs, hprep⟩ := prepare_error hready
    rw [final_error (heq.trans (bind_of_error hs))]
    simpa using hprep.adds hform
  | true =>
    obtain ⟨s, hs, hfix⟩ := prepare_ok hready
    cases hd : ds.mapM (r.encodes request codecs) with
    | none =>
      obtain ⟨x, t, ht, hsel⟩ := mapM_encode_error (hfix.encodes codecs ▸ hd)
      rw [final_error (heq.trans ((bind_of_ok hs).trans (bind_of_error ht)))]
      simpa using (hfix.toPrepares.select hsel).adds hform
    | some lines =>
      obtain ⟨t, ht, hsel⟩ := mapM_encode_ok (hfix.encodes codecs ▸ hd)
      have hfix' := hfix.select hsel
      have hlost : t.Lost request ↔ r.Lost request := by
        rw [Response.Lost, hfix'.cache, Response.Lost]
      obtain ⟨hflat, hparts⟩ := mapM_zip hd
      rw [writelines_final hs ht]
      by_cases hl : r.Lost request
      · rw [if_pos hl, if_pos (hlost.mpr hl)]
        exact (hfix'.toPrepares.adds hform).counts _
      · rw [if_neg hl, if_neg (mt hlost.mp hl), ← Response.put_bytes lines.flatten t]
        exact (hfix'.adds hform hparts hflat).counts _

/-- A call that sets what is selected, or the status. -/
theorem adds_set (hform : r.Formed) (hcache : r'.cache = r.cache) (hbytes : r'.bytes = r.bytes)
    (hprep : r'.prepared = r.prepared) (hsent : r'.sent = r.sent) (hbody : r'.body = r.body)
    (htype : r'.headers.contentType = r.headers.contentType) : Adds request codecs [] 0 r r' where
  formed := by
    refine ⟨fun data hdata => ?_, fun headers hs => ?_⟩
    · rw [hbody, hsent]
      exact hform.cached data (hcache ▸ hdata)
    · rw [hprep, htype]
      exact hform.sent headers (hsent ▸ hs)
  content := by simp [Response.content, hcache, hbody]
  bytes := hbytes
  prepared h := by simpa [hprep] using h
  kept _ := by rw [Headers.charset, htype, Headers.charset]
  announced _ hpart := by simp at hpart

theorem adds_refl (hform : r.Formed) : Adds request codecs [] 0 r r :=
  adds_set hform rfl rfl rfl rfl rfl rfl

theorem checkHeaderNotSent_cached (h : r.cache ≠ none) : checkHeaderNotSent r = .ok () r := by
  unfold checkHeaderNotSent
  rw [get_bind, if_neg (fun hnot => h hnot.1)]
  rfl

/-- Setters set after a check, or raise. -/
theorem checked_adds (hform : r.Formed) (accepted : Bool) {set : Response → Response}
    (hset : Adds request codecs [] 0 r (set r)) :
    Adds request codecs [] 0 r
      (final (checkHeaderNotSent >>= fun _ => checkAccepted accepted >>= fun _ => modify set)
        r) := by
  have hcheck : checkHeaderNotSent r = .error .alreadyPrepared r ∨
      checkHeaderNotSent r = .ok () r := by
    unfold checkHeaderNotSent
    rw [get_bind]
    split
    · exact Or.inl rfl
    · exact Or.inr rfl
  rcases hcheck with hcheck | hcheck
  · rw [final_error (bind_of_error hcheck)]
    exact adds_refl hform
  · cases accepted with
    | false =>
      rw [final_error (e := .notAcceptable) ((bind_of_ok hcheck).trans rfl)]
      exact adds_refl hform
    | true =>
      have hmodify :
          (checkHeaderNotSent >>= fun _ => checkAccepted true >>= fun _ => modify set) r =
            .ok () (set r) := (bind_of_ok hcheck).trans rfl
      rw [final_ok hmodify]
      exact hset

/-- What is cached is written once more, and counted once more. -/
theorem doNotCache_adds (hform : r.Formed) (hprep : r.content ≠ [] → r.prepared = true) :
    Adds request codecs [] (r.cache.getD []).length r (final (doNotCache request codecs) r) := by
  cases hc : r.cache with
  | none =>
    have hsame : final (doNotCache request codecs) r = r := by
      unfold final doNotCache
      rw [get_bind, hc, modify_bind]
      show { r with cache := none } = r
      rw [← hc]
    rw [hsame]
    exact adds_refl hform
  | some data =>
    obtain ⟨hbody, hsent⟩ := hform.cached data hc
    have hform' : Response.Formed { r with cache := none } := by
      refine ⟨fun _ h => (nomatch h), fun headers h => ?_⟩
      have h : r.sent = some headers := h
      rw [hsent] at h
      cases h
    have hcontent : r.content = data := by simp [Response.content, hc]
    by_cases hdata : data = []
    · have hclear : final (doNotCache request codecs) r = { r with cache := none } := by
        unfold final doNotCache
        rw [get_bind, hc, modify_bind, hdata]
        rfl
      rw [hclear, hdata]
      refine ⟨hform', ?_, rfl, ?_, fun _ => rfl, by simp⟩
      · rw [hcontent, hdata]
        simpa [Response.content] using hbody
      · simp
    · have hwrite : final (doNotCache request codecs) r =
          final (write request codecs (.str data)) { r with cache := none } := by
        unfold final doNotCache
        rw [get_bind, hc, modify_bind]
        simp only [Option.getD_some, if_pos hdata]
      have hready : r.prepared = true := hprep (by rwa [hcontent])
      have hadds := write_adds request codecs hform' (.str data)
      have haccepts : Response.accepts request codecs { r with cache := none } (.str data) =
          some data := by
        unfold Response.accepts Response.ready
        rw [hready]
        rfl
      rw [haccepts] at hadds
      rw [hwrite]
      refine ⟨hadds.formed, ?_, hadds.bytes, fun _ => hadds.prepared (Or.inl hready),
        fun _ => hadds.kept hready, by simp⟩
      rw [hadds.content, hcontent]
      simp [Response.content, hbody]

theorem emergencyTermination_final (message : Bytes) (r : Response) :
    final (emergencyTermination request codecs message) r =
      if r.cache = none then r
      else if message = [] then r.reporting
      else final (write request codecs (.str (errorLine message))) r.reporting := by
  unfold emergencyTermination
  rw [final_ok ignore_eq]
  unfold final
  rw [get_bind]
  by_cases hc : r.cache = none
  · rw [if_neg (not_not_intro hc), if_pos hc]
    rfl
  · rw [if_pos hc, if_neg hc, modify_bind]
    have hforce : forceEncoding "ascii"
        { r with headers := { r.headers with contentType := some ⟨"text/plain", none⟩ } } =
        .ok () r.reporting := by
      unfold forceEncoding
      rw [bind_of_ok (checkHeaderNotSent_cached (by exact hc))]
      rfl
    rw [bind_of_ok hforce]
    by_cases hm : message = []
    · rw [if_neg (not_not_intro hm), if_pos hm]
      rfl
    · rw [if_pos hm, if_neg hm]

/-! ## The invariant -/

/-- What holds whatever is called. -/
structure Inv (o : Observed) : Prop where
  formed : o.response.Formed
  content : o.response.content = o.parts.flatMap Prod.snd
  prepared : o.parts ≠ [] → o.response.prepared = true

/-- What is written is as it is announced, and counted. -/
structure Sound (codecs : Codecs) (o : Observed) : Prop where
  announced : ∀ part ∈ o.parts, Encoded codecs o.response.headers.charset part
  bytes : o.response.bytes = o.response.content.length

theorem inv_new : Inv .new :=
  ⟨⟨fun _ h => by cases h; exact ⟨rfl, rfl⟩, fun _ h => (nomatch h)⟩, rfl, fun h => absurd rfl h⟩

theorem sound_new : Sound codecs .new := ⟨fun _ h => (nomatch h), rfl⟩

variable {o : Observed} {parts : List Part} {n : Nat}

theorem Inv.adds (h : Inv o) (hadds : Adds request codecs parts n o.response r') :
    Inv ⟨r', o.parts ++ parts⟩ where
  formed := hadds.formed
  content := by rw [hadds.content, h.content, List.flatMap_append]
  prepared hne := by
    refine hadds.prepared ?_
    by_cases hparts : parts = []
    · exact Or.inl (h.prepared (by simpa [hparts] using hne))
    · exact Or.inr hparts

/-- What is added keeps all sound if and only if it is counted as it is, and announced. -/
theorem sound_adds_iff (h : Inv o) (hbytes : o.response.bytes = o.response.content.length)
    (hadds : Adds request codecs parts n o.response r') :
    Sound codecs ⟨r', o.parts ++ parts⟩ ↔
      (∀ part ∈ o.parts, Encoded codecs o.response.headers.charset part) ∧
        n = (parts.flatMap Prod.snd).length ∧
        ∀ part ∈ parts, o.response.Settles request codecs part := by
  have hcount : r'.bytes = r'.content.length ↔ n = (parts.flatMap Prod.snd).length := by
    rw [hadds.bytes, hadds.content, List.length_append, hbytes]
    omega
  have hkept : ∀ part ∈ o.parts, (Encoded codecs r'.headers.charset part ↔
      Encoded codecs o.response.headers.charset part) := by
    intro part hpart
    rw [hadds.kept (h.prepared (List.ne_nil_of_mem hpart))]
  constructor
  · rintro ⟨hann, hb⟩
    refine ⟨fun part hpart => ?_, hcount.mp hb, fun part hpart => ?_⟩
    · exact (hkept part hpart).mp (hann part (List.mem_append_left _ hpart))
    · exact (hadds.announced part hpart).mp (hann part (List.mem_append_right _ hpart))
  · rintro ⟨hold, hn, hnew⟩
    refine ⟨fun part hpart => ?_, hcount.mpr hn⟩
    rcases List.mem_append.mp hpart with hpart | hpart
    · exact (hkept part hpart).mpr (hold part hpart)
    · exact (hadds.announced part hpart).mpr (hnew part hpart)

/-! ## Finishing -/

/-- Of a response that ends all is sent, with the headers that it has. -/
structure Ends (r r' : Response) : Prop where
  body : r'.body = r.content
  bytes : r'.bytes = r.bytes
  sent : r.prepared = true →
    ∃ headers, r'.sent = some headers ∧ headers.contentType = r.headers.contentType

theorem finish_ends (hform : r.Formed) (hprep : r.content ≠ [] → r.prepared = true) :
    Ends r (final (finish request) r) := by
  cases hc : r.cache with
  | none =>
    have hfinish : finish request r = .ok () (r.send []) := by
      unfold finish
      rw [get_bind, hc]
      rfl
    rw [final_ok hfinish]
    refine ⟨by simp [Response.send, Response.content, hc], rfl, fun _ => ?_⟩
    cases hs : r.sent with
    | none => exact ⟨r.headers, by simp [Response.send, hs], rfl⟩
    | some sent => exact ⟨sent, by simp [Response.send, hs], (hform.sent sent hs).2⟩
  | some data =>
    obtain ⟨hbody, hsent⟩ := hform.cached data hc
    have hcontent : r.content = data := by simp [Response.content, hc]
    have hfinish : finish request r =
        .ok () ((final (prepare request >>= fun _ => modify (·.send data)) r).send []) := by
      unfold finish
      rw [get_bind, hc]
      exact (bind_of_ok ignore_eq).trans rfl
    rw [final_ok hfinish]
    cases hready : r.ready request with
    | false =>
      obtain ⟨s, hs, hprepares⟩ := prepare_error hready
      have hnot : ¬ r.prepared = true := by simpa using (Bool.or_eq_false_iff.mp hready).1
      have hnil : data = [] := by
        by_contra hne
        exact hnot (hprep (by rwa [hcontent]))
      rw [final_error (bind_of_error hs)]
      refine ⟨?_, hprepares.bytes, fun h => absurd h hnot⟩
      rw [hcontent, hnil]
      simp [Response.send, hprepares.body, hbody]
    | true =>
      obtain ⟨s, hs, hfix⟩ := prepare_ok hready
      have hwrite : (prepare request >>= fun _ => modify (·.send data)) r = .ok () (s.send data) :=
        (bind_of_ok hs).trans rfl
      have hunsent : s.sent = none := hfix.sent.trans hsent
      rw [final_ok hwrite]
      refine ⟨?_, hfix.bytes, fun h => ⟨s.headers, ?_, hfix.kept h⟩⟩
      · simp [Response.send, hfix.body, hbody, hcontent]
      · simp [Response.send, hunsent]

theorem Inv.ends (h : Inv o) (request : Request) :
    Ends o.response (final (finish request) o.response) := by
  refine finish_ends h.formed fun hne => h.prepared ?_
  rintro hparts
  rw [h.content, hparts] at hne
  exact hne rfl

/-- A response that ends can be decoded if and only if what is written is sound. -/
theorem decodable_iff (h : Inv o) : Decodable request codecs o ↔ Sound codecs o := by
  have hends := h.ends request
  constructor
  · rintro ⟨hbody, hann, hbytes⟩
    refine ⟨fun part hpart => ?_, ?_⟩
    · obtain ⟨headers, hsent, henc⟩ := hann part hpart
      obtain ⟨headers', hsent', htype⟩ := hends.sent (h.prepared (List.ne_nil_of_mem hpart))
      rw [hsent] at hsent'
      cases hsent'
      rwa [Headers.charset, htype] at henc
    · rwa [hends.bytes, hends.body] at hbytes
  · rintro ⟨hann, hbytes⟩
    refine ⟨hends.body.trans h.content, fun part hpart => ?_, ?_⟩
    · obtain ⟨headers, hsent, htype⟩ := hends.sent (h.prepared (List.ne_nil_of_mem hpart))
      refine ⟨headers, hsent, ?_⟩
      rw [Headers.charset, htype]
      exact hann part hpart
    · rw [hends.bytes, hends.body, hbytes]

/-! ## Each call -/

/-- The bytes that a call counts. -/
def Response.counted (request : Request) (codecs : Codecs) (r : Response) : Call → Nat
  | .write data => data.len
  | .writelines sequence => ((r.acceptsLines request codecs sequence).getD []).flatten.length
  | .doNotCache => (r.cache.getD []).length
  | _ => 0

/-- The calls that neither reset the response nor end it. -/
def Call.Plain : Call → Prop
  | .reset | .emergencyTermination _ => False
  | _ => True

theorem perform_adds (h : Inv o) {call : Call} (hplain : call.Plain) :
    Adds request codecs (o.response.written request codecs call)
      (o.response.counted request codecs call) o.response
      (final (perform request codecs call) o.response) := by
  have hform := h.formed
  cases call with
  | write data => exact write_adds request codecs hform data
  | writelines sequence => exact writelines_adds hform sequence
  | setEncoding encoding =>
    exact checked_adds hform _ (adds_set hform rfl rfl rfl rfl rfl rfl)
  | forceEncoding encoding =>
    exact checked_adds hform true (adds_set hform rfl rfl rfl rfl rfl rfl)
  | setMimeType mimeType =>
    exact checked_adds hform _ (adds_set hform rfl rfl rfl rfl rfl rfl)
  | setLanguage language =>
    exact checked_adds hform _ (adds_set hform rfl rfl rfl rfl rfl rfl)
  | setStatus code =>
    exact checked_adds hform true (adds_set hform rfl rfl rfl rfl rfl rfl)
  | doNotCache =>
    refine doNotCache_adds hform fun hne => h.prepared ?_
    rintro hparts
    rw [h.content, hparts] at hne
    exact hne rfl
  | reset => exact hplain.elim
  | emergencyTermination message => exact hplain.elim

theorem observe_plain {call : Call} (hplain : call.Plain) :
    observe request codecs o call =
      ⟨final (perform request codecs call) o.response,
        o.parts ++ o.response.written request codecs call⟩ := by
  cases call with
  | reset => exact hplain.elim
  | _ => rfl

theorem inOrder_plain_iff {call : Call} (hplain : call.Plain) :
    InOrder request codecs o call ↔
      o.response.counted request codecs call =
          ((o.response.written request codecs call).flatMap Prod.snd).length ∧
        ∀ part ∈ o.response.written request codecs call,
          o.response.Settles request codecs part := by
  cases call with
  | write data =>
    cases haccepts : o.response.accepts request codecs data with
    | none => simp [InOrder, Response.counted, Response.written, haccepts]
    | some encoded => simp [InOrder, Response.counted, Response.written, haccepts, eq_comm]
  | writelines sequence =>
    cases hlines : o.response.acceptsLines request codecs sequence with
    | none => simp [InOrder, Response.counted, Response.written, hlines]
    | some lines =>
      have hmap : sequence.mapM (o.response.encodes request codecs) = some lines := by
        unfold Response.acceptsLines at hlines
        split at hlines
        · exact hlines
        · cases hlines
      simp only [InOrder, Response.counted, Response.written, hlines, Option.getD_some,
        Option.map_some]
      by_cases hlost : o.response.Lost request
      · rw [if_pos hlost, if_pos hlost, ← List.length_eq_zero_iff]
        simp
      · rw [if_neg hlost, if_neg hlost, (mapM_zip hmap).1]
        simp
  | doNotCache => simp [InOrder, Response.counted, Response.written]
  | reset => exact hplain.elim
  | emergencyTermination message => exact hplain.elim
  | _ => simp [InOrder, Response.counted, Response.written]

/-- Such a call keeps all sound if and only if it is in order. -/
theorem sound_plain_iff (h : Inv o) (hbytes : o.response.bytes = o.response.content.length)
    {call : Call} (hplain : call.Plain) :
    Sound codecs (observe request codecs o call) ↔
      (∀ part ∈ o.parts, Encoded codecs o.response.headers.charset part) ∧
        InOrder request codecs o call := by
  rw [observe_plain hplain, sound_adds_iff h hbytes (perform_adds h hplain),
    inOrder_plain_iff hplain]

/-! ## Errors -/

theorem reset_final (r : Response) :
    final tryReset r =
      if r.cache = none then r
      else { r with
        encoding := "", mimeType := "", language := "", prepared := false, cache := some [] } := by
  unfold final tryReset
  cases hc : r.cache with
  | none =>
    show (match r.cache with | some _ => _ | none => r) = _
    rw [hc]
    rfl
  | some data =>
    show (match r.cache with | some _ => _ | none => r) = _
    rw [hc]
    rfl

theorem Inv.reset (h : Inv o) : Inv (observe request codecs o .reset) := by
  unfold observe
  show Inv ⟨final tryReset o.response, _⟩
  rw [reset_final]
  by_cases hc : o.response.cache = none
  · rw [if_pos hc, if_pos hc]
    exact h
  · rw [if_neg hc, if_neg hc]
    obtain ⟨data, hdata⟩ := Option.ne_none_iff_exists'.mp hc
    obtain ⟨hbody, hsent⟩ := h.formed.cached data hdata
    refine ⟨⟨fun _ _ => ⟨hbody, hsent⟩, fun headers hs => ?_⟩, rfl, fun hne => absurd rfl hne⟩
    have hs : o.response.sent = some headers := hs
    rw [hsent] at hs
    cases hs

theorem sound_reset_iff (hs : Sound codecs o) :
    Sound codecs (observe request codecs o .reset) ↔ InOrder request codecs o .reset := by
  unfold observe
  show Sound codecs ⟨final tryReset o.response, _⟩ ↔ o.response.cache.getD [] = []
  rw [reset_final]
  cases hc : o.response.cache with
  | none =>
    rw [if_pos rfl, if_pos rfl]
    exact ⟨fun _ => rfl, fun _ => hs⟩
  | some data =>
    rw [if_neg (by simp), if_neg (by simp)]
    have hbytes : o.response.bytes = data.length := by
      rw [hs.bytes]
      simp [Response.content, hc]
    constructor
    · rintro ⟨_, hb⟩
      have hb : o.response.bytes = 0 := hb
      simpa [hbytes] using hb
    · intro hnil
      refine ⟨fun _ hpart => (nomatch hpart), ?_⟩
      show o.response.bytes = 0
      simpa [hbytes] using hnil

theorem observe_direct {message : Bytes} (hc : o.response.cache = none) :
    observe request codecs o (.emergencyTermination message) = o := by
  unfold observe
  show (⟨final (emergencyTermination request codecs message) o.response, _⟩ : Observed) = o
  rw [emergencyTermination_final, if_pos hc]
  simp only [Response.written, hc, true_or, if_true, List.append_nil]

theorem observe_silent (hc : o.response.cache ≠ none) :
    observe request codecs o (.emergencyTermination []) = ⟨o.response.reporting, o.parts⟩ := by
  unfold observe
  show (⟨final (emergencyTermination request codecs []) o.response, _⟩ : Observed) = _
  rw [emergencyTermination_final, if_neg hc, if_pos rfl]
  simp only [Response.written, or_true, if_true, List.append_nil]

/-- The report of a failure in a response that is cached. -/
theorem observe_reporting {message : Bytes} (hc : o.response.cache ≠ none) (hm : message ≠ []) :
    observe request codecs o (.emergencyTermination message) =
      observe request codecs ⟨o.response.reporting, o.parts⟩
        (.write (.str (errorLine message))) := by
  unfold observe
  show (⟨final (emergencyTermination request codecs message) o.response, _⟩ : Observed) = _
  rw [emergencyTermination_final, if_neg hc, if_neg hm]
  simp only [Response.written, hc, hm, or_self, if_false]
  rfl

theorem Inv.reporting (h : Inv o) (hc : o.response.cache ≠ none) :
    Inv ⟨o.response.reporting, o.parts⟩ := by
  obtain ⟨data, hdata⟩ := Option.ne_none_iff_exists'.mp hc
  obtain ⟨hbody, hsent⟩ := h.formed.cached data hdata
  refine ⟨⟨fun _ _ => ⟨hbody, hsent⟩, fun headers hs => ?_⟩, h.content, h.prepared⟩
  have hs : o.response.sent = some headers := hs
  rw [hsent] at hs
  cases hs

theorem Inv.plain (h : Inv o) {call : Call} (hplain : call.Plain) :
    Inv (observe request codecs o call) := by
  rw [observe_plain hplain]
  exact h.adds (perform_adds h hplain)

theorem Inv.emergency (h : Inv o) (message : Bytes) :
    Inv (observe request codecs o (.emergencyTermination message)) := by
  by_cases hc : o.response.cache = none
  · rwa [observe_direct hc]
  · by_cases hm : message = []
    · rw [hm, observe_silent hc]
      exact h.reporting hc
    · rw [observe_reporting hc hm]
      exact (h.reporting hc).plain trivial

theorem inOrder_line_iff {message : Bytes} :
    InOrder request codecs ⟨o.response.reporting, o.parts⟩ (.write (.str (errorLine message))) ↔
      o.response.reporting.ready request = true := by
  cases hready : o.response.reporting.ready request with
  | false => simp [InOrder, Response.accepts, hready, Data.len, errorLine]
  | true =>
    simp [InOrder, Response.accepts, hready, Response.encodes, Data.len, Response.Settles, Encoded]

theorem sound_emergency_iff (h : Inv o) (hs : Sound codecs o) (message : Bytes) :
    Sound codecs (observe request codecs o (.emergencyTermination message)) ↔
      InOrder request codecs o (.emergencyTermination message) := by
  show _ ↔ (_ = none ∨ (∀ part ∈ o.parts, Encoded codecs none part) ∧ (_ ∨ _))
  by_cases hc : o.response.cache = none
  · rw [observe_direct hc]
    exact ⟨fun _ => Or.inl hc, fun _ => hs⟩
  · by_cases hm : message = []
    · rw [hm, observe_silent hc]
      refine ⟨fun hsound => Or.inr ⟨hsound.announced, Or.inl rfl⟩, fun hor => ?_⟩
      exact ⟨(hor.resolve_left hc).1, hs.bytes⟩
    · have hplain : Call.Plain (.write (.str (errorLine message))) := trivial
      rw [observe_reporting hc hm, sound_plain_iff (h.reporting hc) hs.bytes hplain,
        inOrder_line_iff]
      refine ⟨fun ⟨hann, hready⟩ => Or.inr ⟨hann, Or.inr hready⟩, fun hor => ?_⟩
      obtain ⟨hann, hready⟩ := hor.resolve_left hc
      exact ⟨hann, hready.resolve_left hm⟩

/-! ## Runs -/

theorem inv_observe (h : Inv o) (call : Call) : Inv (observe request codecs o call) := by
  by_cases hplain : call.Plain
  · exact h.plain hplain
  · cases call with
    | reset => exact h.reset
    | emergencyTermination message => exact h.emergency message
    | _ => exact absurd trivial hplain

/-- A call keeps all sound if and only if it is in order. -/
theorem sound_observe_iff (h : Inv o) (hs : Sound codecs o) (call : Call) :
    Sound codecs (observe request codecs o call) ↔ InOrder request codecs o call := by
  by_cases hplain : call.Plain
  · rw [sound_plain_iff h hs.bytes hplain]
    exact ⟨fun hand => hand.2, fun hin => ⟨hs.announced, hin⟩⟩
  · cases call with
    | reset => exact sound_reset_iff hs
    | emergencyTermination message => exact sound_emergency_iff h hs message
    | _ => exact absurd trivial hplain

variable {calls : List Call}

/-- After each call of a run the response can be decoded by what it announces if and only if all
calls are in order, and then it can be when there are no calls either. -/
theorem decoded_throughout_iff :
    (Run (Guarded (InOrder request codecs) (Steps (observe request codecs))) .new calls o ↔
      Run (Ending (Decodable request codecs) (Steps (observe request codecs))) .new calls o) ∧
    (Run (Guarded (InOrder request codecs) (Steps (observe request codecs))) .new calls o →
      Decodable request codecs o) := by
  have hkeep : ∀ s call t, Inv s ∧ Sound codecs s → InOrder request codecs s call →
      Steps (observe request codecs) s call t → Inv t ∧ Sound codecs t := by
    rintro s call t ⟨hinv, hsound⟩ hin rfl
    exact ⟨inv_observe hinv call, (sound_observe_iff hinv hsound call).mpr hin⟩
  have hnew : Inv .new ∧ Sound codecs .new := ⟨inv_new, sound_new⟩
  refine ⟨run_guarded_iff (fun s hs => (decodable_iff hs.1).mpr hs.2) hkeep ?_ hnew, fun hrun => ?_⟩
  · rintro s call t ⟨hinv, hsound⟩ hnot rfl hdec
    have hsound' := (decodable_iff (inv_observe hinv call)).mp hdec
    exact hnot ((sound_observe_iff hinv hsound call).mp hsound')
  · have hend := hrun.preserves (fun s call t hs hstep => hkeep s call t hs hstep.1 hstep.2) hnew
    exact (decodable_iff hend.1).mpr hend.2

/-- An interpreter with a codec for characters that are a byte each. -/
def latin : Codecs where
  lookup name :=
    if name = "iso-8859-1" then
      some fun text => text.toList.mapM fun c =>
        if c.toNat < 256 then some (UInt8.ofNat c.toNat) else none
    else none
  nameless := by decide

/-- What is cached is counted a second time when it is no longer to be cached. -/
theorem cached_counted_twice :
    ¬ ∀ (request : Request) (codecs : Codecs) (calls : List Call),
      Decodable request codecs (calls.foldl (observe request codecs) .new) := by
  intro h
  have hbytes := (h ⟨[], [], [], true⟩ latin [.write (.str [65]), .doNotCache]).bytes
  revert hbytes
  decide +kernel

end Feat.Web.Answering
