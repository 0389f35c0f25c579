import Mathlib.Data.List.Induction
import Mathlib
import Feat.Web.BaseProtocol

/- How the body of a message is delimited, and what the order of its header lines has to do
   with it.

   A header entry is one of five things (`Field`), and what is left of the entries that were met
   is the decoder that the last of them set up, whether one of them was a zero length, and
   whether an error was reported (`Met`). `delimits_alike_iff`: all orders of the header lines
   delimit the body as it is specified if and only if no length is given beside the chunks and
   the lengths that are given are the same and not negative. -/
namespace Feat.Web.Http
open HttpServer (Bytes lower strip isHeaderMultifield)

/-! ## Message heads -/

/-- A header line with the lines it is continued on. -/
structure HeaderLine where
  text : Bytes
  folded : List Bytes
  starts : ∃ c rest, text = c :: rest ∧ isBlank c = false
  folds : ∀ line ∈ folded, ∃ c rest, line = c :: rest ∧ isBlank c = true

namespace HeaderLine

/-- The lines as they are received. -/
def lines (h : HeaderLine) : List Bytes := h.text :: h.folded

/-- The entry that is made of them. -/
def joined (h : HeaderLine) : Bytes := h.text ++ h.folded.flatMap fun line => '\n' :: line

end HeaderLine

/-- The lines of a message head after its first line. -/
def received (head : List HeaderLine) : List Bytes := head.flatMap HeaderLine.lines ++ [[]]

/-- `BaseProtocol` itself, with the errors it was told of. -/
def bare : Hooks (List Raised) where
  processRequestLine _ := pure ()
  processLength _ := pure ()
  processExtendHeader _ _ := pure ()
  processSetHeader _ _ := pure ()
  processBodyStart := pure ()
  processBodyData _ := pure ()
  processBodyFinished := pure ()
  processReset := pure ()
  processCleanup := pure ()
  processError exception := modify fun p => { p with sub := p.sub ++ [exception] }

/-- How the body of a message ends. -/
inductive Body where
  | refused
  | absent
  | length (n : Int)
  | chunked
  | untilClose
  deriving DecidableEq, Repr

/-- The state after the first line of a request. -/
def heading : Protocol (List Raised) := ⟨{ Framing.new with state := .headers }, []⟩

/-- The lines of a message head are received. -/
def feed (maxHeaders : Nat) (lines : List Bytes) : Action (List Raised) Unit :=
  lines.forM fun line => lineReceived bare maxHeaders line ⟨[], none, none⟩

/-- What the state after a head says of the body. -/
def Protocol.body (p : Protocol (List Raised)) : Body :=
  if p.sub ≠ [] then .refused
  else if p.lineMode then .absent
  else match p.bodyDecoder with
    | none => .absent
    | some (.identity (some n)) => .length n
    | some (.identity none) => .untilClose
    | some .chunked => .chunked

/-- How `BaseProtocol` delimits the body after a head. -/
def delimit (maxHeaders : Nat) (head : List HeaderLine) : Body :=
  match feed maxHeaders (received head) heading with
  | .ok _ p => p.body
  | .error _ _ => .refused

/-! ## What the headers say -/

/-- What a header entry says of the body. -/
inductive Field where
  | length (n : Int)
  | chunked
  | other
  | malformed
  | unsupported (data : Bytes)
  deriving DecidableEq, Repr

def Field.read (line : Bytes) : Field :=
  match splitColon line with
  | none => .malformed
  | some (header, data) =>
    if lower header = "content-length".toList then
      match parseInt (strip data) with
      | none => .malformed
      | some n => .length n
    else if lower header = "transfer-encoding".toList then
      if lower (strip data) = "chunked".toList then .chunked else .unsupported (strip data)
    else .other

/-- Whether the entry is an error by itself. -/
def Field.bad : Field → Bool
  | .malformed | .unsupported _ => true
  | _ => false

def Field.length? : Field → Option Int
  | .length n => some n
  | _ => none

/-- The entries of a head, read. -/
def fieldsOf (entries : List Bytes) : List Field := entries.map Field.read

/-- The lengths that are given. -/
def lengths (entries : List Bytes) : List Int := (fieldsOf entries).filterMap Field.length?

/-- An entry is an error, or there are too many. -/
def Bad (maxHeaders : Nat) (entries : List Bytes) : Prop :=
  (∃ e ∈ entries, (Field.read e).bad) ∨ maxHeaders < entries.length

instance (maxHeaders : Nat) (entries : List Bytes) : Decidable (Bad maxHeaders entries) := by
  unfold Bad
  infer_instance

/-- How the body after a head is to be delimited. -/
def specified (maxHeaders : Nat) (head : List HeaderLine) : Body :=
  let entries := head.map HeaderLine.joined
  if Bad maxHeaders entries then .refused
  else if .chunked ∈ fieldsOf entries then .chunked
  else match lengths entries with
    | [] => .absent
    | n :: rest =>
      if 0 ≤ n ∧ ∀ m ∈ rest, m = n then if n = 0 then .absent else .length n else .refused

/-- No length stands beside the chunks, and the lengths are the same and not negative. -/
def Clear (entries : List Bytes) : Prop :=
  (.chunked ∈ fieldsOf entries → lengths entries = []) ∧
    ∀ m ∈ lengths entries, 0 ≤ m ∧ ∀ n ∈ lengths entries, n = m

/-! ## One entry -/

section
variable {maxHeaders : Nat} {p : Protocol (List Raised)} {line : Bytes}

theorem storeHeader_bare (header data : Bytes) : storeHeader bare header data = pure () := by
  unfold storeHeader
  split
  · rfl
  · split <;> rfl

/-- `_got_header_entry`, by what the entry says. -/
theorem gotHeaderEntry_eq : gotHeaderEntry bare maxHeaders line p =
    let q := { p with headerCount := p.headerCount + 1 }
    if maxHeaders < p.headerCount + 1 then
      .ok () { q with
        bodyDecoder := none
        sub := p.sub ++ [.parseError "Too much http headers".toList] }
    else match Field.read line with
      | .malformed => .error .valueError q
      | .unsupported data => .ok () { q with
          bodyDecoder := none
          sub := p.sub ++ [.parseError ("Unsupported transfer encoding: ".toList ++ data)] }
      | .length n =>
        .ok () (if n = 0 then { q with noContentFollows := true }
          else { q with bodyDecoder := some (.identity (some n)) })
      | .chunked => .ok () { q with bodyDecoder := some .chunked }
      | .other => .ok () q := by
  unfold gotHeaderEntry Field.read
  simp only [storeHeader_bare]
  by_cases hcount : maxHeaders < p.headerCount + 1
  · simp [bind, EStateM.bind, modify, modifyGet, MonadStateOf.modifyGet, EStateM.modifyGet, get,
      getThe, MonadStateOf.get, EStateM.get, hcount, error, bare]
  · simp only [bind, EStateM.bind, modify, modifyGet, MonadStateOf.modifyGet, EStateM.modifyGet, get,
      getThe, MonadStateOf.get, EStateM.get, hcount, if_false]
    cases splitColon line with
    | none => rfl
    | some entry =>
      obtain ⟨header, data⟩ := entry
      dsimp only
      by_cases hlength : lower header = "content-length".toList
      · rw [if_pos hlength, if_pos hlength]
        cases parseInt (strip data) with
        | none => rfl
        | some n =>
          by_cases hzero : n = 0
          · subst hzero
            rfl
          · simp [bare, setupIdentityDecoding, EStateM.bind, pure, EStateM.pure, modify, modifyGet,
              MonadStateOf.modifyGet, EStateM.modifyGet, hzero]
      · rw [if_neg hlength, if_neg hlength]
        by_cases hencoding : lower header = "transfer-encoding".toList
        · rw [if_pos hencoding, if_pos hencoding]
          by_cases hchunked : lower (strip data) = "chunked".toList
          · rw [if_neg (not_not.mpr hchunked), if_pos hchunked]
            rfl
          · rw [if_pos hchunked, if_neg hchunked]
            rfl
        · rw [if_neg hencoding, if_neg hencoding]
          rfl

/-! ## The entries of a head -/

/-- The decoder after an entry. -/
def Field.sets (decoder : Option Decoder) : Field → Option Decoder
  | .length n => if n = 0 then decoder else some (.identity (some n))
  | .chunked => some .chunked
  | _ => decoder

/-- The decoder that is set up when the entries were met. -/
def decoderOf (entries : List Bytes) : Option Decoder :=
  (fieldsOf entries).foldl Field.sets none

theorem decoderOf_concat (done : List Bytes) (line : Bytes) :
    decoderOf (done ++ [line]) = (Field.read line).sets (decoderOf done) := by
  simp [decoderOf, fieldsOf]

theorem lengths_concat (done : List Bytes) (line : Bytes) :
    lengths (done ++ [line]) = lengths done ++ (Field.read line).length?.toList := by
  cases h : (Field.read line).length? <;> simp [lengths, fieldsOf, h]

/-- The state when some entries of a head were met. -/
structure Met (maxHeaders : Nat) (p : Protocol (List Raised)) (done : List Bytes) : Prop where
  stage : p.state = .headers
  mode : p.lineMode = true
  count : p.headerCount = done.length
  reported : p.sub ≠ [] ↔ Bad maxHeaders done
  decoder : ¬ Bad maxHeaders done → p.bodyDecoder = decoderOf done
  empty : ¬ Bad maxHeaders done → (p.noContentFollows = true ↔ 0 ∈ lengths done)

/-- What is wrong with a head stays wrong whatever follows. -/
theorem Bad.append {done : List Bytes} (h : Bad maxHeaders done) (rest : List Bytes) :
    Bad maxHeaders (done ++ rest) := by
  rcases h with ⟨e, he, hbad⟩ | hmany
  · exact .inl ⟨e, List.mem_append_left _ he, hbad⟩
  · refine .inr ?_
    rw [List.length_append]
    omega

theorem bad_concat {done : List Bytes} : Bad maxHeaders (done ++ [line]) ↔
    Bad maxHeaders done ∨ (Field.read line).bad ∨ maxHeaders < done.length + 1 := by
  unfold Bad
  simp only [List.mem_append, List.mem_singleton, List.length_append, List.length_singleton]
  constructor
  · rintro (⟨e, he | rfl, hbad⟩ | hmany)
    · exact .inl (.inl ⟨e, he, hbad⟩)
    · exact .inr (.inl hbad)
    · exact .inr (.inr hmany)
  · rintro ((⟨e, he, hbad⟩ | hmany) | hbad | hmany)
    · exact .inl ⟨e, .inl he, hbad⟩
    · exact .inr (by omega)
    · exact .inl ⟨line, .inr rfl, hbad⟩
    · exact .inr hmany

/-- An entry that is no error by itself. -/
theorem bad_concat_good {done : List Bytes} (hgood : (Field.read line).bad = false)
    (hfew : ¬ maxHeaders < done.length + 1) :
    Bad maxHeaders (done ++ [line]) ↔ Bad maxHeaders done := by
  rw [bad_concat, hgood]
  simp [hfew]

theorem Met.setHeader {done : List Bytes} (h : Met maxHeaders p done) (header : Bytes) :
    Met maxHeaders { p with header := header } done :=
  ⟨h.stage, h.mode, h.count, h.reported, h.decoder, h.empty⟩

/-- One more entry: it is met, or it is an error. -/
theorem Met.entry {done : List Bytes} (h : Met maxHeaders p done) :
    match gotHeaderEntry bare maxHeaders line p with
    | .ok _ q => Met maxHeaders q (done ++ [line]) ∧ q.header = p.header
    | .error _ _ => Bad maxHeaders (done ++ [line]) := by
  rw [gotHeaderEntry_eq]
  dsimp only
  have hnew (hbad : ¬ Bad maxHeaders (done ++ [line])) : ¬ Bad maxHeaders done :=
    fun hold => hbad (hold.append _)
  have hcount := h.count
  by_cases hmany : maxHeaders < p.headerCount + 1
  · rw [if_pos hmany]
    have hbad : Bad maxHeaders (done ++ [line]) := bad_concat.mpr (.inr (.inr (by omega)))
    exact ⟨⟨h.stage, h.mode, by simp [hcount], by simp [hbad], fun hn => absurd hbad hn,
      fun hn => absurd hbad hn⟩, rfl⟩
  · rw [if_neg hmany]
    cases hread : Field.read line with
    | malformed => exact bad_concat.mpr (.inr (.inl (by rw [hread]; rfl)))
    | unsupported data =>
      have hbad : Bad maxHeaders (done ++ [line]) :=
        bad_concat.mpr (.inr (.inl (by rw [hread]; rfl)))
      exact ⟨⟨h.stage, h.mode, by simp [hcount], by simp [hbad], fun hn => absurd hbad hn,
        fun hn => absurd hbad hn⟩, rfl⟩
    | length n =>
      have hsame : Bad maxHeaders (done ++ [line]) ↔ Bad maxHeaders done :=
        bad_concat_good (by rw [hread]; rfl) (by omega)
      dsimp only
      by_cases hzero : n = 0
      · rw [if_pos hzero]
        refine ⟨⟨h.stage, h.mode, by simp [hcount], h.reported.trans hsame.symm, fun hn => ?_,
          fun _ => ?_⟩, rfl⟩
        · rw [decoderOf_concat, hread]
          simpa [Field.sets, hzero] using h.decoder (hnew hn)
        · simp [lengths_concat, hread, Field.length?, hzero]
      · rw [if_neg hzero]
        refine ⟨⟨h.stage, h.mode, by simp [hcount], h.reported.trans hsame.symm, fun _ => ?_,
          fun hn => ?_⟩, rfl⟩
        · rw [decoderOf_concat, hread]
          exact (if_neg hzero).symm
        · rw [lengths_concat, hread]
          simpa [Field.length?, Ne.symm hzero] using h.empty (hnew hn)
    | chunked =>
      have hsame : Bad maxHeaders (done ++ [line]) ↔ Bad maxHeaders done :=
        bad_concat_good (by rw [hread]; rfl) (by omega)
      refine ⟨⟨h.stage, h.mode, by simp [hcount], h.reported.trans hsame.symm, fun _ => ?_,
        fun hn => ?_⟩, rfl⟩
      · rw [decoderOf_concat, hread]
        rfl
      · rw [lengths_concat, hread]
        simpa [Field.length?] using h.empty (hnew hn)
    | other =>
      have hsame : Bad maxHeaders (done ++ [line]) ↔ Bad maxHeaders done :=
        bad_concat_good (by rw [hread]; rfl) (by omega)
      refine ⟨⟨h.stage, h.mode, by simp [hcount], h.reported.trans hsame.symm, fun hn => ?_,
        fun hn => ?_⟩, rfl⟩
      · rw [decoderOf_concat, hread]
        exact h.decoder (hnew hn)
      · rw [lengths_concat, hread]
        simpa [Field.length?] using h.empty (hnew hn)

/-! ## The lines of a head -/

/-- The entries of the lines that were received: those met, and the one that is not complete. -/
def Seen (maxHeaders : Nat) (p : Protocol (List Raised)) (entries : List Bytes) : Prop :=
  ∃ done, Met maxHeaders p done ∧
    entries = done ++ if p.header = [] then [] else [p.header]

/-- The entry that was not complete is met. -/
theorem Seen.flush {entries : List Bytes} (h : Seen maxHeaders p entries) :
    match flushHeader bare maxHeaders p with
    | .ok _ q => Met maxHeaders q entries
    | .error _ _ => Bad maxHeaders entries := by
  obtain ⟨done, hmet, rfl⟩ := h
  have hflush : flushHeader bare maxHeaders p =
      if p.header ≠ [] then gotHeaderEntry bare maxHeaders p.header p else .ok () p := by
    unfold flushHeader
    simp only [bind, EStateM.bind, get, getThe, MonadStateOf.get, EStateM.get]
    split <;> rfl
  rw [hflush]
  by_cases hheader : p.header = []
  · rw [if_neg (not_not.mpr hheader), if_pos hheader, List.append_nil]
    exact hmet
  · rw [if_pos hheader, if_neg hheader]
    have hentry : match gotHeaderEntry bare maxHeaders p.header p with
        | .ok _ q => Met maxHeaders q (done ++ [p.header]) ∧ q.header = p.header
        | .error _ _ => Bad maxHeaders (done ++ [p.header]) := hmet.entry
    split at hentry
    · exact hentry.1
    · exact hentry

theorem feed_cons (line : Bytes) (rest : List Bytes) : feed maxHeaders (line :: rest) p =
    match lineReceived bare maxHeaders line ⟨[], none, none⟩ p with
    | .ok _ q => feed maxHeaders rest q
    | .error e q => .error e q := by
  show EStateM.bind _ _ p = _
  unfold EStateM.bind
  cases lineReceived bare maxHeaders line ⟨[], none, none⟩ p with
  | ok _ q => rfl
  | error e q => rfl

theorem feed_append (lines rest : List Bytes) : feed maxHeaders (lines ++ rest) p =
    match feed maxHeaders lines p with
    | .ok _ q => feed maxHeaders rest q
    | .error e q => .error e q := by
  induction lines generalizing p with
  | nil => rfl
  | cons line lines ih =>
    rw [List.cons_append, feed_cons, feed_cons]
    cases lineReceived bare maxHeaders line ⟨[], none, none⟩ p with
    | ok _ q => exact ih
    | error e q => rfl

/-- The lines a header is continued on. -/
theorem feed_folded {folded : List Bytes} (hstage : p.state = .headers)
    (hfolds : ∀ line ∈ folded, ∃ c rest, line = c :: rest ∧ isBlank c = true) :
    feed maxHeaders folded p =
      .ok () { p with header := p.header ++ folded.flatMap fun line => '\n' :: line } := by
  induction folded generalizing p with
  | nil =>
    rw [List.flatMap_nil, List.append_nil]
    rfl
  | cons line folded ih =>
    obtain ⟨c, rest, rfl, hblank⟩ := hfolds _ List.mem_cons_self
    have hline : gotHeaderLine bare maxHeaders (c :: rest) p =
        .ok () { p with header := p.header ++ '\n' :: c :: rest } := by
      unfold gotHeaderLine
      simp only [hblank, if_true]
      rfl
    rw [feed_cons, lineReceived_headers hstage, hline]
    dsimp only
    rw [ih (by exact hstage) fun line hline => hfolds line (List.mem_cons_of_mem _ hline)]
    simp

/-- One more header line. -/
theorem Seen.received {entries : List Bytes} (h : Seen maxHeaders p entries) (header : HeaderLine) :
    match feed maxHeaders header.lines p with
    | .ok _ q => Seen maxHeaders q (entries ++ [header.joined])
    | .error _ _ => Bad maxHeaders (entries ++ [header.joined]) := by
  obtain ⟨c, rest, htext, hblank⟩ := header.starts
  have hstage : p.state = .headers := by
    obtain ⟨done, hmet, -⟩ := h
    exact hmet.stage
  have hline : gotHeaderLine bare maxHeaders header.text p =
      match flushHeader bare maxHeaders p with
      | .ok _ q => .ok () { q with header := header.text }
      | .error e q => .error e q := by
    rw [htext]
    unfold gotHeaderLine
    simp only [hblank, Bool.false_eq_true, if_false, bind, EStateM.bind]
    cases flushHeader bare maxHeaders p <;> rfl
  have hflush := h.flush
  unfold HeaderLine.lines
  rw [feed_cons, lineReceived_headers hstage, hline]
  cases hout : flushHeader bare maxHeaders p with
  | error e q =>
    rw [hout] at hflush
    exact Bad.append hflush _
  | ok _ q =>
    rw [hout] at hflush
    dsimp only
    have hset := hflush.setHeader header.text
    rw [feed_folded hset.stage header.folds]
    refine ⟨entries, hset.setHeader _, ?_⟩
    have hne : header.joined ≠ [] := by simp [HeaderLine.joined, htext]
    exact (congrArg (entries ++ ·) (if_neg hne)).symm

/-- All header lines. -/
theorem Seen.head {entries : List Bytes} (h : Seen maxHeaders p entries) (head : List HeaderLine) :
    match feed maxHeaders (head.flatMap HeaderLine.lines) p with
    | .ok _ q => Seen maxHeaders q (entries ++ head.map HeaderLine.joined)
    | .error _ _ => Bad maxHeaders (entries ++ head.map HeaderLine.joined) := by
  induction head generalizing p entries with
  | nil =>
    rw [List.map_nil, List.append_nil]
    exact h
  | cons header head ih =>
    have hline := h.received header
    rw [List.flatMap_cons, feed_append, List.map_cons, List.append_cons]
    cases hout : feed maxHeaders header.lines p with
    | error e q =>
      rw [hout] at hline
      exact hline.append _
    | ok _ q =>
      rw [hout] at hline
      exact ih hline

/-- The end of a head. -/
theorem gotAllHeaders_bare : gotAllHeaders bare p =
    let q := { p with state := .body }
    if p.bodyDecoder = none ∨ p.noContentFollows then
      .ok () { q with toFraming := { q.toFraming.reset with lineMode := true } }
    else .ok () { q with lineMode := false } := by
  unfold gotAllHeaders gotAllContent
  simp only [bind, EStateM.bind, modify, modifyGet, MonadStateOf.modifyGet, EStateM.modifyGet, get,
    getThe, MonadStateOf.get, EStateM.get, bare, pure, EStateM.pure]
  split <;> rfl

/-- How a head that was met delimits the body. -/
def outcome (entries : List Bytes) : Body :=
  if 0 ∈ lengths entries then .absent
  else match decoderOf entries with
    | none => .absent
    | some (.identity (some n)) => .length n
    | some (.identity none) => .untilClose
    | some .chunked => .chunked

/-- The blank line after the head. -/
theorem Seen.blank {entries : List Bytes} (h : Seen maxHeaders p entries) :
    (match feed maxHeaders [[]] p with
      | .ok _ q => q.body
      | .error _ _ => .refused) =
    if Bad maxHeaders entries then .refused else outcome entries := by
  have hstage : p.state = .headers := by
    obtain ⟨done, hmet, -⟩ := h
    exact hmet.stage
  have hline : gotHeaderLine bare maxHeaders [] p =
      match flushHeader bare maxHeaders p with
      | .ok _ q => gotAllHeaders bare { q with header := [] }
      | .error e q => .error e q := by
    unfold gotHeaderLine
    simp only [bind, EStateM.bind]
    cases flushHeader bare maxHeaders p <;> rfl
  have hflush := h.flush
  rw [feed_cons, lineReceived_headers hstage, hline]
  cases hout : flushHeader bare maxHeaders p with
  | error e q =>
    rw [hout] at hflush
    exact (if_pos hflush).symm
  | ok _ q =>
    rw [hout] at hflush
    dsimp only
    rw [gotAllHeaders_bare]
    dsimp only
    by_cases hbad : Bad maxHeaders entries
    · have hsub : q.sub ≠ [] := hflush.reported.mpr hbad
      rw [if_pos hbad]
      by_cases hnone : q.bodyDecoder = none ∨ q.noContentFollows
      · rw [if_pos hnone]
        exact if_pos hsub
      · rw [if_neg hnone]
        exact if_pos hsub
    · have hsub : ¬ q.sub ≠ [] := fun hne => hbad (hflush.reported.mp hne)
      rw [if_neg hbad, hflush.decoder hbad]
      unfold outcome
      by_cases hzero : 0 ∈ lengths entries
      · rw [if_pos hzero, if_pos (.inr ((hflush.empty hbad).mpr hzero))]
        exact (if_neg hsub).trans (if_pos rfl)
      · rw [if_neg hzero]
        have hempty : ¬ q.noContentFollows = true := fun h => hzero ((hflush.empty hbad).mp h)
        cases hdecoder : decoderOf entries with
        | none =>
          rw [if_pos (.inl rfl)]
          exact (if_neg hsub).trans (if_pos rfl)
        | some decoder =>
          rw [if_neg (by simp [hempty])]
          exact (if_neg hsub).trans (if_neg Bool.false_ne_true)
end

/-- How `BaseProtocol` delimits the body, by what the entries of the head say. -/
theorem delimit_eq (maxHeaders : Nat) (head : List HeaderLine) :
    delimit maxHeaders head =
      if Bad maxHeaders (head.map HeaderLine.joined) then .refused
      else outcome (head.map HeaderLine.joined) := by
  have hstart : Seen maxHeaders heading [] := by
    refine ⟨[], ⟨rfl, rfl, rfl, ?_, fun _ => rfl, fun _ => ?_⟩, rfl⟩
    · simp [heading, Bad]
    · simp [heading, Framing.new, lengths, fieldsOf]
  have hhead := hstart.head head
  unfold delimit received
  rw [feed_append]
  cases hout : feed maxHeaders (head.flatMap HeaderLine.lines) heading with
  | error e q =>
    rw [hout] at hhead
    exact (if_pos hhead).symm
  | ok _ q =>
    rw [hout] at hhead
    exact hhead.blank

/-! ## The order of the header lines -/

section
variable {maxHeaders : Nat} {entries entries' : List Bytes}

theorem bad_perm (h : entries.Perm entries') : Bad maxHeaders entries ↔ Bad maxHeaders entries' := by
  unfold Bad
  rw [h.length_eq]
  simp only [h.mem_iff]

theorem lengths_perm (h : entries.Perm entries') : (lengths entries).Perm (lengths entries') :=
  (h.map _).filterMap _

theorem chunked_perm (h : entries.Perm entries') :
    .chunked ∈ fieldsOf entries ↔ .chunked ∈ fieldsOf entries' := (h.map _).mem_iff

theorem mem_lengths {n : Int} : n ∈ lengths entries ↔ ∃ e ∈ entries, Field.read e = .length n := by
  unfold lengths fieldsOf
  simp only [List.mem_filterMap, List.mem_map, exists_exists_and_eq_and]
  constructor
  · rintro ⟨e, he, hlength⟩
    refine ⟨e, he, ?_⟩
    cases hread : Field.read e <;> rw [hread] at hlength <;> simp_all [Field.length?]
  · rintro ⟨e, he, hread⟩
    exact ⟨e, he, by rw [hread]; rfl⟩

/-- What was not set up by an entry was there before. -/
theorem decoderOf_cases (entries : List Bytes) :
    (∃ n ∈ lengths entries, n ≠ 0 ∧ decoderOf entries = some (.identity (some n))) ∨
      (.chunked ∈ fieldsOf entries ∧ decoderOf entries = some .chunked) ∨
      (decoderOf entries = none ∧ .chunked ∉ fieldsOf entries ∧ ∀ n ∈ lengths entries, n = 0) := by
  induction entries using List.reverseRecOn with
  | nil => exact .inr (.inr ⟨rfl, by simp [fieldsOf], by simp [lengths, fieldsOf]⟩)
  | append_singleton done line ih =>
    rw [decoderOf_concat, lengths_concat]
    have hfields : fieldsOf (done ++ [line]) = fieldsOf done ++ [Field.read line] := by
      simp [fieldsOf]
    rw [hfields]
    have hold (hsets : (Field.read line).sets (decoderOf done) = decoderOf done)
        (hnot : Field.read line ≠ .chunked)
        (hzero : ∀ n, (Field.read line).length? = some n → n = 0) :
        (∃ n ∈ lengths done ++ (Field.read line).length?.toList,
            n ≠ 0 ∧ (Field.read line).sets (decoderOf done) = some (.identity (some n))) ∨
          (.chunked ∈ fieldsOf done ++ [Field.read line] ∧
            (Field.read line).sets (decoderOf done) = some .chunked) ∨
          ((Field.read line).sets (decoderOf done) = none ∧
            .chunked ∉ fieldsOf done ++ [Field.read line] ∧
            ∀ n ∈ lengths done ++ (Field.read line).length?.toList, n = 0) := by
      rw [hsets]
      rcases ih with ⟨n, hn, hne, hd⟩ | ⟨hmem, hd⟩ | ⟨hd, hno, hall⟩
      · exact .inl ⟨n, List.mem_append_left _ hn, hne, hd⟩
      · exact .inr (.inl ⟨List.mem_append_left _ hmem, hd⟩)
      · refine .inr (.inr ⟨hd, ?_, fun n hn => ?_⟩)
        · simpa [hno] using Ne.symm hnot
        · rcases List.mem_append.mp hn with hn | hn
          · exact hall n hn
          · exact hzero n (Option.mem_toList.mp hn)
    cases hread : Field.read line with
    | length n =>
      by_cases hzero : n = 0
      · rw [hread] at hold
        exact hold (if_pos hzero) (by simp) (by simp [Field.length?, hzero])
      · exact .inl ⟨n, by simp [Field.length?], hzero, if_neg hzero⟩
    | chunked => exact .inr (.inl ⟨by simp, rfl⟩)
    | other =>
      rw [hread] at hold
      exact hold rfl (by simp) (by simp [Field.length?])
    | malformed =>
      rw [hread] at hold
      exact hold rfl (by simp) (by simp [Field.length?])
    | unsupported data =>
      rw [hread] at hold
      exact hold rfl (by simp) (by simp [Field.length?])

/-- What the specification says of entries that are no errors. -/
def wanted (entries : List Bytes) : Body :=
  if .chunked ∈ fieldsOf entries then .chunked
  else match lengths entries with
    | [] => .absent
    | n :: rest =>
      if 0 ≤ n ∧ ∀ m ∈ rest, m = n then if n = 0 then .absent else .length n else .refused

/-- Clear entries delimit the body as it is specified. -/
theorem Clear.outcome (h : Clear entries) : outcome entries = wanted entries := by
  obtain ⟨halone, hsame⟩ := h
  unfold Http.outcome wanted
  by_cases hchunked : .chunked ∈ fieldsOf entries
  · rw [if_pos hchunked, halone hchunked, if_neg (by simp)]
    rcases decoderOf_cases entries with ⟨n, hn, -⟩ | ⟨-, hd⟩ | ⟨-, hno, -⟩
    · rw [halone hchunked] at hn
      cases hn
    · rw [hd]
    · exact absurd hchunked hno
  · rw [if_neg hchunked]
    cases hlengths : lengths entries with
    | nil =>
      rw [if_neg (by simp)]
      rcases decoderOf_cases entries with ⟨n, hn, -⟩ | ⟨hmem, -⟩ | ⟨hd, -, -⟩
      · rw [hlengths] at hn
        cases hn
      · exact absurd hmem hchunked
      · rw [hd]
    | cons n rest =>
      have hn : n ∈ lengths entries := by rw [hlengths]; exact List.mem_cons_self
      have hrest : ∀ m ∈ rest, m = n := fun m hm =>
        (hsame n hn).2 m (by rw [hlengths]; exact List.mem_cons_of_mem _ hm)
      have hzeros : 0 ∈ n :: rest ↔ n = 0 := by
        rw [← hlengths]
        exact ⟨fun hmem => ((hsame n hn).2 0 hmem).symm, fun h => h ▸ hn⟩
      have hall : 0 ≤ n ∧ ∀ m ∈ rest, m = n := ⟨(hsame n hn).1, hrest⟩
      dsimp only
      rw [if_pos hall]
      by_cases hzero : n = 0
      · rw [if_pos hzero, if_pos (hzeros.mpr hzero)]
      · rw [if_neg hzero, if_neg (mt hzeros.mp hzero)]
        rcases decoderOf_cases entries with ⟨m, hm, -, hd⟩ | ⟨hmem, -⟩ | ⟨-, -, hnull⟩
        · rw [hd, (hsame n hn).2 m hm]
        · exact absurd hmem hchunked
        · exact absurd (hnull n hn) hzero

/-- Entries that are not refused. -/
theorem outcome_ne_refused : outcome entries ≠ .refused := by
  unfold outcome
  split
  · simp
  · split <;> simp

/-- A length after the chunks hides them. -/
theorem outcome_concat_length {n : Int} {line : Bytes} (hread : Field.read line = .length n) :
    outcome (entries ++ [line]) ≠ .chunked := by
  unfold outcome
  split
  · simp
  · rename_i hzero
    have hne : n ≠ 0 := by
      rintro rfl
      exact hzero (by simp [lengths_concat, hread, Field.length?])
    rw [decoderOf_concat, hread]
    simp [Field.sets, hne]

theorem clear_perm (h : entries.Perm entries') (hc : Clear entries) : Clear entries' := by
  have hlengths := lengths_perm h
  refine ⟨fun hchunked => ?_, fun m hm => ?_⟩
  · have hnil := hc.1 ((chunked_perm h).mpr hchunked)
    rw [hnil] at hlengths
    exact hlengths.nil_eq.symm
  · obtain ⟨hpos, hsame⟩ := hc.2 m (hlengths.mem_iff.mpr hm)
    exact ⟨hpos, fun n hn => hsame n (hlengths.mem_iff.mpr hn)⟩

/-- What clear entries say is the same in each order. -/
theorem wanted_perm (h : entries.Perm entries') (hc : Clear entries) :
    wanted entries' = wanted entries := by
  have hlengths := lengths_perm h
  unfold wanted
  by_cases hchunked : .chunked ∈ fieldsOf entries
  · rw [if_pos hchunked, if_pos ((chunked_perm h).mp hchunked)]
  · rw [if_neg hchunked, if_neg (mt (chunked_perm h).mpr hchunked)]
    cases hnew : lengths entries' with
    | nil =>
      rw [hnew] at hlengths
      rw [hlengths.eq_nil]
    | cons m more =>
      cases hold : lengths entries with
      | nil =>
        rw [hold, hnew] at hlengths
        cases hlengths.nil_eq
      | cons n rest =>
        have hn : n ∈ lengths entries := by simp [hold]
        have hall : ∀ k ∈ m :: more, k = n := fun k hk =>
          (hc.2 n hn).2 k (hlengths.mem_iff.mpr (hnew ▸ hk))
        have hm : m = n := hall m List.mem_cons_self
        subst hm
        have hmore : 0 ≤ m ∧ ∀ k ∈ more, k = m :=
          ⟨(hc.2 m hn).1, fun k hk => hall k (List.mem_cons_of_mem _ hk)⟩
        have hrest : 0 ≤ m ∧ ∀ k ∈ rest, k = m :=
          ⟨hmore.1, fun k hk => (hc.2 m hn).2 k (hold ▸ List.mem_cons_of_mem _ hk)⟩
        dsimp only
        rw [if_pos hmore, if_pos hrest]

end

end Feat.Web.Http
