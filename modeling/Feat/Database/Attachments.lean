import Feat.Lib.Hash
import Feat.Lib.Percent

/- The attachments of a document (`feat.database.document.Document`), under the names they
   are created with.

   A name is a byte string or a unicode string. Those of ASCII characters are the same key
   of a dictionary in either form (`PyString.key`). A document whose dictionaries have not
   been made yet is one without attachments. The two dictionaries have the same keys
   (`Document.agree`).

   `create_attachment` looks for a free name in a loop. It is given a number of rounds, and
   there is no result when they do not suffice. -/
namespace Feat.Database.Attachments
open Hash Percent

/-- A byte string or a unicode string, by the codes of its characters. -/
structure PyString where
  isUnicode : Bool
  chars : List Nat
  deriving DecidableEq

/-- What a string is looked up by. -/
abbrev NameKey : Type := Bool × List Nat

def PyString.key (s : PyString) : NameKey := (s.isUnicode || Ascii s.chars, s.chars)

inductive AttachmentError where
  | format (error : FormatError)
  | unicodeDecodeError (text : PyString)
  deriving DecidableEq

/-- `unicode`. -/
def PyString.toUnicode (s : PyString) : Except AttachmentError PyString :=
  if s.isUnicode ∨ Ascii s.chars then .ok ⟨true, s.chars⟩ else .error (.unicodeDecodeError s)

/-- `_Attachment`. -/
structure PrivateAttachment (β : Type) where
  docId : Option PyString
  name : PyString
  body : Option β
  contentType : PyString
  saved : Bool
  length : Option Nat
  deriving DecidableEq

/-- `Attachment`. -/
structure PublicAttachment where
  docId : Option PyString
  name : PyString
  deriving DecidableEq

variable {β : Type}

/-- `Attachment.__init__`. -/
def PublicAttachment.new (docId : Option PyString) (name : PyString) :
    Except AttachmentError PublicAttachment :=
  match docId with
  | none =>
    match name.toUnicode with
    | .error e => .error e
    | .ok name => .ok ⟨none, name⟩
  | some docId =>
    match docId.toUnicode with
    | .error e => .error e
    | .ok docId =>
      match name.toUnicode with
      | .error e => .error e
      | .ok name => .ok ⟨some docId, name⟩

/-- `_Attachment.__init__`. -/
def PrivateAttachment.new (docId : Option PyString) (name : PyString) (body : Option β)
    (contentType : PyString) : PrivateAttachment β where
  docId := docId
  name := name
  body := body
  contentType := contentType
  saved := false
  length := none

/-- `to_public`. -/
def PrivateAttachment.toPublic (a : PrivateAttachment β) :
    Except AttachmentError PublicAttachment :=
  PublicAttachment.new a.docId a.name

structure Document (β : Type) where
  docId : Option PyString
  attachments : Dict NameKey (PrivateAttachment β)
  publicAttachments : Dict NameKey PublicAttachment
  agree : ∀ key, key ∈ attachments ↔ key ∈ publicAttachments

namespace Document

def new (docId : Option PyString) : Document β := ⟨docId, ∅, ∅, fun _ => Iff.rfl⟩

def store (d : Document β) (key : NameKey) (priv : PrivateAttachment β) (pub : PublicAttachment) :
    Document β where
  docId := d.docId
  attachments := d.attachments.insert key priv
  publicAttachments := d.publicAttachments.insert key pub
  agree key' := by simp only [AList.mem_insert, d.agree]

/-- `delete_attachment`, which raises NotFoundError for a name that is not known. -/
def deleteAttachment (d : Document β) (name : PyString) : Option (Document β) :=
  if name.key ∈ d.attachments then
    some
      { d with
        attachments := d.attachments.erase name.key
        publicAttachments := d.publicAttachments.erase name.key
        agree := fun key => by simp only [AList.mem_erase, d.agree] }
  else none

end Document

/-- The first part of `name.split('.', 1)`, which the index is added to. -/
def PyString.beforeDot (name : PyString) : List Nat := name.chars.takeWhile (· ≠ code '.')

/-- The second part, with the dot, if there is one. -/
def PyString.fromDot (name : PyString) : List Nat := name.chars.dropWhile (· ≠ code '.')

/-- `tmpl`. -/
def PyString.template (name : PyString) : List Nat :=
  name.beforeDot ++ (codes "_%d" ++ name.fromDot)

namespace Document
variable (p : Interpreter)

/-- The loop of `create_attachment`. -/
def freshName (d : Document β) (isUnicode : Bool) (tmpl : List Nat) :
    Nat → Nat → PyString → Option (Except AttachmentError PyString)
  | 0, _, _ => none
  | fuel + 1, index, name =>
    if name.key ∈ d.attachments then
      match format p tmpl [index] with
      | .error e => some (.error (.format e))
      | .ok chars => freshName d isUnicode tmpl fuel (index + 1) ⟨isUnicode, chars⟩
    else some (.ok name)

/-- The end of `create_attachment`. -/
def attach (d : Document β) (name : PyString) (body : Option β) (contentType : PyString) :
    Except AttachmentError (Document β × PublicAttachment) :=
  let priv := PrivateAttachment.new d.docId name body contentType
  match priv.toPublic with
  | .error e => .error e
  | .ok pub => .ok (d.store name.key priv pub, pub)

/-- `create_attachment`. -/
def createAttachment (fuel : Nat) (d : Document β) (name : PyString) (body : Option β)
    (contentType : PyString) (unique : Bool) :
    Option (Except AttachmentError (Document β × PublicAttachment)) :=
  if unique ∧ name.key ∈ d.attachments then
    match d.freshName p name.isUnicode name.template fuel 1 name with
    | none => none
    | some (.error e) => some (.error e)
    | some (.ok name) => some (d.attach name body contentType)
  else some (d.attach name body contentType)

end Document

/-! ## Free names -/

variable {p : Interpreter} {d d' : Document β} {name docId : PyString} {text : List Nat}

/-- The string can be made unicode. -/
def PyString.Decodes (s : PyString) : Prop := s.isUnicode = true ∨ Ascii s.chars

instance (s : PyString) : Decidable s.Decodes := inferInstanceAs (Decidable (_ ∨ _))

/-- The parts of the name are no format strings: they ask for no argument. -/
def PyString.PlainParts (p : Interpreter) (name : PyString) : Prop :=
  Plain p name.beforeDot ∧ Plain p name.fromDot

/-- The attachment was stored under a name that was free, and nothing else was changed. -/
structure Created (d : Document β) (name : PyString) (body : Option β) (contentType : PyString)
    (stored : PyString) (d' : Document β) (pub : PublicAttachment) : Prop where
  free : stored.key ∉ d.attachments
  free_public : stored.key ∉ d.publicAttachments
  kept : name.key ∉ d.attachments → stored = name
  attached : d'.attachments.lookup stored.key = some (.new d.docId stored body contentType)
  published : d'.publicAttachments.lookup stored.key = some pub
  named : pub.name = ⟨true, stored.chars⟩
  unchanged : ∀ key ≠ stored.key, d'.attachments.lookup key = d.attachments.lookup key
  unchanged_public : ∀ key ≠ stored.key,
    d'.publicAttachments.lookup key = d.publicAttachments.lookup key

theorem toUnicode_eq_ok {s : PyString} (h : s.Decodes) : s.toUnicode = .ok ⟨true, s.chars⟩ :=
  if_pos h

theorem toUnicode_eq_error {s : PyString} (h : ¬ s.Decodes) :
    s.toUnicode = .error (.unicodeDecodeError s) := if_neg h

/-- The name ends where it was divided. -/
theorem chars_eq (name : PyString) : name.beforeDot ++ name.fromDot = name.chars :=
  List.takeWhile_append_dropWhile

/-- The name with this index. -/
theorem format_template (p : Interpreter) (name : PyString) (index : Nat) :
    format p name.template [index] = .ok text ↔
      ∃ b a, format p name.beforeDot [] = .ok b ∧ format p name.fromDot [] = .ok a ∧
        text = b ++ (code '_' :: decimal index ++ a) :=
  format_numbered p _ _ index text

/-- Numbering does not make a string decodable, or not. -/
theorem decodes_numbered {index : Nat} (h : format p name.template [index] = .ok text) :
    (⟨name.isUnicode, text⟩ : PyString).Decodes ↔ name.Decodes := by
  obtain ⟨b, a, hb, ha, rfl⟩ := (format_template p name index).mp h
  refine or_congr Iff.rfl ?_
  show Ascii _ ↔ Ascii name.chars
  have hnumber : Ascii (code '_' :: decimal index) :=
    ascii_cons.mpr ⟨by decide, decimal_ascii index⟩
  rw [← chars_eq name, ascii_append, ascii_append, ascii_append, format_ascii hb, format_ascii ha]
  exact and_congr_right fun _ => and_iff_right hnumber

/-- The loop ends with a free name when one of the next names is free. -/
theorem freshName_free {candidate : Nat → PyString} {isUnicode : Bool} {tmpl : List Nat}
    (hformat : ∀ index, format p tmpl [index] = .ok (candidate index).chars)
    (hunicode : ∀ index, (candidate index).isUnicode = isUnicode) (n : Nat) :
    ∀ fuel index name, n < fuel →
      (name.key ∉ d.attachments ∨
        ∃ j, index ≤ j ∧ j < index + n ∧ (candidate j).key ∉ d.attachments) →
      ∃ stored, d.freshName p isUnicode tmpl fuel index name = some (.ok stored) ∧
        stored.key ∉ d.attachments ∧ (stored = name ∨ ∃ j, stored = candidate j) := by
  induction n with
  | zero =>
    intro fuel index name hfuel hfree
    obtain ⟨fuel, rfl⟩ := Nat.exists_eq_add_of_lt hfuel
    obtain hfree | ⟨j, hle, hlt, -⟩ := hfree
    · exact ⟨name, if_neg hfree, hfree, .inl rfl⟩
    · omega
  | succ n ih =>
    intro fuel index name hfuel hfree
    obtain ⟨fuel, rfl⟩ := Nat.exists_eq_add_of_lt (Nat.zero_lt_of_lt hfuel)
    rw [Nat.zero_add] at *
    by_cases htaken : name.key ∈ d.attachments
    · obtain hfree | ⟨j, hle, hlt, hfree⟩ := hfree
      · exact absurd htaken hfree
      · have hnext : (candidate index).key ∉ d.attachments ∨
            ∃ j, index + 1 ≤ j ∧ j < index + 1 + n ∧ (candidate j).key ∉ d.attachments := by
          obtain rfl | hne := Nat.eq_or_lt_of_le hle
          · exact .inl hfree
          · exact .inr ⟨j, hne, by omega, hfree⟩
        obtain ⟨stored, hfound, hstored, hwhich⟩ :=
          ih fuel (index + 1) (candidate index) (by omega) hnext
        refine ⟨stored, ?_, hstored, .inr (hwhich.elim (fun h => ⟨index, h⟩) id)⟩
        have hcandidate : (⟨isUnicode, (candidate index).chars⟩ : PyString) = candidate index := by
          rw [← hunicode index]
        rw [Document.freshName, if_pos htaken, hformat]
        dsimp only
        rw [hcandidate]
        exact hfound
    · exact ⟨name, if_neg htaken, htaken, .inl rfl⟩

/-- Not all of as many names as there are attachments, and one more, are taken. -/
theorem exists_free {candidate : Nat → PyString}
    (hinj : ∀ i j, (candidate i).key = (candidate j).key → i = j) :
    ∃ j, 1 ≤ j ∧ j < 1 + (d.attachments.keys.length + 1) ∧
      (candidate j).key ∉ d.attachments := by
  by_contra hnone
  push Not at hnone
  have hnodup : ((List.range' 1 (d.attachments.keys.length + 1)).map
      fun i => (candidate i).key).Nodup :=
    List.Nodup.map (fun i j h => hinj i j h) List.nodup_range'
  have hsubset : ((List.range' 1 (d.attachments.keys.length + 1)).map
      fun i => (candidate i).key) ⊆ d.attachments.keys := by
    intro key hkey
    obtain ⟨i, hi, rfl⟩ := List.mem_map.mp hkey
    obtain ⟨hle, hlt⟩ := List.mem_range'_1.mp hi
    exact AList.mem_keys.mp (hnone i hle hlt)
  have hle := (List.subperm_of_subset hnodup hsubset).length_le
  rw [List.length_map, List.length_range'] at hle
  omega

/-- The document's identifier can be made unicode, if there is one. -/
def Document.Identified (d : Document β) : Prop := ∀ docId ∈ d.docId, docId.Decodes

instance (d : Document β) : Decidable d.Identified :=
  inferInstanceAs (Decidable (∀ docId ∈ d.docId, _))

theorem attach_eq_ok (hid : d.Identified) (hname : name.Decodes) (body : Option β)
    (contentType : PyString) :
    ∃ pub, d.attach name body contentType =
        .ok (d.store name.key (.new d.docId name body contentType) pub, pub) ∧
      pub.name = ⟨true, name.chars⟩ := by
  unfold Document.attach
  dsimp only [PrivateAttachment.toPublic, PrivateAttachment.new]
  unfold PublicAttachment.new
  cases hd : d.docId with
  | none =>
    dsimp only
    rw [toUnicode_eq_ok hname]
    exact ⟨_, rfl, rfl⟩
  | some docId =>
    dsimp only
    rw [toUnicode_eq_ok (hid docId hd)]
    dsimp only
    rw [toUnicode_eq_ok hname]
    exact ⟨_, rfl, rfl⟩

theorem decodes_of_attach {body : Option β} {contentType : PyString}
    {res : Document β × PublicAttachment} (h : d.attach name body contentType = .ok res) :
    d.Identified ∧ name.Decodes := by
  unfold Document.attach at h
  dsimp only [PrivateAttachment.toPublic, PrivateAttachment.new] at h
  unfold PublicAttachment.new at h
  have hname : name.Decodes := by
    by_contra hname
    rw [toUnicode_eq_error hname] at h
    split at h
    · cases h
    · rename_i hpub
      split at hpub
      · cases hpub
      · split at hpub
        · cases hpub
        · cases hpub
  refine ⟨fun docId hid => ?_, hname⟩
  by_contra hdecodes
  rw [Option.mem_def.mp hid] at h
  dsimp only at h
  rw [toUnicode_eq_error hdecodes] at h
  cases h

/-- What is attached under a free name changes nothing else. -/
theorem created_of_free {stored : PyString} {body : Option β} {contentType : PyString}
    {pub : PublicAttachment} (hfree : stored.key ∉ d.attachments)
    (hkept : name.key ∉ d.attachments → stored = name) (hnamed : pub.name = ⟨true, stored.chars⟩) :
    Created d name body contentType stored
      (d.store stored.key (.new d.docId stored body contentType) pub) pub where
  free := hfree
  free_public := fun h => hfree ((d.agree _).mpr h)
  kept := hkept
  attached := AList.lookup_insert _
  published := AList.lookup_insert _
  named := hnamed
  unchanged := fun _ hne => AList.lookup_insert_ne hne
  unchanged_public := fun _ hne => AList.lookup_insert_ne hne

/-- When the parts of a taken name are plain, the loop ends with a name that is free. -/
theorem freshName_of_plain {fuel : Nat} (hplain : name.PlainParts p)
    (htaken : name.key ∈ d.attachments) (hfuel : d.attachments.keys.length + 1 < fuel) :
    ∃ stored, d.freshName p name.isUnicode name.template fuel 1 name = some (.ok stored) ∧
      stored.key ∉ d.attachments ∧ (stored.Decodes ↔ name.Decodes) := by
  obtain ⟨⟨b, hb⟩, ⟨a, ha⟩⟩ := hplain
  let candidate (index : Nat) : PyString :=
    ⟨name.isUnicode, b ++ (code '_' :: decimal index ++ a)⟩
  have hformat : ∀ index, format p name.template [index] = .ok (candidate index).chars :=
    fun index => (format_template p name index).mpr ⟨b, a, hb, ha, rfl⟩
  have hinj : ∀ i j, (candidate i).key = (candidate j).key → i = j := by
    intro i j h
    have hchars : (candidate i).chars = (candidate j).chars := congrArg Prod.snd h
    have hrest := List.append_cancel_left hchars
    rw [List.cons_append, List.cons_append] at hrest
    exact decimal_injective (List.append_cancel_right (List.cons.inj hrest).2)
  obtain ⟨stored, hfound, hfree, hwhich⟩ :=
    freshName_free (d := d) hformat (fun _ => rfl) _ fuel 1 name hfuel
      (.inr (exists_free hinj))
  refine ⟨stored, hfound, hfree, ?_⟩
  obtain rfl | ⟨j, rfl⟩ := hwhich
  · exact absurd htaken hfree
  · exact decodes_numbered (hformat j)

/-- When they are not, the first round of the loop fails. -/
theorem freshName_of_not_plain {fuel : Nat} (hplain : ¬ name.PlainParts p)
    (htaken : name.key ∈ d.attachments) (hfuel : 0 < fuel) :
    ∃ e, d.freshName p name.isUnicode name.template fuel 1 name = some (.error e) := by
  obtain ⟨fuel, rfl⟩ := Nat.exists_eq_add_of_lt hfuel
  cases hformat : format p name.template [1] with
  | error e =>
    refine ⟨.format e, ?_⟩
    rw [Document.freshName, if_pos htaken, hformat]
  | ok text =>
    obtain ⟨b, a, hb, ha, -⟩ := (format_template p name 1).mp hformat
    exact absurd ⟨⟨b, hb⟩, ⟨a, ha⟩⟩ hplain

/-- An attachment is created under a free name if and only if its name and the identifier
    can be made unicode and, when the name is taken, its parts are plain. -/
theorem attachment_created_iff (p : Interpreter) (d : Document β) (name : PyString)
    (body : Option β) (contentType : PyString) :
    (∀ fuel > d.attachments.keys.length + 1, ∃ stored d' pub,
        d.createAttachment p fuel name body contentType true = some (.ok (d', pub)) ∧
          Created d name body contentType stored d' pub) ↔
      d.Identified ∧ name.Decodes ∧ (name.key ∈ d.attachments → name.PlainParts p) := by
  by_cases htaken : name.key ∈ d.attachments
  · have hcreate : ∀ fuel, d.createAttachment p fuel name body contentType true =
        match d.freshName p name.isUnicode name.template fuel 1 name with
        | none => none
        | some (.error e) => some (.error e)
        | some (.ok name) => some (d.attach name body contentType) :=
      fun fuel => if_pos ⟨rfl, htaken⟩
    constructor
    · intro h
      obtain ⟨stored, d', pub, hok, -⟩ := h _ (Nat.lt_succ_self _)
      rw [hcreate] at hok
      have hplain : name.PlainParts p := by
        by_contra hplain
        obtain ⟨e, he⟩ := freshName_of_not_plain hplain htaken (Nat.succ_pos _)
        rw [he] at hok
        cases hok
      obtain ⟨found, hfound, -, hdecodes⟩ :=
        freshName_of_plain hplain htaken (Nat.lt_succ_self _)
      rw [hfound] at hok
      obtain ⟨hid, hname⟩ := decodes_of_attach (Option.some.inj hok)
      exact ⟨hid, hdecodes.mp hname, fun _ => hplain⟩
    · rintro ⟨hid, hname, hplain⟩ fuel hfuel
      obtain ⟨stored, hfound, hfree, hdecodes⟩ :=
        freshName_of_plain (hplain htaken) htaken hfuel
      obtain ⟨pub, hattach, hnamed⟩ := attach_eq_ok hid (hdecodes.mpr hname) body contentType
      refine ⟨stored, _, pub, ?_, created_of_free hfree (absurd htaken) hnamed⟩
      rw [hcreate, hfound]
      dsimp only
      rw [hattach]
  · have hcreate : ∀ fuel, d.createAttachment p fuel name body contentType true =
        some (d.attach name body contentType) :=
      fun fuel => if_neg fun h => htaken h.2
    constructor
    · intro h
      obtain ⟨stored, d', pub, hok, -⟩ := h _ (Nat.lt_succ_self _)
      rw [hcreate] at hok
      obtain ⟨hid, hname⟩ := decodes_of_attach (Option.some.inj hok)
      exact ⟨hid, hname, fun h => absurd h htaken⟩
    · rintro ⟨hid, hname, -⟩ fuel -
      obtain ⟨pub, hattach, hnamed⟩ := attach_eq_ok hid hname body contentType
      refine ⟨name, _, pub, ?_, created_of_free htaken (fun _ => rfl) hnamed⟩
      rw [hcreate, hattach]

/-- A document with an attachment of this name. -/
def Document.holding (name : PyString) : Document Unit :=
  (Document.new none).store name.key (.new none name (some ()) ⟨false, codes "text/plain"⟩)
    ⟨none, name⟩

/-- An interpreter with words of 64 bits, in which all conversions write decimal digits. -/
def plainInterpreter : Interpreter := ⟨2 ^ 63 - 1, 2 ^ 31 - 1, fun _ _ n => .ok (decimal n)⟩

/-- A second attachment of the name `100%` is not created: `%_` is no conversion. -/
theorem percent_name_refused : ¬ ∀ fuel > 2, ∃ stored d' pub,
    (Document.holding ⟨true, codes "100%"⟩).createAttachment plainInterpreter fuel
        ⟨true, codes "100%"⟩ (some ()) ⟨false, codes "text/plain"⟩ true =
          some (.ok (d', pub)) ∧
      Created (Document.holding ⟨true, codes "100%"⟩) ⟨true, codes "100%"⟩ (some ())
        ⟨false, codes "text/plain"⟩ stored d' pub := by
  intro h
  obtain ⟨stored, d', pub, hok, -⟩ := h 3 (by decide)
  have hformat : format plainInterpreter (PyString.template ⟨true, codes "100%"⟩) [1] =
      .error (.unsupported (code '_')) := rfl
  rw [Document.createAttachment, if_pos (by decide), Document.freshName, if_pos (by decide),
    hformat] at hok
  cases hok

end Feat.Database.Attachments
