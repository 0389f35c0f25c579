import Mathlib
import Feat.Lib.Base64

/- How values are written in JSON (`feat.common.serialization.json`): the pack functions of
   `PreSerializer`, and how `Unserializer` takes the document apart again.

   JSON has lists, objects, strings and numbers only. Whatever else there is becomes a list
   that starts with a reserved word, or an object with a reserved key, and what user data
   start with or have as a key is written as it is.

   A `Datum` is what the serializer has flattened and what the unserializer calls for: a
   reference, an instance or a type stands for the call that restores it. The text that
   `json.dumps` makes of a document is not looked into. -/
namespace Feat.Serialization

/-- A value of `json`. Numbers that are no integers, booleans and `None` are scalars. -/
inductive Json (A : Type) where
  | scalar (value : A)
  | int (value : Int)
  | string (value : String)
  | list (items : List (Json A))
  | object (items : List (String × Json A))

/-- A flattened value. Byte strings are lists of bytes. -/
inductive Datum (A : Type) where
  | scalar (value : A)
  | int (value : Int)
  | unicode (value : String)
  | str (value : List UInt8)
  | tuple (items : List (Datum A))
  | list (items : List (Datum A))
  | set (items : List (Datum A))
  | dict (items : List (List UInt8 × Datum A))
  | enum (typeName name : String)
  | type (name : Json A)
  | function (name : Json A)
  | external (identifier : Datum A)
  | reference (refid : Json A) (value : Datum A)
  | dereference (refid : Json A)
  | instanceOf (typeName : Json A) (snapshot : Datum A)

inductive Fault where
  | unicodeDecodeError
  | unicodeEncodeError
  | assertionError
  | attributeError
  | valueError
  | typeError
  | indexError
  | base64Error
  deriving DecidableEq

/-- The reserved words. -/
inductive Atom where
  | tuple
  | bytes
  | encoded
  | set
  | enum
  | type
  | external
  | reference
  | dereference
  | function
  deriving DecidableEq

def Atom.word : Atom → String
  | .tuple => ".tuple"
  | .bytes => ".bytes"
  | .encoded => ".enc"
  | .set => ".set"
  | .enum => ".enum"
  | .type => ".type"
  | .external => ".ext"
  | .reference => ".ref"
  | .dereference => ".deref"
  | .function => ".function"

/-- `_list_unpackers`. -/
def atom? (word : String) : Option Atom :=
  if word = ".tuple" then some .tuple
  else if word = ".bytes" then some .bytes
  else if word = ".enc" then some .encoded
  else if word = ".set" then some .set
  else if word = ".enum" then some .enum
  else if word = ".type" then some .type
  else if word = ".ext" then some .external
  else if word = ".ref" then some .reference
  else if word = ".deref" then some .dereference
  else if word = ".function" then some .function
  else none

/-- `INSTANCE_TYPE_ATOM`. -/
def instanceTypeAtom : String := ".type"

/-- `INSTANCE_STATE_ATOM`. -/
def instanceStateAtom : String := ".state"

/-- `ALLOWED_CODECS`. -/
def allowedCodecs : List String := ["UTF8", "UTF-8", "utf8"]

/-- `decode("UTF8")` of a byte string. -/
def utf8Decode (bytes : List UInt8) : Option String := String.fromUTF8? ⟨bytes.toArray⟩

/-- `encode("UTF8")` of a unicode string. -/
def utf8Encode (text : String) : List UInt8 := text.toUTF8.data.toList

variable {A : Type}

/-! ## Writing -/

/-- `pack_str`: bytes that are no UTF-8 are written in base 64. -/
def packStr (data : List UInt8) : Json A :=
  match utf8Decode data with
  | some value => .list [.string (Atom.word .encoded), .string "UTF8", .string value]
  | none => .list [.string (Atom.word .bytes), .string (String.ofList (Base64.encode data))]

/-- A list that starts with a reserved word. -/
def marked (atom : Atom) (items : List (Json A)) : Json A := .list (.string atom.word :: items)

/-- `canonical_name(data) + "." + data.name`. -/
def fullName (typeName name : String) : String := typeName ++ "." ++ name

/-- `pack_instance`, for a snapshot that is packed already. -/
def packInstance (typeName : Json A) : Json A → Except Fault (Json A)
  | .object items =>
    if items.any (fun item => item.1 = instanceTypeAtom ∨ item.1 = instanceStateAtom) then
      .error .assertionError
    else .ok (.object (items ++ [(instanceTypeAtom, typeName)]))
  | snapshot => .ok (.object [(instanceTypeAtom, typeName), (instanceStateAtom, snapshot)])

mutual
/-- `pack_value`, with the pack functions of `PreSerializer`. -/
def pack : Datum A → Except Fault (Json A)
  | .scalar value => .ok (.scalar value)
  | .int value => .ok (.int value)
  | .unicode value => .ok (.string value)
  | .str value => .ok (packStr value)
  | .tuple items => (packAll items).map (marked .tuple)
  | .list items => (packAll items).map .list
  | .set items => (packAll items).map (marked .set)
  | .dict items => (packItems items).map .object
  | .enum typeName name => .ok (marked .enum [.string (fullName typeName name)])
  | .type name => .ok (marked .type [name])
  | .function name => .ok (marked .function [name])
  | .external identifier => (pack identifier).map (fun packed => marked .external [packed])
  | .reference refid value => (pack value).map (fun packed => marked .reference [refid, packed])
  | .dereference refid => .ok (marked .dereference [refid])
  | .instanceOf typeName snapshot => (pack snapshot).bind (packInstance typeName)

def packAll : List (Datum A) → Except Fault (List (Json A))
  | [] => .ok []
  | item :: items => (pack item).bind fun packed => (packAll items).map (packed :: ·)

/-- `flatten_key` decodes the keys of a dictionary. -/
def packItems : List (List UInt8 × Datum A) → Except Fault (List (String × Json A))
  | [] => .ok []
  | (key, value) :: items =>
    match utf8Decode key with
    | some text => (pack value).bind fun packed => (packItems items).map ((text, packed) :: ·)
    | none => .error .unicodeDecodeError
end

/-! ## Reading -/

/-- The name before the last dot and the one behind it. -/
def splitName (fullName : String) : String × String :=
  let parts := fullName.toList.reverse
  (String.ofList ((parts.dropWhile (· ≠ '.')).tail.reverse),
    String.ofList (parts.takeWhile (· ≠ '.')).reverse)

/-- `unpack_enum`. -/
def unpackEnum : List (Json A) → Except Fault (Datum A)
  | [.string full] => .ok (.enum (splitName full).1 (splitName full).2)
  | [_] => .error .attributeError
  | _ => .error .valueError

/-- `unpack_encoded`. -/
def unpackEncoded : List (Json A) → Except Fault (Datum A)
  | [.string codec, .string bytes] =>
    if codec ∈ allowedCodecs then .ok (.str (utf8Encode bytes)) else .error .valueError
  | [.string codec, _] =>
    if codec ∈ allowedCodecs then .error .attributeError else .error .valueError
  | [.list _, _] => .error .typeError
  | [.object _, _] => .error .typeError
  | _ => .error .valueError

/-- `unpack_bytes`. The text is taken as ASCII. -/
def unpackBytes : List (Json A) → Except Fault (Datum A)
  | [.string text] =>
    if text.toList.all (fun c => c.toNat < 128) then
      match Base64.decode text.toList with
      | some bytes => .ok (.str bytes)
      | none => .error .base64Error
    else .error .unicodeEncodeError
  | [_] => .error .attributeError
  | _ => .error .valueError

/-- `unpack_type`. -/
def unpackType : List (Json A) → Except Fault (Datum A)
  | [name] => .ok (.type name)
  | _ => .error .valueError

/-- `unpack_function`. -/
def unpackFunction : List (Json A) → Except Fault (Datum A)
  | name :: _ => .ok (.function name)
  | [] => .error .indexError

/-- `unpack_dereference`. -/
def unpackDereference : List (Json A) → Except Fault (Datum A)
  | [refid] => .ok (.dereference refid)
  | _ => .error .valueError

mutual
/-- `unpack_data`, with `analyse_data` and the unpack functions. -/
def unpack : Json A → Except Fault (Datum A)
  | .scalar value => .ok (.scalar value)
  | .int value => .ok (.int value)
  | .string value => .ok (.unicode value)
  | .object items =>
    match (items.find? (fun item => item.1 = instanceTypeAtom)).map Prod.snd with
    | some typeName =>
      match unpackState items with
      | some state => state.map (.instanceOf typeName)
      | none => (unpackItems items).map fun rest => .instanceOf typeName (.dict rest)
    | none => (unpackItems items).map .dict
  | .list [] => .ok (.list [])
  | .list (.string key :: items) =>
    match atom? key with
    | none => (unpackAll items).map fun rest => .list (.unicode key :: rest)
    | some .tuple => (unpackAll items).map .tuple
    | some .set => (unpackAll items).map .set
    | some .bytes => unpackBytes items
    | some .encoded => unpackEncoded items
    | some .enum => unpackEnum items
    | some .type => unpackType items
    | some .function => unpackFunction items
    | some .external => unpackExternal items
    | some .reference => unpackReference items
    | some .dereference => unpackDereference items
  | .list (item :: items) =>
    (unpack item).bind fun first => (unpackAll items).map fun rest => .list (first :: rest)

/-- `unpack_external`. -/
def unpackExternal : List (Json A) → Except Fault (Datum A)
  | [identifier] => (unpack identifier).map .external
  | _ => .error .valueError

/-- `unpack_reference`. -/
def unpackReference : List (Json A) → Except Fault (Datum A)
  | [refid, value] => (unpack value).map (.reference refid)
  | _ => .error .valueError

def unpackAll : List (Json A) → Except Fault (List (Datum A))
  | [] => .ok []
  | item :: items => (unpack item).bind fun first => (unpackAll items).map (first :: ·)

/-- `unpack_dict`. The type of an instance is taken out before. -/
def unpackItems : List (String × Json A) → Except Fault (List (List UInt8 × Datum A))
  | [] => .ok []
  | (key, value) :: items =>
    if key = instanceTypeAtom then unpackItems items
    else (unpack value).bind fun first => (unpackItems items).map ((utf8Encode key, first) :: ·)

/-- The snapshot of an instance that is not a dictionary. -/
def unpackState : List (String × Json A) → Option (Except Fault (Datum A))
  | [] => none
  | (key, value) :: items =>
    if key = instanceStateAtom then some (unpack value) else unpackState items
end

/-! ## What is read back as it was -/

mutual
/-- No list starts with a reserved word, no dictionary has the key of the type of an instance, and
    no name of a member of an enumeration has a dot. -/
def Datum.Clear : Datum A → Prop
  | .tuple items => AllClear items
  | .list items => (∀ word rest, items = .unicode word :: rest → atom? word = none) ∧ AllClear items
  | .set items => AllClear items
  | .dict items => (∀ item ∈ items, utf8Decode item.1 ≠ some instanceTypeAtom) ∧ ItemsClear items
  | .enum _ name => '.' ∉ name.toList
  | .external identifier => identifier.Clear
  | .reference _ value => value.Clear
  | .instanceOf _ snapshot => snapshot.Clear
  | _ => True

def AllClear : List (Datum A) → Prop
  | [] => True
  | item :: items => item.Clear ∧ AllClear items

def ItemsClear : List (List UInt8 × Datum A) → Prop
  | [] => True
  | (_, value) :: items => value.Clear ∧ ItemsClear items
end

end Feat.Serialization
