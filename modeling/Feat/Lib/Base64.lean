import Mathlib

/- Base64, as Python's codec of this name writes and reads it: four characters for three
   bytes, lines of 76 characters, and a reader that skips what is not of the alphabet and
   stops at the padding.

   Reading what was written gives it back (`decode_encode`). -/
namespace Base64

def alphabet : List Char :=
  ['A', 'B', 'C', 'D', 'E', 'F', 'G', 'H', 'I', 'J', 'K', 'L', 'M', 'N', 'O', 'P', 'Q', 'R', 'S',
    'T', 'U', 'V', 'W', 'X', 'Y', 'Z', 'a', 'b', 'c', 'd', 'e', 'f', 'g', 'h', 'i', 'j', 'k', 'l',
    'm', 'n', 'o', 'p', 'q', 'r', 's', 't', 'u', 'v', 'w', 'x', 'y', 'z', '0', '1', '2', '3', '4',
    '5', '6', '7', '8', '9', '+', '/']

/-- The character of a number below 64. -/
def digit (n : Nat) : Char := alphabet.getD n 'A'

/-- The number of a character of the alphabet. -/
def sextet (c : Char) : Option Nat := alphabet.idxOf? c

/-- What is written after `k` groups of the line. -/
def encodeFrom : Nat → List UInt8 → List Char
  | _, [] => []
  | _, [a] => [digit (a.toNat / 4), digit (a.toNat % 4 * 16), '=', '=']
  | _, [a, b] =>
    [digit (a.toNat / 4), digit (a.toNat % 4 * 16 + b.toNat / 16), digit (b.toNat % 16 * 4), '=']
  | k, a :: b :: c :: rest =>
    digit (a.toNat / 4) :: digit (a.toNat % 4 * 16 + b.toNat / 16) ::
      digit (b.toNat % 16 * 4 + c.toNat / 64) :: digit (c.toNat % 64) ::
        if k = 18 ∧ rest ≠ [] then '\n' :: encodeFrom 0 rest else encodeFrom (k + 1) rest

/-- The text for some bytes, without the line end behind it. -/
def encode (bytes : List UInt8) : List Char := encodeFrom 0 bytes

/-- The next character that is not skipped. -/
def nextValid : List Char → Option Char
  | [] => none
  | c :: rest => if c = '=' ∨ (sextet c).isSome then some c else nextValid rest

/-- What is read after `quad` characters of a group, with `bits` bits `left` that are not in a byte
    yet. -/
def decodeFrom (quad left bits : Nat) : List Char → Option (List UInt8)
  | [] => if bits = 0 then some [] else none
  | c :: rest =>
    if c = '=' then
      if quad < 2 ∨ (quad = 2 ∧ nextValid rest ≠ some '=') then decodeFrom quad left bits rest
      else some []
    else
      match sextet c with
      | none => decodeFrom quad left bits rest
      | some n =>
        if 8 ≤ bits + 6 then
          (decodeFrom ((quad + 1) % 4) ((left * 64 + n) % 2 ^ (bits - 2)) (bits - 2) rest).map
            (UInt8.ofNat ((left * 64 + n) / 2 ^ (bits - 2)) :: ·)
        else decodeFrom ((quad + 1) % 4) (left * 64 + n) (bits + 6) rest

/-- The bytes of a text, if its padding is right. -/
def decode (text : List Char) : Option (List UInt8) := decodeFrom 0 0 0 text

theorem sextet_digit {n : Nat} (h : n < 64) : sextet (digit n) = some n := by
  have hall : ∀ n, n < 64 → sextet (digit n) = some n := by decide
  exact hall n h

theorem digit_ne_pad {n : Nat} (h : n < 64) : digit n ≠ '=' := by
  have hall : ∀ n, n < 64 → digit n ≠ '=' := by decide
  exact hall n h

theorem decodeFrom_digit {quad left bits n : Nat} {rest : List Char} (h : n < 64) :
    decodeFrom quad left bits (digit n :: rest) =
      if 8 ≤ bits + 6 then
        (decodeFrom ((quad + 1) % 4) ((left * 64 + n) % 2 ^ (bits - 2)) (bits - 2) rest).map
          (UInt8.ofNat ((left * 64 + n) / 2 ^ (bits - 2)) :: ·)
      else decodeFrom ((quad + 1) % 4) (left * 64 + n) (bits + 6) rest := by
  simp only [decodeFrom, if_neg (digit_ne_pad h), sextet_digit h]

theorem decodeFrom_newline (quad left bits : Nat) (rest : List Char) :
    decodeFrom quad left bits ('\n' :: rest) = decodeFrom quad left bits rest := by
  have hskip : sextet '\n' = none := by decide
  simp [decodeFrom, hskip]

theorem byte_eq {a : UInt8} {n : Nat} (h : n = a.toNat) : UInt8.ofNat n = a := by
  rw [h, UInt8.ofNat_toNat]

/-- The byte made of the first two characters of a group. -/
theorem first_byte (a : UInt8) {n : Nat} (h : n < 16) :
    UInt8.ofNat ((a.toNat / 4 * 64 + (a.toNat % 4 * 16 + n)) / 16) = a :=
  byte_eq (by omega)

theorem second_byte (b : UInt8) {n : Nat} (h : n < 4) :
    UInt8.ofNat ((b.toNat / 16 * 64 + (b.toNat % 16 * 4 + n)) / 4) = b :=
  byte_eq (by omega)

theorem third_byte (c : UInt8) : UInt8.ofNat (c.toNat / 64 * 64 + c.toNat % 64) = c :=
  byte_eq (by omega)

theorem decodeFrom_group (a b c : UInt8) (rest : List Char) :
    decodeFrom 0 0 0 (digit (a.toNat / 4) :: digit (a.toNat % 4 * 16 + b.toNat / 16) ::
      digit (b.toNat % 16 * 4 + c.toNat / 64) :: digit (c.toNat % 64) :: rest) =
        (decodeFrom 0 0 0 rest).map (a :: b :: c :: ·) := by
  have ha := a.toNat_lt
  have hb := b.toNat_lt
  have hc := c.toNat_lt
  have hleft : (a.toNat / 4 * 64 + (a.toNat % 4 * 16 + b.toNat / 16)) % 16 = b.toNat / 16 := by
    omega
  have hleft' : (b.toNat / 16 * 64 + (b.toNat % 16 * 4 + c.toNat / 64)) % 4 = c.toNat / 64 := by
    omega
  rw [decodeFrom_digit (by omega), if_neg (by omega), decodeFrom_digit (by omega),
    if_pos (by omega), decodeFrom_digit (by omega), if_pos (by omega), decodeFrom_digit (by omega),
    if_pos (by omega)]
  simp only [Nat.zero_mul, Nat.zero_add, Nat.reduceAdd, Nat.reduceSub, Nat.reducePow, Nat.reduceMod,
    hleft, hleft', Nat.mod_one, Nat.div_one, first_byte a (n := b.toNat / 16) (by omega),
    second_byte b (n := c.toNat / 64) (by omega), third_byte, Option.map_map]
  rfl

theorem decodeFrom_encodeFrom (k : Nat) (bytes : List UInt8) :
    decodeFrom 0 0 0 (encodeFrom k bytes) = some bytes := by
  induction k, bytes using encodeFrom.induct with
  | case1 k => rfl
  | case2 k a =>
    have ha := a.toNat_lt
    have hbyte := first_byte a (n := 0) (by omega)
    rw [Nat.add_zero] at hbyte
    rw [encodeFrom, decodeFrom_digit (by omega), if_neg (by omega), decodeFrom_digit (by omega),
      if_pos (by omega)]
    simp [decodeFrom, nextValid, hbyte]
  | case3 k a b =>
    have ha := a.toNat_lt
    have hb := b.toNat_lt
    have hleft : (a.toNat / 4 * 64 + (a.toNat % 4 * 16 + b.toNat / 16)) % 16 = b.toNat / 16 := by
      omega
    have hbyte := second_byte b (n := 0) (by omega)
    rw [Nat.add_zero] at hbyte
    rw [encodeFrom, decodeFrom_digit (by omega), if_neg (by omega), decodeFrom_digit (by omega),
      if_pos (by omega), decodeFrom_digit (by omega), if_pos (by omega)]
    simp [decodeFrom, hleft, hbyte, first_byte a (n := b.toNat / 16) (by omega)]
  | case4 k a b c rest ih ih' =>
    rw [encodeFrom, decodeFrom_group]
    split
    · rw [decodeFrom_newline, ih]
      rfl
    · rw [ih']
      rfl

theorem decode_encode (bytes : List UInt8) : decode (encode bytes) = some bytes :=
  decodeFrom_encodeFrom 0 bytes

theorem digit_ascii (n : Nat) : (digit n).toNat < 128 := by
  by_cases h : n < 64
  · have hall : ∀ n, n < 64 → (digit n).toNat < 128 := by decide
    exact hall n h
  · rw [digit, List.getD_eq_default _ _ (by simpa [alphabet] using h)]
    decide

/-- What is written is ASCII. -/
theorem encodeFrom_ascii (k : Nat) (bytes : List UInt8) :
    ∀ c ∈ encodeFrom k bytes, c.toNat < 128 := by
  have hnewline : '\n'.toNat < 128 := by decide
  induction k, bytes using encodeFrom.induct with
  | case1 k => simp [encodeFrom]
  | case2 k a => simp [encodeFrom, digit_ascii]
  | case3 k a b => simp [encodeFrom, digit_ascii]
  | case4 k a b c rest ih ih' =>
    rw [encodeFrom]
    split
    · simpa [digit_ascii, hnewline] using ih
    · simpa [digit_ascii] using ih'

end Base64
