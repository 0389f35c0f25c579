import Mathlib.Data.List.Basic

/- Percent-encoding of bytes, as in the paths and queries of addresses. Bytes are
   characters below 256.

   A byte that is not kept is written as a percent sign and two hexadecimal digits
   (`quote`). `unquote` splits at the percent signs and reads the two characters after
   each of them, where they are digits. What is quoted is read back, whatever bytes are
   kept, unless the percent sign is one of them (`unquote_quote`). With `quotePlus` a
   blank is written as a plus sign, which then must not be kept either
   (`unquotePlus_quotePlus`). Parts that are joined by a separator which is not kept can
   be told apart (`mem_quote`). -/
namespace Quoting

def hexDigits : List Char := "0123456789ABCDEF".toList

def hexDigit (n : Nat) : Char := hexDigits.getD n '0'

/-- The value of a hexadecimal digit, in upper or lower case. -/
def hexValue (c : Char) : Option Nat :=
  if '0' ≤ c ∧ c ≤ '9' then some (c.toNat - '0'.toNat)
  else if 'A' ≤ c ∧ c ≤ 'F' then some (c.toNat - 'A'.toNat + 10)
  else if 'a' ≤ c ∧ c ≤ 'f' then some (c.toNat - 'a'.toNat + 10)
  else none

/-- A byte as a percent sign and its two digits. -/
def escape (c : Char) : List Char := ['%', hexDigit (c.toNat / 16), hexDigit (c.toNat % 16)]

def quote (keep : Char → Bool) (s : List Char) : List Char :=
  s.flatMap fun c => if keep c then [c] else escape c

/-- What follows a percent sign: the byte of the two digits and the rest, or, where there are
    no two digits, the percent sign itself. -/
def unescape : List Char → List Char
  | h :: l :: rest => match hexValue h, hexValue l with
    | some a, some b => Char.ofNat (16 * a + b) :: rest
    | _, _ => '%' :: h :: l :: rest
  | item => '%' :: item

/-- The first piece as it is, and the others each after a percent sign. -/
def joinPieces : List (List Char) → List Char
  | [] => []
  | piece :: pieces => piece ++ pieces.flatMap unescape

def unquote (s : List Char) : List Char := joinPieces (s.splitOn '%')

/-- Blanks as plus signs. -/
def quotePlus (keep : Char → Bool) (s : List Char) : List Char :=
  if ' ' ∈ s then
    (quote (fun c => keep c || c = ' ') s).map fun c => if c = ' ' then '+' else c
  else quote keep s

def unquotePlus (s : List Char) : List Char :=
  unquote (s.map fun c => if c = '+' then ' ' else c)

variable {keep : Char → Bool} {s : List Char}

/-! ## Digits -/

theorem hexValue_hexDigit : ∀ n < 16, hexValue (hexDigit n) = some n := by decide +kernel

theorem hexDigit_mem : ∀ n < 16, hexDigit n ∈ hexDigits := by decide +kernel

theorem hexDigit_of_byte {c : Char} (hc : c.toNat < 256) :
    hexDigit (c.toNat / 16) ∈ hexDigits ∧ hexDigit (c.toNat % 16) ∈ hexDigits :=
  ⟨hexDigit_mem _ (by omega), hexDigit_mem _ (by omega)⟩

theorem ne_percent_of_mem {c : Char} (h : c ∈ hexDigits) : c ≠ '%' := by
  rintro rfl
  revert h
  decide

/-- A byte is read back from its digits. -/
theorem unescape_digits {c : Char} (hc : c.toNat < 256) (rest : List Char) :
    unescape (hexDigit (c.toNat / 16) :: hexDigit (c.toNat % 16) :: rest) = c :: rest := by
  have hvalue : 16 * (c.toNat / 16) + c.toNat % 16 = c.toNat := Nat.div_add_mod c.toNat 16
  unfold unescape
  dsimp only
  rw [hexValue_hexDigit _ (by omega), hexValue_hexDigit _ (by omega)]
  dsimp only
  rw [hvalue, Char.ofNat_toNat]

/-! ## Reading back -/

theorem unquote_cons {c : Char} (hc : c ≠ '%') (s : List Char) :
    unquote (c :: s) = c :: unquote s := by
  unfold unquote
  rw [List.splitOn_cons_eq_if_modifyHead, if_neg (by simpa using hc)]
  obtain ⟨piece, pieces, h⟩ := List.exists_cons_of_ne_nil (List.splitOn_ne_nil '%' s)
  rw [h]
  rfl

theorem unquote_escape {c : Char} (hc : c.toNat < 256) (s : List Char) :
    unquote (escape c ++ s) = c :: unquote s := by
  obtain ⟨hhigh, hlow⟩ := hexDigit_of_byte hc
  unfold unquote escape
  -- the digits are the first two characters of the piece after the percent sign
  simp only [List.cons_append, List.nil_append]
  rw [List.splitOn_cons_eq_if_modifyHead, if_pos (by simp), List.splitOn_cons_eq_if_modifyHead,
    if_neg (by simpa using ne_percent_of_mem hhigh), List.splitOn_cons_eq_if_modifyHead,
    if_neg (by simpa using ne_percent_of_mem hlow)]
  obtain ⟨piece, pieces, h⟩ := List.exists_cons_of_ne_nil (List.splitOn_ne_nil '%' s)
  rw [h]
  simp only [joinPieces, List.modifyHead_cons, List.flatMap_cons, List.nil_append]
  rw [unescape_digits hc]
  rfl

theorem unquote_quote (hpercent : keep '%' = false) (hs : ∀ c ∈ s, c.toNat < 256) :
    unquote (quote keep s) = s := by
  induction s with
  | nil => rfl
  | cons c s ih =>
    have hrest := ih fun c' hc' => hs c' (by simp [hc'])
    unfold quote at hrest ⊢
    rw [List.flatMap_cons]
    split
    · rename_i hc
      have hne : c ≠ '%' := by
        rintro rfl
        rw [hpercent] at hc
        cases hc
      rw [List.singleton_append, unquote_cons hne, hrest]
    · rw [unquote_escape (hs c (by simp)), hrest]

/-- What is written is a byte that is kept, a percent sign or a digit. -/
theorem mem_quote {c : Char} (hs : ∀ c ∈ s, c.toNat < 256) (h : c ∈ quote keep s) :
    keep c = true ∨ c = '%' ∨ c ∈ hexDigits := by
  obtain ⟨c', hc', hin⟩ := List.mem_flatMap.mp h
  split at hin
  · rename_i hkeep
    rw [List.mem_singleton.mp hin]
    exact .inl hkeep
  · obtain ⟨hhigh, hlow⟩ := hexDigit_of_byte (hs c' hc')
    have hcases : c = '%' ∨ c = hexDigit (c'.toNat / 16) ∨ c = hexDigit (c'.toNat % 16) := by
      simpa [escape] using hin
    obtain rfl | rfl | rfl := hcases
    · exact .inr (.inl rfl)
    · exact .inr (.inr hhigh)
    · exact .inr (.inr hlow)

theorem map_swap {a b : Char} {t : List Char} (hb : b ∉ t) :
    (t.map fun c => if c = a then b else c).map (fun c => if c = b then a else c) = t := by
  rw [List.map_map]
  conv_rhs => rw [← List.map_id t]
  apply List.map_congr_left
  intro c hc
  have hne : c ≠ b := fun he => hb (he ▸ hc)
  by_cases hca : c = a
  · simp [hca]
  · simp [hca, hne]

/-- No plus sign is written where it is not kept. -/
theorem plus_not_mem (hs : ∀ c ∈ s, c.toNat < 256) (hplus : keep '+' = false) :
    '+' ∉ quote keep s := by
  intro h
  obtain h | h | h := mem_quote hs h
  · rw [hplus] at h
    cases h
  · cases h
  · revert h
    decide

theorem unquotePlus_quotePlus (hpercent : keep '%' = false) (hplus : keep '+' = false)
    (hs : ∀ c ∈ s, c.toNat < 256) : unquotePlus (quotePlus keep s) = s := by
  unfold unquotePlus quotePlus
  split
  · have hno : '+' ∉ quote (fun c => keep c || c = ' ') s := plus_not_mem hs (by simp [hplus])
    rw [map_swap hno]
    exact unquote_quote (by simp [hpercent]) hs
  · have hno := plus_not_mem hs hplus
    have hsame : (quote keep s).map (fun c => if c = '+' then ' ' else c) = quote keep s := by
      conv_rhs => rw [← List.map_id (quote keep s)]
      apply List.map_congr_left
      intro c hc
      have hne : c ≠ '+' := fun he => hno (he ▸ hc)
      simp [hne]
    rw [hsame]
    exact unquote_quote hpercent hs

theorem mem_quotePlus {c : Char} (hs : ∀ c ∈ s, c.toNat < 256) (h : c ∈ quotePlus keep s) :
    keep c = true ∨ c = '%' ∨ c = '+' ∨ c ∈ hexDigits := by
  unfold quotePlus at h
  split at h
  · obtain ⟨c', hc', rfl⟩ := List.mem_map.mp h
    split
    · exact .inr (.inr (.inl rfl))
    · rename_i hne
      obtain hk | hp | hd := mem_quote hs hc'
      · exact .inl (by simpa [hne] using hk)
      · exact .inr (.inl hp)
      · exact .inr (.inr (.inr hd))
  · obtain hk | hp | hd := mem_quote hs h
    · exact .inl hk
    · exact .inr (.inl hp)
    · exact .inr (.inr (.inr hd))

end Quoting
