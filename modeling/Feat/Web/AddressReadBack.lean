import Mathlib.Data.List.DropRight
import Feat.Lib.Fallible
import Feat.Web.Address

/- What is composed to an address is read back.

   An address is split at the first delimiter of each kind, so that parts that do not run into
   each other (`Apart`) come out again, in the form that parsing gives them (`Settled`). A host is
   the longest part of what is between user, brackets and port (`hostname_length`): where one of
   these is cut off, the host has changed. `parse_compose_iff` and `append_parse_iff` are the two
   directions of `addresses_read_back`. -/
namespace Feat.Web.Address
open HttpServer (Bytes lower isSpace strip)
open Http (parseInt digits)
open Fallible (ok_of_bind)

/-! ## What is composed -/

/-- A port as it is written. -/
def writtenPort (port : Nat) : Bytes :=
  if port = 0 ∨ port = 80 then [] else ':' :: Nat.toDigits 10 port

/-- A query as it is written. -/
def writtenQuery (query : Bytes) : Bytes := if query = [] then [] else '?' :: query

theorem compose_eq (scheme : Schemes) (host : Bytes) (port : Nat) (path query : Bytes) :
    compose (some path) (some query) (some host) (some port) (some scheme) =
      scheme.name ++ ':' :: '/' :: '/' :: (host ++ writtenPort port ++ path ++
        writtenQuery query) := by
  show scheme.name ++ "://".toList ++ host ++ writtenPort port ++ path ++ writtenQuery query = _
  simp

/-- White space at the end. -/
def rstrip (s : Bytes) : Bytes := s.rdropWhile isSpace

theorem rstrip_append_cons (a b : Bytes) {c : Char} (hc : isSpace c = false) :
    rstrip (a ++ c :: b) = a ++ c :: rstrip b := by
  unfold rstrip
  induction b using List.reverseRecOn with
  | nil => exact List.rdropWhile_concat_neg isSpace a c (by simp [hc])
  | append_singleton b d ih =>
    by_cases hd : isSpace d
    · have hleft : a ++ c :: (b ++ [d]) = a ++ c :: b ++ [d] := by simp
      rw [hleft, List.rdropWhile_concat_pos isSpace _ d hd, ih,
        List.rdropWhile_concat_pos isSpace _ d hd]
    · have hleft : a ++ c :: (b ++ [d]) = a ++ c :: b ++ [d] := by simp
      rw [hleft, List.rdropWhile_concat_neg isSpace _ d hd,
        List.rdropWhile_concat_neg isSpace _ d hd]
      simp

theorem strip_address (scheme : Schemes) (x : Bytes) :
    strip (scheme.name ++ ':' :: '/' :: '/' :: x) =
      scheme.name ++ ':' :: '/' :: '/' :: rstrip x := by
  have hstart : (scheme.name ++ ':' :: '/' :: '/' :: x).dropWhile isSpace =
      (scheme.name ++ [':', '/']) ++ '/' :: x := by
    cases scheme with
    | HTTP => simp [Schemes.name, isSpace]
    | HTTPS => simp [Schemes.name, isSpace]
  show rstrip ((scheme.name ++ ':' :: '/' :: '/' :: x).dropWhile isSpace) = _
  rw [hstart, rstrip_append_cons _ _ (by decide)]
  simp

theorem splitScheme_address (scheme : Schemes) (x : Bytes) :
    splitScheme (scheme.name ++ ':' :: '/' :: '/' :: x) = (scheme.name, '/' :: '/' :: x) := by
  cases scheme with
  | HTTP => simp [splitScheme, before, after, Schemes.name]
  | HTTPS =>
    simp [splitScheme, before, after, Schemes.name, isSchemeChar, lower]

/-- How an address is split that starts with its scheme and its host. -/
theorem urlsplit_address (scheme : Schemes) (x : Bytes) :
    urlsplit (scheme.name ++ ':' :: '/' :: '/' :: x) =
      let netloc := x.takeWhile fun c => !delimits c
      let rest := x.dropWhile fun c => !delimits c
      if Unpaired netloc then .error .invalidIPv6
      else .ok ⟨scheme.name, netloc, before '?' (before '#' rest), after '?' (before '#' rest),
        after '#' rest⟩ := by
  unfold urlsplit
  rw [splitScheme_address]
  rfl

/-! ## Hosts and ports -/

section
variable {host : Bytes} {port : Nat} {parts : SplitResult}

theorem isDigit_of_mem {c : Char} (h : c ∈ Nat.toDigits 10 port) : c.isDigit = true :=
  Nat.isDigit_of_mem_toDigits (by omega) (by omega) h

/-- What is written of a port is a colon and digits. -/
theorem mem_writtenPort {c : Char} (h : c ∈ writtenPort port) : c = ':' ∨ c.isDigit = true := by
  unfold writtenPort at h
  split at h
  · cases h
  · obtain rfl | h := List.mem_cons.mp h
    · exact .inl rfl
    · exact .inr (isDigit_of_mem h)

theorem not_mem_writtenPort {c : Char} (hcolon : c ≠ ':') (hdigit : c.isDigit = false) :
    c ∉ writtenPort port := by
  intro h
  obtain rfl | h := mem_writtenPort h
  · exact hcolon rfl
  · rw [hdigit] at h
    cases h

theorem delimits_writtenPort {c : Char} (h : c ∈ writtenPort port) : delimits c = false := by
  have hne : ∀ d, d ≠ ':' → d.isDigit = false → c ≠ d := by
    rintro d hcolon hdigit rfl
    exact not_mem_writtenPort hcolon hdigit h
  simp [delimits, hne '/' (by decide) (by decide), hne '?' (by decide) (by decide),
    hne '#' (by decide) (by decide)]

theorem mem_netloc {c : Char} (hcolon : c ≠ ':') (hdigit : c.isDigit = false) :
    c ∈ host ++ writtenPort port ↔ c ∈ host := by
  rw [List.mem_append]
  exact or_iff_left (not_mem_writtenPort hcolon hdigit)

/-- What is after the last separator. -/
theorem afterLast_of_not_mem {c : Char} {s : Bytes} (h : c ∉ s) : afterLast c s = s := by
  unfold afterLast
  rw [List.splitOn_eq_splitOnP, List.splitOnP_eq_singleton]
  · rfl
  · intro d hd
    have hne : d ≠ c := fun he => h (he ▸ hd)
    simpa using hne

theorem afterLast_append {c : Char} {s t : Bytes} (hs : c ∈ s) (ht : c ∉ t) :
    ∃ r, afterLast c (s ++ t) = r ++ t ∧ r.length < s.length ∧ r ⊆ s := by
  obtain ⟨b, a, hrev, hb⟩ := List.eq_append_cons_of_mem (List.mem_reverse.mpr hs)
  have hsplit : s = a.reverse ++ c :: b.reverse := by
    rw [← List.reverse_reverse s, hrev]
    simp
  have hlast : c ∉ b.reverse ++ t := by
    intro h
    obtain h | h := List.mem_append.mp h
    · exact hb (List.mem_reverse.mp h)
    · exact ht h
  have hwhole : (b.reverse ++ t).splitOnP (· == c) = [b.reverse ++ t] := by
    apply List.splitOnP_eq_singleton
    intro d hd
    have hne : d ≠ c := fun he => hlast (he ▸ hd)
    simpa using hne
  refine ⟨b.reverse, ?_, ?_, ?_⟩
  · unfold afterLast
    rw [hsplit, List.append_assoc, List.cons_append, List.splitOn_eq_splitOnP,
      List.splitOnP_append_cons _ _ (by simp), hwhole]
    simp
  · rw [hsplit]
    simp
    omega
  · rw [hsplit]
    intro d hd
    simp only [List.mem_append, List.mem_cons]
    exact .inr (.inr hd)

theorem ne_of_not_mem {c : Char} {s : Bytes} (hs : c ∉ s) : ∀ d ∈ s, decide (d ≠ c) = true := by
  intro d hd
  have hne : d ≠ c := fun he => hs (he ▸ hd)
  simpa using hne

theorem before_of_not_mem {c : Char} {s : Bytes} (hs : c ∉ s) : before c s = s :=
  List.takeWhile_eq_self_iff.mpr (ne_of_not_mem hs)

theorem after_of_not_mem {c : Char} {s : Bytes} (hs : c ∉ s) : after c s = [] := by
  unfold after
  rw [List.dropWhile_eq_nil_iff.mpr (ne_of_not_mem hs)]
  rfl

theorem before_append_cons {c : Char} {s : Bytes} (hs : c ∉ s) (t : Bytes) :
    before c (s ++ c :: t) = s := by
  unfold before
  rw [List.takeWhile_append_of_pos (ne_of_not_mem hs)]
  simp

theorem after_append_cons {c : Char} {s : Bytes} (hs : c ∉ s) (t : Bytes) :
    after c (s ++ c :: t) = t := by
  unfold after
  rw [List.dropWhile_append_of_pos (ne_of_not_mem hs)]
  simp

theorem length_before {c : Char} {s : Bytes} (hs : c ∈ s) (t : Bytes) :
    (before c (s ++ t)).length < s.length := by
  obtain ⟨a, b, rfl, ha⟩ := List.eq_append_cons_of_mem hs
  have hbefore : before c (a ++ c :: b ++ t) = a := by
    rw [List.append_assoc, List.cons_append]
    exact before_append_cons ha _
  rw [hbefore]
  simp

theorem length_lower (s : Bytes) : (lower s).length = s.length := List.length_map _

/-- The name of a host with no colon is not longer than the host, and shorter where a part of
    it is cut off. -/
theorem hostname_length (hnet : parts.netloc = host ++ writtenPort port) (hcolon : ':' ∉ host)
    {name : Bytes} (h : parts.hostname = some name) : name.length ≤ host.length ∧
      ('@' ∈ host ∨ ('[' ∈ host ∧ ']' ∈ host) → name.length < host.length) := by
  -- what is left of the host when the user is cut off
  obtain ⟨left, hleft, hsub, hle, hlt⟩ : ∃ left, afterLast '@' parts.netloc =
      left ++ writtenPort port ∧ ':' ∉ left ∧ left.length ≤ host.length ∧
        (left.length < host.length ∨ ('@' ∉ host ∧ left = host)) := by
    have hno : '@' ∉ writtenPort port := not_mem_writtenPort (by decide) (by decide)
    rw [hnet]
    by_cases hat : '@' ∈ host
    · obtain ⟨r, hr, hlen, hsub⟩ := afterLast_append hat hno
      exact ⟨r, hr, fun hc => hcolon (hsub hc), hlen.le, .inl hlen⟩
    · refine ⟨host, afterLast_of_not_mem fun hin => ?_, hcolon, le_refl _, .inr ⟨hat, rfl⟩⟩
      exact hat ((mem_netloc (by decide) (by decide)).mp hin)
  unfold SplitResult.hostname at h
  rw [hleft] at h
  dsimp only at h
  split at h
  · rename_i hbrackets
    obtain rfl := Option.some.inj h
    have hclose : ']' ∈ left := (mem_netloc (by decide) (by decide)).mp hbrackets.2
    have hcut := length_before hclose (writtenPort port)
    rw [length_lower, List.length_drop]
    exact ⟨by omega, fun _ => by omega⟩
  · rename_i hbrackets
    have hname : name = lower left := by
      split at h
      · rename_i hport
        obtain rfl := Option.some.inj h
        unfold writtenPort at hport ⊢
        split
        · rename_i hnone
          rw [if_pos hnone, List.append_nil] at hport
          exact absurd hport hsub
        · rw [before_append_cons hsub]
      · rename_i hport
        split at h
        · cases h
        · obtain rfl := Option.some.inj h
          unfold writtenPort at hport ⊢
          split
          · rw [List.append_nil]
          · rename_i hsome
            rw [if_neg hsome] at hport
            exact absurd (by simp) hport
    rw [hname, length_lower]
    refine ⟨hle, fun hcut => ?_⟩
    obtain hlt | ⟨hat, rfl⟩ := hlt
    · exact hlt
    · obtain hin | ⟨hopen, hclose⟩ := hcut
      · exact absurd hin hat
      · exact absurd ⟨List.mem_append_left _ hopen, List.mem_append_left _ hclose⟩ hbrackets

/-- A host is as parsing gives it: in lower case, without user and brackets, and not left out
    where no port follows. -/
structure SettledHost (host : Bytes) (port : Nat) : Prop where
  lower : lower host = host
  user : '@' ∉ host
  opened : '[' ∉ host
  closed : ']' ∉ host
  given : host = [] → port ≠ 0 ∧ port ≠ 80

theorem writtenPort_eq_nil : writtenPort port = [] ↔ port = 0 ∨ port = 80 := by
  unfold writtenPort
  split
  · rename_i h
    exact iff_of_true rfl h
  · rename_i h
    exact iff_of_false (by simp) h

/-- The name of a host without user and brackets. -/
theorem hostname_plain (hnet : parts.netloc = host ++ writtenPort port) (hcolon : ':' ∉ host)
    (huser : '@' ∉ host) (hclosed : ']' ∉ host) :
    parts.hostname = if host = [] ∧ writtenPort port = [] then none else some (lower host) := by
  have hat : afterLast '@' parts.netloc = host ++ writtenPort port := by
    rw [hnet]
    exact afterLast_of_not_mem fun hin => huser ((mem_netloc (by decide) (by decide)).mp hin)
  unfold SplitResult.hostname
  rw [hat]
  dsimp only
  rw [if_neg fun h => hclosed ((mem_netloc (by decide) (by decide)).mp h.2)]
  by_cases hport : writtenPort port = []
  · rw [hport, List.append_nil, if_neg hcolon]
    simp
  · have hcons : writtenPort port = ':' :: Nat.toDigits 10 port := by
      unfold writtenPort at hport ⊢
      split
      · rename_i h
        rw [if_pos h] at hport
        exact absurd rfl hport
      · rfl
    rw [hcons, if_pos (by simp), before_append_cons hcolon]
    simp

/-- A host is read back if and only if it is as parsing gives it. -/
theorem hostname_eq_iff (hnet : parts.netloc = host ++ writtenPort port) (hcolon : ':' ∉ host) :
    (¬ Unpaired parts.netloc ∧ parts.hostname = some host) ↔ SettledHost host port := by
  have hopen : '[' ∈ parts.netloc ↔ '[' ∈ host := by
    rw [hnet]
    exact mem_netloc (by decide) (by decide)
  have hclose : ']' ∈ parts.netloc ↔ ']' ∈ host := by
    rw [hnet]
    exact mem_netloc (by decide) (by decide)
  constructor
  · rintro ⟨hpaired, hname⟩
    obtain ⟨-, hcut⟩ := hostname_length hnet hcolon hname
    have huser : '@' ∉ host := fun hin => (hcut (.inl hin)).ne rfl
    have hnoopen : '[' ∉ host := by
      intro hin
      by_cases hcl : ']' ∈ host
      · exact (hcut (.inr ⟨hin, hcl⟩)).ne rfl
      · exact hpaired (.inl ⟨hopen.mpr hin, fun h => hcl (hclose.mp h)⟩)
    have hnoclose : ']' ∉ host := fun hin =>
      hpaired (.inr ⟨hclose.mpr hin, fun h => hnoopen (hopen.mp h)⟩)
    rw [hostname_plain hnet hcolon huser hnoclose] at hname
    split at hname
    · cases hname
    · rename_i hgiven
      refine ⟨Option.some.inj hname, huser, hnoopen, hnoclose, fun hnil => ?_⟩
      rw [← not_or, ← writtenPort_eq_nil]
      exact fun hport => hgiven ⟨hnil, hport⟩
  · intro h
    refine ⟨fun hunpaired => ?_, ?_⟩
    · obtain ⟨hin, -⟩ | ⟨hin, -⟩ := hunpaired
      · exact h.opened (hopen.mp hin)
      · exact h.closed (hclose.mp hin)
    · rw [hostname_plain hnet hcolon h.user h.closed, if_neg, h.lower]
      rintro ⟨hnil, hport⟩
      obtain ⟨hzero, heighty⟩ := h.given hnil
      obtain hp | hp := writtenPort_eq_nil.mp hport
      · exact hzero hp
      · exact heighty hp

theorem isSpace_of_isDigit {c : Char} (h : c.isDigit = true) : isSpace c = false := by
  apply Bool.eq_false_iff.mpr
  intro hspace
  have hin : c ∈ [' ', '\t', '\n', '\r', '\x0b', '\x0c'] := List.contains_iff_mem.mp hspace
  simp only [List.mem_cons, List.not_mem_nil, or_false] at hin
  obtain rfl | rfl | rfl | rfl | rfl | rfl := hin <;> cases h

theorem strip_digits : strip (Nat.toDigits 10 port) = Nat.toDigits 10 port := by
  have hno : ∀ c ∈ Nat.toDigits 10 port, isSpace c = false := fun c hc =>
    isSpace_of_isDigit (isDigit_of_mem hc)
  have hstart : (Nat.toDigits 10 port).dropWhile isSpace = Nat.toDigits 10 port := by
    rw [List.dropWhile_eq_self_iff]
    intro hlen
    simpa using hno _ (List.getElem_mem hlen)
  show ((Nat.toDigits 10 port).dropWhile isSpace).rdropWhile isSpace = _
  rw [hstart, List.rdropWhile_eq_self_iff]
  intro hne
  simpa using hno _ (List.getLast_mem hne)

theorem parseInt_digits : parseInt (Nat.toDigits 10 port) = some (port : Int) := by
  have hdigits : digits (Nat.toDigits 10 port) = some port := by
    unfold digits
    rw [if_pos ⟨Nat.toDigits_ne_nil, List.all_eq_true.mpr fun c hc => isDigit_of_mem hc⟩]
    rw [← Nat.ofDigitChars_eq_foldl, Nat.ofDigitChars_ten_toDigits]
  unfold parseInt
  rw [strip_digits]
  split
  · rename_i rest heq
    have hin : '+' ∈ Nat.toDigits 10 port := by
      rw [heq]
      simp
    cases isDigit_of_mem hin
  · rename_i rest heq
    have hin : '-' ∈ Nat.toDigits 10 port := by
      rw [heq]
      simp
    cases isDigit_of_mem hin
  · rw [hdigits]
    rfl

/-- A port is read back where it is written, and is one. -/
theorem port_plain (hnet : parts.netloc = host ++ writtenPort port) (hcolon : ':' ∉ host)
    (huser : '@' ∉ host) (hclosed : ']' ∉ host) :
    parts.port = .ok (if port = 0 ∨ port = 80 ∨ 65535 < port then none else some port) := by
  have hno : ∀ c, c ≠ ':' → c.isDigit = false → c ∉ host → c ∉ host ++ writtenPort port :=
    fun c hc hd hin h => hin ((mem_netloc hc hd).mp h)
  unfold SplitResult.port
  rw [hnet, afterLast_of_not_mem (hno '@' (by decide) (by decide) huser),
    afterLast_of_not_mem (hno ']' (by decide) (by decide) hclosed)]
  dsimp only
  unfold writtenPort
  by_cases hport : port = 0 ∨ port = 80
  · rw [if_pos hport, List.append_nil, if_neg hcolon, if_pos (hport.imp id .inl)]
  · have hsplit : (host ++ ':' :: Nat.toDigits 10 port).splitOn ':' =
        [host, Nat.toDigits 10 port] := by
      rw [List.splitOn_eq_splitOnP, List.splitOnP_append_cons_of_forall_mem _ _ (by simp),
        List.splitOnP_eq_singleton]
      · intro c hc
        have hne : c ≠ ':' := by
          rintro rfl
          cases isDigit_of_mem hc
        simpa using hne
      · intro c hc
        have hne : c ≠ ':' := fun he => hcolon (he ▸ hc)
        simpa using hne
    rw [if_neg hport, if_pos (by simp), hsplit]
    simp only [List.getD_cons_succ, List.getD_cons_zero]
    rw [if_neg Nat.toDigits_ne_nil, parseInt_digits]
    simp only [Int.toNat_natCast]
    congr 1
    obtain ⟨hzero, heighty⟩ := not_or.mp hport
    by_cases hlarge : 65535 < port
    · rw [if_neg (by omega), if_pos (by omega)]
    · rw [if_pos (by omega), if_neg (by omega)]

end

/-! ## What is composed is read back -/

/-- No part runs into a later one. -/
structure Apart (host path query : Bytes) : Prop where
  host : ∀ c ∈ host, c ≠ ':' ∧ delimits c = false
  path : ∀ c ∈ path, c ≠ '?' ∧ c ≠ '#'
  query : '#' ∉ query

/-- The parts are as parsing gives them. -/
structure Settled (host : Bytes) (port : Nat) (path query : Bytes) : Prop where
  host : SettledHost host port
  port : 0 < port ∧ port ≤ 65535
  slash : path.head? = some '/'
  last : ∀ c, (path ++ query).getLast? = some c → isSpace c = false

theorem rstrip_eq_self_iff {s : Bytes} :
    rstrip s = s ↔ ∀ c, s.getLast? = some c → isSpace c = false := by
  unfold rstrip
  rw [List.rdropWhile_eq_self_iff]
  constructor
  · intro h c hc
    obtain ⟨t, rfl⟩ := List.getLast?_eq_some_iff.mp hc
    simpa using h (by simp)
  · intro h hne
    simpa using h _ (List.getLast?_eq_some_getLast hne)

/-- The default port is what is not given. -/
def effectivePort (scheme : Schemes) (given : Option Nat) : Nat :=
  match scheme with
  | .HTTP => firstPort [given, none] defaultUrlHttpPort
  | .HTTPS => firstPort [given, none, none] defaultUrlHttpsPort

/-- A port is read back if it is one. -/
theorem effectivePort_eq_iff {scheme : Schemes} {port : Nat}
    (hslip : ¬ (scheme = .HTTPS ∧ port = 80)) :
    effectivePort scheme
        (if port = 0 ∨ port = 80 ∨ 65535 < port then none else some port) = port ↔
      0 < port ∧ port ≤ 65535 := by
  by_cases hnone : port = 0 ∨ port = 80 ∨ 65535 < port
  · rw [if_pos hnone]
    cases scheme with
    | HTTP =>
      have hport : effectivePort .HTTP none = 80 := rfl
      rw [hport]
      omega
    | HTTPS =>
      have hport : effectivePort .HTTPS none = 443 := rfl
      have hne : port ≠ 80 := fun he => hslip ⟨rfl, he⟩
      rw [hport]
      omega
  · obtain ⟨hzero, -, hsmall⟩ : port ≠ 0 ∧ port ≠ 80 ∧ ¬ 65535 < port := by
      simpa [not_or] using hnone
    have hport : effectivePort scheme (some port) = port := by
      cases scheme with
      | HTTP => simp [effectivePort, firstPort, Option.filter, hzero]
      | HTTPS => simp [effectivePort, firstPort, Option.filter, hzero]
    rw [if_neg hnone, hport]
    exact iff_of_true rfl ⟨by omega, by omega⟩

/-- `parse` of an address that starts with its scheme and its host. -/
theorem parse_address (scheme : Schemes) (x : Bytes) :
    parse (scheme.name ++ ':' :: '/' :: '/' :: x) none none =
      (urlsplit (scheme.name ++ ':' :: '/' :: '/' :: rstrip x)).bind fun parts =>
        parts.port.bind fun given =>
          .ok (scheme, parts.hostname, effectivePort scheme given,
            if parts.path = [] then ['/'] else parts.path, parts.query) := by
  unfold parse
  rw [strip_address, urlsplit_address]
  dsimp only
  split
  · rfl
  · cases scheme with
    | HTTP => rfl
    | HTTPS => rfl

/-- The path that is read starts with a slash. -/
theorem slash_of_parse {scheme : Schemes} {x : Bytes} {s : Schemes} {host : Option Bytes}
    {port : Nat} {path query : Bytes}
    (h : parse (scheme.name ++ ':' :: '/' :: '/' :: x) none none =
      .ok (s, host, port, path, query)) : path.head? = some '/' := by
  rw [parse_address, urlsplit_address] at h
  dsimp only at h
  split at h
  · cases h
  · simp only [Except.bind] at h
    split at h
    · cases h
    · simp only [Except.ok.injEq, Prod.mk.injEq] at h
      obtain ⟨-, -, -, hpath, -⟩ := h
      rw [← hpath]
      cases hrest : (rstrip x).dropWhile fun c => !delimits c with
      | nil => rfl
      | cons c rest =>
        -- the path starts where the netloc ends, or is empty
        have hc : delimits c = true := by
          have hne : (rstrip x).dropWhile (fun c => !delimits c) ≠ [] := by
            rw [hrest]
            simp
          have hhead := List.head_dropWhile_not (fun c => !delimits c) hne
          simpa [hrest] using hhead
        have hcases : c = '/' ∨ c = '?' ∨ c = '#' := by simpa [delimits, or_assoc] using hc
        obtain rfl | rfl | rfl := hcases
        · simp [before]
        · simp [before]
        · simp [before]

/-- What is read of the path and the query. -/
theorem tail_eq_iff {rest query : Bytes} (hpath : ∀ c ∈ '/' :: rest, c ≠ '?' ∧ c ≠ '#')
    (hquery : '#' ∉ query) :
    let t := '/' :: rstrip (rest ++ writtenQuery query)
    (before '?' (before '#' t) = '/' :: rest ∧ after '?' (before '#' t) = query) ↔
      ∀ c, ('/' :: rest ++ query).getLast? = some c → isSpace c = false := by
  intro t
  have hno : '#' ∉ t := by
    intro h
    obtain h | h := List.mem_cons.mp h
    · cases h
    · obtain h | h := List.mem_append.mp ((List.rdropWhile_prefix isSpace _).subset h)
      · exact (hpath _ (List.mem_cons_of_mem _ h)).2 rfl
      · unfold writtenQuery at h
        split at h
        · cases h
        · obtain h | h := List.mem_cons.mp h
          · cases h
          · exact hquery h
  have hmark : '?' ∉ '/' :: rest := fun h => (hpath _ h).1 rfl
  rw [before_of_not_mem hno]
  by_cases hq : query = []
  · subst hq
    have ht : t = rstrip ('/' :: rest) := by
      have hstrip := rstrip_append_cons [] rest (c := '/') (by decide)
      simpa [t, writtenQuery] using hstrip.symm
    have hmark' : '?' ∉ t := by
      rw [ht]
      exact fun h => hmark ((List.rdropWhile_prefix isSpace _).subset h)
    rw [before_of_not_mem hmark', after_of_not_mem hmark', ht, List.append_nil,
      ← rstrip_eq_self_iff]
    exact and_iff_left rfl
  · have ht : t = '/' :: rest ++ '?' :: rstrip query := by
      have hstrip := rstrip_append_cons rest query (c := '?') (by decide)
      simp only [t, writtenQuery, if_neg hq, hstrip]
      rfl
    have hbefore : before '?' t = '/' :: rest := by
      rw [ht]
      exact before_append_cons hmark _
    have hafter : after '?' t = rstrip query := by
      rw [ht]
      exact after_append_cons hmark _
    rw [hbefore, hafter, and_iff_right rfl, rstrip_eq_self_iff,
      List.getLast?_append_of_ne_nil _ hq]

/-- The parts are read back if and only if they are as parsing gives them. -/
theorem parse_compose_iff {scheme : Schemes} {host : Bytes} {port : Nat} {path query : Bytes}
    (hapart : Apart host path query) (hslip : ¬ (scheme = .HTTPS ∧ port = 80)) :
    parse (compose (some path) (some query) (some host) (some port) (some scheme)) none none =
        .ok (scheme, some host, port, path, query) ↔ Settled host port path query := by
  rw [compose_eq]
  by_cases hslash : path.head? = some '/'
  · obtain ⟨rest, rfl⟩ : ∃ rest, path = '/' :: rest := by
      cases path with
      | nil => cases hslash
      | cons c rest =>
        obtain rfl : c = '/' := by simpa using hslash
        exact ⟨rest, rfl⟩
    have hbody : rstrip (host ++ writtenPort port ++ '/' :: rest ++ writtenQuery query) =
        host ++ writtenPort port ++ '/' :: rstrip (rest ++ writtenQuery query) := by
      rw [List.append_assoc _ ('/' :: rest), List.cons_append,
        rstrip_append_cons _ _ (by decide)]
    have hcolon : ':' ∉ host := fun h => (hapart.host _ h).1 rfl
    have hnetloc : ∀ c ∈ host ++ writtenPort port, (!delimits c) = true := by
      intro c hc
      obtain hc | hc := List.mem_append.mp hc
      · simp [(hapart.host c hc).2]
      · simp [delimits_writtenPort hc]
    rw [parse_address, hbody, urlsplit_address, List.takeWhile_append_of_pos hnetloc,
      List.dropWhile_append_of_pos hnetloc]
    have hstop : ('/' :: rstrip (rest ++ writtenQuery query)).takeWhile
        (fun c => !delimits c) = [] := rfl
    have hgo : ('/' :: rstrip (rest ++ writtenQuery query)).dropWhile (fun c => !delimits c) =
        '/' :: rstrip (rest ++ writtenQuery query) := rfl
    rw [hstop, hgo, List.append_nil]
    obtain ⟨parts, hparts⟩ : ∃ parts : SplitResult, parts = ⟨scheme.name,
        host ++ writtenPort port,
        before '?' (before '#' ('/' :: rstrip (rest ++ writtenQuery query))),
        after '?' (before '#' ('/' :: rstrip (rest ++ writtenQuery query))),
        after '#' ('/' :: rstrip (rest ++ writtenQuery query))⟩ := ⟨_, rfl⟩
    have hnet : parts.netloc = host ++ writtenPort port := by rw [hparts]
    have htail : parts.path = '/' :: rest ∧ parts.query = query ↔
        ∀ c, ('/' :: rest ++ query).getLast? = some c → isSpace c = false := by
      rw [hparts]
      exact tail_eq_iff hapart.path hapart.query
    have hpath : parts.path ≠ [] := by
      rw [hparts]
      simp [before]
    dsimp only
    rw [← hparts, ← hnet]
    by_cases hhost : SettledHost host port
    · obtain ⟨hpaired, hname⟩ := (hostname_eq_iff hnet hcolon).mpr hhost
      rw [if_neg hpaired]
      simp only [Except.bind]
      rw [port_plain hnet hcolon hhost.user hhost.closed]
      simp only [Except.ok.injEq, Prod.mk.injEq, true_and, if_neg hpath]
      rw [hname, effectivePort_eq_iff hslip, and_iff_right rfl, htail]
      exact ⟨fun h => ⟨hhost, h.1, rfl, h.2⟩, fun h => ⟨h.port, h.last⟩⟩
    · refine iff_of_false (fun h => hhost ?_) fun h => hhost h.host
      split at h
      · cases h
      · rename_i hpaired
        simp only [Except.bind] at h
        split at h
        · cases h
        · simp only [Except.ok.injEq, Prod.mk.injEq] at h
          exact (hostname_eq_iff hnet hcolon).mp ⟨hpaired, h.2.1⟩
  · refine iff_of_false (fun h => hslash (slash_of_parse h)) fun h => hslash h.slash

/-! ## Appending a location -/

theorem delimits_of_large {d : Char} (hd : 64 ≤ d.toNat) : delimits d = false := by
  have hne : ∀ e : Char, e.toNat < 64 → d ≠ e := by
    rintro e he rfl
    omega
  simp [delimits, hne '/' (by decide), hne '?' (by decide), hne '#' (by decide)]

theorem delimits_toLower (c : Char) : delimits c.toLower = delimits c := by
  unfold Char.toLower
  split
  · -- neither the letter nor its lower case delimits
    rename_i hc
    have hrange : 65 ≤ c.toNat ∧ c.toNat ≤ 90 := hc
    have hlower : (c.val + ('a'.val - 'A'.val)).toNat = c.toNat + 32 := by
      have hadd : (c.val + 32).toNat = c.val.toNat + 32 := by
        rw [UInt32.toNat_add]
        have hsmall : c.val.toNat ≤ 90 := hrange.2
        simp
        omega
      exact hadd
    have hlarge : 64 ≤ (c.val + ('a'.val - 'A'.val)).toNat := by omega
    rw [delimits_of_large (by omega : 64 ≤ c.toNat)]
    exact delimits_of_large hlarge
  · rfl

/-- What is cut out of a netloc does not delimit one. -/
theorem hostname_plainly {parts : SplitResult} (hnet : ∀ c ∈ parts.netloc, delimits c = false)
    {host : Bytes} (h : parts.hostname = some host) : ∀ c ∈ host, delimits c = false := by
  have hlower : ∀ s : Bytes, (∀ c ∈ s, delimits c = false) → ∀ c ∈ lower s, delimits c = false := by
    intro s hs c hc
    obtain ⟨d, hd, rfl⟩ := List.mem_map.mp hc
    rw [delimits_toLower]
    exact hs d hd
  have hlast : ∀ c ∈ afterLast '@' parts.netloc, delimits c = false := by
    intro c hc
    by_cases hat : '@' ∈ parts.netloc
    · obtain ⟨r, hr, -, hsub⟩ := afterLast_append hat (t := []) (by simp)
      rw [List.append_nil, List.append_nil] at hr
      rw [hr] at hc
      exact hnet c (hsub hc)
    · rw [afterLast_of_not_mem hat] at hc
      exact hnet c hc
  unfold SplitResult.hostname at h
  dsimp only at h
  split at h
  · obtain rfl := Option.some.inj h
    exact hlower _ fun c hc =>
      hlast c ((List.takeWhile_prefix _).subset (List.mem_of_mem_drop hc))
  · split at h
    · obtain rfl := Option.some.inj h
      exact hlower _ fun c hc => hlast c ((List.takeWhile_prefix _).subset hc)
    · split at h
      · cases h
      · obtain rfl := Option.some.inj h
        exact hlower _ hlast

theorem not_mem_before (c : Char) (s : Bytes) : c ∉ before c s := by
  intro h
  have hne := List.mem_takeWhile_imp h
  simp at hne

/-- The parts that are read do not run into each other, but for the port after the host. -/
theorem apart_of_parse {url : Bytes} {scheme : Schemes} {host : Bytes} {port : Nat}
    {path query : Bytes} (h : parse url none none = .ok (scheme, some host, port, path, query)) :
    (∀ c ∈ host, delimits c = false) ∧ (∀ c ∈ path, c ≠ '?' ∧ c ≠ '#') ∧ '#' ∉ query := by
  unfold parse at h
  obtain ⟨parts, hsplit, h⟩ := ok_of_bind h
  obtain ⟨given, -, h⟩ := ok_of_bind h
  obtain ⟨s, -, h⟩ := ok_of_bind h
  simp only [Except.ok.injEq, Prod.mk.injEq] at h
  obtain ⟨-, hname, -, rfl, rfl⟩ := h
  have hparts : (∀ c ∈ parts.netloc, delimits c = false) ∧
      (∀ c ∈ parts.path, c ≠ '?' ∧ c ≠ '#') ∧ '#' ∉ parts.query := by
    unfold urlsplit at hsplit
    dsimp only at hsplit
    split at hsplit
    · cases hsplit
    · obtain rfl := Except.ok.inj hsplit
      refine ⟨?_, fun c hc => ⟨?_, ?_⟩, fun hin => ?_⟩
      · unfold splitNetloc
        split
        · intro c hc
          simpa using List.mem_takeWhile_imp hc
        · simp
      · rintro rfl
        exact not_mem_before '?' _ hc
      · rintro rfl
        exact not_mem_before '#' _ ((List.takeWhile_prefix _).subset hc)
      · exact not_mem_before '#' _
          ((List.dropWhile_suffix _).subset (List.mem_of_mem_tail hin))
  obtain ⟨hnet, hpath, hquery⟩ := hparts
  refine ⟨hostname_plainly hnet hname, ?_, hquery⟩
  split
  · intro c hc
    rw [List.mem_singleton.mp hc]
    decide
  · exact hpath

/-- What `join_locations` adds to a path. -/
def appended (path location : Bytes) : Bytes := joinLoop path [location]

theorem mem_appended {path location : Bytes} {c : Char} (h : c ∈ appended path location) :
    c = '/' ∨ c ∈ location := by
  unfold appended joinLoop at h
  split at h
  · cases h
  · rw [joinLoop, List.append_nil] at h
    unfold joint at h
    split at h
    · split at h
      · exact .inr (List.mem_of_mem_tail h)
      · exact .inr h
    · split at h
      · exact .inr h
      · exact (List.mem_cons.mp h)

/-- A location that is appended changes the path alone if and only if the parts are as parsing
    gives them. -/
theorem append_parse_iff {url location : Bytes} {scheme : Schemes} {host : Bytes} {port : Nat}
    {path query : Bytes} (h : parse url none none = .ok (scheme, some host, port, path, query))
    (hcolon : ':' ∉ host) (hlocation : ∀ c ∈ location, c ≠ '?' ∧ c ≠ '#')
    (hslip : ¬ (scheme = .HTTPS ∧ port = 80)) :
    (appendLocation url location).bind (parse · none none) =
        .ok (scheme, some host, port, path ++ appended path location, query) ↔
      Settled host port (path ++ appended path location) query := by
  obtain ⟨hhost, hpath, hquery⟩ := apart_of_parse h
  have happend : appendLocation url location =
      .ok (compose (some (path ++ appended path location)) (some query) (some host) (some port)
        (some scheme)) := by
    unfold appendLocation
    rw [h]
    rfl
  rw [happend]
  refine parse_compose_iff ⟨fun c hc => ⟨?_, hhost c hc⟩, fun c hc => ?_, hquery⟩ hslip
  · rintro rfl
    exact hcolon hc
  · obtain hc | hc := List.mem_append.mp hc
    · exact hpath c hc
    · obtain rfl | hc := mem_appended hc
      · decide
      · exact hlocation c hc

/-- But for the port 80 with `https`: parts that do not run into each other are read back from the
    address they are composed to if and only if they are as parsing gives them; so they are from
    an address to which a location was appended, with the joined path; and a tuple is read back
    from its path if and only if it is not empty. -/
theorem addresses_read_back :
    (∀ (scheme : Schemes) (host : Bytes) (port : Nat) (path query : Bytes),
      Apart host path query → ¬ (scheme = .HTTPS ∧ port = 80) →
        (parse (compose (some path) (some query) (some host) (some port) (some scheme)) none none =
          .ok (scheme, some host, port, path, query) ↔ Settled host port path query)) ∧
      (∀ (url location : Bytes) (scheme : Schemes) (host : Bytes) (port : Nat)
          (path query joined : Bytes),
        parse url none none = .ok (scheme, some host, port, path, query) → ':' ∉ host →
          (∀ c ∈ location, c ≠ '?' ∧ c ≠ '#') → ¬ (scheme = .HTTPS ∧ port = 80) →
            joinLocations [path, location] = some joined →
              ((appendLocation url location).bind (parse · none none) =
                .ok (scheme, some host, port, joined, query) ↔ Settled host port joined query)) ∧
      ∀ location : List (List Char),
        path2tuple (tuple2path location) = some location ↔ location ≠ [] := by
  refine ⟨fun _ _ _ _ _ hapart hslip => parse_compose_iff hapart hslip, ?_, path2tuple_tuple2path⟩
  intro url location scheme host port path query joined h hcolon hlocation hslip hjoined
  obtain rfl := Option.some.inj hjoined
  exact append_parse_iff h hcolon hlocation hslip

/-- An address with a port, a location that is appended to it, and a path of two parts. -/
theorem addresses_read_back_plain :
    parse (compose (some "/a".toList) (some "q=1".toList) (some "host".toList) (some 8080)
        (some .HTTPS)) none none =
        .ok (.HTTPS, some "host".toList, 8080, "/a".toList, "q=1".toList) ∧
      (appendLocation "http://host/a?q=1".toList "b".toList).bind (parse · none none) =
        .ok (.HTTP, some "host".toList, 80, "/a/b".toList, "q=1".toList) ∧
      path2tuple (tuple2path ["a b".toList, "/".toList]) = some ["a b".toList, "/".toList] := by
  obtain ⟨hcompose, happend, hlocation⟩ := addresses_read_back
  refine ⟨?_, ?_, ?_⟩
  · refine (hcompose .HTTPS _ 8080 _ _ ⟨by simp [delimits], by simp, by decide⟩ (by decide)).mpr
      ⟨⟨by decide, by decide, by decide, by decide, by decide⟩, by decide, by decide, ?_⟩
    rintro c ⟨⟩
    decide
  · refine (happend _ _ .HTTP "host".toList 80 "/a".toList "q=1".toList _ ?_ (by decide)
      (by simp) (by decide) rfl).mpr
      ⟨⟨by decide, by decide, by decide, by decide, by decide⟩, by decide, by decide, ?_⟩
    · decide +kernel
    · rintro c ⟨⟩
      decide
  · exact (hlocation _).mpr (by decide)

/-- An empty path is read back as a slash, and the path of no parts as one part that is
    empty. -/
theorem parts_normalised :
    ¬ (∀ (scheme : Schemes) (host : Bytes) (port : Nat) (path query : Bytes),
      Apart host path query → ¬ (scheme = .HTTPS ∧ port = 80) →
        parse (compose (some path) (some query) (some host) (some port) (some scheme)) none none =
          .ok (scheme, some host, port, path, query)) ∧
      ¬ ∀ location : List (List Char), path2tuple (tuple2path location) = some location := by
  constructor
  · intro h
    have hempty := h .HTTP "host".toList 80 [] [] ⟨by simp [delimits], by simp, by decide⟩
      (by decide)
    revert hempty
    decide +kernel
  · intro h
    have hempty := h []
    revert hempty
    decide +kernel

-- a host in upper case, and a blank at the end
example : parse (compose (some "/a ".toList) none (some "Host".toList) (some 81) none) none none =
    .ok (.HTTP, some "host".toList, 81, "/a".toList, []) := by
  decide +kernel

end Feat.Web.Address
