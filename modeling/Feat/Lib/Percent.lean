import Mathlib.Data.List.Basic
import Mathlib.Data.Nat.Digits.Defs

/- Templates in the manner of `printf`, as Python's `%` operator reads them. Characters
   are their codes, and the arguments are natural numbers.

   A template is read character by character. Within a conversion specifier `State.spec`
   says how far it has been read: the flags, the width, the precision and the length
   modifier come in this order, and each may be left out. What is written for a number is
   up to `convert`, but for the plain conversion to decimal digits.

   A template is `plain` when it asks for no argument. One that is made of a plain part,
   a number and another plain part is formatted part by part (`format_numbered`), and
   when one of the parts is not plain it is not formatted at all
   (`not_format_numbered`). -/
namespace Percent

/-- The code of a character. -/
def code (c : Char) : Nat := c.toNat

def codes (s : String) : List Nat := s.toList.map code

inductive FormatError where
  | notEnoughArguments
  | notAllConverted
  | incompleteFormat
  | mappingRequired
  | unsupported (c : Nat)
  | tooBig
  | conversion
  deriving DecidableEq

/-- Which part of a specifier comes next. -/
inductive Phase where
  | start
  | flags
  | width
  | widthTaken
  | precision
  | precisionDigits
  | precisionTaken
  | conversion
  deriving DecidableEq

/-- A specifier, as far as it has been read. -/
structure Spec where
  phase : Phase
  flags : List Nat
  width : Nat
  precision : Option Nat
  deriving DecidableEq

def Spec.new : Spec := ⟨.start, [], 0, none⟩

/-- What is particular to an interpreter: the greatest width and precision, and what is
    written for a number by a conversion other than `%d`. -/
structure Interpreter where
  maxWidth : Nat
  maxPrecision : Nat
  convert : Spec → Nat → Nat → Except FormatError (List Nat)

/-- The specifier that is being read, and the arguments that are left. -/
structure State where
  spec : Option Spec
  args : List Nat
  deriving DecidableEq

/-- What a character leads to: what is written, and what comes then. -/
abbrev Outcome : Type := Except FormatError (List Nat × State)

/-- The decimal digits of a number. -/
def decimal (n : Nat) : List Nat :=
  if n = 0 then [code '0'] else (Nat.digits 10 n).reverse.map fun d => code '0' + d

/-- The next argument. -/
def takeArg (args : List Nat) (k : Nat → List Nat → Outcome) : Outcome :=
  match args with
  | [] => .error .notEnoughArguments
  | a :: args => k a args

def isDigit (c : Nat) : Bool := code '0' ≤ c ∧ c ≤ code '9'

/-- A number with one more digit, unless it gets too big. -/
def addDigit (greatest n c : Nat) : Except FormatError Nat :=
  if n > (greatest - (c - code '0')) / 10 then .error .tooBig
  else .ok (n * 10 + (c - code '0'))

section Reading
variable (p : Interpreter)

/-- What is written for `%%`, padded to the width. -/
def percentSign (spec : Spec) : List Nat :=
  let padding := List.replicate (spec.width - 1) (code ' ')
  if code '-' ∈ spec.flags then code '%' :: padding else padding ++ [code '%']

/-- The number that a conversion writes. -/
def written (spec : Spec) (c n : Nat) : Except FormatError (List Nat) :=
  if c ∉ codes "diouxXeEfFgGcrs" then .error (.unsupported c)
  else if c = code 'd' ∧ spec = Spec.new then .ok (decimal n)
  else p.convert spec c n

/-- The conversion. -/
def onConversion (spec : Spec) (args : List Nat) (c : Nat) : Outcome :=
  if c = code '%' then .ok (percentSign spec, ⟨none, args⟩)
  else takeArg args fun n args =>
    match written p spec c n with
    | .error e => .error e
    | .ok text => .ok (text, ⟨none, args⟩)

/-- The length modifier, or what may come after. -/
def onModifier (spec : Spec) (args : List Nat) (c : Nat) : Outcome :=
  if c ∈ codes "hlL" then .ok ([], ⟨some { spec with phase := .conversion }, args⟩)
  else onConversion p spec args c

/-- The point before the precision, or what may come after. -/
def onPoint (spec : Spec) (args : List Nat) (c : Nat) : Outcome :=
  if c = code '.' then .ok ([], ⟨some { spec with phase := .precision, precision := some 0 }, args⟩)
  else onModifier p spec args c

/-- The start of the width, or what may come after. -/
def onWidth (spec : Spec) (args : List Nat) (c : Nat) : Outcome :=
  if c = code '*' then takeArg args fun n args =>
    .ok ([], ⟨some { spec with phase := .widthTaken, width := n }, args⟩)
  else if isDigit c then
    .ok ([], ⟨some { spec with phase := .width, width := c - code '0' }, args⟩)
  else onPoint p spec args c

/-- A flag, or what may come after. -/
def onFlags (spec : Spec) (args : List Nat) (c : Nat) : Outcome :=
  if c ∈ codes "-+ #0" then
    .ok ([], ⟨some { spec with phase := .flags, flags := spec.flags ++ [c] }, args⟩)
  else onWidth p spec args c

/-- The start of the precision, or what may come after. -/
def onPrecision (spec : Spec) (args : List Nat) (c : Nat) : Outcome :=
  if c = code '*' then takeArg args fun n args =>
    .ok ([], ⟨some { spec with phase := .precisionTaken, precision := some n }, args⟩)
  else if isDigit c then
    .ok ([], ⟨some { spec with phase := .precisionDigits, precision := some (c - code '0') }, args⟩)
  else onModifier p spec args c

/-- The next character of a specifier. -/
def inSpec (spec : Spec) (args : List Nat) (c : Nat) : Outcome :=
  match spec.phase with
  | .start => if c = code '(' then .error .mappingRequired else onFlags p spec args c
  | .flags => onFlags p spec args c
  | .width =>
    if isDigit c then
      match addDigit p.maxWidth spec.width c with
      | .error e => .error e
      | .ok n => .ok ([], ⟨some { spec with width := n }, args⟩)
    else onPoint p spec args c
  | .widthTaken => onPoint p spec args c
  | .precision => onPrecision p spec args c
  | .precisionDigits =>
    if isDigit c then
      match addDigit p.maxPrecision (spec.precision.getD 0) c with
      | .error e => .error e
      | .ok n => .ok ([], ⟨some { spec with precision := some n }, args⟩)
    else onModifier p spec args c
  | .precisionTaken => onModifier p spec args c
  | .conversion => onConversion p spec args c

/-- The next character of a template. -/
def advance (s : State) (c : Nat) : Outcome :=
  match s.spec with
  | some spec => inSpec p spec s.args c
  | none =>
    if c = code '%' then .ok ([], ⟨some .new, s.args⟩) else .ok ([c], s)

def scan (s : State) : List Nat → Outcome
  | [] => .ok ([], s)
  | c :: cs =>
    match advance p s c with
    | .error e => .error e
    | .ok (out, s) =>
      match scan s cs with
      | .error e => .error e
      | .ok (rest, s) => .ok (out ++ rest, s)

/-- `template % args`. -/
def format (template args : List Nat) : Except FormatError (List Nat) :=
  match scan p ⟨none, args⟩ template with
  | .error e => .error e
  | .ok (out, s) =>
    match s.spec, s.args with
    | some _, _ => .error .incompleteFormat
    | none, _ :: _ => .error .notAllConverted
    | none, [] => .ok out

end Reading

/-! ## Plain templates -/

variable {p : Interpreter} {s : State} {spec : Option Spec} {cs : List Nat} {out : List Nat}

/-- The template asks for no argument, and is complete. -/
def Plain (p : Interpreter) (template : List Nat) : Prop := ∃ text, format p template [] = .ok text

/-- What becomes of the arguments as a character is read. -/
inductive Reads (f : List Nat → Outcome) : Prop where
  | passes (out : List Nat) (spec : Option Spec) (h : ∀ args, f args = .ok (out, ⟨spec, args⟩))
  | fails (e : FormatError) (h : ∀ args, f args = .error e)
  | asks (k : Nat → List Nat → Outcome) (h : ∀ args, f args = takeArg args k)
    (hk : ∀ n rest, (∃ e, k n rest = .error e) ∨ ∃ out spec, k n rest = .ok (out, ⟨spec, rest⟩))

theorem onConversion_reads (spec : Spec) (c : Nat) :
    Reads fun args => onConversion p spec args c := by
  unfold onConversion
  split
  · exact .passes _ _ fun _ => rfl
  · refine .asks _ (fun _ => rfl) fun n rest => ?_
    split
    · exact .inl ⟨_, rfl⟩
    · exact .inr ⟨_, _, rfl⟩

theorem onModifier_reads (spec : Spec) (c : Nat) :
    Reads fun args => onModifier p spec args c := by
  unfold onModifier
  split
  · exact .passes _ _ fun _ => rfl
  · exact onConversion_reads spec c

theorem onPoint_reads (spec : Spec) (c : Nat) : Reads fun args => onPoint p spec args c := by
  unfold onPoint
  split
  · exact .passes _ _ fun _ => rfl
  · exact onModifier_reads spec c

theorem onWidth_reads (spec : Spec) (c : Nat) : Reads fun args => onWidth p spec args c := by
  unfold onWidth
  split
  · exact .asks _ (fun _ => rfl) fun n rest => .inr ⟨_, _, rfl⟩
  · split
    · exact .passes _ _ fun _ => rfl
    · exact onPoint_reads spec c

theorem onFlags_reads (spec : Spec) (c : Nat) : Reads fun args => onFlags p spec args c := by
  unfold onFlags
  split
  · exact .passes _ _ fun _ => rfl
  · exact onWidth_reads spec c

theorem onPrecision_reads (spec : Spec) (c : Nat) :
    Reads fun args => onPrecision p spec args c := by
  unfold onPrecision
  split
  · exact .asks _ (fun _ => rfl) fun n rest => .inr ⟨_, _, rfl⟩
  · split
    · exact .passes _ _ fun _ => rfl
    · exact onModifier_reads spec c

theorem inSpec_reads (spec : Spec) (c : Nat) : Reads fun args => inSpec p spec args c := by
  unfold inSpec
  split
  · split
    · exact .fails _ fun _ => rfl
    · exact onFlags_reads spec c
  · exact onFlags_reads spec c
  · split
    · split
      · exact .fails _ fun _ => rfl
      · exact .passes _ _ fun _ => rfl
    · exact onPoint_reads spec c
  · exact onPoint_reads spec c
  · exact onPrecision_reads spec c
  · split
    · split
      · exact .fails _ fun _ => rfl
      · exact .passes _ _ fun _ => rfl
    · exact onModifier_reads spec c
  · exact onModifier_reads spec c
  · exact onConversion_reads spec c

theorem advance_reads (spec : Option Spec) (c : Nat) :
    Reads fun args => advance p ⟨spec, args⟩ c := by
  cases spec with
  | some spec => exact inSpec_reads spec c
  | none =>
    unfold advance
    dsimp only
    split
    · exact .passes _ _ fun _ => rfl
    · exact .passes _ _ fun _ => rfl

/-! ## Scanning -/

theorem scan_cons (s : State) (c : Nat) (cs : List Nat) :
    scan p s (c :: cs) =
      match advance p s c with
      | .error e => .error e
      | .ok (out, s) =>
        match scan p s cs with
        | .error e => .error e
        | .ok (rest, s) => .ok (out ++ rest, s) := rfl

theorem scan_cons_ok {c : Nat} {s' s'' : State} {rest : List Nat}
    (h : advance p s c = .ok (out, s')) (hrest : scan p s' cs = .ok (rest, s'')) :
    scan p s (c :: cs) = .ok (out ++ rest, s'') := by
  rw [scan_cons, h]
  dsimp only
  rw [hrest]

theorem scan_append (s : State) (cs ds : List Nat) :
    scan p s (cs ++ ds) =
      match scan p s cs with
      | .error e => .error e
      | .ok (out, s) =>
        match scan p s ds with
        | .error e => .error e
        | .ok (rest, s) => .ok (out ++ rest, s) := by
  induction cs generalizing s with
  | nil =>
    rw [List.nil_append, scan]
    dsimp only
    cases scan p s ds with
    | error e => rfl
    | ok r => rfl
  | cons c cs ih =>
    rw [List.cons_append, scan_cons, scan_cons]
    cases advance p s c with
    | error e => rfl
    | ok r =>
      dsimp only
      rw [ih]
      cases scan p r.2 cs with
      | error e => rfl
      | ok r' =>
        dsimp only
        cases scan p r'.2 ds with
        | error e => rfl
        | ok r'' => simp only [List.append_assoc]

/-- What is read without an argument is read alike with some. -/
theorem scan_passes (h : scan p ⟨spec, []⟩ cs = .ok (out, s)) :
    s.args = [] ∧ ∀ args, scan p ⟨spec, args⟩ cs = .ok (out, ⟨s.spec, args⟩) := by
  induction cs generalizing spec out s with
  | nil =>
    obtain ⟨rfl, rfl⟩ := Prod.mk.inj (Except.ok.inj h)
    exact ⟨rfl, fun args => rfl⟩
  | cons c cs ih =>
    rw [scan_cons] at h
    cases advance_reads (p := p) spec c with
    | passes w spec' hw =>
      rw [hw] at h
      dsimp only at h
      split at h
      · cases h
      · rename_i rest s' hrest
        obtain ⟨rfl, rfl⟩ := Prod.mk.inj (Except.ok.inj h)
        obtain ⟨hargs, hall⟩ := ih hrest
        refine ⟨hargs, fun args => ?_⟩
        rw [scan_cons, hw]
        dsimp only
        rw [hall args]
    | fails e he =>
      rw [he] at h
      cases h
    | asks k hk _ =>
      rw [hk] at h
      cases h

/-- Where an argument is missing, one is used up when it is there. -/
theorem scan_starved {e : FormatError} (h : scan p ⟨spec, []⟩ cs = .error e) (n : Nat) :
    (∃ e, scan p ⟨spec, [n]⟩ cs = .error e) ∨
      ∃ out spec', scan p ⟨spec, [n]⟩ cs = .ok (out, ⟨spec', []⟩) := by
  induction cs generalizing spec e with
  | nil => cases h
  | cons c cs ih =>
    rw [scan_cons] at h ⊢
    cases advance_reads (p := p) spec c with
    | passes w spec' hw =>
      rw [hw] at h ⊢
      dsimp only at h ⊢
      split at h
      · rename_i hrest
        obtain ⟨e', he'⟩ | ⟨out, spec'', hout⟩ := ih hrest
        · rw [he']
          exact .inl ⟨e', rfl⟩
        · rw [hout]
          exact .inr ⟨_, _, rfl⟩
      · cases h
    | fails e' he' =>
      rw [he']
      exact .inl ⟨e', rfl⟩
    | asks k hk hafter =>
      rw [hk]
      dsimp only [takeArg]
      obtain ⟨e', he'⟩ | ⟨w, spec', hw⟩ := hafter n []
      · rw [he']
        exact .inl ⟨e', rfl⟩
      · rw [hw]
        dsimp only
        cases hrest : scan p ⟨spec', []⟩ cs with
        | error e' => exact .inl ⟨e', rfl⟩
        | ok r =>
          obtain ⟨hargs, -⟩ := scan_passes hrest
          refine .inr ⟨w ++ r.1, r.2.spec, ?_⟩
          rw [← hargs]

/-! ## A number between two parts -/

/-- An underscore ends no specifier. -/
theorem advance_underscore (spec : Spec) (args : List Nat) :
    ∃ e, advance p ⟨some spec, args⟩ (code '_') = .error e := by
  have hconversion : ∃ e, onConversion p spec args (code '_') = .error e := by
    have hsign : ¬ code '_' = code '%' := by decide
    rw [onConversion, if_neg hsign]
    cases args with
    | nil => exact ⟨_, rfl⟩
    | cons n args =>
      have hwritten : written p spec (code '_') n = .error (.unsupported (code '_')) :=
        if_pos (by decide)
      rw [takeArg, hwritten]
      exact ⟨_, rfl⟩
  have hmodifier : onModifier p spec args (code '_') = onConversion p spec args (code '_') :=
    if_neg (by decide)
  have hpoint : onPoint p spec args (code '_') = onConversion p spec args (code '_') := by
    rw [onPoint, if_neg (by decide), hmodifier]
  have hflags : onFlags p spec args (code '_') = onConversion p spec args (code '_') := by
    rw [onFlags, if_neg (by decide), onWidth, if_neg (by decide), if_neg (by decide), hpoint]
  have hprecision : onPrecision p spec args (code '_') = onConversion p spec args (code '_') := by
    rw [onPrecision, if_neg (by decide), if_neg (by decide), hmodifier]
  rw [advance]
  dsimp only
  rw [inSpec]
  have hdigit : isDigit (code '_') = false := by decide
  split
  · rw [if_neg (by decide), hflags]
    exact hconversion
  · rw [hflags]
    exact hconversion
  · rw [hdigit, if_neg (by decide), hpoint]
    exact hconversion
  · rw [hpoint]
    exact hconversion
  · rw [hprecision]
    exact hconversion
  · rw [hdigit, if_neg (by decide), hmodifier]
    exact hconversion
  · rw [hmodifier]
    exact hconversion
  · exact hconversion

/-- The number is written in digits, after an underscore. -/
theorem scan_number (n : Nat) (args : List Nat) :
    scan p ⟨none, n :: args⟩ (codes "_%d") = .ok (code '_' :: decimal n, ⟨none, args⟩) := by
  have hwritten : written p Spec.new (code 'd') n = .ok (decimal n) := by
    rw [written, if_neg (by decide), if_pos (by decide)]
  have hd : advance p ⟨some .new, n :: args⟩ (code 'd') = .ok (decimal n, ⟨none, args⟩) := by
    have hread : advance p ⟨some .new, n :: args⟩ (code 'd') =
        onConversion p .new (n :: args) (code 'd') := rfl
    rw [hread, onConversion, if_neg (by decide), takeArg, hwritten]
  have hunderscore : advance p ⟨none, n :: args⟩ (code '_') =
      .ok ([code '_'], ⟨none, n :: args⟩) := rfl
  have hpercent : advance p ⟨none, n :: args⟩ (code '%') = .ok ([], ⟨some .new, n :: args⟩) := rfl
  have hend : scan p ⟨none, args⟩ [] = .ok ([], ⟨none, args⟩) := rfl
  have hnumber := scan_cons_ok hunderscore (scan_cons_ok hpercent (scan_cons_ok hd hend))
  rw [List.append_nil] at hnumber
  exact hnumber

/-- Without an argument there is no number. -/
theorem scan_number_starved (spec : Option Spec) :
    ∃ e, scan p ⟨spec, []⟩ (codes "_%d") = .error e := by
  show ∃ e, scan p _ [code '_', code '%', code 'd'] = .error e
  rw [scan_cons]
  cases spec with
  | some spec =>
    obtain ⟨e, he⟩ := advance_underscore (p := p) spec []
    rw [he]
    exact ⟨e, rfl⟩
  | none => exact ⟨.notEnoughArguments, rfl⟩

/-- The whole template is read, and all arguments are used. -/
theorem format_eq_ok {template args text : List Nat} :
    format p template args = .ok text ↔
      scan p ⟨none, args⟩ template = .ok (text, ⟨none, []⟩) := by
  unfold format
  cases scan p ⟨none, args⟩ template with
  | error e => simp
  | ok r =>
    obtain ⟨out, spec, left⟩ := r
    cases spec with
    | some spec => simp
    | none =>
      cases left with
      | nil => simp
      | cons n left => simp

/-- A template with one number in it is formatted part by part. -/
theorem format_numbered (p : Interpreter) (before after : List Nat) (n : Nat) (text : List Nat) :
    format p (before ++ (codes "_%d" ++ after)) [n] = .ok text ↔
      ∃ b a, format p before [] = .ok b ∧ format p after [] = .ok a ∧
        text = b ++ (code '_' :: decimal n ++ a) := by
  simp only [format_eq_ok]
  rw [scan_append]
  cases hbefore : scan p ⟨none, []⟩ before with
  | error e =>
    -- an argument that is used up here is missing at the number
    refine iff_of_false (fun h => ?_) (fun ⟨b, a, hb, _⟩ => nomatch hb)
    obtain ⟨e', he'⟩ | ⟨out, spec, hout⟩ := scan_starved hbefore n
    · rw [he'] at h
      cases h
    · rw [hout] at h
      dsimp only at h
      obtain ⟨e', he'⟩ := scan_number_starved (p := p) spec
      rw [scan_append, he'] at h
      cases h
  | ok r =>
    obtain ⟨out, s⟩ := r
    obtain ⟨hargs, hall⟩ := scan_passes hbefore
    rw [hall [n]]
    dsimp only
    obtain ⟨spec, args⟩ := s
    obtain rfl : args = [] := hargs
    dsimp only
    cases spec with
    | some spec =>
      refine iff_of_false (fun h => ?_) (fun ⟨b, a, hb, _⟩ => by simp at hb)
      obtain ⟨e, he⟩ := advance_underscore (p := p) spec [n]
      have hnumber : scan p ⟨some spec, [n]⟩ (codes "_%d") = .error e := by
        show scan p _ (code '_' :: _) = _
        rw [scan_cons, he]
      rw [scan_append, hnumber] at h
      cases h
    | none =>
      rw [scan_append, scan_number]
      dsimp only
      cases hafter : scan p ⟨none, []⟩ after with
      | error e => exact iff_of_false (fun h => nomatch h) (fun ⟨b, a, _, ha, _⟩ => nomatch ha)
      | ok r =>
        dsimp only
        constructor
        · intro h
          obtain ⟨rfl, hend⟩ := Prod.mk.inj (Except.ok.inj h)
          exact ⟨out, r.1, rfl, by rw [← hend], rfl⟩
        · rintro ⟨b, a, hb, ha, rfl⟩
          obtain ⟨rfl, -⟩ := Prod.mk.inj (Except.ok.inj hb)
          obtain rfl := Except.ok.inj ha
          rfl

/-- Numbers that are written alike are the same. -/
theorem decimal_injective : Function.Injective decimal := by
  have hzero : ∀ n, n ≠ 0 → decimal n ≠ decimal 0 := by
    intro n hn h
    rw [decimal, if_neg hn, decimal, if_pos rfl] at h
    obtain ⟨d, hd, hcode⟩ := List.map_eq_singleton_iff.mp h
    have hd : Nat.digits 10 n = [d] := by simpa using congrArg List.reverse hd
    have hnd := Nat.ofDigits_digits 10 n
    rw [hd, Nat.ofDigits_singleton] at hnd
    omega
  intro m n h
  by_cases hm : m = 0
  · by_contra hne
    subst hm
    exact hzero n (Ne.symm hne) h.symm
  · by_cases hn : n = 0
    · subst hn
      exact absurd h (hzero m hm)
    · rw [decimal, if_neg hm, decimal, if_neg hn] at h
      have hdigits := (List.map_injective_iff.mpr fun a b => Nat.add_left_cancel) h
      exact Nat.digits_inj_iff.mp (List.reverse_injective hdigits)

/-- The digits are ASCII. -/
theorem decimal_ascii (n : Nat) : ∀ c ∈ decimal n, c < 128 := by
  intro c hc
  unfold decimal at hc
  split at hc
  · rw [List.mem_singleton.mp hc]
    decide
  · obtain ⟨d, hd, rfl⟩ := List.mem_map.mp hc
    have hlt : d < 10 := Nat.digits_lt_base (by decide) (List.mem_reverse.mp hd)
    have hcode : code '0' = 48 := rfl
    omega

/-! ## ASCII -/

def Ascii (cs : List Nat) : Prop := ∀ c ∈ cs, c < 128

instance (cs : List Nat) : Decidable (Ascii cs) := inferInstanceAs (Decidable (∀ c ∈ cs, c < 128))

@[simp] theorem ascii_append {cs ds : List Nat} : Ascii (cs ++ ds) ↔ Ascii cs ∧ Ascii ds := by
  simp only [Ascii, List.mem_append]
  exact ⟨fun h => ⟨fun c hc => h c (.inl hc), fun c hc => h c (.inr hc)⟩,
    fun h c hc => hc.elim (h.1 c) (h.2 c)⟩

@[simp] theorem ascii_cons {c : Nat} {cs : List Nat} : Ascii (c :: cs) ↔ c < 128 ∧ Ascii cs := by
  simp [Ascii]

theorem ascii_nil : Ascii [] := fun _ hc => nomatch hc

theorem isDigit_ascii {c : Nat} (h : isDigit c = true) : c < 128 := by
  have hle : code '0' ≤ c ∧ c ≤ code '9' := of_decide_eq_true h
  have hnine : code '9' = 57 := rfl
  omega

theorem percentSign_ascii (spec : Spec) : Ascii (percentSign spec) := by
  intro c hc
  have hmem : c = code '%' ∨ c = code ' ' := by
    unfold percentSign at hc
    dsimp only at hc
    split at hc
    · obtain hc | hc := List.mem_cons.mp hc
      · exact .inl hc
      · exact .inr (List.eq_of_mem_replicate hc)
    · obtain hc | hc := List.mem_append.mp hc
      · exact .inr (List.eq_of_mem_replicate hc)
      · exact .inl (List.mem_singleton.mp hc)
  obtain rfl | rfl := hmem <;> decide

/-- What a specifier writes without an argument is ASCII, and so is the specifier. -/
def AsciiOnly (c : Nat) (o : Outcome) : Prop := ∀ out s, o = .ok (out, s) → Ascii out ∧ c < 128

theorem AsciiOnly.ok {c : Nat} {out : List Nat} {s : State} (hout : Ascii out) (hc : c < 128) :
    AsciiOnly c (.ok (out, s)) := by
  intro out' s' h
  obtain ⟨rfl, -⟩ := Prod.mk.inj (Except.ok.inj h)
  exact ⟨hout, hc⟩

theorem AsciiOnly.error {c : Nat} {e : FormatError} : AsciiOnly c (.error e) :=
  fun _ _ h => nomatch h

theorem onConversion_ascii (spec : Spec) (c : Nat) : AsciiOnly c (onConversion p spec [] c) := by
  unfold onConversion
  split
  · rename_i hc
    exact .ok (percentSign_ascii spec) (by rw [hc]; decide)
  · exact .error

theorem onModifier_ascii (spec : Spec) (c : Nat) : AsciiOnly c (onModifier p spec [] c) := by
  unfold onModifier
  split
  · rename_i hc
    exact .ok ascii_nil ((by decide : Ascii (codes "hlL")) c hc)
  · exact onConversion_ascii spec c

theorem onPoint_ascii (spec : Spec) (c : Nat) : AsciiOnly c (onPoint p spec [] c) := by
  unfold onPoint
  split
  · rename_i hc
    exact .ok ascii_nil (by rw [hc]; decide)
  · exact onModifier_ascii spec c

theorem onWidth_ascii (spec : Spec) (c : Nat) : AsciiOnly c (onWidth p spec [] c) := by
  unfold onWidth
  split
  · exact .error
  · split
    · rename_i hc
      exact .ok ascii_nil (isDigit_ascii hc)
    · exact onPoint_ascii spec c

theorem onFlags_ascii (spec : Spec) (c : Nat) : AsciiOnly c (onFlags p spec [] c) := by
  unfold onFlags
  split
  · rename_i hc
    exact .ok ascii_nil ((by decide : Ascii (codes "-+ #0")) c hc)
  · exact onWidth_ascii spec c

theorem onPrecision_ascii (spec : Spec) (c : Nat) : AsciiOnly c (onPrecision p spec [] c) := by
  unfold onPrecision
  split
  · exact .error
  · split
    · rename_i hc
      exact .ok ascii_nil (isDigit_ascii hc)
    · exact onModifier_ascii spec c

theorem inSpec_ascii (spec : Spec) (c : Nat) : AsciiOnly c (inSpec p spec [] c) := by
  have hdigits : ∀ (greatest n : Nat) (k : Nat → State), isDigit c = true →
      AsciiOnly c (match addDigit greatest n c with
        | .error e => .error e
        | .ok n => .ok ([], k n)) := by
    intro greatest n k hc
    split
    · exact .error
    · exact .ok ascii_nil (isDigit_ascii hc)
  unfold inSpec
  split
  · split
    · exact .error
    · exact onFlags_ascii spec c
  · exact onFlags_ascii spec c
  · split
    · rename_i hc
      exact hdigits _ _ _ hc
    · exact onPoint_ascii spec c
  · exact onPoint_ascii spec c
  · exact onPrecision_ascii spec c
  · split
    · rename_i hc
      exact hdigits _ _ _ hc
    · exact onModifier_ascii spec c
  · exact onModifier_ascii spec c
  · exact onConversion_ascii spec c

/-- What is written without an argument is ASCII if the template is. -/
theorem scan_ascii (h : scan p ⟨spec, []⟩ cs = .ok (out, s)) : Ascii out ↔ Ascii cs := by
  induction cs generalizing spec out s with
  | nil =>
    obtain ⟨rfl, -⟩ := Prod.mk.inj (Except.ok.inj h)
    exact Iff.rfl
  | cons c cs ih =>
    rw [scan_cons] at h
    split at h
    · cases h
    · rename_i w s' hadvance
      split at h
      · cases h
      · rename_i rest s'' hrest
        obtain ⟨rfl, -⟩ := Prod.mk.inj (Except.ok.inj h)
        have hargs : s' = ⟨s'.spec, []⟩ := by
          cases advance_reads (p := p) spec c with
          | passes w' spec' hw =>
            rw [hw] at hadvance
            obtain ⟨-, rfl⟩ := Prod.mk.inj (Except.ok.inj hadvance)
            rfl
          | fails e he => rw [he] at hadvance; cases hadvance
          | asks k hk _ => rw [hk] at hadvance; cases hadvance
        rw [hargs] at hrest
        rw [ascii_append, ascii_cons, ih hrest]
        refine and_congr_left fun _ => ?_
        cases spec with
        | some spec =>
          obtain ⟨hw, hc⟩ := inSpec_ascii (p := p) spec c w s' hadvance
          exact iff_of_true hw hc
        | none =>
          unfold advance at hadvance
          dsimp only at hadvance
          split at hadvance
          · rename_i hc
            obtain ⟨rfl, -⟩ := Prod.mk.inj (Except.ok.inj hadvance)
            exact iff_of_true ascii_nil (by rw [hc]; decide)
          · obtain ⟨rfl, -⟩ := Prod.mk.inj (Except.ok.inj hadvance)
            simp [Ascii]

theorem format_ascii {template text : List Nat} (h : format p template [] = .ok text) :
    Ascii text ↔ Ascii template := scan_ascii (format_eq_ok.mp h)

end Percent
