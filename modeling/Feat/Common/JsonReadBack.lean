import Feat.Common.Json

/- That a value written in JSON is read back as it was if and only if it is clear: what the
   reserved words and keys cost. -/
namespace Feat.Serialization

variable {A : Type}

/-! ## Text and bytes -/

theorem utf8Encode_of_decode {bytes : List UInt8} {text : String}
    (h : utf8Decode bytes = some text) : utf8Encode text = bytes := by
  unfold utf8Decode String.fromUTF8? at h
  split at h
  · cases h
    rfl
  · cases h

theorem atom?_word (atom : Atom) : atom? atom.word = some atom := by
  cases atom <;> decide

theorem ascii_base64 (bytes : List UInt8) :
    (String.ofList (Base64.encode bytes)).toList.all (fun c => c.toNat < 128) = true := by
  rw [String.toList_ofList, List.all_eq_true]
  intro c hc
  exact decide_eq_true (Base64.encodeFrom_ascii 0 bytes c hc)

theorem unpack_packStr (data : List UInt8) : unpack (packStr data : Json A) = .ok (.str data) := by
  unfold packStr
  cases hdecode : utf8Decode data with
  | some text =>
    have hword : atom? (Atom.word .encoded) = some .encoded := atom?_word _
    have hcodec : "UTF8" ∈ allowedCodecs := by decide
    simp only [unpack, hword, unpackEncoded, if_pos hcodec, utf8Encode_of_decode hdecode]
  | none =>
    have hword : atom? (Atom.word .bytes) = some .bytes := atom?_word _
    simp only [unpack, hword, unpackBytes, ascii_base64, if_true]
    rw [String.toList_ofList, Base64.decode_encode]

theorem toList_fullName (typeName name : String) :
    (fullName typeName name).toList.reverse =
      name.toList.reverse ++ '.' :: typeName.toList.reverse := by
  simp [fullName]

theorem splitName_fullName {typeName name : String} (h : '.' ∉ name.toList) :
    splitName (fullName typeName name) = (typeName, name) := by
  have hall : ∀ c ∈ name.toList.reverse, (decide (c ≠ '.')) = true := by
    intro c hc
    have hne : c ≠ '.' := fun heq => h (heq ▸ List.mem_reverse.mp hc)
    simpa using hne
  have hdrop : (name.toList.reverse ++ '.' :: typeName.toList.reverse).dropWhile (· ≠ '.') =
      '.' :: typeName.toList.reverse := by
    rw [List.dropWhile_append_of_pos hall]
    simp
  have htake : (name.toList.reverse ++ '.' :: typeName.toList.reverse).takeWhile (· ≠ '.') =
      name.toList.reverse := by
    rw [List.takeWhile_append_of_pos hall]
    simp
  simp only [splitName, toList_fullName, hdrop, htake, List.tail_cons, List.reverse_reverse,
    String.ofList_toList]

/-- The name that is split off has no dot. -/
theorem splitName_clear (full : String) : '.' ∉ (splitName full).2.toList := by
  intro hmem
  have htake : '.' ∈ (full.toList.reverse).takeWhile (· ≠ '.') := by
    simpa [splitName] using hmem
  have hne := List.mem_takeWhile_imp htake
  simp at hne

/-! ## What is packed as what -/

theorem map_ok {α β : Type} {f : α → β} {x : Except Fault α} {b : β} :
    x.map f = .ok b ↔ ∃ a, x = .ok a ∧ f a = b := by
  cases x with
  | ok a => simp [Except.map]
  | error fault => simp [Except.map]

theorem bind_ok {α β : Type} {f : α → Except Fault β} {x : Except Fault α} {b : β} :
    x.bind f = .ok b ↔ ∃ a, x = .ok a ∧ f a = .ok b := by
  cases x with
  | ok a => simp [Except.bind]
  | error fault => simp [Except.bind]

theorem packInstance_object (typeName : Json A) (items : List (String × Json A)) :
    packInstance typeName (.object items) =
      if ∀ item ∈ items, item.1 ≠ instanceTypeAtom ∧ item.1 ≠ instanceStateAtom then
        .ok (.object (items ++ [(instanceTypeAtom, typeName)]))
      else .error .assertionError := by
  have hany : (items.any fun item =>
      item.1 = instanceTypeAtom ∨ item.1 = instanceStateAtom) = true ↔
      ¬ ∀ item ∈ items, item.1 ≠ instanceTypeAtom ∧ item.1 ≠ instanceStateAtom := by
    simp only [List.any_eq_true, decide_eq_true_eq, ← not_or, not_forall, not_not, exists_prop]
  simp only [packInstance, hany, ite_not]

/-- An instance is packed as an object with its type. -/
theorem packInstance_ok {typeName packed j : Json A} (h : packInstance typeName packed = .ok j) :
    (∃ items, packed = .object items ∧
      (∀ item ∈ items, item.1 ≠ instanceTypeAtom ∧ item.1 ≠ instanceStateAtom) ∧
      j = .object (items ++ [(instanceTypeAtom, typeName)])) ∨
    j = .object [(instanceTypeAtom, typeName), (instanceStateAtom, packed)] := by
  cases packed with
  | object items =>
    rw [packInstance_object] at h
    split at h
    · rename_i hnot
      cases h
      exact .inl ⟨items, rfl, hnot, rfl⟩
    · cases h
  | _ =>
    cases h
    exact .inr rfl

/-! ## Lists -/

/-- A list that starts with a reserved word is read as something else. -/
theorem unpack_reserved {word : String} {atom : Atom} {items : List (Json A)}
    (h : atom? word = some atom) (ds : List (Datum A)) :
    unpack (.list (.string word :: items)) ≠ .ok (.list ds) := by
  intro hread
  cases atom with
  | tuple | set =>
    simp only [unpack, h] at hread
    obtain ⟨rest, -, heq⟩ := map_ok.mp hread
    cases heq
  | bytes =>
    simp only [unpack, h, unpackBytes] at hread
    repeat' split at hread
    all_goals cases hread
  | encoded =>
    simp only [unpack, h, unpackEncoded] at hread
    repeat' split at hread
    all_goals cases hread
  | enum | type | function | dereference =>
    simp only [unpack, h, unpackEnum, unpackType, unpackFunction, unpackDereference] at hread
    split at hread <;> cases hread
  | external =>
    simp only [unpack, h] at hread
    unfold unpackExternal at hread
    split at hread
    · obtain ⟨rest, -, heq⟩ := map_ok.mp hread
      cases heq
    · cases hread
  | reference =>
    simp only [unpack, h] at hread
    unfold unpackReference at hread
    split at hread
    · obtain ⟨rest, -, heq⟩ := map_ok.mp hread
      cases heq
    · cases hread

theorem unpack_list {first : Json A} (hfirst : ∀ text, first ≠ .string text)
    (items : List (Json A)) :
    unpack (.list (first :: items)) =
      (unpack first).bind fun d => (unpackAll items).map fun rest => .list (d :: rest) := by
  cases first with
  | string text => exact absurd rfl (hfirst text)
  | _ => rfl

/-- Two parts that are read one after the other. -/
theorem both_ok {α β γ : Type} {f : α → β → γ} (hf : Function.Injective2 f) {x : Except Fault α}
    {y : Except Fault β} {a : α} {b : β} :
    (x.bind fun first => y.map (f first)) = .ok (f a b) ↔ x = .ok a ∧ y = .ok b := by
  constructor
  · intro h
    obtain ⟨first, hfirst, hrest⟩ := bind_ok.mp h
    obtain ⟨rest, hy, heq⟩ := map_ok.mp hrest
    obtain ⟨rfl, rfl⟩ := hf heq
    exact ⟨hfirst, hy⟩
  · rintro ⟨rfl, rfl⟩
    rfl

theorem cons_ok {α : Type} {x : Except Fault α} {xs : Except Fault (List α)} {a : α} {as : List α} :
    (x.bind fun first => xs.map (first :: ·)) = .ok (a :: as) ↔ x = .ok a ∧ xs = .ok as :=
  both_ok fun _ _ _ _ h => List.cons.inj h

theorem list_ok {x : Except Fault (Datum A)} {xs : Except Fault (List (Datum A))} {a : Datum A}
    {as : List (Datum A)} :
    (x.bind fun d => xs.map fun rest => Datum.list (d :: rest)) = .ok (.list (a :: as)) ↔
      x = .ok a ∧ xs = .ok as :=
  both_ok (f := fun d rest => Datum.list (d :: rest)) fun _ _ _ _ h =>
    List.cons.inj (Datum.list.inj h)

theorem pair_ok {κ : Type} {x : Except Fault (Datum A)} {xs : Except Fault (List (κ × Datum A))}
    {key : κ} {a : Datum A} {as : List (κ × Datum A)} :
    (x.bind fun first => xs.map ((key, first) :: ·)) = .ok ((key, a) :: as) ↔
      x = .ok a ∧ xs = .ok as :=
  both_ok (f := fun first rest => (key, first) :: rest) fun _ _ _ _ h =>
    ⟨(Prod.mk.inj (List.cons.inj h).1).2, (List.cons.inj h).2⟩

/-! ## Objects -/

theorem unpack_dict {items : List (String × Json A)}
    (h : ∀ item ∈ items, item.1 ≠ instanceTypeAtom) :
    unpack (.object items) = (unpackItems items).map .dict := by
  have hnone : items.find? (fun item => item.1 = instanceTypeAtom) = none := by
    simpa [List.find?_eq_none] using fun key value hmem => h (key, value) hmem
  simp only [unpack, hnone, Option.map_none]

/-- A dictionary with the key of the type of an instance is read as an instance. -/
theorem unpack_typed {items : List (String × Json A)}
    (h : ∃ item ∈ items, item.1 = instanceTypeAtom) (ds : List (List UInt8 × Datum A)) :
    unpack (.object items) ≠ .ok (.dict ds) := by
  intro hread
  cases hfind : items.find? (fun item => item.1 = instanceTypeAtom) with
  | none =>
    obtain ⟨item, hmem, htype⟩ := h
    have hnot := List.find?_eq_none.mp hfind item hmem
    simp [htype] at hnot
  | some item =>
    simp only [unpack, hfind, Option.map_some] at hread
    cases hstate : unpackState items with
    | some state =>
      simp only [hstate] at hread
      obtain ⟨snapshot, -, heq⟩ := map_ok.mp hread
      cases heq
    | none =>
      simp only [hstate] at hread
      obtain ⟨rest, -, heq⟩ := map_ok.mp hread
      cases heq

theorem unpackItems_type (items : List (String × Json A)) (typeName : Json A) :
    unpackItems (items ++ [(instanceTypeAtom, typeName)]) = unpackItems items := by
  induction items with
  | nil => simp [unpackItems]
  | cons item items ih =>
    obtain ⟨key, value⟩ := item
    simp only [List.cons_append, unpackItems, ih]

theorem unpackState_type {items : List (String × Json A)}
    (h : ∀ item ∈ items, item.1 ≠ instanceStateAtom) (typeName : Json A) :
    unpackState (items ++ [(instanceTypeAtom, typeName)]) = none := by
  have hwords : instanceTypeAtom ≠ instanceStateAtom := by decide
  induction items with
  | nil => simp [unpackState, hwords]
  | cons item items ih =>
    obtain ⟨key, value⟩ := item
    have hkey : key ≠ instanceStateAtom := h (key, value) List.mem_cons_self
    rw [List.cons_append, unpackState, if_neg hkey]
    exact ih fun item hmem => h item (List.mem_cons_of_mem _ hmem)

/-- An instance with a dictionary for a snapshot. -/
theorem unpack_instance_dict {items : List (String × Json A)}
    (h : ∀ item ∈ items, item.1 ≠ instanceTypeAtom ∧ item.1 ≠ instanceStateAtom)
    (typeName : Json A) :
    unpack (.object (items ++ [(instanceTypeAtom, typeName)])) =
      (unpackItems items).map fun rest => .instanceOf typeName (.dict rest) := by
  have hfind : (items ++ [(instanceTypeAtom, typeName)]).find?
      (fun item => item.1 = instanceTypeAtom) = some (instanceTypeAtom, typeName) := by
    have hnone : items.find? (fun item => item.1 = instanceTypeAtom) = none := by
      simpa [List.find?_eq_none] using fun key value hmem => (h (key, value) hmem).1
    rw [List.find?_append, hnone]
    simp
  simp only [unpack, hfind, Option.map_some, unpackState_type (fun item hmem => (h item hmem).2),
    unpackItems_type]

/-- An instance with another snapshot. -/
theorem unpack_instance_state (typeName packed : Json A) :
    unpack (.object [(instanceTypeAtom, typeName), (instanceStateAtom, packed)]) =
      (unpack packed).map (.instanceOf typeName) := by
  have hwords : instanceTypeAtom ≠ instanceStateAtom := by decide
  simp [unpack, unpackState, hwords]

theorem packItems_keys {items : List (List UInt8 × Datum A)} {packed : List (String × Json A)}
    (h : packItems items = .ok packed) (text : String) :
    (∃ item ∈ packed, item.1 = text) ↔ ∃ item ∈ items, utf8Decode item.1 = some text := by
  induction items generalizing packed with
  | nil =>
    cases h
    simp
  | cons item items ih =>
    obtain ⟨key, value⟩ := item
    simp only [packItems] at h
    cases hkey : utf8Decode key with
    | none => simp [hkey] at h
    | some decoded =>
      simp only [hkey] at h
      obtain ⟨first, -, hrest⟩ := bind_ok.mp h
      obtain ⟨rest, hpacked, rfl⟩ := map_ok.mp hrest
      simp [ih hpacked, hkey]

/-! ## Reading back -/

mutual
theorem unpack_pack : ∀ (d : Datum A) {j : Json A}, pack d = .ok j →
    (unpack j = .ok d ↔ d.Clear)
  | .scalar value, j, h => by
    cases h
    simp [unpack, Datum.Clear]
  | .int value, j, h => by
    cases h
    simp [unpack, Datum.Clear]
  | .unicode value, j, h => by
    cases h
    simp [unpack, Datum.Clear]
  | .str value, j, h => by
    cases h
    simp [unpack_packStr, Datum.Clear]
  | .tuple items, j, h => by
    obtain ⟨packed, hpacked, rfl⟩ := map_ok.mp h
    have ih := unpackAll_packAll items hpacked
    simp only [marked, unpack, atom?_word, Datum.Clear, ← ih, map_ok]
    simp
  | .set items, j, h => by
    obtain ⟨packed, hpacked, rfl⟩ := map_ok.mp h
    have ih := unpackAll_packAll items hpacked
    simp only [marked, unpack, atom?_word, Datum.Clear, ← ih, map_ok]
    simp
  | .list items, j, h => by
    obtain ⟨packed, hpacked, rfl⟩ := map_ok.mp h
    have ih := unpackAll_packAll items hpacked
    cases items with
    | nil =>
      cases hpacked
      simp [unpack, Datum.Clear, AllClear]
    | cons item items =>
      obtain ⟨first, hfirst, hrest⟩ := bind_ok.mp hpacked
      obtain ⟨rest, hitems, rfl⟩ := map_ok.mp hrest
      rw [Datum.Clear, ← ih]
      by_cases hstring : ∃ text, first = .string text
      · obtain ⟨text, rfl⟩ := hstring
        -- the first item was a unicode string if it is read as it was
        have hall : unpackAll (.string text :: rest) = .ok (item :: items) ↔
            .unicode text = item ∧ unpackAll rest = .ok items := by
          rw [unpackAll, cons_ok]
          simp [unpack]
        rw [hall]
        cases hatom : atom? text with
        | some atom =>
          refine ⟨fun hread => absurd hread (unpack_reserved hatom _), fun hclear => ?_⟩
          obtain ⟨hword, rfl, -⟩ := hclear
          have hnone := hword text items rfl
          rw [hatom] at hnone
          cases hnone
        | none =>
          have hread : unpack (.list (.string text :: rest)) = .ok (.list (item :: items)) ↔
              .unicode text = item ∧ unpackAll rest = .ok items := by
            simp only [unpack, hatom, map_ok]
            simp [and_comm]
          rw [hread]
          refine ⟨fun hrest => ⟨fun word rest' heq => ?_, hrest⟩, fun hclear => hclear.2⟩
          cases heq
          cases hrest.1
          exact hatom
      · have hnot : ∀ text, first ≠ .string text := fun text heq => hstring ⟨text, heq⟩
        rw [unpack_list hnot, list_ok, unpackAll, cons_ok]
        refine ⟨fun hread => ⟨fun word rest' heq => ?_, hread⟩, fun hclear => hclear.2⟩
        cases heq
        cases hfirst
        exact absurd rfl (hnot word)
  | .dict items, j, h => by
    obtain ⟨packed, hpacked, rfl⟩ := map_ok.mp h
    have hkeys := packItems_keys hpacked instanceTypeAtom
    by_cases htype : ∃ item ∈ packed, item.1 = instanceTypeAtom
    · refine ⟨fun hread => absurd hread (unpack_typed htype items), fun hclear => ?_⟩
      obtain ⟨item, hmem, hkey⟩ := hkeys.mp htype
      exact absurd hkey (hclear.1 item hmem)
    · have hnot : ∀ item ∈ packed, item.1 ≠ instanceTypeAtom :=
        fun item hmem heq => htype ⟨item, hmem, heq⟩
      have ih := unpackItems_packItems items hpacked hnot
      rw [unpack_dict hnot, map_ok, Datum.Clear, ← ih]
      constructor
      · rintro ⟨read, hread, heq⟩
        cases heq
        exact ⟨fun item hmem hkey => htype (hkeys.mpr ⟨item, hmem, hkey⟩), hread⟩
      · intro hclear
        exact ⟨items, hclear.2, rfl⟩
  | .enum typeName name, j, h => by
    cases h
    simp only [marked, unpack, atom?_word, unpackEnum, Datum.Clear]
    constructor
    · intro hread
      have hname : (splitName (fullName typeName name)).2 = name := by
        simp only [Except.ok.injEq, Datum.enum.injEq] at hread
        exact hread.2
      rw [← hname]
      exact splitName_clear _
    · intro hclear
      rw [splitName_fullName hclear]
  | .type name, j, h => by
    cases h
    simp [marked, unpack, atom?_word, unpackType, Datum.Clear]
  | .function name, j, h => by
    cases h
    simp [marked, unpack, atom?_word, unpackFunction, Datum.Clear]
  | .external identifier, j, h => by
    obtain ⟨packed, hpacked, rfl⟩ := map_ok.mp h
    have ih := unpack_pack identifier hpacked
    simp only [marked, unpack, atom?_word, unpackExternal, Datum.Clear, ← ih, map_ok]
    simp
  | .reference refid value, j, h => by
    obtain ⟨packed, hpacked, rfl⟩ := map_ok.mp h
    have ih := unpack_pack value hpacked
    simp only [marked, unpack, atom?_word, unpackReference, Datum.Clear, ← ih, map_ok]
    simp
  | .dereference refid, j, h => by
    cases h
    simp [marked, unpack, atom?_word, unpackDereference, Datum.Clear]
  | .instanceOf typeName snapshot, j, h => by
    obtain ⟨packed, hpacked, hinstance⟩ := bind_ok.mp h
    have ih := unpack_pack snapshot hpacked
    rw [Datum.Clear, ← ih]
    obtain ⟨items, rfl, hnot, rfl⟩ | rfl := packInstance_ok hinstance
    · have htype := fun item hmem => (hnot item hmem).1
      rw [unpack_instance_dict hnot, unpack_dict htype, map_ok, map_ok]
      simp
    · rw [unpack_instance_state, map_ok]
      simp

theorem unpackAll_packAll : ∀ (items : List (Datum A)) {packed : List (Json A)},
    packAll items = .ok packed → (unpackAll packed = .ok items ↔ AllClear items)
  | [], packed, h => by
    cases h
    simp [unpackAll, AllClear]
  | item :: items, packed, h => by
    obtain ⟨first, hfirst, hrest⟩ := bind_ok.mp h
    obtain ⟨rest, hitems, rfl⟩ := map_ok.mp hrest
    rw [unpackAll, cons_ok, unpack_pack item hfirst, unpackAll_packAll items hitems, AllClear]

theorem unpackItems_packItems : ∀ (items : List (List UInt8 × Datum A))
    {packed : List (String × Json A)}, packItems items = .ok packed →
      (∀ item ∈ packed, item.1 ≠ instanceTypeAtom) →
        (unpackItems packed = .ok items ↔ ItemsClear items)
  | [], packed, h, _ => by
    cases h
    simp [unpackItems, ItemsClear]
  | (key, value) :: items, packed, h, htype => by
    simp only [packItems] at h
    cases hkey : utf8Decode key with
    | none => simp [hkey] at h
    | some text =>
      simp only [hkey] at h
      obtain ⟨first, hfirst, hrest⟩ := bind_ok.mp h
      obtain ⟨rest, hitems, rfl⟩ := map_ok.mp hrest
      have htext : text ≠ instanceTypeAtom := htype (text, first) List.mem_cons_self
      have ih := unpackItems_packItems items hitems fun item hmem =>
        htype item (List.mem_cons_of_mem _ hmem)
      rw [unpackItems, if_neg htext, utf8Encode_of_decode hkey, pair_ok, unpack_pack value hfirst,
        ih, ItemsClear]
end

/-- What was written in JSON is read back as it was if and only if no list in it starts with a
    reserved word, no dictionary has the key of the type of an instance, and no name of a member
    of an enumeration has a dot. -/
theorem read_back_iff (d : Datum A) {j : Json A} (h : pack d = .ok j) :
    unpack j = .ok d ↔ d.Clear :=
  unpack_pack d h

/-- A list with a reserved word in front comes back as a tuple. -/
theorem read_back_iff_reserved :
    unpack (.list [.string ".tuple", .int 1] : Json Unit) =
        .ok (.list [.unicode ".tuple", .int 1]) ↔
      (Datum.list [.unicode ".tuple", .int 1] : Datum Unit).Clear :=
  read_back_iff (.list [.unicode ".tuple", .int 1]) rfl

end Feat.Serialization
