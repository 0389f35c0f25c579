import Mathlib.Data.List.Nodup
import Feat.Lib.Run

/- The document of a DNS name (`feat.agents.dns.dns_agent`: `add_record_body` and
   `remove_record_body`, as `DNSAgent._add_record` and `_remove_record` apply them).

   An alias excludes all other records. An alias that is added replaces what there was, but
   a record of an address that is added to an alias stands beside it. In all runs in which
   this does not happen the document is what its history says (`wellFormed_iff`), and in no
   others. -/
namespace Feat.Agents.Dns
open Transition

inductive RecordType where
  | recordA
  | recordCNAME
  deriving DecidableEq

/-- `RecordA` and `RecordCNAME`. -/
structure Record where
  type : RecordType
  ip : String
  ttl : Nat
  deriving DecidableEq

/-- What an update makes of the entries of a document: nothing, or they are saved, or the document
is deleted. -/
inductive Update where
  | resign
  | save (entries : List Record)
  | delete
  deriving DecidableEq

/-- `add_record_body`. -/
def addRecordBody (entries : List Record) (record : Record) : Update :=
  if record ∈ entries then .resign
  else
    let entries := if record.type = .recordCNAME ∧ entries ≠ [] then [] else entries
    .save (entries ++ [record])

/-- `remove_record_body`. -/
def removeRecordBody (entries : List Record) (record : Record) : Update :=
  if record ∉ entries then .resign
  else if entries.erase record = [] then .delete
  else .save (entries.erase record)

/-- A document, unless there is none, as `update_document` leaves it. -/
def Update.apply (entries : List Record) : Update → Option (List Record)
  | .resign => some entries
  | .save entries => some entries
  | .delete => none

/-- An addition, or a removal. -/
inductive Event where
  | add (record : Record)
  | remove (record : Record)
  deriving DecidableEq

/-- `_add_record`, with `_create_new_document` where there is no document, and `_remove_record`. -/
def step (document : Option (List Record)) : Event → Option (List Record)
  | .add record => match document with
    | none => some [record]
    | some entries => (addRecordBody entries record).apply entries
  | .remove record => document.bind fun entries => (removeRecordBody entries record).apply entries

/-! ## What is promised, and when -/

/-- A document with what was done to it. -/
structure Name where
  document : Option (List Record)
  history : List Event

def Name.new : Name := ⟨none, []⟩

def Name.step (s : Name) (e : Event) : Name := ⟨Dns.step s.document e, s.history ++ [e]⟩

def Name.entries (s : Name) : List Record := s.document.getD []

/-- An alias replaces other records, and is replaced by them. -/
def Replaces (new old : Record) : Prop :=
  new ≠ old ∧ (new.type = .recordCNAME ∨ old.type = .recordCNAME)

/-- What is added last is not removed and not replaced afterwards. -/
def Lasting (history : List Event) (record : Record) : Prop :=
  ∃ before after, history = before ++ .add record :: after ∧ .remove record ∉ after ∧
    ∀ new, .add new ∈ after → ¬ Replaces new record

/-- No record is there twice, an alias is alone, the records are those that last, and a document
without entries is deleted. -/
structure WellFormed (s : Name) : Prop where
  nodup : s.entries.Nodup
  alone : ∀ record ∈ s.entries, record.type = .recordCNAME → s.entries = [record]
  lasting : ∀ record, record ∈ s.entries ↔ Lasting s.history record
  deleted : s.document = none ↔ s.entries = []

/-- No address is added where there is an alias. -/
def Sound (s : Name) : Event → Prop
  | .add record => record.type = .recordA → ∀ other ∈ s.entries, other.type = .recordA
  | .remove _ => True

instance (s : Name) : (e : Event) → Decidable (Sound s e)
  | .add record => inferInstanceAs (Decidable (record.type = .recordA →
      ∀ other ∈ s.entries, other.type = .recordA))
  | .remove _ => inferInstanceAs (Decidable True)

/-! ## The history -/

theorem lasting_snoc {history : List Event} {e : Event} {record : Record} :
    Lasting (history ++ [e]) record ↔ e = .add record ∨
      (Lasting history record ∧ e ≠ .remove record ∧
        ∀ new, e = .add new → ¬ Replaces new record) := by
  constructor
  · rintro ⟨before, after, hsplit, hremoved, hreplaced⟩
    obtain rfl | ⟨after, last, rfl⟩ := List.eq_nil_or_concat after
    · exact .inl (List.singleton_inj.mp (List.append_inj_right' hsplit rfl))
    · rw [List.concat_eq_append, ← List.cons_append, ← List.append_assoc] at hsplit
      obtain rfl := List.append_inj_left' hsplit rfl
      obtain rfl := List.singleton_inj.mp (List.append_inj_right' hsplit rfl)
      rw [List.concat_eq_append] at hremoved hreplaced
      refine .inr ⟨⟨before, after, rfl, fun h => hremoved (List.mem_append_left _ h),
        fun new h => hreplaced new (List.mem_append_left _ h)⟩, ?_, ?_⟩
      · rintro rfl
        exact hremoved (List.mem_append_right _ List.mem_cons_self)
      · rintro new rfl
        exact hreplaced new (List.mem_append_right _ List.mem_cons_self)
  · rintro (rfl | ⟨⟨before, after, rfl, hremoved, hreplaced⟩, hremove, hadd⟩)
    · exact ⟨history, [], rfl, List.not_mem_nil, fun _ h => by cases h⟩
    · refine ⟨before, after ++ [e], by simp, fun h => ?_, fun new h => ?_⟩
      · obtain h | h := List.mem_append.mp h
        · exact hremoved h
        · exact hremove (List.mem_singleton.mp h).symm
      · obtain h | h := List.mem_append.mp h
        · exact hreplaced new h
        · exact hadd new (List.mem_singleton.mp h).symm

theorem lasting_add {history : List Event} {new record : Record} :
    Lasting (history ++ [.add new]) record ↔
      record = new ∨ (Lasting history record ∧ ¬ Replaces new record) := by
  rw [lasting_snoc]
  constructor
  · rintro (h | ⟨hlasting, -, hreplaced⟩)
    · exact .inl (Event.add.inj h).symm
    · exact .inr ⟨hlasting, hreplaced new rfl⟩
  · rintro (rfl | ⟨hlasting, hreplaced⟩)
    · exact .inl rfl
    · refine .inr ⟨hlasting, fun h => (nomatch h), fun new' h => ?_⟩
      obtain rfl := Event.add.inj h
      exact hreplaced

theorem lasting_remove {history : List Event} {removed record : Record} :
    Lasting (history ++ [.remove removed]) record ↔
      record ≠ removed ∧ Lasting history record := by
  rw [lasting_snoc]
  constructor
  · rintro (h | ⟨hlasting, hremoved, -⟩)
    · cases h
    · exact ⟨fun heq => hremoved (heq ▸ rfl), hlasting⟩
  · rintro ⟨hne, hlasting⟩
    exact .inr ⟨hlasting, fun h => hne (Event.remove.inj h).symm, fun _ h => (nomatch h)⟩

/-! ## One step -/

section Step
variable {s : Name} {record : Record}

theorem wellFormed_new : WellFormed .new where
  nodup := List.nodup_nil
  alone := fun _ h => by cases h
  lasting := fun record => by
    refine iff_of_false List.not_mem_nil ?_
    rintro ⟨before, after, hsplit, -⟩
    exact List.append_ne_nil_of_right_ne_nil before (List.cons_ne_nil _ _) hsplit.symm
  deleted := iff_of_true rfl rfl

/-- The entries after an addition. -/
theorem entries_add (h : WellFormed s) : (s.step (.add record)).document =
    some (if record ∈ s.entries then s.entries
      else if record.type = .recordCNAME then [record] else s.entries ++ [record]) := by
  unfold Name.step Name.entries Dns.step addRecordBody
  cases hdoc : s.document with
  | none => simp
  | some entries =>
    dsimp only [Option.getD_some]
    by_cases hmem : record ∈ entries
    · rw [if_pos hmem, if_pos hmem]
      rfl
    · have hne : entries ≠ [] := fun hnil =>
        Option.some_ne_none entries (hdoc.symm.trans (h.deleted.mpr (by simp [Name.entries, hdoc, hnil])))
      rw [if_neg hmem, if_neg hmem]
      by_cases halias : record.type = .recordCNAME
      · rw [if_pos halias, if_pos ⟨halias, hne⟩]
        rfl
      · rw [if_neg halias, if_neg fun hand => halias hand.1]
        rfl

/-- The entries after a removal. -/
theorem entries_remove : (s.step (.remove record)).entries = s.entries.erase record := by
  unfold Name.step Name.entries Dns.step removeRecordBody
  cases s.document with
  | none => rfl
  | some entries =>
    dsimp only [Option.getD_some, Option.bind_some]
    by_cases hmem : record ∈ entries
    · rw [if_neg (fun hnot => hnot hmem)]
      split
      · rename_i hnil
        rw [hnil]
        rfl
      · rfl
    · rw [if_pos hmem, List.erase_of_not_mem hmem]
      rfl

/-- The records beside one of another kind are none. -/
theorem WellFormed.not_replaces (h : WellFormed s) {other : Record} (hrecord : record ∈ s.entries)
    (hother : other ∈ s.entries) : ¬ Replaces record other := by
  rintro ⟨hne, halias | halias⟩
  · have honly := h.alone record hrecord halias
    rw [honly] at hother
    exact hne (List.mem_singleton.mp hother).symm
  · have honly := h.alone other hother halias
    rw [honly] at hrecord
    exact hne (List.mem_singleton.mp hrecord)

theorem WellFormed.add (h : WellFormed s) (hsound : Sound s (.add record)) :
    WellFormed (s.step (.add record)) := by
  have hdoc := @entries_add _ record h
  have hentries : (s.step (.add record)).entries = if record ∈ s.entries then s.entries
      else if record.type = .recordCNAME then [record] else s.entries ++ [record] := by
    unfold Name.entries
    rw [hdoc]
    rfl
  have hhistory : (s.step (.add record)).history = s.history ++ [.add record] := rfl
  by_cases hmem : record ∈ s.entries
  · rw [if_pos hmem] at hdoc hentries
    refine ⟨?_, ?_, fun other => ?_, ?_⟩
    · rw [hentries]
      exact h.nodup
    · rw [hentries]
      exact h.alone
    · rw [hentries, hhistory, lasting_add, ← h.lasting]
      refine ⟨fun hother => .inr ⟨hother, h.not_replaces hmem hother⟩, ?_⟩
      rintro (rfl | hother)
      · exact hmem
      · exact hother.1
    · rw [hdoc, hentries]
      exact iff_of_false (Option.some_ne_none _) (List.ne_nil_of_mem hmem)
  · rw [if_neg hmem] at hdoc hentries
    by_cases halias : record.type = .recordCNAME
    · rw [if_pos halias] at hdoc hentries
      refine ⟨?_, ?_, fun other => ?_, ?_⟩
      · rw [hentries]
        exact List.nodup_singleton _
      · rw [hentries]
        intro other hother _
        rw [List.mem_singleton.mp hother]
      · rw [hentries, hhistory, lasting_add, ← h.lasting, List.mem_singleton]
        refine (or_iff_left ?_).symm
        rintro ⟨hother, hreplaced⟩
        refine hreplaced ⟨?_, .inl halias⟩
        rintro rfl
        exact hmem hother
      · rw [hdoc, hentries]
        exact iff_of_false (Option.some_ne_none _) (List.cons_ne_nil _ _)
    · rw [if_neg halias] at hdoc hentries
      have haddress : record.type = .recordA := by
        cases htype : record.type with
        | recordA => rfl
        | recordCNAME => exact absurd htype halias
      have hothers := hsound haddress
      refine ⟨?_, ?_, fun other => ?_, ?_⟩
      · rw [hentries]
        exact List.nodup_append.mpr ⟨h.nodup, List.nodup_singleton _, fun a ha b hb hab =>
          hmem (by rw [← List.mem_singleton.mp hb, ← hab]; exact ha)⟩
      · rw [hentries]
        intro other hother hotheralias
        obtain hother | hother := List.mem_append.mp hother
        · cases hotheralias.symm.trans (hothers other hother)
        · rw [List.mem_singleton.mp hother] at hotheralias
          exact absurd hotheralias halias
      · rw [hentries, hhistory, lasting_add, ← h.lasting, List.mem_append, List.mem_singleton,
          or_comm]
        refine or_congr_right (and_iff_left_of_imp fun hother => ?_).symm
        rintro ⟨-, hrecord | hold⟩
        · exact halias hrecord
        · cases hold.symm.trans (hothers other hother)
      · rw [hdoc, hentries]
        exact iff_of_false (Option.some_ne_none _)
          (List.append_ne_nil_of_right_ne_nil _ (List.cons_ne_nil _ _))

theorem WellFormed.remove (h : WellFormed s) : WellFormed (s.step (.remove record)) := by
  have hhistory : (s.step (.remove record)).history = s.history ++ [.remove record] := rfl
  refine ⟨?_, ?_, fun other => ?_, ?_⟩
  · rw [entries_remove]
    exact h.nodup.erase _
  · rw [entries_remove]
    intro other hother halias
    obtain ⟨hne, hmem⟩ := h.nodup.mem_erase_iff.mp hother
    rw [h.alone other hmem halias, List.erase_of_not_mem]
    exact fun hrecord => hne (List.mem_singleton.mp hrecord).symm
  · rw [entries_remove, hhistory, lasting_remove, ← h.lasting]
    exact h.nodup.mem_erase_iff
  · unfold Name.step Name.entries Dns.step removeRecordBody
    cases hdoc : s.document with
    | none => simp
    | some entries =>
      have hne : entries ≠ [] := fun hnil =>
        Option.some_ne_none entries (hdoc.symm.trans (h.deleted.mpr (by simp [Name.entries, hdoc, hnil])))
      dsimp only [Option.bind_some]
      split
      · simp [Update.apply, hne]
      · split
        · simp [Update.apply]
        · rename_i hnot
          simp [Update.apply, hnot]

theorem WellFormed.step (h : WellFormed s) {e : Event} (hsound : Sound s e) :
    WellFormed (s.step e) := by
  cases e with
  | add record => exact h.add hsound
  | remove record => exact h.remove

/-- An address that is added to an alias stands beside it. -/
theorem not_wellFormed_step (h : WellFormed s) {e : Event} (hsound : ¬ Sound s e) :
    ¬ WellFormed (s.step e) := by
  intro hafter
  cases e with
  | remove record => exact hsound trivial
  | add record =>
    refine hsound fun haddress other hother => ?_
    by_contra hnot
    have halias : other.type = .recordCNAME := by
      cases htype : other.type with
      | recordA => exact absurd htype hnot
      | recordCNAME => rfl
    have honly := h.alone other hother halias
    have hmem : record ∉ s.entries := by
      rw [honly]
      intro hrecord
      rw [List.mem_singleton.mp hrecord, halias] at haddress
      cases haddress
    have hentries : (s.step (.add record)).entries = s.entries ++ [record] := by
      unfold Name.entries
      rw [entries_add h, if_neg hmem, if_neg (by rw [haddress]; exact fun h => (nomatch h))]
      rfl
    have hboth := hafter.alone other (by rw [hentries]; exact List.mem_append_left _ hother) halias
    rw [hentries, honly] at hboth
    cases hboth

end Step

/-- A document stays well formed throughout a run if and only if no address is added in it where
there is an alias. -/
theorem wellFormed_iff (es : List Event) (t : Name) :
    Run (Ending WellFormed (Steps Name.step)) .new es t ↔
      Run (Guarded Sound (Steps Name.step)) .new es t := by
  refine (run_guarded_iff (fun _ h => h) ?_ ?_ wellFormed_new).symm
  · rintro s e t h hsound rfl
    exact h.step hsound
  · rintro s e t h hsound rfl
    exact not_wellFormed_step h hsound

/-- An alias, and an address that is added to it. -/
def addressOnAlias : List Event :=
  [.add ⟨.recordCNAME, "dog.lan", 300⟩, .add ⟨.recordA, "1.1.1.1", 300⟩]

theorem beside_alias : ¬ WellFormed (addressOnAlias.foldl Name.step .new) := by
  intro h
  have honly := h.alone ⟨.recordCNAME, "dog.lan", 300⟩ (by decide) rfl
  revert honly
  decide

end Feat.Agents.Dns
