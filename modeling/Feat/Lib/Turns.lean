import Mathlib.Data.List.Basic

/- Parties that speak one after the other.

   Each party says something and passes the turn on when it is done (`Turn`). The
   transcript is what the parties say as long as each one before has passed. A log
   that has all that was said (`Heard`) is a transcript only if nobody spoke out of
   turn: `said_in_turn` for a party that speaks, `still_passing` for one that takes
   its pass back. -/
namespace Turns

variable {β : Type}

/-- What a party has said and whether it has passed the turn on. -/
structure Turn (β : Type) where
  said : List β
  passes : Bool

/-- Words with the number of the party they are from. -/
def tagged (n : ℕ) (said : List β) : List (ℕ × β) := said.map (Prod.mk n)

/-- What is said in turn by parties that are numbered from `n` on. -/
def transcriptFrom (n : ℕ) : List (Turn β) → List (ℕ × β)
  | [] => []
  | t :: ts => tagged n t.said ++ bif t.passes then transcriptFrom (n + 1) ts else []

/-- What is said in turn. -/
def transcript (ts : List (Turn β)) : List (ℕ × β) := transcriptFrom 0 ts

/-- All that the parties have said is in a log. -/
def Heard (log : List (ℕ × β)) (ts : List (Turn β)) : Prop :=
  ∀ k t, ts[k]? = some t → ∀ b ∈ t.said, (k, b) ∈ log

@[simp] theorem tagged_nil (n : ℕ) : tagged n ([] : List β) = [] := rfl

theorem tagged_append (n : ℕ) (said more : List β) :
    tagged n (said ++ more) = tagged n said ++ tagged n more := List.map_append

theorem mem_tagged {n : ℕ} {said : List β} {x : ℕ × β} (h : x ∈ tagged n said) :
    x.1 = n ∧ x.2 ∈ said := by
  obtain ⟨b, hb, rfl⟩ := List.mem_map.mp h
  exact ⟨rfl, hb⟩

/-- Who is in the transcript has the turn: all before have passed. -/
theorem passed_of_mem {ts : List (Turn β)} {n : ℕ} {x : ℕ × β} (h : x ∈ transcriptFrom n ts) :
    n ≤ x.1 ∧ ∀ t ∈ ts.take (x.1 - n), t.passes = true := by
  induction ts generalizing n with
  | nil => cases h
  | cons t ts ih =>
    rcases List.mem_append.mp h with hown | hlater
    · rw [(mem_tagged hown).1]
      simp
    · cases hp : t.passes with
      | false =>
        rw [hp] at hlater
        cases hlater
      | true =>
        rw [hp] at hlater
        obtain ⟨hle, hpassed⟩ := ih hlater
        refine ⟨by omega, fun u hu => ?_⟩
        have hsplit : x.1 - n = (x.1 - (n + 1)) + 1 := by omega
        rw [hsplit, List.take_succ_cons] at hu
        rcases List.mem_cons.mp hu with rfl | hu
        · exact hp
        · exact hpassed u hu

/-- The parties come in their order. -/
theorem transcript_sorted (ts : List (Turn β)) (n : ℕ) :
    (transcriptFrom n ts).Pairwise fun x y => x.1 ≤ y.1 := by
  induction ts generalizing n with
  | nil => exact .nil
  | cons t ts ih =>
    refine List.pairwise_append.mpr ⟨?_, ?_, fun x hx y hy => ?_⟩
    · exact List.pairwise_of_forall_mem_list fun x hx y hy =>
        Nat.le_of_eq ((mem_tagged hx).1.trans (mem_tagged hy).1.symm)
    · cases t.passes with
      | false => exact .nil
      | true => exact ih (n + 1)
    · rw [(mem_tagged hx).1]
      cases hp : t.passes with
      | false =>
        rw [hp] at hy
        cases hy
      | true =>
        rw [hp] at hy
        have hle := (passed_of_mem hy).1
        omega

/-- Parties that have said nothing are not in the transcript. -/
theorem transcriptFrom_silent {ts : List (Turn β)} (h : ∀ t ∈ ts, t.said = []) (n : ℕ) :
    transcriptFrom n ts = [] := by
  induction ts generalizing n with
  | nil => rfl
  | cons t ts ih =>
    rw [transcriptFrom, h t List.mem_cons_self, ih (fun u hu => h u (List.mem_cons_of_mem _ hu))]
    cases t.passes <;> rfl

/-- A party that joins and has said nothing changes nothing. -/
theorem transcriptFrom_joined (ts : List (Turn β)) {t : Turn β} (h : t.said = []) (n : ℕ) :
    transcriptFrom n (ts ++ [t]) = transcriptFrom n ts := by
  induction ts generalizing n with
  | nil => exact transcriptFrom_silent (by simpa using h) n
  | cons u us ih => rw [List.cons_append, transcriptFrom, ih, transcriptFrom]

/-- A party that speaks with all before it having passed and none after it having spoken adds
to the end of the transcript, whether it passes then or not. -/
theorem transcriptFrom_said {ts : List (Turn β)} {n i : ℕ} {t u : Turn β} {more : List β}
    (hi : ts[i]? = some t) (hsaid : u.said = t.said ++ more)
    (hpassed : more ≠ [] → ∀ v ∈ ts.take i, v.passes = true)
    (hsilent : ∀ v ∈ ts.drop (i + 1), v.said = []) :
    transcriptFrom n (ts.set i u) = transcriptFrom n ts ++ tagged (n + i) more := by
  induction ts generalizing n i with
  | nil => cases hi
  | cons v ts ih =>
    cases i with
    | zero =>
      cases hi
      have hnone : transcriptFrom (n + 1) ts = [] := transcriptFrom_silent hsilent (n + 1)
      rw [List.set_cons_zero, transcriptFrom, transcriptFrom, hnone, hsaid, tagged_append]
      simp
    | succ i =>
      have hrest := ih (n := n + 1) hi
        (fun hne w hw => hpassed hne w (by rw [List.take_succ_cons]; exact List.mem_cons_of_mem _ hw))
        hsilent
      rw [List.set_cons_succ, transcriptFrom, transcriptFrom, hrest]
      have hn : n + 1 + i = n + (i + 1) := by omega
      cases hp : v.passes with
      | true => rw [cond_true, cond_true, List.append_assoc, hn]
      | false =>
        have hnothing : more = [] := by
          by_contra hne
          have := hpassed hne v (by simp)
          rw [hp] at this
          cases this
        simp [hnothing]

variable {log : List (ℕ × β)} {ts : List (Turn β)} {i : ℕ} {t u : Turn β} {more : List β}

/-- A log with all that was said goes on having it. -/
theorem Heard.said (h : Heard log ts) (hi : ts[i]? = some t) (hsaid : u.said = t.said ++ more) :
    Heard (log ++ tagged i more) (ts.set i u) := by
  intro k v hv b hb
  by_cases hk : i = k
  · subst hk
    have hlt : i < ts.length := (List.getElem?_eq_some_iff.mp hi).1
    rw [List.getElem?_set_self hlt] at hv
    cases hv
    rw [hsaid] at hb
    rcases List.mem_append.mp hb with hb | hb
    · exact List.mem_append_left _ (h i t hi b hb)
    · exact List.mem_append_right _ (List.mem_map_of_mem hb)
  · rw [List.getElem?_set_ne hk] at hv
    exact List.mem_append_left _ (h k v hv b hb)

/-- After a party that has not passed nobody has spoken. -/
theorem Heard.silent_after (h : Heard log ts) (hlog : log <+: transcript ts)
    (hi : ts[i]? = some t) (hp : t.passes = false) : ∀ v ∈ ts.drop (i + 1), v.said = [] := by
  intro v hv
  obtain ⟨k, hk⟩ := List.getElem?_of_mem hv
  rw [List.getElem?_drop] at hk
  by_contra hne
  obtain ⟨b, hb⟩ := List.exists_mem_of_ne_nil _ hne
  have hpassed := (passed_of_mem (hlog.subset (h _ v hk b hb))).2 t
    (List.mem_of_getElem? (i := i) (by rw [List.getElem?_take_of_lt (by simp; omega)]; exact hi))
  rw [hp] at hpassed
  cases hpassed

/-- Who speaks and stays in the transcript had the turn, and nobody after it had spoken. -/
theorem said_in_turn (h : Heard log ts) (hlog : log ++ tagged i more <+: transcript (ts.set i u))
    (hne : more ≠ []) :
    (∀ v ∈ ts.take i, v.passes = true) ∧ ∀ v ∈ ts.drop (i + 1), v.said = [] := by
  obtain ⟨b, hb⟩ := List.exists_mem_of_ne_nil _ hne
  have hmem : (i, b) ∈ tagged i more := List.mem_map_of_mem hb
  refine ⟨fun v hv => ?_, fun v hv => ?_⟩
  · have hpassed := (passed_of_mem (hlog.subset (List.mem_append_right _ hmem))).2
    refine hpassed v ?_
    rw [Nat.sub_zero, List.take_set_of_le (Nat.le_refl i)]
    exact hv
  · obtain ⟨k, hk⟩ := List.getElem?_of_mem hv
    rw [List.getElem?_drop] at hk
    by_contra hspoken
    obtain ⟨c, hc⟩ := List.exists_mem_of_ne_nil _ hspoken
    have hsorted := (transcript_sorted (ts.set i u) 0).sublist hlog.sublist
    have hle := (List.pairwise_append.mp hsorted).2.2 _ (h _ v hk c hc) _ hmem
    simp only at hle
    omega

/-- Who takes back its pass and leaves the transcript as it is has nobody after it who spoke. -/
theorem still_passing (h : Heard log ts) (hlog : log <+: transcript (ts.set i u))
    (hi : ts[i]? = some t) (hp : u.passes = false) : ∀ v ∈ ts.drop (i + 1), v.said = [] := by
  intro v hv
  obtain ⟨k, hk⟩ := List.getElem?_of_mem hv
  rw [List.getElem?_drop] at hk
  by_contra hne
  obtain ⟨b, hb⟩ := List.exists_mem_of_ne_nil _ hne
  have hlt : i < ts.length := (List.getElem?_eq_some_iff.mp hi).1
  have hpassed := (passed_of_mem (hlog.subset (h _ v hk b hb))).2 u
    (List.mem_of_getElem? (i := i) (by
      rw [List.getElem?_take_of_lt (by simp; omega), List.getElem?_set_self hlt]))
  rw [hp] at hpassed
  cases hpassed

end Turns
