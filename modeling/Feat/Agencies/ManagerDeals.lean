import Mathlib.Order.Basic
import Feat.Lib.Run
import Feat.Lib.Traces
import Feat.Agencies.ManagerTurns

/- What a manager has told its contractors (`Deals`): each record of a contractor agrees
   with the messages that were sent to it, and grants, cancellations and acknowledgements
   belong to a contract that was granted once.

   This does not rest on the order in which contractors answer, nor on timeouts: any
   message may come at any moment. It does rest on a contract that was granted not being
   closed again with bids left open (`Settled`), which the check after a bid handler does
   where a grant has failed half way; and on nobody electing a bid that was granted. -/
namespace Feat.Agencies.Contracts
open Hash Transition Traces

/-- The states in which a contract can still be granted. -/
def ContractState.Opened (s : ContractState) : Prop := s = .initiated ∨ s = .announced ∨ s = .closed

/-- The states of a contract that nothing is to be told about. -/
def ContractState.Over (s : ContractState) : Prop := ¬ s.Opened ∧ s ≠ .granted ∧ s ≠ .cancelled

/-- The states of a contractor from its grant on. -/
def ContractorState.Dealt (st : ContractorState) : Prop :=
  st = .granted ∨ st = .completed ∨ st = .cancelled ∨ st = .acknowledged

instance (s : ContractState) : Decidable s.Opened := inferInstanceAs (Decidable (_ ∨ _ ∨ _))
instance (s : ContractState) : Decidable s.Over := inferInstanceAs (Decidable (_ ∧ _ ∧ _))
instance (st : ContractorState) : Decidable st.Dealt := inferInstanceAs (Decidable (_ ∨ _ ∨ _ ∨ _))

variable {Key : Type} [DecidableEq Key]

/-- The records of contractors and the medium of a manager agree on what was told whom. -/
structure Deals (cs : Dict Key ContractorState) (m : ManagerMedium Key) : Prop where
  opened : .entered .granted ∈ m.log → ¬ m.state.Opened
  entered : m.state = .granted ∨ m.state = .cancelled → .entered .granted ∈ m.log
  cancelled : ∀ k, .sent (.to k .cancellation) ∈ m.log →
    .entered .granted ∈ m.log ∧ m.state ≠ .granted
  acknowledged : ∀ k, .sent (.to k .acknowledgement) ∈ m.log → .entered .granted ∈ m.log ∧
    .entered .completed ∈ m.log ∧ m.state ≠ .granted ∧ m.state ≠ .cancelled
  exclusive : ∀ k k', .sent (.to k .acknowledgement) ∈ m.log →
    .sent (.to k' .cancellation) ∉ m.log
  granted : ∀ k, .sent (.to k .grant) ∈ m.log → ∃ st, cs.lookup k = some st ∧ st.Dealt
  reported : ∀ k, cs.lookup k = some .completed ∨ cs.lookup k = some .acknowledged →
    .received (k, .finalReport) ∈ m.log
  calledOff : ∀ k, cs.lookup k = some .cancelled → .sent (.to k .cancellation) ∈ m.log
  once : ∀ k, m.log.count (.sent (.to k .acknowledgement)) =
    if cs.lookup k = some .acknowledged then 1 else 0
  final : ∀ k', .sent (.to k' .grant) ∈ m.log →
    Preceded (fun e => ∃ k, e = .sent (.to k .acknowledgement))
      (· = .received (k', .finalReport)) m.log
  timed : ∀ t, m.timeout = some t → ∀ st, t.state = some st → st.Over

/-- Entries that neither enter `granted` nor tell a contractor more than a rejection. -/
def Aside : ManagerEntry Key → Prop
  | .entered .granted => False
  | .sent (.to _ .grant) | .sent (.to _ .cancellation) | .sent (.to _ .acknowledgement) => False
  | _ => True

/-- The contractors that were granted stay as they are. -/
def Kept (cs cs' : Dict Key ContractorState) : Prop :=
  ∀ k st, st.Dealt → (cs'.lookup k = some st ↔ cs.lookup k = some st)

namespace Deals
variable {cs cs' : Dict Key ContractorState} {m m' : ManagerMedium Key}
  {es : List (ManagerEntry Key)}

/-- What tells nobody anything, and leaves the contractors that were granted alone. -/
theorem extend (h : Deals cs m) (hlog : m'.log = m.log ++ es) (hes : ∀ e ∈ es, Aside e)
    (hkept : Kept cs cs')
    (hs : m'.state = m.state ∨ (m'.state ≠ .granted ∧ (m'.state = .cancelled → m.state = .granted)))
    (hopen : m'.state.Opened → .entered .granted ∈ m.log → m.state.Opened)
    (htimed : ∀ t, m'.timeout = some t → ∀ st, t.state = some st → st.Over) : Deals cs' m' := by
  have hold : ∀ e : ManagerEntry Key, ¬ Aside e → (e ∈ m'.log ↔ e ∈ m.log) := by
    intro e he
    rw [hlog]
    refine ⟨fun hm => ?_, fun hm => List.mem_append_left _ hm⟩
    exact (List.mem_append.mp hm).resolve_right fun hin => he (hes e hin)
  have hgranted := hold (.entered .granted) id
  have hmore : ∀ e : ManagerEntry Key, e ∈ m.log → e ∈ m'.log := by
    intro e he
    rw [hlog]
    exact List.mem_append_left _ he
  refine ⟨fun hm ho => ?_, fun hst => ?_, fun k hk => ?_, fun k hk => ?_, fun k k' hk hk' => ?_,
    fun k hk => ?_, fun k hk => ?_, fun k hk => ?_, fun k => ?_, fun k hk => ?_, htimed⟩
  · have hm' := hgranted.mp hm
    exact h.opened hm' (hopen ho hm')
  · refine hgranted.mpr ?_
    obtain hs | ⟨hng, hc⟩ := hs
    · exact h.entered (hs ▸ hst)
    · exact h.entered (.inl (hc (hst.resolve_left hng)))
  · obtain ⟨hin, hne⟩ := h.cancelled k ((hold _ id).mp hk)
    refine ⟨hmore _ hin, ?_⟩
    obtain hs | ⟨hng, -⟩ := hs
    · rwa [hs]
    · exact hng
  · obtain ⟨hin, hc, hg, hne⟩ := h.acknowledged k ((hold _ id).mp hk)
    refine ⟨hmore _ hin, hmore _ hc, ?_⟩
    obtain hs | ⟨hng, hcg⟩ := hs
    · rw [hs]
      exact ⟨hg, hne⟩
    · exact ⟨hng, fun he => hg (hcg he)⟩
  · exact h.exclusive k k' ((hold _ id).mp hk) ((hold _ id).mp hk')
  · obtain ⟨st, hst, hd⟩ := h.granted k ((hold _ id).mp hk)
    exact ⟨st, (hkept k st hd).mpr hst, hd⟩
  · rw [hkept k _ (by decide), hkept k _ (by decide)] at hk
    exact hmore _ (h.reported k hk)
  · rw [hkept k _ (by decide)] at hk
    exact hmore _ (h.calledOff k hk)
  · have hnone : es.count (.sent (.to k .acknowledgement)) = 0 :=
      List.count_eq_zero.mpr fun hin => hes _ hin
    rw [hlog, List.count_append, hnone, Nat.add_zero, h.once k]
    simp only [hkept k _ (show ContractorState.Dealt .acknowledged by decide)]
  · rw [hlog]
    refine (h.final k ((hold _ id).mp hk)).append fun e he hack => ?_
    obtain ⟨k', rfl⟩ := hack
    exact hes _ he

/-- Entries, while the medium stays as it is. -/
theorem record (h : Deals cs m) (hes : ∀ e ∈ es, Aside e) : Deals cs (m.record es) :=
  h.extend rfl hes (fun _ _ _ => .rfl) (.inl rfl) (fun ho _ => ho) h.timed

/-- A change of the timeout and the jobs. -/
theorem still (h : Deals cs m) (hlog : m'.log = m.log) (hs : m'.state = m.state)
    (ht : ∀ t, m'.timeout = some t → m.timeout = some t ∨
      ∀ st, t.state = some st → st.Over) : Deals cs m' := by
  refine h.extend (hlog.trans (List.append_nil _).symm) (by simp) (fun _ _ _ => .rfl) (.inl hs)
    (fun ho _ => hs ▸ ho) fun t htime => ?_
  obtain hsame | hover := ht t htime
  · exact h.timed t hsame
  · exact hover

theorem finalize (h : Deals cs m) : Deals cs m.finalize := by
  refine h.still Medium.finalize_log Medium.finalize_state fun t ht => .inl ?_
  unfold Medium.finalize at ht
  split at ht
  · exact ht
  · cases ht

theorem call (h : Deals cs m) (method : Method ManagerCallback ManagerMethod)
    (ensure : Option ContractState) (terminates : Bool) :
    Deals cs (m.callAgentSide method ensure terminates) :=
  h.still Medium.callAgentSide_log Medium.callAgentSide_state fun t ht => .inl (by simpa using ht)

/-- A change of state, away from `granted`. -/
theorem setState (h : Deals cs m) {st : ContractState} (hg : st ≠ .granted)
    (hc : st = .cancelled → m.state = .granted ∨ m.state = .cancelled)
    (hopen : st.Opened → .entered .granted ∈ m.log → m.state.Opened) :
    Deals cs (m.setState st) := by
  obtain ⟨es, hlog, hes⟩ := Medium.setState_entries m st
  refine h.extend hlog (fun e he => ?_) (fun _ _ _ => .rfl) ?_ (fun ho => hopen (by simpa using ho))
    fun t ht => h.timed t (by simpa using ht)
  · rw [hes e he]
    cases st <;> trivial
  · rw [Medium.setState_state]
    by_cases hsame : m.state = st
    · exact .inl hsame.symm
    · refine .inr ⟨hg, fun he => (hc he).resolve_right fun hm => hsame ?_⟩
      rw [hm, he]

theorem setOver (h : Deals cs m) {st : ContractState} (hst : st.Over) : Deals cs (m.setState st) :=
  h.setState hst.2.1 (fun he => absurd he hst.2.2) fun ho => absurd ho hst.1

/-- Records of contractors that were not granted. -/
theorem insert (h : Deals cs m) {key : Key} {st : ContractorState} (hst : ¬ st.Dealt)
    (hold : ∀ st', cs.lookup key = some st' → ¬ st'.Dealt) : Deals (cs.insert key st) m := by
  refine h.extend (List.append_nil _).symm (by simp) (fun k st' hd => ?_) (.inl rfl)
    (fun ho _ => ho) h.timed
  by_cases hk : k = key
  · subst hk
    rw [AList.lookup_insert]
    refine ⟨fun he => absurd hd ?_, fun he => absurd hd (hold st' he)⟩
    rwa [← Option.some.inj he]
  · rw [AList.lookup_insert_ne hk]

theorem once_insert (h : Deals cs m) {key : Key} {st st' : ContractorState}
    (hold : cs.lookup key = some st) (hst : st ≠ .acknowledged) (hst' : st' ≠ .acknowledged)
    (k : Key) :
    m.log.count (.sent (.to k .acknowledgement)) =
      if (cs.insert key st').lookup k = some .acknowledged then 1 else 0 := by
  rw [h.once k]
  by_cases hk : k = key
  · subst hk
    rw [AList.lookup_insert, hold]
    simp [hst, hst']
  · rw [AList.lookup_insert_ne hk]

theorem granted_insert (h : Deals cs m) {key : Key} {st : ContractorState} (hst : st.Dealt)
    {k : Key} (hk : .sent (.to k .grant) ∈ m.log) :
    ∃ st', (cs.insert key st).lookup k = some st' ∧ st'.Dealt := by
  by_cases he : k = key
  · subst he
    exact ⟨st, AList.lookup_insert _, hst⟩
  · rw [AList.lookup_insert_ne he]
    exact h.granted k hk

/-- A contract that can be granted has told nobody anything. -/
theorem enter (h : Deals cs m) (hs : m.state.Opened) :
    Deals cs ((m.setState .granted).setTimeout (some .aborted) (.own .onGrantExpire)) := by
  have hnot : .entered .granted ∉ m.log := fun hin => h.opened hin hs
  have hlog : ((m.setState .granted).setTimeout (some .aborted) (.own .onGrantExpire)).log =
      m.log ++ [.entered .granted] := by
    rw [Medium.setTimeout_log, Medium.setState_log]
    intro he
    rw [he] at hs
    exact absurd hs (by decide)
  have hnoack : ∀ k, .sent (.to k .acknowledgement) ∉ m.log :=
    fun k hk => hnot (h.acknowledged k hk).1
  have hnocancel : ∀ k, .sent (.to k .cancellation) ∉ m.log := fun k hk => hnot (h.cancelled k hk).1
  refine ⟨fun _ => ?_, fun _ => ?_, fun k hk => ?_, fun k hk => ?_, fun k k' hk => ?_,
    fun k hk => ?_, fun k hk => ?_, fun k hk => ?_, fun k => ?_, fun k _ => ?_,
    fun t ht st hst => ?_⟩
  · rw [Medium.setTimeout_state, Medium.setState_state]
    decide
  · rw [hlog]
    simp
  · rw [hlog] at hk
    exact absurd (by simpa using hk) (hnocancel k)
  · rw [hlog] at hk
    exact absurd (by simpa using hk) (hnoack k)
  · rw [hlog] at hk
    exact absurd (by simpa using hk) (hnoack k)
  · rw [hlog] at hk
    exact h.granted k (by simpa using hk)
  · rw [hlog]
    exact List.mem_append_left _ (h.reported k hk)
  · rw [hlog]
    exact List.mem_append_left _ (h.calledOff k hk)
  · rw [hlog, List.count_append, h.once k]
    simp
  · apply Preceded.of_none
    intro e he hack
    obtain ⟨k', rfl⟩ := hack
    rw [hlog] at he
    exact hnoack k' (by simpa using he)
  · obtain rfl := Option.some.inj ht
    obtain rfl := Option.some.inj hst
    decide

/-- A grant, of a contract that is granted. -/
theorem grant (h : Deals cs m) {key : Key} (hold : cs.lookup key = some .bid)
    (hs : m.state = .granted) :
    Deals (cs.insert key .granted) (m.record [.sent (.to key .grant)]) := by
  have hnoack : ∀ k, .sent (.to k .acknowledgement) ∉ m.log :=
    fun k hk => (h.acknowledged k hk).2.2.1 hs
  have hnocancel : ∀ k, .sent (.to k .cancellation) ∉ m.log := fun k hk => (h.cancelled k hk).2 hs
  refine ⟨fun _ => ?_, fun hst => ?_, fun k hk => ?_, fun k hk => ?_, fun k k' hk => ?_,
    fun k hk => ?_, fun k hk => ?_, fun k hk => ?_, fun k => ?_, fun k _ => ?_, h.timed⟩
  · rw [Medium.record_state, hs]
    decide
  · exact List.mem_append_left _ (h.entered hst)
  · exact absurd (by simpa using hk) (hnocancel k)
  · exact absurd (by simpa using hk) (hnoack k)
  · exact absurd (by simpa using hk) (hnoack k)
  · obtain hk | hk := List.mem_append.mp hk
    · exact h.granted_insert (.inl rfl) hk
    · obtain rfl : k = key := by simpa using hk
      exact ⟨.granted, AList.lookup_insert _, .inl rfl⟩
  · refine List.mem_append_left _ (h.reported k ?_)
    by_cases he : k = key
    · subst he
      rw [AList.lookup_insert] at hk
      simp at hk
    · rwa [AList.lookup_insert_ne he] at hk
  · refine List.mem_append_left _ (h.calledOff k ?_)
    by_cases he : k = key
    · subst he
      rw [AList.lookup_insert] at hk
      simp at hk
    · rwa [AList.lookup_insert_ne he] at hk
  · have hne : ContractorState.granted ≠ .acknowledged := by decide
    rw [Medium.record_log, List.count_append, h.once_insert hold (by decide) hne k]
    simp
  · apply Preceded.of_none
    intro e he hack
    obtain ⟨k', rfl⟩ := hack
    exact hnoack k' (by simpa using he)

/-- A cancellation, of a contract that is cancelled. -/
theorem cancel (h : Deals cs m) {key : Key}
    (hold : cs.lookup key = some .granted ∨ cs.lookup key = some .completed)
    (hs : m.state = .cancelled) :
    Deals (cs.insert key .cancelled) (m.record [.sent (.to key .cancellation)]) := by
  have hnoack : ∀ k, .sent (.to k .acknowledgement) ∉ m.log :=
    fun k hk => (h.acknowledged k hk).2.2.2 hs
  have hentered := h.entered (.inr hs)
  refine ⟨fun _ => ?_, fun _ => ?_, fun k _ => ⟨?_, ?_⟩, fun k hk => ?_, fun k k' hk => ?_,
    fun k hk => ?_, fun k hk => ?_, fun k hk => ?_, fun k => ?_, fun k hk => ?_, h.timed⟩
  · rw [Medium.record_state, hs]
    decide
  · exact List.mem_append_left _ hentered
  · exact List.mem_append_left _ hentered
  · rw [Medium.record_state, hs]
    decide
  · exact absurd (by simpa using hk) (hnoack k)
  · exact absurd (by simpa using hk) (hnoack k)
  · exact h.granted_insert (.inr (.inr (.inl rfl))) (by simpa using hk)
  · refine List.mem_append_left _ (h.reported k ?_)
    by_cases he : k = key
    · subst he
      rw [AList.lookup_insert] at hk
      simp at hk
    · rwa [AList.lookup_insert_ne he] at hk
  · by_cases he : k = key
    · subst he
      simp
    · rw [AList.lookup_insert_ne he] at hk
      exact List.mem_append_left _ (h.calledOff k hk)
  · have hne : ContractorState.cancelled ≠ .acknowledged := by decide
    rw [Medium.record_log, List.count_append]
    obtain hold | hold := hold
    · rw [h.once_insert hold (by decide) hne k]
      simp
    · rw [h.once_insert hold (by decide) hne k]
      simp
  · apply Preceded.of_none
    intro e he hack
    obtain ⟨k', rfl⟩ := hack
    exact hnoack k' (by simpa using he)

/-- A report of a contractor that was granted. -/
theorem report (h : Deals cs m) {key : Key} (hold : cs.lookup key = some .granted)
    (hin : .received (key, .finalReport) ∈ m.log) : Deals (cs.insert key .completed) m := by
  refine ⟨h.opened, h.entered, h.cancelled, h.acknowledged, h.exclusive,
    fun k hk => h.granted_insert (.inr (.inl rfl)) hk, fun k hk => ?_, fun k hk => ?_,
    h.once_insert hold (by decide) (by decide), h.final, h.timed⟩
  · by_cases he : k = key
    · subst he
      exact hin
    · rw [AList.lookup_insert_ne he] at hk
      exact h.reported k hk
  · by_cases he : k = key
    · subst he
      rw [AList.lookup_insert] at hk
      simp at hk
    · rw [AList.lookup_insert_ne he] at hk
      exact h.calledOff k hk

/-- All that was granted is done, and nothing was cancelled. -/
structure Done (m : ManagerMedium Key) : Prop where
  state : m.state = .completed
  completed : .entered .completed ∈ m.log
  granted : .entered .granted ∈ m.log
  uncancelled : ∀ k, .sent (.to k .cancellation) ∉ m.log
  reported : ∀ k, .sent (.to k .grant) ∈ m.log → .received (k, .finalReport) ∈ m.log

/-- An acknowledgement, once all is done. -/
theorem acknowledge (h : Deals cs m) (hdone : Done m) {key : Key}
    (hold : cs.lookup key = some .completed) :
    Deals (cs.insert key .acknowledged) (m.record [.sent (.to key .acknowledgement)]) := by
  have hstate : m.state ≠ .granted ∧ m.state ≠ .cancelled := by
    rw [hdone.state]
    decide
  refine ⟨fun _ => ?_, fun hst => ?_, fun k hk => ?_, fun k _ => ⟨?_, ?_, hstate⟩,
    fun k k' _ hk' => ?_, fun k hk => ?_, fun k hk => ?_, fun k hk => ?_, fun k => ?_,
    fun k hk => ?_, h.timed⟩
  · rw [Medium.record_state, hdone.state]
    decide
  · exact List.mem_append_left _ (h.entered hst)
  · exact absurd (by simpa using hk) (hdone.uncancelled k)
  · exact List.mem_append_left _ hdone.granted
  · exact List.mem_append_left _ hdone.completed
  · exact absurd (by simpa using hk') (hdone.uncancelled k')
  · exact h.granted_insert (.inr (.inr (.inr rfl))) (by simpa using hk)
  · refine List.mem_append_left _ (h.reported k ?_)
    by_cases he : k = key
    · subst he
      exact .inl hold
    · rwa [AList.lookup_insert_ne he] at hk
  · refine absurd (h.calledOff k ?_) (hdone.uncancelled k)
    by_cases he : k = key
    · subst he
      rw [AList.lookup_insert] at hk
      simp at hk
    · rwa [AList.lookup_insert_ne he] at hk
  · rw [Medium.record_log, List.count_append, h.once k]
    by_cases he : k = key
    · subst he
      rw [AList.lookup_insert, hold]
      simp
    · rw [AList.lookup_insert_ne he]
      have hother : (.sent (.to k .acknowledgement) : ManagerEntry Key) ∉
          [.sent (.to key .acknowledgement)] := by simpa using he
      rw [List.count_eq_zero.mpr hother, Nat.add_zero]
  · have hk' : .sent (.to k .grant) ∈ m.log := by simpa using hk
    exact (h.final k hk').concat fun _ => ⟨_, hdone.reported k hk', rfl⟩

/-! ## The medium -/

theorem close (h : Deals cs m) {bids : Nat} (hnot : bids > 0 → .entered .granted ∉ m.log) :
    Deals cs (AgencyManager.gotoClosedOrExpired bids m) := by
  unfold AgencyManager.gotoClosedOrExpired
  split
  · rename_i hbids
    unfold AgencyManager.closeAnnouncePeriod
    have htimed : Deals cs (m.setTimeout (some .expired) (.runAndTerminate .expired)) := by
      refine h.still rfl rfl fun t ht => .inr fun st hst => ?_
      obtain rfl := Option.some.inj ht
      obtain rfl := Option.some.inj hst
      decide
    refine (htimed.setState (by decide) (fun he => by cases he) fun _ hin => ?_).call _ _ _
    exact absurd hin (hnot hbids)
  · exact (h.setOver (by decide)).call _ _ _

theorem fire (h : Deals cs m) (hfire : m.fire = some m') : Deals cs m' := by
  have hspent : Deals cs (m.cancelTimeout.record [.timedOut]) := by
    have hcancelled : Deals cs m.cancelTimeout := h.still rfl rfl fun t ht => by cases ht
    refine hcancelled.record fun e he => ?_
    rw [List.mem_singleton.mp he]
    trivial
  obtain ⟨t, ht, ⟨-, rfl⟩ | ⟨st, hst, rfl⟩⟩ := Medium.fire_cases hfire
  · exact hspent.call _ _ _
  · exact (hspent.setOver (h.timed t ht st hst)).call _ _ _

theorem start (h : Deals cs m) {bids : Nat} {job : AgencyManager.ManagerJob}
    (hstart : m.start (AgencyManager.own bids) job = some m') : Deals cs m' := by
  have hdrop : Deals cs (m.drop job) := h.still rfl rfl fun t ht => .inl ht
  obtain ⟨-, -, ⟨-, ⟨callback, -, rfl⟩ | ⟨callback, -, rfl⟩ | ⟨method, -, rfl⟩⟩ | rfl⟩ :=
    Medium.start_cases hstart
  · have hqueued : Deals cs
        { m with jobs := m.jobs.erase job ++ [{ job with underWay := true }] } :=
      h.still rfl rfl fun t ht => .inl ht
    refine hqueued.record fun e he => ?_
    rw [List.mem_singleton.mp he]
    trivial
  · exact hdrop.call _ _ _
  · cases method with
    | finalize => exact hdrop.finalize
    | onAnnounceExpire =>
      dsimp only [AgencyManager.own]
      split
      · rename_i ha
        exact hdrop.close fun _ hin => hdrop.opened hin (.inr (.inl ha))
      · exact hdrop
    | onGrantExpire => exact (hdrop.setOver (by decide)).call _ _ _
  · split
    · exact hdrop.finalize
    · exact hdrop

theorem finish (h : Deals cs m) {job : AgencyManager.ManagerJob} {failed : Bool}
    (hfinish : m.finish .wtf job failed = some m') : Deals cs m' := by
  have hdrop : Deals cs (m.drop job) := h.still rfl rfl fun t ht => .inl ht
  obtain ⟨-, -, rfl | rfl⟩ := Medium.finish_cases hfinish
  · exact (hdrop.setOver (by decide)).finalize
  · split
    · exact hdrop.finalize
    · exact hdrop

end Deals

namespace AgencyManager
variable (order : HashOrder Key)

/-- The agent's side elects no bid that was granted. -/
def Electing (m : AgencyManager Key) : Event Key → Prop
  | .elect key => ∀ st ∈ m.contractors.lookup key, ¬ st.Dealt
  | _ => True

instance (m : AgencyManager Key) : ∀ e, Decidable (m.Electing e)
  | .elect key => inferInstanceAs (Decidable (∀ _ ∈ m.contractors.lookup key, _))
  | .announce | .reject _ | .grant _ | .cancel | .terminate | .message _ _ | .bidHandled
  | .completedHandled | .fire | .start _ | .finish _ _ => inferInstanceAs (Decidable True)

/-- The condition on an event: a bid handler that ends while enough contractors have
    answered finds no bid left open by a grant. -/
def Settled (m : AgencyManager Key) : Event Key → Prop
  | .bidHandled => m.Answered → (m.withState order [.bid]).length > 0 →
    .entered .granted ∉ m.medium.log
  | _ => True

instance (m : AgencyManager Key) : ∀ e, Decidable (m.Settled order e)
  | .bidHandled => inferInstanceAs (Decidable (_ → _ → _))
  | .announce | .reject _ | .grant _ | .elect _ | .cancel | .terminate | .message _ _
  | .completedHandled | .fire | .start _ | .finish _ _ => inferInstanceAs (Decidable True)

/-! ## Messages to contractors -/

/-- A message changes nothing, or moves the record of its contractor on. -/
theorem onEvent_cases (msg : ToContractor) (m : AgencyManager Key) (key : Key) :
    m.onEvent msg key = m ∨ ∃ st st', m.contractors.lookup key = some st ∧
      st.send msg = some st' ∧ (m.onEvent msg key).contractors = m.contractors.insert key st' ∧
        (m.onEvent msg key).medium = m.medium.record [.sent (.to key msg)] := by
  unfold onEvent
  split
  · rename_i st' hst'
    obtain ⟨st, hst, hsend⟩ := Option.bind_eq_some_iff.mp hst'
    exact .inr ⟨st, st', hst, hsend, rfl, rfl⟩
  · exact .inl rfl

theorem deals_reject {m : AgencyManager Key} (h : Deals m.contractors m.medium) (key : Key) :
    Deals (m.onEvent .rejection key).contractors (m.onEvent .rejection key).medium := by
  obtain he | ⟨st, st', hst, hsend, hc, hm⟩ := onEvent_cases .rejection m key
  · rwa [he]
  · obtain ⟨rfl, rfl⟩ : st = .bid ∧ st' = .rejected := by
      cases st <;> cases hsend
      exact ⟨rfl, rfl⟩
    rw [hc, hm]
    refine (h.insert (by decide) fun st hold => ?_).record fun e he => ?_
    · rw [← Option.some.inj (hst.symm.trans hold)]
      decide
    · rw [List.mem_singleton.mp he]
      trivial

theorem deals_rejects {m : AgencyManager Key} (h : Deals m.contractors m.medium)
    (keys : List Key) :
    Deals (keys.foldl (onEvent .rejection) m).contractors
      (keys.foldl (onEvent .rejection) m).medium := by
  induction keys generalizing m with
  | nil => exact h
  | cons key keys ih => exact ih (deals_reject h key)

theorem deals_grants {m : AgencyManager Key} (h : Deals m.contractors m.medium)
    (hs : m.medium.state = .granted) (keys : List Key) :
    Deals (keys.foldl (onEvent .grant) m).contractors (keys.foldl (onEvent .grant) m).medium := by
  induction keys generalizing m with
  | nil => exact h
  | cons key keys ih =>
    rw [List.foldl_cons]
    obtain he | ⟨st, st', hst, hsend, hc, hm⟩ := onEvent_cases .grant m key
    · rw [he]
      exact ih h hs
    · obtain ⟨rfl, rfl⟩ : st = .bid ∧ st' = .granted := by
        cases st <;> cases hsend
        exact ⟨rfl, rfl⟩
      apply ih
      · rw [hc, hm]
        exact h.grant hst hs
      · rw [hm]
        exact hs

theorem deals_cancels {m : AgencyManager Key} (h : Deals m.contractors m.medium)
    (hs : m.medium.state = .cancelled) (keys : List Key) :
    Deals (keys.foldl (onEvent .cancellation) m).contractors
      (keys.foldl (onEvent .cancellation) m).medium := by
  induction keys generalizing m with
  | nil => exact h
  | cons key keys ih =>
    rw [List.foldl_cons]
    obtain he | ⟨st, st', hst, hsend, hc, hm⟩ := onEvent_cases .cancellation m key
    · rw [he]
      exact ih h hs
    · obtain ⟨hold, rfl⟩ : (st = .granted ∨ st = .completed) ∧ st' = .cancelled := by
        cases st <;> cases hsend
        · exact ⟨.inl rfl, rfl⟩
        · exact ⟨.inr rfl, rfl⟩
      apply ih
      · rw [hc, hm]
        refine h.cancel ?_ hs
        obtain rfl | rfl := hold
        · exact .inl hst
        · exact .inr hst
      · rw [hm]
        exact hs

theorem deals_acknowledges {m : AgencyManager Key} (h : Deals m.contractors m.medium)
    (hdone : Deals.Done m.medium) (keys : List Key) :
    Deals (keys.foldl (onEvent .acknowledgement) m).contractors
      (keys.foldl (onEvent .acknowledgement) m).medium := by
  induction keys generalizing m with
  | nil => exact h
  | cons key keys ih =>
    rw [List.foldl_cons]
    obtain he | ⟨st, st', hst, hsend, hc, hm⟩ := onEvent_cases .acknowledgement m key
    · rw [he]
      exact ih h hdone
    · obtain ⟨rfl, rfl⟩ : st = .completed ∧ st' = .acknowledged := by
        cases st <;> cases hsend
        exact ⟨rfl, rfl⟩
      apply ih
      · rw [hc, hm]
        exact h.acknowledge hdone hst
      · rw [hm]
        refine ⟨hdone.state, ?_, ?_, fun k hk => ?_, fun k hk => ?_⟩
        · exact List.mem_append_left _ hdone.completed
        · exact List.mem_append_left _ hdone.granted
        · exact hdone.uncancelled k (by simpa using hk)
        · exact List.mem_append_left _ (hdone.reported k (by simpa using hk))

/-! ## One event -/

theorem deals_check {m : AgencyManager Key} (h : Deals m.contractors m.medium)
    (hnot : m.Answered → (m.withState order [.bid]).length > 0 →
      .entered .granted ∉ m.medium.log) :
    Deals (m.checkIfShouldGotoClose order).contractors (m.checkIfShouldGotoClose order).medium := by
  unfold checkIfShouldGotoClose
  split
  · rename_i hans
    have hcancelled : Deals m.contractors m.medium.cancelTimeout :=
      h.still rfl rfl fun t ht => by cases ht
    exact hcancelled.close (hnot hans)
  · exact h

theorem deals_cancel {m : AgencyManager Key} (h : Deals m.contractors m.medium) :
    Deals (m.cancel order).contractors (m.cancel order).medium := by
  unfold cancel
  split
  · rename_i hs
    have hstate : m.medium.state = .granted ∨ m.medium.state = .cancelled := by simpa using hs
    have hset : Deals m.contractors (m.medium.setState .cancelled) :=
      h.setState (by decide) (fun _ => hstate) fun ho => absurd ho (by decide)
    have hsent := deals_cancels (m := { m with medium := m.medium.setState .cancelled }) hset
      Medium.setState_state (m.withState order [.granted, .completed])
    dsimp only
    split
    · exact hsent
    · exact hsent.call _ _ _
  · exact h

theorem deals_refusal {m : AgencyManager Key} (h : Deals m.contractors m.medium) (key : Key)
    (hs : m.medium.state = .announced) :
    Deals (m.onRefusal order key).contractors (m.onRefusal order key).medium := by
  unfold onRefusal
  split
  · exact h
  · rename_i hnew
    apply deals_check
    · refine h.insert (by decide) fun st hst => absurd ?_ hnew
      rw [← AList.lookup_isSome, hst]
      rfl
    · exact fun _ _ hin => h.opened hin (.inr (.inl hs))

theorem deals_complete {m : AgencyManager Key} (h : Deals m.contractors m.medium)
    (hs : m.medium.state = .granted)
    (hnone : (m.withState order [.granted]).length = 0) :
    Deals (m.onComplete order).contractors (m.onComplete order).medium := by
  have hall : ∀ k, .sent (.to k .grant) ∈ m.medium.log →
      .received (k, .finalReport) ∈ m.medium.log := by
    intro k hk
    obtain ⟨st, hst, hd⟩ := h.granted k hk
    obtain rfl | rfl | rfl | rfl := hd
    · have hmem : k ∈ m.withState order [.granted] :=
        (mem_withState order).mpr ⟨_, List.mem_singleton.mpr rfl, hst⟩
      rw [List.length_eq_zero_iff.mp hnone] at hmem
      cases hmem
    · exact h.reported k (.inl hst)
    · exact absurd hs (h.cancelled k (h.calledOff k hst)).2
    · exact h.reported k (.inr hst)
  unfold onComplete
  rw [if_pos hs]
  have hset : Deals m.contractors (m.medium.setState .completed).cancelTimeout :=
    (h.setOver (by decide)).still rfl rfl fun t ht => by cases ht
  have hlog : (m.medium.setState .completed).log = m.medium.log ++ [.entered .completed] :=
    Medium.setState_log (by rw [hs]; decide)
  have hdone : Deals.Done (m.medium.setState .completed).cancelTimeout := by
    refine ⟨Medium.setState_state, ?_, ?_, fun k hk => ?_, fun k hk => ?_⟩
    · rw [Medium.cancelTimeout_log, hlog]
      simp
    · rw [Medium.cancelTimeout_log, hlog]
      exact List.mem_append_left _ (h.entered (.inl hs))
    · rw [Medium.cancelTimeout_log, hlog] at hk
      exact (h.cancelled k (by simpa using hk)).2 hs
    · rw [Medium.cancelTimeout_log, hlog] at hk ⊢
      exact List.mem_append_left _ (hall k (by simpa using hk))
  have hsent := deals_acknowledges (m := { m with
    medium := (m.medium.setState ContractState.completed).cancelTimeout }) hset hdone
    (withState order [.completed] { m with
      medium := (m.medium.setState ContractState.completed).cancelTimeout })
  dsimp only
  refine hsent.record fun e he => ?_
  rw [List.mem_singleton.mp he]
  trivial

theorem deals_report {m : AgencyManager Key} (h : Deals m.contractors m.medium) (key : Key)
    (hs : m.medium.state = .granted) (hin : .received (key, .finalReport) ∈ m.medium.log) :
    Deals (m.onReport order key).contractors (m.onReport order key).medium := by
  unfold onReport
  split
  · have hreport : Deals (m.onEventReport key).contractors (m.onEventReport key).medium ∧
        (m.onEventReport key).medium.state = .granted := by
      unfold onEventReport
      split
      · rename_i hst
        exact ⟨h.report hst hin, hs⟩
      · exact ⟨h, hs⟩
    dsimp only
    split
    · rename_i hnone
      exact deals_complete order hreport.1 hreport.2 hnone
    · exact hreport.1
  · exact h

theorem deals_message {m : AgencyManager Key} (h : Deals m.contractors m.medium) (key : Key)
    (msg : ToManager) :
    Deals (m.onMessage order key msg).contractors (m.onMessage order key msg).medium := by
  have hreceived : Deals m.contractors (m.medium.record [.received (key, msg)]) := by
    refine h.record fun e he => ?_
    rw [List.mem_singleton.mp he]
    trivial
  unfold onMessage
  dsimp only
  cases msg with
  | bid =>
    dsimp only
    split
    · rename_i hs
      rw [Medium.setState_self hs]
      unfold onBid
      split
      · exact hreceived
      · rename_i hnew
        refine (hreceived.insert (by decide) fun st hst => absurd ?_ hnew).record fun e he => ?_
        · rw [← AList.lookup_isSome, hst]
          rfl
        · rw [List.mem_singleton.mp he]
          trivial
    · exact hreceived
  | refusal =>
    dsimp only
    split
    · rename_i hs
      rw [Medium.setState_self hs]
      exact deals_refusal order hreceived key hs
    · exact hreceived
  | duplicate =>
    dsimp only
    split
    · rename_i hs
      rw [Medium.setState_self hs]
      unfold onDuplicate
      split
      · exact hreceived
      · exact deals_refusal order hreceived key hs
    · exact hreceived
  | finalReport =>
    dsimp only
    split
    · rename_i hs
      rw [Medium.setState_self hs]
      exact deals_report order hreceived key hs (by simp)
    · exact hreceived
  | cancellation =>
    dsimp only
    split
    · rename_i hs
      have hset : Deals m.contractors
          ((m.medium.record [.received (key, .cancellation)]).setState .cancelled) :=
        hreceived.setState (by decide) (fun _ => .inl hs) fun ho => absurd ho (by decide)
      unfold onCancel
      split
      · exact deals_cancel order hset
      · exact hset
    · exact hreceived

theorem deals_grant {m : AgencyManager Key} (h : Deals m.contractors m.medium) (keys : List Key) :
    Deals (m.grant order keys).contractors (m.grant order keys).medium := by
  unfold grant
  split
  · rename_i hs
    have hstate : m.medium.state = .closed ∨ m.medium.state = .announced := by simpa using hs
    have hentered : Deals m.contractors m.enterGranted.medium :=
      h.enter (hstate.elim (fun hc => .inr (.inr hc)) fun ha => .inr (.inl ha))
    have hsent : Deals (m.enterGranted.sendGrants keys).2.contractors
        (m.enterGranted.sendGrants keys).2.medium := by
      obtain ⟨ks, hks, -⟩ := sendGrants_eq keys m.enterGranted
      rw [hks]
      exact deals_grants hentered Medium.setState_state ks
    dsimp only
    split
    · exact deals_rejects hsent _
    · exact hsent
  · exact h

/-- One event keeps what was told whom. -/
theorem step_deals {m m' : AgencyManager Key} {e : Event Key} (h : Deals m.contractors m.medium)
    (helect : m.Electing e) (hsettled : m.Settled order e) (hstep : step order m e = some m') :
    Deals m'.contractors m'.medium := by
  cases e with
  | announce =>
    obtain rfl := Option.some.inj hstep
    unfold announce
    split
    · rename_i hs
      have hset : Deals m.contractors (m.medium.setState .announced) :=
        h.setState (by decide) (fun he => by cases he) fun _ _ => .inl hs
      have hsent : Deals m.contractors
          ((m.medium.setState .announced).record [.sent .announcement]) := by
        refine hset.record fun e he => ?_
        rw [List.mem_singleton.mp he]
        trivial
      refine hsent.still rfl rfl fun t ht => .inr fun st hst => ?_
      obtain rfl := Option.some.inj ht
      cases hst
    · exact h
  | reject key =>
    obtain rfl := Option.some.inj hstep
    unfold reject
    split
    · exact deals_reject h key
    · exact h
  | grant keys =>
    obtain rfl := Option.some.inj hstep
    exact deals_grant order h keys
  | elect key =>
    obtain rfl := Option.some.inj hstep
    unfold elect
    split
    · exact h.insert (by decide) helect
    · exact h
  | cancel =>
    obtain rfl := Option.some.inj hstep
    exact deals_cancel order h
  | terminate =>
    obtain rfl := Option.some.inj hstep
    have hrejected := deals_rejects h (m.withState order [.bid])
    unfold terminate
    dsimp only
    split
    · exact hrejected
    · exact (hrejected.setOver (by decide)).finalize
  | message key msg =>
    obtain rfl := Option.some.inj hstep
    exact deals_message order h key msg
  | bidHandled =>
    dsimp only [step] at hstep
    split at hstep
    · obtain rfl := Option.some.inj hstep
      exact deals_check order h hsettled
    · cases hstep
  | completedHandled =>
    dsimp only [step] at hstep
    split at hstep
    · obtain rfl := Option.some.inj hstep
      exact h.finalize
    · cases hstep
  | fire =>
    obtain ⟨medium, hm, rfl⟩ := Option.map_eq_some_iff.mp hstep
    exact h.fire hm
  | start job =>
    obtain ⟨medium, hm, rfl⟩ := Option.map_eq_some_iff.mp hstep
    exact h.start hm
  | finish job failed =>
    obtain ⟨medium, hm, rfl⟩ := Option.map_eq_some_iff.mp hstep
    exact h.finish hm

theorem start_deals (expected : Option Nat) :
    Deals (start expected : AgencyManager Key).contractors (start expected).medium := by
  refine ⟨?_, ?_, ?_, ?_, ?_, ?_, ?_, ?_, ?_, fun k hk => ?_, fun t ht st hst => ?_⟩
  · simp [start]
  · simp [start]
  · simp [start]
  · simp [start]
  · simp [start]
  · simp [start]
  · simp [start]
  · simp [start]
  · simp [start]
  · simp [start] at hk
  · obtain rfl := Option.some.inj ht
    obtain rfl := Option.some.inj hst
    decide

end AgencyManager
end Feat.Agencies.Contracts
