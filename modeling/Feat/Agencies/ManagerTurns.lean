import Feat.Agencies.Manager

/- What an event does to the medium of a manager, whatever it does to the records of the
   contractors: one case for each way the state, the timeout and the jobs can change
   (`Turn`). The announce period closes only while it is open as long as every bid
   handler that ends finds it so (`Timely`). -/
namespace Feat.Agencies.Contracts
open Hash

/-- The states from which a contract can still be granted or completed. -/
def ContractState.Live (s : ContractState) : Prop :=
  s = .initiated ∨ s = .announced ∨ s = .closed ∨ s = .granted

instance (s : ContractState) : Decidable s.Live := inferInstanceAs (Decidable (_ ∨ _ ∨ _ ∨ _))

theorem ContractState.live_of_open {s : ContractState} (h : s = .closed ∨ s = .announced) :
    s.Live := by
  obtain rfl | rfl := h
  · decide
  · decide

variable {Key : Type}

abbrev ManagerEntry (Key : Type) : Type :=
  Entry ContractState ManagerCallback (ManagerMessage Key) (Key × ToManager)

/-- Entries that say nothing about states and outcomes: messages received, messages sent
    but for grants and cancellations, and bids handed to the agent. -/
def Idle : ManagerEntry Key → Prop
  | .received _ => True
  | .sent .announcement | .sent (.to _ .rejection) | .sent (.to _ .acknowledgement) => True
  | .called .bid => True
  | _ => False

/-- How one event may change a medium, and what is known of one whose timeout fires. -/
inductive Turn (ready : ManagerMedium Key → Prop) : ManagerMedium Key → ManagerMedium Key → Prop
  | idle {m es} (h : ∀ e ∈ es, Idle e) : Turn ready m (m.record es)
  | announce {m es} (hs : m.state = .initiated) (h : ∀ e ∈ es, Idle e) :
      Turn ready m (((m.setState .announced).record es).setTimeout none (.own .onAnnounceExpire))
  | grant {m es} (hs : m.state = .closed ∨ m.state = .announced)
      (h : ∀ e ∈ es, Idle e ∨ ∃ k, e = .sent (.to k .grant)) :
      Turn ready m
        (((m.setState .granted).setTimeout (some .aborted) (.own .onGrantExpire)).record es)
  | cancel {m pre post} (hs : m.state = .granted ∨ m.state = .cancelled)
      (hpre : ∀ e ∈ pre, Idle e) (hpost : ∀ e ∈ post, ∃ k, e = .sent (.to k .cancellation)) :
      Turn ready m (((m.record pre).setState .cancelled).record post)
  | cancelTold {m pre post} (hs : m.state = .granted ∨ m.state = .cancelled)
      (hpre : ∀ e ∈ pre, Idle e) (hpost : ∀ e ∈ post, ∃ k, e = .sent (.to k .cancellation))
      (htold : post ≠ []) (hfirst : ∀ k, .sent (.to k .cancellation) ∉ m.log) :
      Turn ready m ((((m.record pre).setState .cancelled).record post).runAndTerminate .cancelled
        (some .cancelled))
  | terminate {m es} (hs : m.state ∉ [.expired, .cancelled, .aborted, .wtf])
      (h : ∀ e ∈ es, Idle e) : Turn ready m (((m.record es).setState .terminated).finalize)
  | close {m es bids} (hs : m.state = .announced) (h : ∀ e ∈ es, Idle e) :
      Turn ready m (AgencyManager.gotoClosedOrExpired bids (m.record es).cancelTimeout)
  | complete {m pre post} (hs : m.state = .granted) (hpre : ∀ e ∈ pre, Idle e)
      (hpost : ∀ e ∈ post, Idle e) :
      Turn ready m ((((m.record pre).setState .completed).cancelTimeout.record post).record
        [.called .completed])
  | completed {m} (hs : ¬ m.state.Live) : Turn ready m m.finalize
  | fire {m m'} (hready : ready m) (h : m.fire = some m') : Turn ready m m'
  | start {m m' bids job} (h : m.start (AgencyManager.own bids) job = some m') : Turn ready m m'
  | finish {m m' job failed} (h : m.finish .wtf job failed = some m') : Turn ready m m'

namespace AgencyManager

theorem idle_rejections {es : List (ManagerEntry Key)}
    (h : ∀ e ∈ es, ∃ k, e = .sent (.to k .rejection)) : ∀ e ∈ es, Idle e := by
  intro e he
  obtain ⟨k, rfl⟩ := h e he
  trivial

/-! ## What the log says -/

theorem grows_gotoClosedOrExpired {P : ManagerEntry Key → Prop} (hclosed : P (.entered .closed))
    (hexpired : P (.entered .expired)) (bids : Nat) (m : ManagerMedium Key) :
    m.Grows P (gotoClosedOrExpired bids m) := by
  unfold gotoClosedOrExpired
  split
  · have hset : Medium.Grows P (m.setTimeout (some .expired) (.runAndTerminate .expired))
        ((m.setTimeout (some .expired) (.runAndTerminate .expired)).setState .closed) :=
      Medium.grows_setState hclosed
    exact hset.trans (.of_log Medium.callAgentSide_log)
  · exact (Medium.grows_setState hexpired).trans (.of_log Medium.callAgentSide_log)

theorem grows_own {P : ManagerEntry Key → Prop} (hclosed : P (.entered .closed))
    (hexpired : P (.entered .expired)) (haborted : P (.entered .aborted)) (bids : Nat)
    (method : ManagerMethod) (m : ManagerMedium Key) : m.Grows P (own bids method m) := by
  cases method with
  | finalize => exact .of_log Medium.finalize_log
  | onAnnounceExpire =>
    dsimp only [own]
    split
    · exact grows_gotoClosedOrExpired hclosed hexpired bids m
    · exact .of_log rfl
  | onGrantExpire =>
    exact (Medium.grows_setState haborted).trans (.of_log Medium.callAgentSide_log)

theorem quiet_gotoClosedOrExpired (bids : Nat) (m : ManagerMedium Key) :
    m.Quiet (gotoClosedOrExpired bids m) :=
  grows_gotoClosedOrExpired (by simp) (by simp) bids m

theorem quiet_own (bids : Nat) (method : ManagerMethod) (m : ManagerMedium Key) :
    m.Quiet (own bids method m) :=
  grows_own (by simp) (by simp) (by simp) bids method m

/-! ## The condition -/

variable [DecidableEq Key] (order : HashOrder Key)

/-- The condition on an event: a bid handler that ends while enough contractors have
    answered finds the contract announced still, or terminated. -/
def Timely (m : AgencyManager Key) : Event Key → Prop
  | .bidHandled => m.Answered → m.medium.state = .announced
  | _ => True

instance (m : AgencyManager Key) : ∀ e, Decidable (m.Timely e)
  | .bidHandled => inferInstanceAs (Decidable (_ → _))
  | .announce | .reject _ | .grant _ | .elect _ | .cancel | .terminate | .message _ _
  | .completedHandled | .fire | .start _ | .finish _ _ => inferInstanceAs (Decidable True)

/-! ## Loops over contractors -/

/-- Messages to some contractors are recorded, and nothing else of the medium changes. -/
def Sends (msg : ToContractor) (m m' : AgencyManager Key) : Prop :=
  ∃ es, (∀ e ∈ es, ∃ k, e = .sent (.to k msg)) ∧ m'.medium = m.medium.record es ∧
    m'.expectedBids = m.expectedBids ∧ m'.bidding = m.bidding ∧ m'.completing = m.completing

theorem Sends.refl (msg : ToContractor) (m : AgencyManager Key) : Sends msg m m :=
  ⟨[], by simp, by simp [Medium.record], rfl, rfl, rfl⟩

theorem Sends.trans {msg : ToContractor} {m m' m'' : AgencyManager Key} (h : Sends msg m m')
    (h' : Sends msg m' m'') : Sends msg m m'' := by
  obtain ⟨es, hes, hmed, he, hb, hc⟩ := h
  obtain ⟨es', hes', hmed', he', hb', hc'⟩ := h'
  refine ⟨es ++ es', fun e hm => ?_, ?_, he'.trans he, hb'.trans hb, hc'.trans hc⟩
  · obtain hm | hm := List.mem_append.mp hm
    · exact hes e hm
    · exact hes' e hm
  · rw [hmed', hmed]
    simp [Medium.record]

theorem sends_onEvent (msg : ToContractor) (m : AgencyManager Key) (key : Key) :
    Sends msg m (m.onEvent msg key) := by
  unfold onEvent
  split
  · exact ⟨[.sent (.to key msg)], by simp, rfl, rfl, rfl, rfl⟩
  · exact .refl msg m

/-- What one message does to the records: the state of its contractor moves on. -/
theorem lookup_onEvent (msg : ToContractor) (m : AgencyManager Key) (key k : Key) :
    (m.onEvent msg key).contractors.lookup k =
      (m.contractors.lookup k).map fun st => if k = key then (st.send msg).getD st else st := by
  unfold onEvent
  by_cases hk : k = key
  · subst hk
    cases hst : m.contractors.lookup k with
    | none => simp [hst]
    | some st =>
      cases hsend : st.send msg with
      | none => simp [hsend, hst]
      | some st' => simp [hsend]
  · split
    · simp [hk, AList.lookup_insert_ne hk]
    · simp [hk]

theorem mem_onEvent {msg : ToContractor} {m : AgencyManager Key} {key k : Key} :
    k ∈ (m.onEvent msg key).contractors ↔ k ∈ m.contractors := by
  rw [← AList.lookup_isSome, lookup_onEvent, Option.isSome_map, AList.lookup_isSome]

/-- A message is sent to a contractor once. -/
theorem send_send {msg : ToContractor} {st st' : ContractorState} (h : st.send msg = some st') :
    st'.send msg = none := by
  cases msg <;> cases st <;> cases h <;> rfl

theorem lookup_foldl_onEvent (msg : ToContractor) (keys : List Key) (m : AgencyManager Key)
    (k : Key) : (keys.foldl (onEvent msg) m).contractors.lookup k =
      (m.contractors.lookup k).map fun st => if k ∈ keys then (st.send msg).getD st else st := by
  induction keys generalizing m with
  | nil => simp
  | cons key keys ih =>
    rw [List.foldl_cons, ih, lookup_onEvent, Option.map_map]
    congr 1
    funext st
    by_cases hk : k = key
    · subst hk
      cases hsend : st.send msg with
      | none => simp [hsend]
      | some st' => simp [hsend, send_send hsend]
    · simp [hk]

theorem sends_foldl (msg : ToContractor) (keys : List Key) (m : AgencyManager Key) :
    Sends msg m (keys.foldl (onEvent msg) m) := by
  induction keys generalizing m with
  | nil => exact .refl msg m
  | cons key keys ih => exact (sends_onEvent msg m key).trans (ih _)

/-- The grants that are sent before a bid of nobody known. -/
theorem sendGrants_eq (keys : List Key) (m : AgencyManager Key) :
    ∃ ks, (m.sendGrants keys).2 = ks.foldl (onEvent .grant) m ∧
      ((m.sendGrants keys).1 = true → ks = keys) ∧
      ((∀ k ∈ keys, k ∈ m.contractors) → (m.sendGrants keys).1 = true) := by
  induction keys generalizing m with
  | nil => exact ⟨[], rfl, fun _ => rfl, fun _ => rfl⟩
  | cons key keys ih =>
    unfold sendGrants
    split
    · rename_i hkey
      obtain ⟨ks, hks, hall, hknown⟩ := ih (m.onEvent .grant key)
      refine ⟨key :: ks, hks, fun h => by rw [hall h], fun h => hknown fun k hk => ?_⟩
      rw [mem_onEvent]
      exact h k (by simp [hk])
    · rename_i hkey
      refine ⟨[], rfl, fun h => ?_, fun h => absurd (h key (by simp)) hkey⟩
      cases h

/-- The first contractor there is a message for is sent it. -/
theorem foldl_cons_onEvent {msg : ToContractor} {m : AgencyManager Key} {key : Key}
    (keys : List Key) {st : ContractorState}
    (h : (m.contractors.lookup key).bind (·.send msg) = some st) :
    ∃ es, (∀ e ∈ es, ∃ k, e = .sent (.to k msg)) ∧
      ((key :: keys).foldl (onEvent msg) m).medium =
        m.medium.record (.sent (.to key msg) :: es) := by
  have hfirst : (m.onEvent msg key).medium = m.medium.record [.sent (.to key msg)] := by
    unfold onEvent
    rw [h]
  obtain ⟨es, hes, hmed, -⟩ := sends_foldl msg keys (m.onEvent msg key)
  refine ⟨es, hes, ?_⟩
  rw [List.foldl_cons, hmed, hfirst, Medium.record_record]
  rfl

/-! ## One event -/

variable {ready : ManagerMedium Key → Prop}

theorem mem_withState {states : List ContractorState} {m : AgencyManager Key} {key : Key} :
    key ∈ m.withState order states ↔ ∃ st ∈ states, m.contractors.lookup key = some st := by
  simp only [withState, List.mem_map, List.mem_filter, Prod.exists, Dict.mem_items,
    decide_eq_true_eq, exists_and_right, exists_eq_right]
  exact ⟨fun ⟨st, hk, hst⟩ => ⟨st, hst, hk⟩, fun ⟨st, hst, hk⟩ => ⟨st, hk, hst⟩⟩

/-- What holds between the medium and the rest of a manager: nobody is left to cancel once
    somebody was cancelled, and `completed()` is under way only when all is done. -/
structure Attended (m : AgencyManager Key) : Prop where
  completing : m.completing = true → ¬ m.medium.state.Live
  cancelled : ∀ k, .sent (.to k .cancellation) ∈ m.medium.log →
    ¬ m.medium.state.Live ∧ ∀ k' st, m.contractors.lookup k' = some st →
      st ≠ .granted ∧ st ≠ .completed

theorem turn_cancel {m : AgencyManager Key} {pre : List (ManagerEntry Key)}
    {medium : ManagerMedium Key} (hm : m.medium.state = .granted ∨ m.medium.state = .cancelled)
    (hmed : m.medium.setState .cancelled = (medium.record pre).setState .cancelled)
    (hs : medium.state = .granted ∨ medium.state = .cancelled) (hpre : ∀ e ∈ pre, Idle e)
    (hatt : ∀ k, .sent (.to k .cancellation) ∈ medium.log → ∀ k' st,
      m.contractors.lookup k' = some st → st ≠ .granted ∧ st ≠ .completed) :
    Turn ready medium (m.cancel order).medium := by
  unfold cancel
  rw [if_pos (by simpa using hm)]
  dsimp only
  rw [hmed]
  have hkeys : ∀ medium', withState order [.granted, .completed] { m with medium := medium' } =
      m.withState order [.granted, .completed] := fun _ => rfl
  rw [hkeys]
  cases hl : m.withState order [.granted, .completed] with
  | nil =>
    have hcancel : Turn ready medium (((medium.record pre).setState .cancelled).record []) :=
      .cancel hs hpre (by simp)
    rw [Medium.record_nil] at hcancel
    rw [if_pos rfl]
    exact hcancel
  | cons key keys =>
    rw [if_neg (by simp)]
    dsimp only
    have hkey : key ∈ m.withState order [.granted, .completed] := by rw [hl]; simp
    obtain ⟨st, hst, hlook⟩ := (mem_withState order).mp hkey
    have hsend : (m.contractors.lookup key).bind (·.send .cancellation) = some .cancelled := by
      have hcases : st = .granted ∨ st = .completed := by simpa using hst
      rw [hlook]
      obtain rfl | rfl := hcases
      · rfl
      · rfl
    obtain ⟨es, hes, hsent⟩ := foldl_cons_onEvent keys
      (m := { m with medium := (medium.record pre).setState .cancelled }) hsend
    rw [hsent]
    refine .cancelTold hs hpre (fun e he => ?_) (by simp) fun k hk => ?_
    · obtain rfl | he := List.mem_cons.mp he
      · exact ⟨key, rfl⟩
      · exact hes e he
    · obtain ⟨hg, hc⟩ := hatt k hk key st hlook
      simp [hg, hc] at hst

theorem turn_check {m : AgencyManager Key} {medium : ManagerMedium Key}
    {es : List (ManagerEntry Key)} (hmed : m.medium = medium.record es) (hes : ∀ e ∈ es, Idle e)
    (hs : m.Answered → medium.state = .announced) :
    Turn ready medium (checkIfShouldGotoClose order m).medium := by
  unfold checkIfShouldGotoClose
  split
  · rename_i hans
    dsimp only
    rw [hmed]
    exact .close (hs hans) hes
  · rw [hmed]
    exact .idle hes

theorem turn_complete {m : AgencyManager Key} {medium : ManagerMedium Key}
    {pre : List (ManagerEntry Key)} (hmed : m.medium = medium.record pre)
    (hs : medium.state = .granted) (hpre : ∀ e ∈ pre, Idle e) :
    Turn ready medium (onComplete order m).medium := by
  unfold onComplete
  rw [if_pos (by rw [hmed]; exact hs)]
  dsimp only
  obtain ⟨es, hes, hsent, -⟩ := sends_foldl .acknowledgement
    (withState order [.completed]
      { m with medium := (m.medium.setState .completed).cancelTimeout })
    { m with medium := (m.medium.setState .completed).cancelTimeout }
  rw [hsent]
  dsimp only
  rw [hmed]
  refine .complete hs hpre fun e he => ?_
  obtain ⟨k, rfl⟩ := hes e he
  trivial

/-- A message: what it says is recorded, and handled in the state it is for. -/
theorem turn_message {m : AgencyManager Key} (hatt : m.Attended) (key : Key) (msg : ToManager) :
    Turn ready m.medium (m.onMessage order key msg).medium := by
  have hreceived : ∀ e ∈ ([.received (key, msg)] : List (ManagerEntry Key)), Idle e := by
    intro e he
    rw [List.mem_singleton.mp he]
    trivial
  have hsame : ∀ st, m.medium.state = st →
      (m.medium.record [.received (key, msg)]).setState st =
        m.medium.record [.received (key, msg)] := fun st h => Medium.setState_self h
  unfold onMessage
  dsimp only
  cases msg with
  | bid =>
    dsimp only
    split
    · rename_i hs
      rw [hsame _ hs]
      unfold onBid
      dsimp only
      split
      · exact .idle hreceived
      · dsimp only
        rw [Medium.record_record]
        refine .idle fun e he => ?_
        obtain he | he := List.mem_append.mp he
        · exact hreceived e he
        · rw [List.mem_singleton.mp he]
          trivial
    · exact .idle hreceived
  | refusal =>
    dsimp only
    split
    · rename_i hs
      rw [hsame _ hs]
      unfold onRefusal
      dsimp only
      split
      · exact .idle hreceived
      · exact turn_check order rfl hreceived fun _ => hs
    · exact .idle hreceived
  | duplicate =>
    dsimp only
    split
    · rename_i hs
      rw [hsame _ hs]
      unfold onDuplicate onRefusal
      dsimp only
      split
      · exact .idle hreceived
      · exact turn_check order rfl hreceived fun _ => hs
    · exact .idle hreceived
  | finalReport =>
    dsimp only
    split
    · rename_i hs
      rw [hsame _ hs]
      unfold onReport
      dsimp only
      split
      · have hreport : ∀ m' : AgencyManager Key, (m'.onEventReport key).medium = m'.medium := by
          intro m'
          unfold onEventReport
          split <;> rfl
        split
        · exact turn_complete order (hreport _) hs hreceived
        · rw [hreport]
          exact .idle hreceived
      · exact .idle hreceived
    · exact .idle hreceived
  | cancellation =>
    dsimp only
    split
    · rename_i hs
      have hgranted : m.medium.state = .granted := hs
      unfold onCancel
      dsimp only
      split
      · refine turn_cancel order (.inr Medium.setState_state)
          (Medium.setState_self Medium.setState_state) (.inl hgranted) hreceived fun k hk => ?_
        exact absurd (hgranted ▸ (hatt.cancelled k hk).1) (by decide)
      · have hcancel : Turn ready m.medium
            (((m.medium.record [.received (key, .cancellation)]).setState .cancelled).record []) :=
          .cancel (.inl hgranted) hreceived (by simp)
        rw [Medium.record_nil] at hcancel
        exact hcancel
    · exact .idle hreceived

/-- What one timely event does to the medium. -/
theorem step_turn {m m' : AgencyManager Key} {e : Event Key} (hatt : m.Attended)
    (htimely : m.Timely e) (hready : e = .fire → ready m.medium) (h : step order m e = some m') :
    Turn ready m.medium m'.medium := by
  have hnone : ∀ e ∈ ([] : List (ManagerEntry Key)), Idle e := fun e he => by cases he
  have hstay : Turn ready m.medium m.medium := by
    have hidle : Turn ready m.medium (m.medium.record []) := .idle hnone
    rwa [Medium.record_nil] at hidle
  cases e with
  | announce =>
    obtain rfl := Option.some.inj h
    unfold announce
    split
    · rename_i hs
      refine .announce hs fun e he => ?_
      rw [List.mem_singleton.mp he]
      trivial
    · exact hstay
  | reject key =>
    obtain rfl := Option.some.inj h
    unfold reject
    split
    · obtain ⟨es, hes, hmed, -⟩ := sends_onEvent .rejection m key
      rw [hmed]
      exact .idle (idle_rejections hes)
    · exact hstay
  | grant keys =>
    obtain rfl := Option.some.inj h
    unfold grant
    split
    · rename_i hs
      have hstate : m.medium.state = .closed ∨ m.medium.state = .announced := by simpa using hs
      obtain ⟨ks, hks, -⟩ := sendGrants_eq keys m.enterGranted
      obtain ⟨es, hes, hmed, -⟩ := sends_foldl .grant ks m.enterGranted
      rw [← hks] at hmed
      dsimp only
      split
      · obtain ⟨es', hes', hmed', -⟩ := sends_foldl .rejection
          (withState order [.bid] (m.enterGranted.sendGrants keys).2)
          (m.enterGranted.sendGrants keys).2
        rw [hmed', hmed, Medium.record_record]
        refine .grant hstate fun e he => ?_
        obtain he | he := List.mem_append.mp he
        · exact .inr (hes e he)
        · exact .inl (idle_rejections hes' e he)
      · rw [hmed]
        exact .grant hstate fun e he => .inr (hes e he)
    · exact hstay
  | elect key =>
    obtain rfl := Option.some.inj h
    unfold elect
    split
    · exact hstay
    · exact hstay
  | cancel =>
    obtain rfl := Option.some.inj h
    by_cases hs : m.medium.state = .granted ∨ m.medium.state = .cancelled
    · refine turn_cancel order hs ?_ hs hnone fun k hk => (hatt.cancelled k hk).2
      rw [Medium.record_nil]
    · unfold cancel
      rw [if_neg (by simpa using hs)]
      exact hstay
  | terminate =>
    obtain rfl := Option.some.inj h
    obtain ⟨es, hes, hmed, -⟩ := sends_foldl .rejection (m.withState order [.bid]) m
    unfold terminate
    dsimp only
    split
    · rw [hmed]
      exact .idle (idle_rejections hes)
    · rename_i hs
      dsimp only
      rw [hmed] at hs ⊢
      exact .terminate hs (idle_rejections hes)
  | message key msg =>
    obtain rfl := Option.some.inj h
    exact turn_message order hatt key msg
  | bidHandled =>
    dsimp only [step] at h
    split at h
    · obtain rfl := Option.some.inj h
      exact turn_check order (Medium.record_nil).symm hnone htimely
    · cases h
  | completedHandled =>
    dsimp only [step] at h
    split at h
    · rename_i hc
      obtain rfl := Option.some.inj h
      exact .completed (hatt.completing hc)
    · cases h
  | fire =>
    obtain ⟨medium, hm, rfl⟩ := Option.map_eq_some_iff.mp h
    exact .fire (hready rfl) hm
  | start job =>
    obtain ⟨medium, hm, rfl⟩ := Option.map_eq_some_iff.mp h
    exact .start hm
  | finish job failed =>
    obtain ⟨medium, hm, rfl⟩ := Option.map_eq_some_iff.mp h
    exact .finish hm

/-! ## Cancellations -/

/-- No contractor is left that could be cancelled. -/
def Clear (m : AgencyManager Key) : Prop :=
  ∀ k st, m.contractors.lookup k = some st → st ≠ .granted ∧ st ≠ .completed

/-- Cancellations come from `cancel` alone, and it leaves nobody to cancel. -/
structure Cancels (m m' : AgencyManager Key) : Prop where
  sent : ∀ k, .sent (.to k .cancellation) ∈ m'.medium.log →
    .sent (.to k .cancellation) ∈ m.medium.log ∨ (¬ m'.medium.state.Live ∧ m'.Clear)
  clear : ¬ m.medium.state.Live → m.Clear → m'.Clear
  completing : m'.completing = true → m.completing = true ∨ ¬ m'.medium.state.Live

theorem Cancels.attended {m m' : AgencyManager Key} (h : Cancels m m') (hatt : m.Attended)
    (hover : ¬ m.medium.state.Live → ¬ m'.medium.state.Live) : m'.Attended := by
  refine ⟨fun hc => ?_, fun k hk => ?_⟩
  · obtain hc | hc := h.completing hc
    · exact hover (hatt.completing hc)
    · exact hc
  · obtain hk | hk := h.sent k hk
    · obtain ⟨hl, hclear⟩ := hatt.cancelled k hk
      exact ⟨hover hl, h.clear hl hclear⟩
    · exact hk

/-- What sends no cancellation and changes no record. -/
theorem Cancels.same {m m' : AgencyManager Key} {es : List (ManagerEntry Key)}
    (hlog : m'.medium.log = m.medium.log ++ es)
    (hes : ∀ k, .sent (.to k .cancellation) ∉ es) (hc : m'.contractors = m.contractors)
    (hd : m'.completing = true → m.completing = true) : Cancels m m' := by
  refine ⟨fun k hk => .inl ?_, fun _ hclear => ?_, fun h => .inl (hd h)⟩
  · rw [hlog] at hk
    exact (List.mem_append.mp hk).resolve_right (hes k)
  · unfold Clear
    rw [hc]
    exact hclear

theorem Cancels.refl (m : AgencyManager Key) : Cancels m m :=
  .same (List.append_nil _).symm (by simp) rfl id

theorem clear_foldl {msg : ToContractor} {keys : List Key} {m : AgencyManager Key}
    (hmsg : msg = .rejection ∨ msg = .cancellation) (h : m.Clear) :
    Clear (keys.foldl (onEvent msg) m) := by
  intro k st hst
  rw [lookup_foldl_onEvent] at hst
  obtain ⟨st', hst', rfl⟩ := Option.map_eq_some_iff.mp hst
  have hold := h k st' hst'
  split
  · obtain rfl | rfl := hmsg
    · cases st' <;> simp_all [ContractorState.send]
    · cases st' <;> simp_all [ContractorState.send]
  · exact hold

/-- The loop of `cancel` leaves nobody to cancel. -/
theorem clear_cancelled (m : AgencyManager Key) (medium : ManagerMedium Key) :
    Clear ((m.withState order [.granted, .completed]).foldl (onEvent .cancellation)
      { m with medium := medium }) := by
  intro k st hst
  rw [lookup_foldl_onEvent] at hst
  obtain ⟨st', hst', rfl⟩ := Option.map_eq_some_iff.mp hst
  have hmem : k ∈ m.withState order [.granted, .completed] ↔
      ∃ st ∈ [ContractorState.granted, .completed], m.contractors.lookup k = some st :=
    mem_withState order
  by_cases hk : k ∈ m.withState order [.granted, .completed]
  · rw [if_pos hk]
    obtain ⟨st'', hst'', hlook⟩ := hmem.mp hk
    obtain rfl := Option.some.inj (hst'.symm.trans hlook)
    obtain rfl | rfl : st' = .granted ∨ st' = .completed := by simpa using hst''
    · decide
    · decide
  · rw [if_neg hk]
    refine ⟨fun hg => hk (hmem.mpr ⟨_, ?_, hst'⟩), fun hc => hk (hmem.mpr ⟨_, ?_, hst'⟩)⟩
    · rw [hg]
      simp
    · rw [hc]
      simp

theorem cancels_cancel {m : AgencyManager Key} : Cancels m (m.cancel order) := by
  unfold cancel
  split
  · have hclear := clear_cancelled order m (m.medium.setState .cancelled)
    obtain ⟨es, -, hmed, -, -, hd⟩ := sends_foldl .cancellation
      (m.withState order [.granted, .completed])
      { m with medium := m.medium.setState .cancelled }
    have hstate : ((m.withState order [.granted, .completed]).foldl (onEvent .cancellation)
        { m with medium := m.medium.setState .cancelled }).medium.state = .cancelled := by
      rw [hmed, Medium.record_state, Medium.setState_state]
    have hkeys : withState order [.granted, .completed]
        { m with medium := m.medium.setState .cancelled } =
      m.withState order [.granted, .completed] := rfl
    dsimp only
    rw [hkeys]
    split
    · refine ⟨fun k _ => .inr ⟨?_, hclear⟩, fun _ _ => hclear, fun h => .inl (hd ▸ h)⟩
      rw [hstate]
      decide
    · refine ⟨fun k _ => .inr ⟨?_, hclear⟩, fun _ _ => hclear, fun h => .inl (hd ▸ h)⟩
      rw [Medium.runAndTerminate, Medium.callAgentSide_state, hstate]
      decide
  · exact .refl m

/-- What sends and receives nothing, and changes no record. -/
theorem Cancels.quiet {m m' : AgencyManager Key} (hq : m.medium.Quiet m'.medium)
    (hc : m'.contractors = m.contractors) (hd : m'.completing = true → m.completing = true) :
    Cancels m m' := by
  refine ⟨fun k hk => .inl (hq.mem_sent.mp hk), fun _ hclear => ?_, fun h => .inl (hd h)⟩
  unfold Clear
  rw [hc]
  exact hclear

/-- Other messages than cancellations, to contractors. -/
theorem Cancels.sends {m m' : AgencyManager Key} {msg : ToContractor} (h : Sends msg m m')
    (hmsg : msg ≠ .cancellation) (hclear : ¬ m.medium.state.Live → m.Clear → m'.Clear) :
    Cancels m m' := by
  obtain ⟨es, hes, hmed, -, -, hd⟩ := h
  refine ⟨fun k hk => .inl ?_, hclear, fun hc => .inl (hd ▸ hc)⟩
  rw [hmed] at hk
  refine (List.mem_append.mp hk).resolve_right fun he => hmsg ?_
  obtain ⟨k', hk'⟩ := hes _ he
  simp only [Entry.sent.injEq, ManagerMessage.to.injEq] at hk'
  exact hk'.2.symm

/-- A manager that is still live says nothing of who is clear. -/
theorem Cancels.live {m m' : AgencyManager Key} (hl : m.medium.state.Live)
    (hsent : ∀ k, .sent (.to k .cancellation) ∈ m'.medium.log →
      .sent (.to k .cancellation) ∈ m.medium.log ∨ (¬ m'.medium.state.Live ∧ m'.Clear))
    (hd : m'.completing = true → m.completing = true ∨ ¬ m'.medium.state.Live) : Cancels m m' :=
  ⟨hsent, fun hnot => absurd hl hnot, hd⟩

theorem cancels_check (m : AgencyManager Key) : Cancels m (m.checkIfShouldGotoClose order) := by
  unfold checkIfShouldGotoClose
  split
  · have hq := quiet_gotoClosedOrExpired (m.withState order [.bid]).length m.medium.cancelTimeout
    exact .quiet ((Medium.Grows.of_log rfl).trans hq) rfl id
  · exact .refl m

/-- What was done before, where it sent no cancellation. -/
theorem Cancels.after {m m₁ m' : AgencyManager Key} (h : Cancels m₁ m')
    (hsent : ∀ k, .sent (.to k .cancellation) ∈ m₁.medium.log →
      .sent (.to k .cancellation) ∈ m.medium.log)
    (hclear : ¬ m.medium.state.Live → m.Clear → ¬ m₁.medium.state.Live ∧ m₁.Clear)
    (hd : m₁.completing = m.completing) : Cancels m m' := by
  refine ⟨fun k hk => (h.sent k hk).imp_left (hsent k), fun hl hc => ?_, fun hc => ?_⟩
  · obtain ⟨hl', hc'⟩ := hclear hl hc
    exact h.clear hl' hc'
  · rw [← hd]
    exact h.completing hc

theorem Clear.insert {m : AgencyManager Key} (h : m.Clear) {m' : AgencyManager Key} {key : Key}
    {st : ContractorState} (hc : m'.contractors = m.contractors.insert key st)
    (hst : st ≠ .granted ∧ st ≠ .completed) : m'.Clear := by
  intro k st' hk
  rw [hc] at hk
  by_cases hkey : k = key
  · rw [hkey, AList.lookup_insert] at hk
    rwa [← Option.some.inj hk]
  · rw [AList.lookup_insert_ne hkey] at hk
    exact h k st' hk

theorem cancels_refusal (m : AgencyManager Key) (key : Key) :
    Cancels m (m.onRefusal order key) := by
  unfold onRefusal
  split
  · exact .refl m
  · refine (cancels_check order _).after (fun k hk => hk) (fun hl hc => ⟨hl, ?_⟩) rfl
    exact hc.insert rfl (by decide)

theorem cancels_complete (m : AgencyManager Key) (key : Key) (hl : m.medium.state.Live) :
    Cancels m (m.onReport order key) := by
  unfold onReport
  split
  · have hreport : (m.onEventReport key).medium = m.medium ∧
        (m.onEventReport key).completing = m.completing := by
      unfold onEventReport
      split <;> exact ⟨rfl, rfl⟩
    obtain ⟨hmed, hcomp⟩ := hreport
    dsimp only
    split
    · unfold onComplete
      split
      · obtain ⟨es, hes, hsent, -⟩ := sends_foldl .acknowledgement
          (withState order [.completed] { m.onEventReport key with
            medium := ((m.onEventReport key).medium.setState .completed).cancelTimeout })
          { m.onEventReport key with
            medium := ((m.onEventReport key).medium.setState .completed).cancelTimeout }
        dsimp only
        rw [hsent]
        refine .live hl (fun k hk => .inl ?_) fun _ => .inr ?_
        · obtain hk | hk := List.mem_append.mp hk
          · obtain hk | hk := List.mem_append.mp hk
            · have hset := Medium.quiet_setState (m := (m.onEventReport key).medium)
                ContractState.completed
              rw [hmed] at hset hk
              exact hset.mem_sent.mp hk
            · obtain ⟨k', hk'⟩ := hes _ hk
              simp at hk'
          · simp at hk
        · simp [ContractState.Live]
      · refine .live hl (fun k hk => .inl (hmed ▸ hk)) fun hc => .inl (hcomp ▸ hc)
    · exact .live hl (fun k hk => .inl (hmed ▸ hk)) fun hc => .inl (hcomp ▸ hc)
  · exact .refl m

theorem cancels_message (m : AgencyManager Key) (key : Key) (msg : ToManager) :
    Cancels m (m.onMessage order key msg) := by
  have hreceived : ∀ k, .sent (.to k .cancellation) ∈ (m.medium.record [.received (key, msg)]).log →
      .sent (.to k .cancellation) ∈ m.medium.log := by
    intro k hk
    simpa using hk
  have hset : ∀ st k, .sent (.to k .cancellation) ∈
      ((m.medium.record [.received (key, msg)]).setState st).log →
      .sent (.to k .cancellation) ∈ m.medium.log :=
    fun st k hk => hreceived k ((Medium.quiet_setState st).mem_sent.mp hk)
  have hstay : Cancels m { m with medium := m.medium.record [.received (key, msg)] } :=
    .same rfl (by simp) rfl id
  unfold onMessage
  dsimp only
  cases msg with
  | bid =>
    dsimp only
    split
    · rename_i hs
      rw [Medium.setState_self hs]
      unfold onBid
      split
      · exact hstay
      · refine .live (.inr (.inl hs)) (fun k hk => .inl (hreceived k ?_)) fun hc => .inl hc
        simpa using hk
    · exact hstay
  | refusal =>
    dsimp only
    split
    · rename_i hs
      rw [Medium.setState_self hs]
      exact (cancels_refusal order _ key).after hreceived (fun hl hc => ⟨hl, hc⟩) rfl
    · exact hstay
  | duplicate =>
    dsimp only
    split
    · rename_i hs
      rw [Medium.setState_self hs]
      unfold onDuplicate
      split
      · exact hstay
      · exact (cancels_refusal order _ key).after hreceived (fun hl hc => ⟨hl, hc⟩) rfl
    · exact hstay
  | finalReport =>
    dsimp only
    split
    · rename_i hs
      rw [Medium.setState_self hs]
      have hreport := cancels_complete order
        { m with medium := m.medium.record [.received (key, .finalReport)] } key
        (.inr (.inr (.inr hs)))
      exact hreport.after hreceived (fun hl hc => ⟨hl, hc⟩) rfl
    · exact hstay
  | cancellation =>
    dsimp only
    split
    · rename_i hs
      have hlive : m.medium.state.Live := .inr (.inr (.inr hs))
      unfold onCancel
      split
      · exact (cancels_cancel order).after (hset .cancelled) (fun hl => absurd hlive hl) rfl
      · exact .live hlive (fun k hk => .inl (hset .cancelled k hk)) .inl
    · exact hstay

theorem step_cancels {m m' : AgencyManager Key} {e : Event Key} (h : step order m e = some m') :
    Cancels m m' := by
  cases e with
  | announce =>
    obtain rfl := Option.some.inj h
    unfold announce
    split
    · refine .live (.inl ‹_›) (fun k hk => .inl ?_) .inl
      obtain hk | hk := List.mem_append.mp hk
      · exact (Medium.quiet_setState ContractState.announced).mem_sent.mp hk
      · simp at hk
    · exact .refl m
  | reject key =>
    obtain rfl := Option.some.inj h
    unfold reject
    split
    · refine .sends (sends_onEvent .rejection m key) (by decide) fun _ hc => ?_
      have hfoldl : Clear ([key].foldl (onEvent .rejection) m) := clear_foldl (.inl rfl) hc
      exact hfoldl
    · exact .refl m
  | grant keys =>
    obtain rfl := Option.some.inj h
    unfold grant
    split
    · rename_i hs
      have hlive : m.medium.state.Live := by
        apply ContractState.live_of_open
        simpa using hs
      have hentered : ∀ k, .sent (.to k .cancellation) ∈ m.enterGranted.medium.log →
          .sent (.to k .cancellation) ∈ m.medium.log :=
        fun k hk => (Medium.quiet_setState ContractState.granted).mem_sent.mp hk
      obtain ⟨ks, hks, -⟩ := sendGrants_eq keys m.enterGranted
      have hsent : Sends .grant m.enterGranted (m.enterGranted.sendGrants keys).2 :=
        hks ▸ sends_foldl .grant ks m.enterGranted
      have hgrants : ∀ k, .sent (.to k .cancellation) ∈
          (m.enterGranted.sendGrants keys).2.medium.log →
          .sent (.to k .cancellation) ∈ m.medium.log := by
        obtain ⟨es, hes, hmed, -⟩ := hsent
        intro k hk
        rw [hmed] at hk
        refine hentered k ((List.mem_append.mp hk).resolve_right fun he => ?_)
        obtain ⟨k', hk'⟩ := hes _ he
        simp at hk'
      obtain ⟨-, -, -, -, -, hd⟩ := hsent
      dsimp only
      split
      · obtain ⟨es', hes', hmed', -, -, hd'⟩ := sends_foldl .rejection
          (withState order [.bid] (m.enterGranted.sendGrants keys).2)
          (m.enterGranted.sendGrants keys).2
        refine .live hlive (fun k hk => .inl (hgrants k ?_)) fun hc => .inl (hd ▸ hd' ▸ hc)
        rw [hmed'] at hk
        refine (List.mem_append.mp hk).resolve_right fun he => ?_
        obtain ⟨k', hk'⟩ := hes' _ he
        simp at hk'
      · exact .live hlive (fun k hk => .inl (hgrants k hk)) fun hc => .inl (hd ▸ hc)
    · exact .refl m
  | elect key =>
    obtain rfl := Option.some.inj h
    unfold elect
    split
    · exact ⟨fun k hk => .inl hk, fun _ hc => hc.insert rfl (by decide), .inl⟩
    · exact .refl m
  | cancel =>
    obtain rfl := Option.some.inj h
    exact cancels_cancel order
  | terminate =>
    obtain rfl := Option.some.inj h
    have hrejected : Cancels m ((m.withState order [.bid]).foldl (onEvent .rejection) m) :=
      .sends (sends_foldl _ _ m) (by decide) fun _ hc => clear_foldl (.inl rfl) hc
    unfold terminate
    dsimp only
    split
    · exact hrejected
    · refine ⟨fun k hk => ?_, hrejected.clear, fun _ => .inr ?_⟩
      · rw [Medium.finalize_log, (Medium.quiet_setState ContractState.terminated).mem_sent] at hk
        exact (hrejected.sent k hk).imp_right fun hc => ⟨by simp [ContractState.Live], hc.2⟩
      · simp [ContractState.Live]
  | message key msg =>
    obtain rfl := Option.some.inj h
    exact cancels_message order m key msg
  | bidHandled =>
    dsimp only [step] at h
    split at h
    · obtain rfl := Option.some.inj h
      exact (cancels_check order _).after (fun k hk => hk) (fun hl hc => ⟨hl, hc⟩) rfl
    · cases h
  | completedHandled =>
    dsimp only [step] at h
    split at h
    · obtain rfl := Option.some.inj h
      exact .quiet (.of_log Medium.finalize_log) rfl (by simp)
    · cases h
  | fire =>
    obtain ⟨medium, hm, rfl⟩ := Option.map_eq_some_iff.mp h
    exact .quiet (Medium.quiet_fire hm) rfl id
  | start job =>
    obtain ⟨medium, hm, rfl⟩ := Option.map_eq_some_iff.mp h
    exact .quiet (Medium.grows_start (by simp) (quiet_own _) hm) rfl id
  | finish job failed =>
    obtain ⟨medium, hm, rfl⟩ := Option.map_eq_some_iff.mp h
    exact .quiet (Medium.grows_finish (by simp) hm) rfl id

end AgencyManager
end Feat.Agencies.Contracts
