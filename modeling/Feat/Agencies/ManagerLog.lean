import Feat.Agencies.ManagerDeals

/- The log of a manager only grows, and only `grant` enters `granted` (`step_grows`).

   A grant of bids that were received rejects all others (`step_tidy`), so that no bid is
   left open. `grant` does not look whether it knows the contractor of a bid, as `elect`
   does: for a bid of nobody known it fails half way, after the state is set and some
   grants are sent, and the bids it did not come to stay open. -/
namespace Feat.Agencies.Contracts
open Hash

variable {Key : Type} [DecidableEq Key]

namespace AgencyManager
variable (order : HashOrder Key)

/-! ## What the log says -/

/-- An entry that is not the grant. -/
def Ungranting (e : ManagerEntry Key) : Prop := e ≠ .entered .granted

theorem Sends.grows {msg : ToContractor} {m m' : AgencyManager Key} (h : Sends msg m m') :
    m.medium.Grows Ungranting m'.medium := by
  obtain ⟨es, hes, hmed, -⟩ := h
  rw [hmed]
  refine Medium.grows_record fun e he => ?_
  obtain ⟨k, rfl⟩ := hes e he
  simp [Ungranting]

theorem grows_check (m : AgencyManager Key) :
    m.medium.Grows Ungranting (m.checkIfShouldGotoClose order).medium := by
  unfold checkIfShouldGotoClose
  split
  · have hclose := grows_gotoClosedOrExpired (P := Ungranting) (by simp [Ungranting])
      (by simp [Ungranting]) (m.withState order [.bid]).length m.medium.cancelTimeout
    exact (Medium.Grows.of_log rfl).trans hclose
  · exact .of_log rfl

theorem grows_refusal (m : AgencyManager Key) (key : Key) :
    m.medium.Grows Ungranting (m.onRefusal order key).medium := by
  unfold onRefusal
  split
  · exact .of_log rfl
  · exact grows_check order _

theorem grows_cancel (m : AgencyManager Key) :
    m.medium.Grows Ungranting (m.cancel order).medium := by
  unfold cancel
  split
  · have hset : m.medium.Grows Ungranting (m.medium.setState .cancelled) :=
      Medium.grows_setState (by simp [Ungranting])
    have hsent := hset.trans (sends_foldl .cancellation (m.withState order [.granted, .completed])
      { m with medium := m.medium.setState .cancelled }).grows
    dsimp only
    split
    · exact hsent
    · exact hsent.trans (.of_log Medium.callAgentSide_log)
  · exact .of_log rfl

theorem grows_report (m : AgencyManager Key) (key : Key) :
    m.medium.Grows Ungranting (m.onReport order key).medium := by
  unfold onReport
  split
  · have hreport : (m.onEventReport key).medium = m.medium := by
      unfold onEventReport
      split <;> rfl
    dsimp only
    split
    · unfold onComplete
      rw [hreport]
      split
      · have hset : m.medium.Grows Ungranting (m.medium.setState .completed) :=
          Medium.grows_setState (by simp [Ungranting])
        have hsent := (sends_foldl .acknowledgement (withState order [.completed]
          { m.onEventReport key with medium := (m.medium.setState .completed).cancelTimeout })
          { m.onEventReport key with medium := (m.medium.setState .completed).cancelTimeout }).grows
        refine (hset.trans ?_).trans (Medium.grows_record (by simp [Ungranting]))
        exact (Medium.Grows.of_log rfl).trans hsent
      · exact .of_log (by rw [hreport])
    · exact .of_log (by rw [hreport])
  · exact .of_log rfl

theorem grows_message (m : AgencyManager Key) (key : Key) (msg : ToManager) :
    m.medium.Grows Ungranting (m.onMessage order key msg).medium := by
  have hreceived : m.medium.Grows Ungranting (m.medium.record [.received (key, msg)]) :=
    Medium.grows_record (by simp [Ungranting])
  have hset : ∀ st, st ≠ .granted → m.medium.Grows Ungranting
      ((m.medium.record [.received (key, msg)]).setState st) :=
    fun st hst => hreceived.trans (Medium.grows_setState (by simpa [Ungranting] using hst))
  unfold onMessage
  dsimp only
  cases msg with
  | bid =>
    dsimp only
    split
    · unfold onBid
      split
      · exact hset _ (by decide)
      · exact (hset _ (by decide)).trans (Medium.grows_record (by simp [Ungranting]))
    · exact hreceived
  | refusal =>
    dsimp only
    split
    · exact (hset _ (by decide)).trans (grows_refusal order _ key)
    · exact hreceived
  | duplicate =>
    dsimp only
    split
    · unfold onDuplicate
      split
      · exact hset _ (by decide)
      · exact (hset _ (by decide)).trans (grows_refusal order _ key)
    · exact hreceived
  | finalReport =>
    dsimp only
    split
    · rename_i hs
      rw [Medium.setState_self hs]
      exact hreceived.trans (grows_report order
        { m with medium := m.medium.record [.received (key, .finalReport)] } key)
    · exact hreceived
  | cancellation =>
    dsimp only
    split
    · unfold onCancel
      split
      · exact (hset _ (by decide)).trans (grows_cancel order _)
      · exact hset _ (by decide)
    · exact hreceived

/-- Only `grant` enters `granted`. -/
theorem step_grows {m m' : AgencyManager Key} {e : Event Key} (h : Deals m.contractors m.medium)
    (he : ∀ keys, e ≠ .grant keys) (hstep : step order m e = some m') :
    m.medium.Grows Ungranting m'.medium := by
  cases e with
  | announce =>
    obtain rfl := Option.some.inj hstep
    unfold announce
    split
    · have hset : m.medium.Grows Ungranting (m.medium.setState .announced) :=
        Medium.grows_setState (by simp [Ungranting])
      exact hset.trans (Medium.grows_record (by simp [Ungranting]))
    · exact .of_log rfl
  | reject key =>
    obtain rfl := Option.some.inj hstep
    unfold reject
    split
    · exact (sends_onEvent .rejection m key).grows
    · exact .of_log rfl
  | grant keys => exact absurd rfl (he keys)
  | elect key =>
    obtain rfl := Option.some.inj hstep
    unfold elect
    split <;> exact .of_log rfl
  | cancel =>
    obtain rfl := Option.some.inj hstep
    exact grows_cancel order m
  | terminate =>
    obtain rfl := Option.some.inj hstep
    have hrejected := (sends_foldl .rejection (m.withState order [.bid]) m).grows
    unfold terminate
    dsimp only
    split
    · exact hrejected
    · exact (hrejected.trans (Medium.grows_setState (by simp [Ungranting]))).trans
        (.of_log Medium.finalize_log)
  | message key msg =>
    obtain rfl := Option.some.inj hstep
    exact grows_message order m key msg
  | bidHandled =>
    dsimp only [step] at hstep
    split at hstep
    · obtain rfl := Option.some.inj hstep
      exact grows_check order { m with bidding := m.bidding - 1 }
    · cases hstep
  | completedHandled =>
    dsimp only [step] at hstep
    split at hstep
    · obtain rfl := Option.some.inj hstep
      exact .of_log Medium.finalize_log
    · cases hstep
  | fire =>
    obtain ⟨medium, hm, rfl⟩ := Option.map_eq_some_iff.mp hstep
    refine Medium.grows_fire (by simp [Ungranting]) (fun t ht st hst => ?_) hm
    have hover := (h.timed t ht st hst).2.1
    simpa [Ungranting] using hover
  | start job =>
    obtain ⟨medium, hm, rfl⟩ := Option.map_eq_some_iff.mp hstep
    refine Medium.grows_start (by simp [Ungranting]) (grows_own ?_ ?_ ?_ _) hm
    · simp [Ungranting]
    · simp [Ungranting]
    · simp [Ungranting]
  | finish job failed =>
    obtain ⟨medium, hm, rfl⟩ := Option.map_eq_some_iff.mp hstep
    exact Medium.grows_finish (by simp [Ungranting]) hm

theorem grows_grant (m : AgencyManager Key) (keys : List Key) :
    m.medium.Grows (fun _ => True) (m.grant order keys).medium := by
  have hany : ∀ {msg} {m m' : AgencyManager Key}, Sends msg m m' →
      m.medium.Grows (fun _ => True) m'.medium := by
    intro msg m m' h
    obtain ⟨es, -, hmed, -⟩ := h
    rw [hmed]
    exact Medium.grows_record fun _ _ => trivial
  unfold grant
  split
  · have hset : m.medium.Grows (fun _ => True) m.enterGranted.medium := by
      have hstate : m.medium.Grows (fun _ => True) (m.medium.setState .granted) :=
        Medium.grows_setState trivial
      exact hstate.trans (.of_log rfl)
    obtain ⟨ks, hks, -⟩ := sendGrants_eq keys m.enterGranted
    have hsent := hset.trans (hany (sends_foldl .grant ks m.enterGranted))
    rw [← hks] at hsent
    dsimp only
    split
    · exact hsent.trans (hany (sends_foldl .rejection _ _))
    · exact hsent
  · exact .of_log rfl

/-- The log of a manager only grows. -/
theorem step_subset {m m' : AgencyManager Key} {e : Event Key} (h : Deals m.contractors m.medium)
    (hstep : step order m e = some m') {x : ManagerEntry Key} (hx : x ∈ m.medium.log) :
    x ∈ m'.medium.log := by
  cases e with
  | grant keys =>
    obtain rfl := Option.some.inj hstep
    exact (grows_grant order m keys).subset hx
  | _ =>
    refine (step_grows order h ?_ hstep).subset hx
    simp

/-! ## Bids left open -/

/-- A grant names bids that were received. -/
def Known (m : AgencyManager Key) : Event Key → Prop
  | .grant keys => ∀ key ∈ keys, key ∈ m.contractors
  | _ => True

/-- A contract that was granted has no bid left open. -/
def Tidy (m : AgencyManager Key) : Prop :=
  .entered .granted ∈ m.medium.log → ∀ key, m.contractors.lookup key ≠ some .bid

theorem Tidy.settled {m : AgencyManager Key} (h : m.Tidy) (e : Event Key) : m.Settled order e := by
  cases e with
  | bidHandled =>
    intro _ hbids hin
    obtain ⟨key, hkey⟩ := List.exists_mem_of_length_pos hbids
    obtain ⟨st, hst, hlook⟩ := (mem_withState order).mp hkey
    rw [List.mem_singleton.mp hst] at hlook
    exact h hin key hlook
  | _ => trivial

/-- No bid comes up. -/
def Fewer (m m' : AgencyManager Key) : Prop :=
  ∀ key, m'.contractors.lookup key = some .bid → m.contractors.lookup key = some .bid

theorem Fewer.of_eq {m m' : AgencyManager Key} (h : m'.contractors = m.contractors) :
    Fewer m m' := by
  intro key hkey
  rwa [h] at hkey

theorem Fewer.trans {m m' m'' : AgencyManager Key} (h : Fewer m m') (h' : Fewer m' m'') :
    Fewer m m'' := fun key hkey => h key (h' key hkey)

theorem fewer_foldl (msg : ToContractor) (keys : List Key) (m : AgencyManager Key) :
    Fewer m (keys.foldl (onEvent msg) m) := by
  intro key hkey
  rw [lookup_foldl_onEvent] at hkey
  obtain ⟨st, hst, hbid⟩ := Option.map_eq_some_iff.mp hkey
  rw [hst]
  split at hbid
  · cases msg <;> cases st <;> first | rfl | cases hbid
  · rw [hbid]

theorem fewer_insert {m m' : AgencyManager Key} {key : Key} {st : ContractorState}
    (hst : st ≠ .bid) (h : m'.contractors = m.contractors.insert key st) : Fewer m m' := by
  intro k hk
  rw [h] at hk
  by_cases he : k = key
  · subst he
    rw [AList.lookup_insert] at hk
    exact absurd (Option.some.inj hk) hst
  · rwa [AList.lookup_insert_ne he] at hk

theorem fewer_check (m : AgencyManager Key) : Fewer m (m.checkIfShouldGotoClose order) := by
  unfold checkIfShouldGotoClose
  split <;> exact .of_eq rfl

theorem fewer_cancel (m : AgencyManager Key) : Fewer m (m.cancel order) := by
  unfold cancel
  split
  · have hsent := fewer_foldl .cancellation (m.withState order [.granted, .completed])
      { m with medium := m.medium.setState .cancelled }
    dsimp only
    split
    · exact (Fewer.of_eq rfl).trans hsent
    · exact ((Fewer.of_eq rfl).trans hsent).trans (.of_eq rfl)
  · exact .of_eq rfl

theorem fewer_report (m : AgencyManager Key) (key : Key) : Fewer m (m.onReport order key) := by
  have hreport : Fewer m (m.onEventReport key) := by
    unfold onEventReport
    split
    · exact fewer_insert (by decide) rfl
    · exact .of_eq rfl
  unfold onReport
  split
  · dsimp only
    split
    · refine hreport.trans ?_
      unfold onComplete
      split
      · have hset : Fewer (m.onEventReport key) { m.onEventReport key with
            medium := ((m.onEventReport key).medium.setState .completed).cancelTimeout } :=
          .of_eq rfl
        have hsent := hset.trans (fewer_foldl .acknowledgement (withState order [.completed]
          { m.onEventReport key with
            medium := ((m.onEventReport key).medium.setState .completed).cancelTimeout }) _)
        exact hsent.trans (.of_eq rfl)
      · exact .of_eq rfl
    · exact hreport
  · exact .of_eq rfl

theorem fewer_message (m : AgencyManager Key) (key : Key) (msg : ToManager)
    (hs : m.medium.state ≠ .announced) : Fewer m (m.onMessage order key msg) := by
  unfold onMessage
  dsimp only
  cases msg with
  | bid =>
    dsimp only
    split
    · rename_i ha
      exact absurd ha hs
    · exact .of_eq rfl
  | refusal =>
    dsimp only
    split
    · rename_i ha
      exact absurd ha hs
    · exact .of_eq rfl
  | duplicate =>
    dsimp only
    split
    · rename_i ha
      exact absurd ha hs
    · exact .of_eq rfl
  | finalReport =>
    dsimp only
    split
    · exact (Fewer.of_eq rfl).trans (fewer_report order _ key)
    · exact .of_eq rfl
  | cancellation =>
    dsimp only
    split
    · unfold onCancel
      split
      · exact (Fewer.of_eq rfl).trans (fewer_cancel order _)
      · exact .of_eq rfl
    · exact .of_eq rfl

/-- Grants of bids that were received leave no bid open. -/
theorem tidy_grant {m : AgencyManager Key} (h : m.Tidy) {keys : List Key}
    (hknown : ∀ key ∈ keys, key ∈ m.contractors) : (m.grant order keys).Tidy := by
  unfold grant
  split
  · obtain ⟨ks, -, -, hall⟩ := sendGrants_eq keys m.enterGranted
    dsimp only
    rw [if_pos (hall hknown)]
    intro _ key hkey
    rw [lookup_foldl_onEvent] at hkey
    obtain ⟨st, hst, hbid⟩ := Option.map_eq_some_iff.mp hkey
    split at hbid
    · cases st <;> cases hbid
    · rename_i hnot
      exact hnot ((mem_withState order).mpr ⟨_, List.mem_singleton.mpr hbid, hst⟩)
  · exact h

/-- Where grants name bids that were received, no contract is left half granted. -/
theorem step_tidy {m m' : AgencyManager Key} {e : Event Key} (h : Deals m.contractors m.medium)
    (htidy : m.Tidy) (hknown : m.Known e) (hstep : step order m e = some m') : m'.Tidy := by
  have hfewer : (∀ keys, e ≠ .grant keys) →
      (.entered .granted ∈ m.medium.log → Fewer m m') → m'.Tidy := by
    intro he hf hin key hkey
    have hold := ((step_grows order h he hstep).mem_iff (by simp [Ungranting])).mp hin
    exact htidy hold key (hf hold key hkey)
  cases e with
  | grant keys =>
    obtain rfl := Option.some.inj hstep
    exact tidy_grant order htidy hknown
  | message key msg =>
    refine hfewer (by simp) fun hin => ?_
    obtain rfl := Option.some.inj hstep
    exact fewer_message order m key msg fun ha => h.opened hin (.inr (.inl ha))
  | announce =>
    refine hfewer (by simp) fun _ => ?_
    obtain rfl := Option.some.inj hstep
    unfold announce
    split <;> exact .of_eq rfl
  | reject key =>
    refine hfewer (by simp) fun _ => ?_
    obtain rfl := Option.some.inj hstep
    unfold reject
    split
    · exact fewer_foldl .rejection [key] m
    · exact .of_eq rfl
  | elect key =>
    refine hfewer (by simp) fun _ => ?_
    obtain rfl := Option.some.inj hstep
    unfold elect
    split
    · exact fewer_insert (by decide) rfl
    · exact .of_eq rfl
  | cancel =>
    refine hfewer (by simp) fun _ => ?_
    obtain rfl := Option.some.inj hstep
    exact fewer_cancel order m
  | terminate =>
    refine hfewer (by simp) fun _ => ?_
    obtain rfl := Option.some.inj hstep
    unfold terminate
    dsimp only
    split
    · exact fewer_foldl .rejection _ m
    · exact (fewer_foldl .rejection _ m).trans (.of_eq rfl)
  | bidHandled =>
    refine hfewer (by simp) fun _ => ?_
    dsimp only [step] at hstep
    split at hstep
    · obtain rfl := Option.some.inj hstep
      exact (Fewer.of_eq rfl).trans (fewer_check order _)
    · cases hstep
  | completedHandled =>
    refine hfewer (by simp) fun _ => ?_
    dsimp only [step] at hstep
    split at hstep
    · obtain rfl := Option.some.inj hstep
      exact .of_eq rfl
    · cases hstep
  | fire =>
    refine hfewer (by simp) fun _ => ?_
    obtain ⟨medium, -, rfl⟩ := Option.map_eq_some_iff.mp hstep
    exact .of_eq rfl
  | start job =>
    refine hfewer (by simp) fun _ => ?_
    obtain ⟨medium, -, rfl⟩ := Option.map_eq_some_iff.mp hstep
    exact .of_eq rfl
  | finish job failed =>
    refine hfewer (by simp) fun _ => ?_
    obtain ⟨medium, -, rfl⟩ := Option.map_eq_some_iff.mp hstep
    exact .of_eq rfl

end AgencyManager
end Feat.Agencies.Contracts
