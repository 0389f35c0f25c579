import Feat.Agents.ClerkCalls

/- Which locations have a call pending.

   A location that is not paused has one while it is recovering, and while it is isolated
   unless the clerk is too (`Covered`). In the loops that pause and resume the locations this
   holds of those that the loop is done with, so `Held` names the ones that are left out.

   What is proved of the callbacks here holds to any depth. -/
namespace Feat.Agents.Monitor
open Hash Transition

variable {c : Config}

/-- The location has a call pending if it needs one. -/
def Covered (s : Clerk) (r : Ref) : Prop :=
  (s.heap r).paused = false →
    ((s.heap r).state = .recovering → s.Lifting r) ∧
      ((s.heap r).state = .isolated → s.state ≠ .isolated → s.Lifting r)

/-- The calls are in order and every location is covered, but for those of `X`. Only those of
    `L` have calls. -/
structure Held (c : Config) (X L : Ref → Prop) (s : Clerk) : Prop where
  named : ∀ name r, s.locations.lookup name = some r → (s.heap r).name = name
  indexed : Indexed s
  isolation : s.LiftingIsolation ↔ s.state = .isolated
  off : c.enableQuarantine = false → ∀ r, (s.heap r).state = .normal
  covered : ∀ r ∈ iterLocations c s, ¬ X r → Covered s r
  allowed : ∀ r, s.Lifting r → L r
  registered : ∀ r ∈ iterLocations c s, L r

/-- No other location by the name has a call. -/
def Sole (c : Config) (s : Clerk) (r : Ref) : Prop :=
  ∀ r' ∈ iterLocations c s, (s.heap r').name = (s.heap r).name → r' ≠ r → ¬ s.Lifting r'

variable {s t : Clerk} {r : Ref} {X L : Ref → Prop}

theorem Held.name_ne (h : Held c X L s) {r' : Ref} (hr : r ∈ iterLocations c s)
    (hr' : r' ∈ iterLocations c s) (hne : r' ≠ r) : (s.heap r').name ≠ (s.heap r).name := by
  obtain ⟨n, hn⟩ := mem_iterLocations.mp hr
  obtain ⟨n', hn'⟩ := mem_iterLocations.mp hr'
  rw [h.named n r hn, h.named n' r' hn']
  rintro rfl
  exact hne (Option.some.inj (hn'.symm.trans hn))

theorem Held.sole (h : Held c X L s) (hr : r ∈ iterLocations c s) : Sole c s r :=
  fun _ hr' hname hne => absurd hname (h.name_ne hr hr' hne)

/-- More may be left out. -/
theorem Held.mono {Y : Ref → Prop} (h : Held c X L s) (hXY : ∀ r, X r → Y r) : Held c Y L s :=
  ⟨h.named, h.indexed, h.isolation, h.off, fun r hr hY => h.covered r hr fun hX => hY (hXY r hX),
    h.allowed, h.registered⟩

/-- More may have calls. -/
theorem Held.allow {M : Ref → Prop} (h : Held c X L s) (hLM : ∀ r, L r → M r) : Held c X M s :=
  ⟨h.named, h.indexed, h.isolation, h.off, h.covered, fun r hl => hLM r (h.allowed r hl),
    fun r hr => hLM r (h.registered r hr)⟩

/-- A location that is paused need not be left out. -/
theorem Held.drop (h : Held c (fun r' => X r' ∨ r' = r) L s) (hr : Covered s r) : Held c X L s := by
  refine ⟨h.named, h.indexed, h.isolation, h.off, fun r' hr' hX => ?_, h.allowed, h.registered⟩
  by_cases he : r' = r
  · rw [he]
    exact hr
  · exact h.covered r' hr' fun hor => hor.elim hX he

/-- An assignment to a location that is left out. -/
theorem Held.update (h : Held c X L s) (hX : X r) (f : Location → Location)
    (hname : ∀ l, (f l).name = l.name)
    (hoff : c.enableQuarantine = false → (f (s.heap r)).state = .normal) :
    Held c X L (s.update r f) := by
  have hnames : ∀ r', ((s.update r f).heap r').name = (s.heap r').name := by
    intro r'
    by_cases hr : r' = r
    · subst hr
      rw [update_heap_self, hname]
    · rw [update_heap_ne _ _ hr]
  refine ⟨fun name r' hr' => ?_, h.indexed.same hnames rfl rfl rfl rfl, h.isolation,
    fun hq r' => ?_, fun r' hr' hnot => ?_, h.allowed, h.registered⟩
  · rw [hnames]
    exact h.named name r' hr'
  · by_cases hr : r' = r
    · subst hr
      rw [update_heap_self]
      exact hoff hq
    · rw [update_heap_ne _ _ hr]
      exact h.off hq r'
  · have hr : r' ≠ r := fun he => hnot (he ▸ hX)
    unfold Covered
    rw [update_heap_ne _ _ hr]
    exact h.covered r' hr' hnot

/-- An assignment that touches neither name nor state nor pause. -/
theorem Held.flag (h : Held c X L s) (f : Location → Location) (hname : ∀ l, (f l).name = l.name)
    (hstate : ∀ l, (f l).state = l.state) (hpaused : ∀ l, (f l).paused = l.paused) :
    Held c X L (s.update r f) := by
  have hall : ∀ r', ((s.update r f).heap r').name = (s.heap r').name ∧
      ((s.update r f).heap r').state = (s.heap r').state ∧
      ((s.update r f).heap r').paused = (s.heap r').paused := by
    intro r'
    by_cases hr : r' = r
    · subst hr
      rw [update_heap_self]
      exact ⟨hname _, hstate _, hpaused _⟩
    · rw [update_heap_ne _ _ hr]
      exact ⟨rfl, rfl, rfl⟩
  refine ⟨fun name r' hr' => ?_, h.indexed.same (fun r' => (hall r').1) rfl rfl rfl rfl,
    h.isolation, fun hq r' => ?_, fun r' hr' hnot => ?_, h.allowed, h.registered⟩
  · rw [(hall r').1]
    exact h.named name r' hr'
  · rw [(hall r').2.1]
    exact h.off hq r'
  · unfold Covered
    rw [(hall r').2.1, (hall r').2.2]
    exact h.covered r' hr' hnot

/-- Locations keep their cover where those that need it keep their calls. -/
theorem Held.rescheduled (h : Held c X L s) (hst : Rescheduled s t) (hindexed : Indexed t)
    (hisolation : t.LiftingIsolation ↔ s.LiftingIsolation)
    (hlifting : ∀ r ∈ iterLocations c s, ¬ X r → (s.heap r).state ≠ .normal →
      s.Lifting r → t.Lifting r)
    (hallowed : ∀ r, t.Lifting r → L r) : Held c X L t := by
  obtain ⟨calls, lc, ic, n, rfl⟩ := hst
  refine ⟨h.named, hindexed, hisolation.trans h.isolation, h.off, fun r hr hX hpaused => ?_,
    hallowed, h.registered⟩
  obtain ⟨hrecovering, hisolated⟩ := h.covered r hr hX hpaused
  refine ⟨fun hs => hlifting r hr hX ?_ (hrecovering hs), fun hs hm =>
    hlifting r hr hX ?_ (hisolated hs hm)⟩
  · rw [show (s.heap r).state = _ from hs]
    exact fun he => by cases he
  · rw [show (s.heap r).state = _ from hs]
    exact fun he => by cases he

/-- A call of a location is cancelled that is left out or needs none. -/
theorem Held.locCancelCall (h : Held c X L s) (hr : X r ∨ (s.heap r).state = .normal)
    (hsole : Sole c s r) : Held c X L (locCancelCall r s) := by
  refine h.rescheduled (rescheduled_locCancelCall r s) (indexed_locCancelCall h.indexed r)
    (liftingIsolation_locCancelCall_iff h.indexed) (fun r' hr' hnot hstate hlift => ?_)
    fun r' hl => h.allowed r' ((lifting_locCancelCall_iff h.indexed).mp hl).1
  refine (lifting_locCancelCall_iff h.indexed).mpr ⟨hlift, fun hname => ?_⟩
  refine hsole r' hr' hname (fun he => ?_) hlift
  rw [he] at hnot hstate
  exact hr.elim hnot hstate

/-- A call is scheduled for a location, which then is covered. -/
theorem Held.locScheduleCall (h : Held c (fun r' => X r' ∨ r' = r) L s)
    (hr : r ∈ iterLocations c s) (delay : Nat) : Held c X L (locScheduleCall delay r s) := by
  have hlift : (Monitor.locScheduleCall delay r s).Lifting r :=
    (lifting_locScheduleCall_iff h.indexed delay).mpr (.inl rfl)
  refine Held.drop (r := r) ?_ fun _ => ⟨fun _ => hlift, fun _ _ => hlift⟩
  refine h.rescheduled (rescheduled_locScheduleCall delay r s)
    (indexed_locScheduleCall h.indexed delay r)
    (liftingIsolation_locScheduleCall_iff h.indexed delay) (fun r' hr' hnot _ hlift => ?_)
    fun r' hl => ?_
  · refine (lifting_locScheduleCall_iff h.indexed delay).mpr (.inr ⟨hlift, ?_⟩)
    exact h.name_ne hr hr' fun he => hnot (.inr he)
  · obtain rfl | ⟨hl, -⟩ := (lifting_locScheduleCall_iff h.indexed delay).mp hl
    · exact h.registered _ hr
    · exact h.allowed r' hl

/-! ## The clerk -/

/-- The clerk gets isolated, and no isolated location needs a call. -/
theorem Held.isolate (h : Held c X L s) (delay : Nat) :
    Held c X L (isoScheduleCall delay { s with state := .isolated }) := by
  have hindexed : Indexed { s with state := .isolated } :=
    h.indexed.same (fun _ => rfl) rfl rfl rfl rfl
  have hst := rescheduled_isoScheduleCall delay { s with state := .isolated }
  have hall := indexed_isoScheduleCall hindexed delay
  have hisolation := liftingIsolation_isoScheduleCall delay { s with state := .isolated }
  have hlifting := fun r => lifting_isoScheduleCall_iff (r := r) hindexed delay
  generalize isoScheduleCall delay { s with state := .isolated } = t at hst hall hisolation hlifting ⊢
  obtain ⟨calls, lc, ic, n, rfl⟩ := hst
  refine ⟨h.named, hall, iff_of_true hisolation rfl, h.off, fun r hr hX hpaused => ?_,
    fun r hl => h.allowed r ((hlifting r).mp hl), h.registered⟩
  exact ⟨fun hs => (hlifting r).mpr ((h.covered r hr hX hpaused).1 hs), fun _ hm => absurd rfl hm⟩

/-- The clerk leaves isolation, and any location may need a call. -/
theorem Held.leave (h : Held c X L s) (st : MonitorState) (hst : st ≠ .isolated) :
    Held c (fun _ => True) L { isoCancelCall s with state := st } := by
  have hrescheduled := rescheduled_isoCancelCall s
  have hindexed := indexed_isoCancelCall h.indexed
  have hisolation := not_liftingIsolation_isoCancelCall h.indexed
  have hlifting := fun r => lifting_isoCancelCall_iff (r := r) h.indexed
  generalize isoCancelCall s = t at hrescheduled hindexed hisolation hlifting ⊢
  obtain ⟨calls, lc, ic, n, rfl⟩ := hrescheduled
  exact ⟨h.named, hindexed.same (fun _ => rfl) rfl rfl rfl rfl, iff_of_false hisolation hst, h.off,
    fun _ _ hX => absurd trivial hX, fun r hl => h.allowed r ((hlifting r).mp hl), h.registered⟩

/-- The clerk changes its state without isolation. -/
theorem Held.monitored (h : Held c X L s) (hs : s.state ≠ .isolated) {st : MonitorState}
    (hst : st ≠ .isolated) : Held c X L { s with state := st } := by
  refine ⟨h.named, h.indexed.same (fun _ => rfl) rfl rfl rfl rfl,
    h.isolation.trans (iff_of_false hs hst), h.off, fun r hr hX hpaused => ?_, h.allowed,
    h.registered⟩
  obtain ⟨hrecovering, hisolated⟩ := h.covered r hr hX hpaused
  exact ⟨hrecovering, fun hl _ => hisolated hl hs⟩

/-- All locations are those that a loop over them is left with. -/
theorem Held.all (h : Held c (fun _ => True) L s) :
    Held c (fun r => X r ∨ r ∈ iterLocations c s) L s :=
  ⟨h.named, h.indexed, h.isolation, h.off, fun _ hr hX => absurd (.inr hr) hX, h.allowed,
    h.registered⟩

theorem Held.notifyDeath (h : Held c X L s) (r : Ref) (key : String) (p : Patient) :
    Held c X L (notifyDeath r key p s) := by
  unfold Monitor.notifyDeath
  split
  · exact h
  · split
    · exact h
    · have hflag := h.flag (r := r) (fun l => { l with dead := insert key l.dead })
        (fun _ => rfl) (fun _ => rfl) fun _ => rfl
      exact ⟨hflag.named, hflag.indexed.same (fun _ => rfl) rfl rfl rfl rfl, hflag.isolation,
        hflag.off, hflag.covered, hflag.allowed, hflag.registered⟩

theorem Held.bringOutYourDead (h : Held c X L s) (r : Ref) : Held c X L (bringOutYourDead c r s) := by
  unfold Monitor.bringOutYourDead
  generalize (s.heap r).iterPatients c.order .dead = l
  induction l generalizing s with
  | nil => exact h
  | cons q l ih => exact ih (h.notifyDeath r q.1 q.2)

/-! ## Pausing and resuming -/

theorem startRecovery_recovering {k : Ref → Clerk → Clerk}
    (hr : (s.heap r).state = .recovering) : (startRecovery c k r s).2 = s := by
  unfold startRecovery
  split
  · simp [hr]
  · rfl

/-- A callback that settles and holds, where fewer locations are recovering. -/
structure Holding (c : Config) (depth : Nat) (k : Ref → Clerk → Clerk) : Prop where
  settled : ∀ r s, recoveringCount c s < depth → Settled s (k r s)
  held : ∀ X L r s, recoveringCount c s < depth → Held c X L s → Sole c s r → Held c X L (k r s)

section Callbacks
variable {k : Ref → Clerk → Clerk} {depth : Nat}

theorem Held.pause (hk : Holding c depth k) (h : Held c (fun r' => X r' ∨ r' = r) L s)
    (hr : r ∈ iterLocations c s) (hs : recoveringCount c s ≤ depth) :
    Held c X L (pause k r s) := by
  have hpaused := h.update (.inr rfl) (fun l => { l with paused := true }) (fun _ => rfl)
    fun hq => h.off hq r
  have hsettled := settled_paused s r true
  have hflag : ((s.update r (fun l => { l with paused := true })).heap r).paused = true := by
    rw [update_heap_self]
  unfold Monitor.pause
  dsimp only
  generalize s.update r (fun l => { l with paused := true }) = u at hpaused hsettled hflag ⊢
  have hru : r ∈ iterLocations c u := by
    rw [hsettled.frame.iterLocations]
    exact hr
  split
  · rename_i hrec
    have hnormal := hpaused.update (.inr rfl) (fun l => { l with state := .normal })
      (fun _ => rfl) fun _ => rfl
    have hless := settled_update u r (fun l => { l with state := .normal }) rfl rfl
      (.inr ⟨hrec, rfl⟩) fun _ h => h
    have hstate : ((u.update r (fun l => { l with state := .normal })).heap r).state = .normal := by
      rw [update_heap_self]
    have hlt := hless.recoveringCount_lt hru hrec hstate
    have hru' : r ∈ iterLocations c (u.update r fun l => { l with state := .normal }) := hru
    refine hk.held X L r _ (Nat.lt_of_lt_of_le hlt (hsettled.recoveringCount_le.trans hs))
      (hnormal.drop fun _ => ⟨fun he => ?_, fun he => ?_⟩) (hnormal.sole hru')
    · rw [hstate] at he
      cases he
    · rw [hstate] at he
      cases he
  · refine hpaused.drop fun hfalse => ?_
    rw [hflag] at hfalse
    cases hfalse

theorem Held.locPauseAll (hk : Holding c depth k)
    (h : Held c (fun r => X r ∨ r ∈ iterLocations c s) L s) (hs : recoveringCount c s ≤ depth) :
    Held c X L (locPauseAll c k s) := by
  have hfold : ∀ (l : List Ref) (t : Clerk), (∀ r ∈ l, r ∈ iterLocations c t) →
      recoveringCount c t ≤ depth → Held c (fun r => X r ∨ r ∈ l) L t →
      Held c X L (l.foldl (fun s r => Monitor.pause k r (Monitor.locCancelCall r s)) t) := by
    intro l
    induction l with
    | nil => exact fun t _ _ ht => ht.mono fun r hr => hr.resolve_right List.not_mem_nil
    | cons r l ih =>
      intro t hl ht hheld
      have hr := hl r List.mem_cons_self
      have hthis : Held c (fun r' => (X r' ∨ r' ∈ l) ∨ r' = r) L t := by
        refine hheld.mono fun r' hr' => ?_
        obtain hX | hin := hr'
        · exact .inl (.inl hX)
        · obtain he | hin := List.mem_cons.mp hin
          · exact .inr he
          · exact .inl (.inr hin)
      have hcancel := (rescheduled_locCancelCall r t).settled
      have hr' : r ∈ iterLocations c (Monitor.locCancelCall r t) := by
        rw [hcancel.frame.iterLocations]
        exact hr
      have ht' : recoveringCount c (Monitor.locCancelCall r t) ≤ depth :=
        hcancel.recoveringCount_le.trans ht
      have hpause := settled_pause hk.settled hr' ht'
      refine ih _ (fun r'' hin => ?_) (hpause.recoveringCount_le.trans ht')
        ((hthis.locCancelCall (.inl (.inr rfl)) (hthis.sole hr)).pause hk hr' ht')
      rw [hpause.frame.iterLocations, hcancel.frame.iterLocations]
      exact hl r'' (List.mem_cons_of_mem _ hin)
  exact hfold _ s (fun _ hr => hr) hs h

theorem Held.checkIsolated (hk : Holding c depth k) (h : Held c X L s)
    (hs : recoveringCount c s ≤ depth) : Held c X L (checkIsolated c k s).2 := by
  unfold Monitor.checkIsolated
  split
  · exact h
  · split
    · exact h
    · have hisolated := (settled_monitored s .isolated).trans
        (rescheduled_isoScheduleCall c.selfQuarantineLength { s with state := .isolated }).settled
      exact ((h.isolate _).mono fun _ hX => .inl hX).locPauseAll hk
        (hisolated.recoveringCount_le.trans hs)

/-- A location that is isolated asks for quarantine. -/
theorem Held.needQuarantine (hk : Holding c depth k) (h : Held c (fun r' => X r' ∨ r' = r) L s)
    (hr : r ∈ iterLocations c s) (hstate : (s.heap r).state = .isolated)
    (hs : recoveringCount c s ≤ depth) : Held c X L (needQuarantine c k r s) := by
  obtain ⟨u, hu, hneed⟩ := needQuarantine_isolated (c := c) (k := k) hstate
  have hcheck := settled_checkIsolated hk.settled hs
  have hchecked := h.checkIsolated hk hs
  have hrc : r ∈ iterLocations c (Monitor.checkIsolated c k s).2 := by
    rw [hcheck.frame.iterLocations]
    exact hr
  have hboth : Settled s u ∧ Held c (fun r' => X r' ∨ r' = r) L u := by
    obtain rfl | ⟨-, rfl⟩ := hu
    · exact ⟨hcheck, hchecked⟩
    · exact ⟨hcheck.trans (rescheduled_locCancelCall _ _).settled,
        hchecked.locCancelCall (.inl (.inr rfl)) (hchecked.sole hrc)⟩
  obtain ⟨hsettled, hheld⟩ := hboth
  have hru : r ∈ iterLocations c u := by
    rw [hsettled.frame.iterLocations]
    exact hr
  rw [hneed]
  split
  · exact hheld.locScheduleCall hru _
  · rename_i hisolated
    have hstill : (u.heap r).state = .isolated := by
      obtain hsame | ⟨hrec, -⟩ := hsettled.located r
      · rw [hsame, hstate]
      · rw [hstate] at hrec
        cases hrec
    refine hheld.drop fun _ => ⟨fun he => ?_, fun _ hm => absurd hm hisolated⟩
    rw [hstill] at he
    cases he

theorem Held.resume (hk : Holding c depth k) (h : Held c (fun r' => X r' ∨ r' = r) L s)
    (hr : r ∈ iterLocations c s) (hs : recoveringCount c s ≤ depth) :
    Held c X L (resume c k r s) := by
  have hresumed := h.update (.inr rfl) (fun l => { l with paused := false }) (fun _ => rfl)
    fun hq => h.off hq r
  have hsettled := settled_paused s r false
  unfold Monitor.resume
  dsimp only
  generalize s.update r (fun l => { l with paused := false }) = u at hresumed hsettled ⊢
  have hru : r ∈ iterLocations c u := by
    rw [hsettled.frame.iterLocations]
    exact hr
  have hnormal : (u.heap r).state = .normal → Covered u r := by
    intro hstate _
    refine ⟨fun he => ?_, fun he => ?_⟩
    · rw [hstate] at he
      cases he
    · rw [hstate] at he
      cases he
  split
  · rename_i hoff
    exact (hresumed.drop (hnormal (hresumed.off (by simpa using hoff) r))).bringOutYourDead r
  · split
    · rename_i hisolated
      exact hresumed.needQuarantine hk hru hisolated (hsettled.recoveringCount_le.trans hs)
    · rename_i hrecovering
      unfold locationRecovering
      dsimp only
      rw [startRecovery_recovering hrecovering]
      exact hresumed.locScheduleCall hru _
    · rename_i hstate
      exact hresumed.drop (hnormal hstate)

theorem Held.locResumeAll (hk : Holding c depth k)
    (h : Held c (fun r => X r ∨ r ∈ iterLocations c s) L s) (hs : recoveringCount c s ≤ depth) :
    Held c X L (locResumeAll c k s) := by
  have hfold : ∀ (l : List Ref) (t : Clerk), (∀ r ∈ l, r ∈ iterLocations c t) →
      recoveringCount c t ≤ depth → Held c (fun r => X r ∨ r ∈ l) L t →
      Held c X L (l.foldl (fun s r => Monitor.resume c k r s) t) := by
    intro l
    induction l with
    | nil => exact fun t _ _ ht => ht.mono fun r hr => hr.resolve_right List.not_mem_nil
    | cons r l ih =>
      intro t hl ht hheld
      have hthis : Held c (fun r' => (X r' ∨ r' ∈ l) ∨ r' = r) L t := by
        refine hheld.mono fun r' hr' => ?_
        obtain hX | hin := hr'
        · exact .inl (.inl hX)
        · obtain he | hin := List.mem_cons.mp hin
          · exact .inr he
          · exact .inl (.inr hin)
      have hresume := settled_resume hk.settled r ht
      refine ih _ (fun r' hin => ?_) (hresume.recoveringCount_le.trans ht)
        (hthis.resume hk (hl r List.mem_cons_self) ht)
      rw [hresume.frame.iterLocations]
      exact hl r' (List.mem_cons_of_mem _ hin)
  exact hfold _ s (fun _ hr => hr) hs h

theorem Held.stateChanged (hk : Holding c depth k) (h : Held c X L s) (hsole : Sole c s r)
    (hs : recoveringCount c s ≤ depth) : Held c X L (stateChanged c k r s) := by
  have hcancelled : Held c X L (if (s.heap r).state = .normal then Monitor.locCancelCall r s else s) ∧
      Rescheduled s (if (s.heap r).state = .normal then Monitor.locCancelCall r s else s) := by
    split
    · rename_i hnormal
      exact ⟨h.locCancelCall (.inr hnormal) hsole, rescheduled_locCancelCall r s⟩
    · exact ⟨h, .refl s⟩
  unfold Monitor.stateChanged
  dsimp only
  generalize (if (s.heap r).state = .normal then Monitor.locCancelCall r s else s) = u
    at hcancelled ⊢
  obtain ⟨hheld, hst⟩ := hcancelled
  split
  · split
    · have hswap : isoCancelCall { u with state := .normal } =
          { isoCancelCall u with state := .normal } := by
        unfold isoCancelCall cancelDelayedCall
        dsimp only
        split <;> rfl
      rw [hswap]
      have hleft := hheld.leave .normal fun he => by cases he
      refine hleft.all.locResumeAll hk ?_
      have hsettled := hst.settled.trans ((rescheduled_isoCancelCall u).settled.trans
        (settled_monitored (isoCancelCall u) .normal))
      exact hsettled.recoveringCount_le.trans hs
    · exact hheld
  · rename_i hstate
    split
    · refine hheld.monitored ?_ fun he => by cases he
      rw [hstate]
      exact fun he => by cases he
    · exact hheld
  · exact hheld

end Callbacks

/-- The callbacks hold to any depth that there are fewer recovering locations than. -/
theorem holding_locationStateChanged (depth : Nat) :
    Holding c depth (locationStateChanged c depth) := by
  refine ⟨fun r _ hs => settled_locationStateChanged depth r hs, ?_⟩
  induction depth with
  | zero => exact fun _ _ _ _ hs => absurd hs (Nat.not_lt_zero _)
  | succ depth ih =>
    intro X L r s hs h hsole
    refine h.stateChanged ⟨fun r _ hs => settled_locationStateChanged depth r hs, ?_⟩ hsole
      (Nat.le_of_lt_succ hs)
    exact fun X L r s hs => ih X L r s hs

end Feat.Agents.Monitor
