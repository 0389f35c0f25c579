import Feat.Agents.ClerkCover

/- The pending calls over the events of a clerk.

   Each event leaves every location covered that is not paused, whatever came before
   (`step_held`). Calls are only ever scheduled for locations that are known. -/
namespace Feat.Agents.Monitor
open Hash Transition

variable {c : Config} {s t : Clerk} {r : Ref} {X L : Ref → Prop}

theorem covered_normal (h : (s.heap r).state = .normal) : Covered s r := by
  refine fun _ => ⟨fun he => ?_, fun he => ?_⟩
  · rw [h] at he
    cases he
  · rw [h] at he
    cases he

theorem covered_paused (h : (s.heap r).paused = true) : Covered s r := by
  intro hnot
  rw [h] at hnot
  cases hnot

theorem Sole.locate (h : Sole c s r) (st : LocationState) : Sole c (s.locate r st) r := by
  have hname : ∀ r', ((s.locate r st).heap r').name = (s.heap r').name := by
    intro r'
    by_cases hr : r' = r
    · subst hr
      rw [Clerk.locate, update_heap_self]
    · rw [Clerk.locate, update_heap_ne _ _ hr]
  intro r' hr' hsame hne
  rw [hname, hname] at hsame
  exact h r' hr' hsame hne

section Callbacks
variable {k : Ref → Clerk → Clerk} {depth : Nat}

/-- A location that is left out gets a state. -/
theorem Held.setState (hk : Holding c depth k) (h : Held c (fun r' => X r' ∨ r' = r) L s)
    (hsole : Sole c s r) (hs : s.locations.keys.length < depth) (st : LocationState)
    (hoff : c.enableQuarantine = false → st = .normal) :
    Held c (fun r' => X r' ∨ r' = r) L (setState k r st s) :=
  hk.held _ _ r (s.locate r st) (Nat.lt_of_le_of_lt (recoveringCount_le _) hs)
    (h.update (.inr rfl) (fun l => { l with state := st }) (fun _ => rfl) hoff) (hsole.locate st)

/-- A location gets back to normal, with a call or without. -/
theorem Held.setNormal (hk : Holding c depth k) (h : Held c (fun r' => X r' ∨ r' = r) L s)
    (hsole : Sole c s r) (hs : s.locations.keys.length < depth) :
    Held c X L (Monitor.setState k r .normal s) := by
  have hnormal : ((s.locate r .normal).heap r).state = .normal := by
    rw [locate_state, if_pos rfl]
  have hupdate := h.update (.inr rfl) (fun l => { l with state := .normal }) (fun _ => rfl)
    fun _ => rfl
  exact hk.held _ _ r (s.locate r .normal) (Nat.lt_of_le_of_lt (recoveringCount_le _) hs)
    (hupdate.drop (covered_normal hnormal)) (hsole.locate .normal)

theorem Held.except (h : Held c X L s) (r : Ref) : Held c (fun r' => X r' ∨ r' = r) L s :=
  h.mono fun _ hX => .inl hX

theorem Held.checkQuarantine (hk : Holding c depth k) (h : Held c X L s)
    (hr : r ∈ iterLocations c s) (hs : s.locations.keys.length < depth)
    (hon : c.enableQuarantine = true) : Held c X L (checkQuarantine c k r s) := by
  by_cases hisolates : Isolates c (s.heap r)
  · obtain ⟨hdying, hdead, hstate⟩ := hisolates
    have hset : Settled (s.locate r .isolated) (Monitor.setState k r .isolated s) :=
      hk.settled r (s.locate r .isolated) (Nat.lt_of_le_of_lt (recoveringCount_le _) hs)
    have hheld := (h.except r).setState hk ((h.except r).sole hr) hs .isolated
      (fun hoff => by rw [hon] at hoff; cases hoff)
    unfold Monitor.checkQuarantine
    rw [if_neg (by simp [hdying]), if_neg (by simp [hdead]), if_pos hstate]
    dsimp only
    have hisolated : ((Monitor.setState k r .isolated s).heap r).state = .isolated := by
      obtain hsame | ⟨hrec, -⟩ := hset.located r
      · rw [hsame, locate_state, if_pos rfl]
      · rw [locate_state, if_pos rfl] at hrec
        cases hrec
    generalize Monitor.setState k r .isolated s = u at hset hheld hisolated ⊢
    split
    · rename_i hpaused
      exact hheld.drop (covered_paused hpaused)
    · refine hheld.needQuarantine hk ?_ hisolated ?_
      · rw [hset.frame.iterLocations]
        exact hr
      · refine (recoveringCount_le _).trans (Nat.le_of_lt ?_)
        rw [hset.frame.locations]
        exact hs
  · rw [checkQuarantine_eq hisolates]
    exact h

theorem Held.patientDied (hk : Holding c depth k) (h : Held c X L s) (hr : r ∈ iterLocations c s)
    (hs : s.locations.keys.length < depth) (key : String) (p : Patient) :
    Held c X L (patientDied c k r key p s) := by
  unfold Monitor.patientDied
  split
  · exact h.notifyDeath r key p
  · rename_i hon
    split
    · exact h.notifyDeath r key p
    · exact h.checkQuarantine hk hr hs (by simpa using hon)

theorem Held.locationRecovering (hk : Holding c depth k)
    (h : Held c (fun r' => X r' ∨ r' = r) L s) (hr : r ∈ iterLocations c s)
    (hs : s.locations.keys.length < depth) (hon : c.enableQuarantine = true) :
    Held c X L (locationRecovering c k r s) := by
  have hstart : Held c (fun r' => X r' ∨ r' = r) L (startRecovery c k r s).2 ∧
      r ∈ iterLocations c (startRecovery c k r s).2 := by
    unfold startRecovery
    split
    · dsimp only
      split
      · have hset : Settled (s.locate r .recovering) (Monitor.setState k r .recovering s) :=
          hk.settled r (s.locate r .recovering) (Nat.lt_of_le_of_lt (recoveringCount_le _) hs)
        refine ⟨h.setState hk (h.sole hr) hs _ fun hoff => ?_, ?_⟩
        · rw [hon] at hoff
          cases hoff
        · rw [hset.frame.iterLocations]
          exact hr
      · exact ⟨h, hr⟩
    · exact ⟨h, hr⟩
  exact hstart.1.locScheduleCall hstart.2 _

theorem Held.patientResurrected (hk : Holding c depth k) (h : Held c X L s)
    (hr : r ∈ iterLocations c s) (hs : s.locations.keys.length < depth) (key : String) :
    Held c X L (patientResurrected c k r key s) := by
  have hforget := h.flag (r := r) (.forget key) (fun _ => rfl) (fun _ => rfl) fun _ => rfl
  have hru : r ∈ iterLocations c (s.update r (.forget key)) := hr
  have hsu : (s.update r (.forget key)).locations.keys.length < depth := hs
  rw [patientResurrected_eq]
  dsimp only
  generalize s.update r (.forget key) = u at hforget hru hsu ⊢
  have hsole := (hforget.except r).sole hru
  split
  · exact hforget
  · rename_i hon
    replace hon : c.enableQuarantine = true := by simpa using hon
    split
    · split
      · exact (hforget.except r).setNormal hk hsole hsu
      · exact hforget
    · split
      · exact (hforget.except r).setNormal hk hsole hsu
      · have hset : Settled (u.locate r .recovering) (k r (u.locate r .recovering)) :=
          hk.settled r (u.locate r .recovering) (Nat.lt_of_le_of_lt (recoveringCount_le _) hsu)
        have hheld := (hforget.except r).setState hk hsole hsu .recovering
          (fun hoff => by rw [hon] at hoff; cases hoff)
        have hrv : r ∈ iterLocations c (k r (u.locate r .recovering)) := by
          rw [hset.frame.iterLocations]
          exact hru
        have hsv : (k r (u.locate r .recovering)).locations.keys.length < depth := by
          rw [hset.frame.locations]
          exact hsu
        split
        · rename_i hpaused
          exact hheld.drop (covered_paused hpaused)
        · exact hheld.locationRecovering hk hrv hsv hon

theorem Held.quarantineLifted (hk : Holding c depth k)
    (h : Held c (fun r' => X r' ∨ r' = r) L s) (hsole : Sole c s r)
    (hs : s.locations.keys.length < depth) : Held c X L (quarantineLifted c k r s) :=
  (h.setNormal hk hsole hs).bringOutYourDead r

theorem Held.onDisconnected (hk : Holding c depth k) (h : Held c X L s)
    (hs : s.locations.keys.length < depth) : Held c X L (onDisconnected c k s) := by
  unfold Monitor.onDisconnected
  split
  · have hleft := h.leave .disconnected fun he => by cases he
    refine hleft.all.locPauseAll hk ((recoveringCount_le _).trans (Nat.le_of_lt ?_))
    rw [← (rescheduled_isoCancelCall s).settled.frame.locations] at hs
    exact hs
  · exact h

theorem Held.onReconnected (hk : Holding c depth k) (h : Held c X L s)
    (hs : s.locations.keys.length < depth) : Held c X L (onReconnected c k s) := by
  unfold Monitor.onReconnected
  split
  · rename_i hstate
    have hnormal : Held c X L { s with state := .normal } := by
      refine h.monitored ?_ fun he => by cases he
      rw [hstate]
      exact fun he => by cases he
    have hcount : recoveringCount c { s with state := .normal } ≤ depth :=
      (recoveringCount_le _).trans (Nat.le_of_lt hs)
    refine ((hnormal.mono fun _ hX => .inl hX).locResumeAll hk hcount).checkIsolated hk ?_
    exact (settled_locResumeAll hk.settled hcount).recoveringCount_le.trans hcount
  · exact h

end Callbacks

/-! ## Events -/

/-- The call of a location fires, and the location may need another one. -/
theorem Held.fired (h : Held c X L s) {id delay : Nat}
    (hid : s.calls.lookup id = some (delay, .liftLocation r)) :
    Held c (fun r' => X r' ∨ r' = r) L { s with calls := s.calls.erase id } ∧
      Sole c { s with calls := s.calls.erase id } r := by
  have hindexed := indexed_fired h.indexed id
  have hlifting := lifting_fired_iff h.indexed hid
  have hisolation : Clerk.LiftingIsolation { s with calls := s.calls.erase id } ↔
      s.LiftingIsolation := by
    refine ⟨fun ⟨id', d, hid'⟩ => ?_, fun ⟨id', d, hid'⟩ => ⟨id', d, ?_⟩⟩
    · by_cases he : id' = id
      · rw [he, AList.lookup_erase] at hid'
        cases hid'
      · rw [AList.lookup_erase_ne he] at hid'
        exact ⟨id', d, hid'⟩
    · rw [AList.lookup_erase_ne]
      · exact hid'
      · intro he
        rw [he, hid] at hid'
        cases hid'
  refine ⟨⟨h.named, hindexed, hisolation.trans h.isolation, h.off, fun r' hr' hX hpaused => ?_,
    fun r' hl => h.allowed r' ((hlifting r').mp hl).1, h.registered⟩, fun r' hr' hname hne hl => ?_⟩
  · obtain ⟨hnot, hne⟩ := not_or.mp hX
    obtain ⟨hrecovering, hisolated⟩ := h.covered r' hr' hnot hpaused
    exact ⟨fun hs => (hlifting r').mpr ⟨hrecovering hs, hne⟩,
      fun hs hm => (hlifting r').mpr ⟨hisolated hs hm, hne⟩⟩
  · -- the calls of two locations by one name have one identifier
    obtain ⟨⟨id', d, hid'⟩, -⟩ := (hlifting r').mp hl
    have hone := h.indexed.located id' d r' hid'
    rw [show (s.heap r').name = (s.heap r).name from hname, h.indexed.located id delay r hid] at hone
    cases hone
    rw [hid] at hid'
    cases hid'
    exact hne rfl

/-- The isolation of the clerk is lifted, and any location may need a call. -/
theorem Held.firedIsolation (h : Held c X L s) {id delay : Nat}
    (hid : s.calls.lookup id = some (delay, .liftIsolation)) :
    Held c (fun _ => True) L { s with calls := s.calls.erase id, state := .recovering } := by
  have hindexed := indexed_fired h.indexed id
  have hnone : ¬ Clerk.LiftingIsolation { s with calls := s.calls.erase id, state := .recovering } := by
    rintro ⟨id', d, hid'⟩
    by_cases he : id' = id
    · rw [he, AList.lookup_erase] at hid'
      cases hid'
    · rw [AList.lookup_erase_ne he] at hid'
      have hone := h.indexed.isolation id' d hid'
      rw [h.indexed.isolation id delay hid] at hone
      exact he (Option.some.inj hone).symm
  refine ⟨h.named, hindexed.same (fun _ => rfl) rfl rfl rfl rfl, iff_of_false hnone ?_, h.off,
    fun _ _ hX => absurd trivial hX, fun r' ⟨id', d, hid'⟩ => h.allowed r' ⟨id', d, ?_⟩,
    h.registered⟩
  · exact fun he => by cases he
  · by_cases he : id' = id
    · rw [he, AList.lookup_erase] at hid'
      cases hid'
    · rwa [AList.lookup_erase_ne he] at hid'

/-- Patients and what is told of them have nothing to do with the calls. -/
theorem Held.kept (h : Held c X L s) (hheap : t.heap = s.heap)
    (hlocations : ∀ name r, t.locations.lookup name = some r → s.locations.lookup name = some r)
    (hcalls : t.calls = s.calls) (hlocation : t.locationCalls = s.locationCalls)
    (hisolated : t.isolatedCall = s.isolatedCall) (hissued : t.issued = s.issued)
    (hstate : t.state = s.state) : Held c X L t := by
  have hlifting : ∀ r, t.Lifting r ↔ s.Lifting r := by
    intro r
    unfold Clerk.Lifting
    rw [hcalls]
  have hiter : ∀ r, r ∈ iterLocations c t → r ∈ iterLocations c s := by
    intro r hr
    obtain ⟨name, hname⟩ := mem_iterLocations.mp hr
    exact mem_iterLocations.mpr ⟨name, hlocations name r hname⟩
  refine ⟨fun name r hr => ?_, h.indexed.same (fun r => by rw [hheap]) hcalls hlocation hisolated
    hissued, ?_, fun hq r => ?_, fun r hr hX => ?_, fun r hl => h.allowed r ((hlifting r).mp hl),
    fun r hr => h.registered r (hiter r hr)⟩
  · rw [hheap]
    exact h.named name r (hlocations name r hr)
  · unfold Clerk.LiftingIsolation
    rw [hcalls, hstate]
    exact h.isolation
  · rw [hheap]
    exact h.off hq r
  · unfold Covered
    rw [hheap, hstate, hlifting]
    exact h.covered r (hiter r hr) hX

/-- A location is made that nobody refers to yet. -/
theorem Held.made (h : Held c X L s) (hmade : ∀ r, L r → r < s.created) {name : String}
    (hnew : s.locations.lookup name = none) :
    Held c X (fun r => L r ∨ r = s.created)
      { s.update s.created (fun _ => .new name) with
        created := s.created + 1, locations := s.locations.insert name s.created } := by
  have hsame : ∀ r, L r → ((s.update s.created (fun _ => .new name)).heap r) = s.heap r :=
    fun r hr => update_heap_ne _ _ (Nat.ne_of_lt (hmade r hr))
  have hold : ∀ n r, (s.locations.insert name s.created).lookup n = some r →
      n = name ∧ r = s.created ∨ s.locations.lookup n = some r := by
    intro n r hn
    by_cases he : n = name
    · rw [he, AList.lookup_insert] at hn
      cases hn
      exact .inl ⟨he, rfl⟩
    · rw [AList.lookup_insert_ne he] at hn
      exact .inr hn
  have hlocated : ∀ r, s.Lifting r → ((s.update s.created (fun _ => .new name)).heap r) = s.heap r :=
    fun r hl => hsame r (h.allowed r hl)
  refine ⟨fun n r hn => ?_, ⟨fun id d r hid => ?_, fun n id d call hn hid => ?_, h.indexed.isolation,
    h.indexed.isolated, h.indexed.pending, h.indexed.known, h.indexed.issued⟩, h.isolation,
    fun hq r => ?_, fun r hr hX => ?_, fun r hl => .inl (h.allowed r hl), fun r hr => ?_⟩
  · obtain ⟨rfl, rfl⟩ | hn := hold n r hn
    · show ((s.update s.created (fun _ => .new n)).heap s.created).name = n
      rw [update_heap_self]
      rfl
    · show ((s.update s.created (fun _ => .new name)).heap r).name = n
      rw [hsame r (h.registered r (mem_iterLocations.mpr ⟨n, hn⟩))]
      exact h.named n r hn
  · show s.locationCalls.lookup ((s.update s.created (fun _ => .new name)).heap r).name = some id
    rw [hlocated r ⟨id, d, hid⟩]
    exact h.indexed.located id d r hid
  · obtain ⟨r, rfl, hr⟩ := h.indexed.location n id d call hn hid
    refine ⟨r, rfl, ?_⟩
    show ((s.update s.created (fun _ => .new name)).heap r).name = n
    rw [hlocated r ⟨id, d, hid⟩]
    exact hr
  · show ((s.update s.created (fun _ => .new name)).heap r).state = .normal
    by_cases he : r = s.created
    · rw [he, update_heap_self]
      rfl
    · rw [update_heap_ne _ _ he]
      exact h.off hq r
  · obtain ⟨n, hn⟩ := mem_iterLocations.mp hr
    obtain ⟨-, rfl⟩ | hn := hold n r hn
    · refine covered_normal ?_
      show ((s.update s.created (fun _ => .new name)).heap s.created).state = .normal
      rw [update_heap_self]
      rfl
    · have hin := mem_iterLocations (c := c).mpr ⟨n, hn⟩
      have hcovered := h.covered r hin hX
      unfold Covered at hcovered ⊢
      rw [← hsame r (h.registered r hin)] at hcovered
      exact hcovered
  · obtain ⟨n, hn⟩ := mem_iterLocations.mp hr
    obtain ⟨-, rfl⟩ | hn := hold n r hn
    · exact .inr rfl
    · exact .inl (h.registered r (mem_iterLocations.mpr ⟨n, hn⟩))

theorem Held.onPatientAdded (h : Held c X L s) (hmade : ∀ r, L r → r < s.created) (key : String)
    (p : Patient) :
    Held c X (fun r => L r ∨ r ∈ iterLocations c (onPatientAdded key p s))
      (onPatientAdded key p s) := by
  unfold Monitor.onPatientAdded
  cases hr : s.locations.lookup p.location with
  | some r =>
    have hput := h.flag (r := r) (fun l => { l with patients := l.patients.insert key p })
      (fun _ => rfl) (fun _ => rfl) fun _ => rfl
    refine Held.allow (L := L) ?_ fun _ hl => .inl hl
    exact hput.kept rfl (fun _ _ hn => hn) rfl rfl rfl rfl rfl
  | none =>
    have hput := (h.made hmade hr).flag (r := s.created)
      (fun l => { l with patients := l.patients.insert key p }) (fun _ => rfl) (fun _ => rfl)
      fun _ => rfl
    refine Held.allow (L := fun r => L r ∨ r = s.created) ?_ fun r hl => ?_
    · exact hput.kept rfl (fun _ _ hn => hn) rfl rfl rfl rfl rfl
    · obtain hl | rfl := hl
      · exact .inl hl
      · exact .inr (mem_iterLocations.mpr ⟨p.location, AList.lookup_insert _⟩)

theorem Held.onPatientRemoved {k : Ref → Clerk → Clerk} {depth : Nat} (hk : Holding c depth k)
    (h : Held c X L s) (hplaced : Placed s) {key : String} {p : Patient}
    (hp : s.patient key = some (r, p)) (hs : s.locations.keys.length < depth) :
    Held c X L (onPatientRemoved c k key p s) := by
  obtain ⟨-, hpat⟩ := patient_eq_some.mp hp
  obtain ⟨-, hloc, hpl⟩ := hplaced.resident r key p hpat
  have hgone : Held c X L { s with patients := s.patients.erase key } :=
    h.kept rfl (fun _ _ hn => hn) rfl rfl rfl rfl rfl
  have hwithout := hgone.flag (r := r) (fun l => { l with
    patients := l.patients.erase key, dead := l.dead.erase key }) (fun _ => rfl) (fun _ => rfl)
    fun _ => rfl
  have hr : r ∈ iterLocations c (Clerk.update { s with patients := s.patients.erase key } r
      fun l => { l with patients := l.patients.erase key, dead := l.dead.erase key }) :=
    mem_iterLocations.mpr ⟨_, hloc⟩
  have hremoved : Held c X L
      (removePatient c k r key p { s with patients := s.patients.erase key }).2 := by
    unfold removePatient
    dsimp only
    split
    · rename_i hcheck
      exact hwithout.checkQuarantine hk hr hs hcheck.1
    · exact hwithout
  unfold Monitor.onPatientRemoved
  dsimp only
  rw [hpl, hloc]
  dsimp only
  split
  · refine hremoved.kept rfl (fun name r' hn => ?_) rfl rfl rfl rfl rfl
    by_cases hname : name =
        (((removePatient c k r key p { s with patients := s.patients.erase key }).2).heap r).name
    · rw [hname, AList.lookup_erase] at hn
      cases hn
    · rwa [AList.lookup_erase_ne hname] at hn
  · exact hremoved

/-- Whatever happens, the calls stay in order and the locations covered. Who is left out of
    the calls is a location that nobody refers to, or one that is known from then on. -/
theorem step_held {e : Event} (h : Held c (fun _ => False) L s) (hplaced : Placed s)
    (hmade : ∀ r, L r → r < s.created) (hstep : step c s e = some t) :
    Held c (fun _ => False) (fun r => L r ∨ r ∈ iterLocations c t) t := by
  have hk : Holding c (s.locations.keys.length + 1)
      (locationStateChanged c (s.locations.keys.length + 1)) := holding_locationStateChanged _
  have hs : s.locations.keys.length < s.locations.keys.length + 1 := Nat.lt_succ_self _
  have hmarked : ∀ r key p st, Held c (fun _ => False) L (s.update r (.mark key p st)) :=
    fun r key p st => h.flag (.mark key p st) (fun _ => rfl) (fun _ => rfl) fun _ => rfl
  have hknown : ∀ key r p, s.patient key = some (r, p) → r ∈ iterLocations c s := by
    intro key r p hp
    obtain ⟨-, hpat⟩ := patient_eq_some.mp hp
    exact mem_iterLocations.mpr ⟨_, (hplaced.resident r key p hpat).2.1⟩
  cases e with
  | added key location period =>
    dsimp only [step] at hstep
    split at hstep
    · cases hstep
    · obtain rfl := Option.some.inj hstep
      have hnoticed : Held c (fun _ => False) L { s with history := s.history ++ [.added key] } :=
        h.kept rfl (fun _ _ hn => hn) rfl rfl rfl rfl rfl
      exact hnoticed.onPatientAdded hmade key _
  | removed key =>
    obtain ⟨⟨r, p⟩, hp, hstep⟩ := Option.bind_eq_some_iff.mp hstep
    obtain rfl := Option.some.inj hstep
    exact (h.onPatientRemoved hk hplaced hp hs).allow fun _ hl => .inl hl
  | dying key =>
    obtain ⟨⟨r, p⟩, hp, hstep⟩ := Option.bind_eq_some_iff.mp hstep
    dsimp only at hstep
    split at hstep
    · obtain rfl := Option.some.inj hstep
      exact (hmarked _ _ _ _).allow fun _ hl => .inl hl
    · cases hstep
  | died key =>
    obtain ⟨⟨r, p⟩, hp, hstep⟩ := Option.bind_eq_some_iff.mp hstep
    dsimp only at hstep
    split at hstep
    · obtain rfl := Option.some.inj hstep
      refine Held.allow ?_ fun _ hl => .inl hl
      exact (hmarked r key p .dead).patientDied hk (hknown key r p hp) hs key _
    · cases hstep
  | resurrected key =>
    obtain ⟨⟨r, p⟩, hp, hstep⟩ := Option.bind_eq_some_iff.mp hstep
    dsimp only at hstep
    split at hstep
    · obtain rfl := Option.some.inj hstep
      refine Held.allow ?_ fun _ hl => .inl hl
      have hnoticed : Held c (fun _ => False) L { s.update r (.mark key p .alive) with
          history := s.history ++ [.resurrected key] } :=
        (hmarked r key p .alive).kept rfl (fun _ _ hn => hn) rfl rfl rfl rfl rfl
      exact hnoticed.patientResurrected hk (hknown key r p hp) hs key
    · cases hstep
  | relapsed key =>
    obtain ⟨⟨r, p⟩, hp, hstep⟩ := Option.bind_eq_some_iff.mp hstep
    dsimp only at hstep
    split at hstep
    · obtain rfl := Option.some.inj hstep
      exact (hmarked _ _ _ _).allow fun _ hl => .inl hl
    · cases hstep
  | disconnected =>
    obtain rfl := Option.some.inj hstep
    exact (h.onDisconnected hk hs).allow fun _ hl => .inl hl
  | reconnected =>
    obtain rfl := Option.some.inj hstep
    exact (h.onReconnected hk hs).allow fun _ hl => .inl hl
  | fired id =>
    obtain ⟨⟨delay, call⟩, hcall, hstep⟩ := Option.bind_eq_some_iff.mp hstep
    cases call with
    | liftLocation r =>
      obtain rfl := Option.some.inj hstep
      obtain ⟨hfired, hsole⟩ := h.fired hcall
      exact (hfired.quarantineLifted hk hsole hs).allow fun _ hl => .inl hl
    | liftIsolation =>
      obtain rfl := Option.some.inj hstep
      refine Held.allow ?_ fun _ hl => .inl hl
      exact (h.firedIsolation hcall).all.locResumeAll hk
        ((recoveringCount_le _).trans (Nat.le_of_lt hs))

theorem new_held : Held c X L .new := by
  have hnone : ∀ r, r ∉ iterLocations c .new := by
    intro r hr
    obtain ⟨name, hname⟩ := mem_iterLocations.mp hr
    cases hname
  refine ⟨fun _ _ h => ?_, ⟨fun _ _ _ h => ?_, fun _ _ _ _ h => ?_, fun _ _ h => ?_,
    fun _ _ _ h => ?_, fun _ _ => rfl, fun _ _ h => ?_, fun _ h => ?_⟩, iff_of_false ?_ ?_,
    fun _ _ => rfl, fun r hr => absurd hr (hnone r), fun r hl => ?_,
    fun r hr => absurd hr (hnone r)⟩
  · cases h
  · cases h
  · cases h
  · cases h
  · cases h
  · cases h
  · cases h
  · rintro ⟨_, _, h⟩
    cases h
  · exact fun h => by cases h
  · obtain ⟨_, _, h⟩ := hl
    cases h

end Feat.Agents.Monitor
