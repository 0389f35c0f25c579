import Feat.Lib.Run
import Feat.Common.ExpDict

/- Messages that a channel receives (`Channel.on_message` of
   `feat.agencies.messaging.messaging`).

   A channel throws away expired messages, those whose identifier it knows, and first
   messages whose traversal identifier it knows. It knows an identifier until the deadline
   noted with it, which is the expiration of the message that brought it. `Memory` is that
   account of a channel, and `onMessage_refines` says that the two dictionaries do nothing
   else, whenever they pack.

   Deadlines leave two gaps. A message has not expired at its expiration time, but is not
   remembered then. And an identifier is forgotten with the first message that carried
   it, although others that carried it live on. `acts_once_iff` says that a channel acts
   twice only in these gaps (`acts_twice`), and `acts_once` that there are none where messages
   with the same identifier expire together and none is handled at the moment when it expires.

   Each check of a message reads the clock anew (`Readings`). What the agent has at that
   time, its protocols and interests, is part of an arrival. The duplication message that
   is posted for a known traversal identifier is left out. -/
namespace Feat.Messaging.Incoming
open Hash Expiring Transition Feat.Common

/-! ## Messages -/

/-- A message: the traversal identifier of a first message, the receiver of a dialog message, and
    what the interests are looked up by. -/
structure Message (I T R : Type) where
  messageId : I
  expirationTime : Option ℚ
  first : Option (Option T)
  dialog : Option (Option R)
  protocolType : R
  protocolId : R

/-- The protocols of an agent, and its interests with the answer of their
    `schedule_message`. -/
structure Agent (R : Type) where
  protocols : R → Bool
  interests : R → R → Option Bool

/-- What becomes of a message: it raises a `TypeError`, is thrown away, is passed to a protocol
    or an interest, or to nobody. -/
inductive Outcome where
  | typeError
  | expired
  | duplicate
  | corrupted
  | knownTraversal
  | protocol
  | interest (scheduled : Bool)
  | nobody
  deriving DecidableEq

/-- Whether the message was passed to a protocol or an interest. -/
def Outcome.passed : Outcome → Bool
  | .protocol | .interest _ => true
  | _ => false

/-- Whether the message got through the checks. -/
def Outcome.accepted (outcome : Outcome) : Bool := outcome.passed || outcome = .nobody

/-- The clock at the checks of a message: `time.left`, and the lookup and the insertion in each of
    the dictionaries. -/
structure Readings where
  arrived : ℚ
  asked : ℚ
  noted : ℚ
  traced : ℚ
  kept : ℚ
  arrived_le : arrived ≤ asked
  asked_le : asked ≤ noted
  noted_le : noted ≤ traced
  traced_le : traced ≤ kept

/-- A clock that stands still. -/
def Readings.still (now : ℚ) : Readings :=
  ⟨now, now, now, now, now, le_refl _, le_refl _, le_refl _, le_refl _⟩

variable {I T R K : Type} [DecidableEq I] [DecidableEq T] [DecidableEq K]

structure Channel (I T : Type) where
  messageIds : ExpDict I Bool
  traversalIds : ExpDict T Bool

def Channel.new : Channel I T := ⟨.new none, .new none⟩

/-- The end of `on_message`. -/
def handle (agent : Agent R) (msg : Message I T R) : Outcome :=
  if (msg.dialog.join.map agent.protocols).getD false then .protocol
  else match agent.interests msg.protocolType msg.protocolId with
    | some scheduled => .interest scheduled
    | none => .nobody

/-- `on_message`. -/
def Channel.onMessage (order : HashOrder I) (order' : HashOrder T) (r : Readings) (agent : Agent R)
    (msg : Message I T R) (c : Channel I T) : Channel I T × Outcome :=
  match msg.expirationTime with
  | none => (c, .typeError)  -- time.left(None)
  | some exp =>
    if exp - r.arrived < 0 then (c, .expired)
    else
      let (messageIds, known) := c.messageIds.getItem order r.asked msg.messageId
      let c := { c with messageIds := messageIds }
      if known.isSome then (c, .duplicate)
      else
        let c := { c with
          messageIds := c.messageIds.set order r.noted msg.messageId (some true) (some exp) false }
        match msg.first with
        | none => (c, handle agent msg)
        | some none => (c, .corrupted)
        | some (some traversalId) =>
          let (traversalIds, known) := c.traversalIds.getItem order' r.traced traversalId
          let c := { c with traversalIds := traversalIds }
          if known.isSome then (c, .knownTraversal)
          else
            let c := { c with
              traversalIds :=
                c.traversalIds.set order' r.kept traversalId (some true) (some exp) false }
            (c, handle agent msg)

/-! ## Deadlines -/

/-- What is remembered: the deadline last noted with an identifier. -/
abbrev Deadlines (K : Type) : Type := Dict K ℚ

namespace Deadlines

/-- An identifier is remembered before its deadline. -/
def Remembers (m : Deadlines K) (now : ℚ) (key : K) : Prop :=
  ∃ deadline ∈ m.lookup key, now < deadline

instance (m : Deadlines K) (now : ℚ) (key : K) : Decidable (m.Remembers now key) :=
  decidable_of_iff ((m.lookup key).any (now < ·))
    (by cases h : m.lookup key <;> simp [Remembers, h])

/-- A deadline is noted, unless it is over. -/
def note (m : Deadlines K) (now : ℚ) (key : K) (deadline : ℚ) : Deadlines K :=
  if now < deadline then m.insert key deadline else m

end Deadlines

/-- A dictionary has the identifiers that are remembered, from some time on. -/
def Holds (clock : ℚ) (d : ExpDict K Bool) (m : Deadlines K) : Prop :=
  ∀ now, clock ≤ now → ∀ key, (live now d.items key).isSome ↔ m.Remembers now key

variable {clock now : ℚ} {d : ExpDict K Bool} {m : Deadlines K}

theorem Holds.mono (h : Holds clock d m) (hnow : clock ≤ now) : Holds now d m :=
  fun later hlater => h later (hnow.trans hlater)

/-- A dictionary whose live entries are the same from now on. -/
theorem Holds.of_live (h : Holds clock d m) (hnow : clock ≤ now) {d' : ExpDict K Bool}
    (hlive : ∀ key, live now d'.items key = live now d.items key) : Holds now d' m := by
  intro later hlater key
  rw [live_later hlater, hlive, ← live_later hlater]
  exact h later (hnow.trans hlater) key

/-- A lookup tells what is remembered, and changes nothing. -/
theorem Holds.getItem (h : Holds clock d m) (hnow : clock ≤ now) (order : HashOrder K) (key : K) :
    ((d.getItem order now key).2.isSome ↔ m.Remembers now key) ∧
      Holds now (d.getItem order now key).1 m := by
  obtain ⟨d', hd, hkeep⟩ := getItem_spec order d now key
  rw [hd]
  exact ⟨h now hnow key, h.of_live hnow hkeep⟩

/-- An insertion notes the expiration. -/
theorem Holds.set (h : Holds clock d m) (hnow : clock ≤ now) (order : HashOrder K) (key : K)
    (exp : ℚ) :
    Holds now (d.set order now key (some true) (some exp) false) (m.note now key exp) := by
  have hpacked : Holds now (d.lazyPack order now) m := h.of_live hnow (live_lazyPack order d now)
  unfold ExpDict.set Deadlines.note
  dsimp only [deadline, Option.map_some]
  by_cases hover : exp ≤ now
  · simp only [hover, if_true, not_lt.mpr hover, if_false, Bool.false_eq_true]
    exact hpacked
  · simp only [hover, if_false, not_le.mp hover, if_true, Bool.false_eq_true]
    intro later hlater k
    rw [live_insert]
    unfold Deadlines.Remembers
    by_cases hk : k = key
    · subst hk
      simp [Option.filter_some, Item.alive]
    · rw [if_neg hk, AList.lookup_insert_ne hk]
      exact hpacked later hlater k

theorem holds_new (clock : ℚ) : Holds clock (ExpDict.new none : ExpDict K Bool) ∅ := by
  intro now _ key
  simp [live, ExpDict.new, Deadlines.Remembers]

/-! ## The memory of a channel -/

structure Memory (I T : Type) where
  messages : Deadlines I
  traversals : Deadlines T

/-- What a channel does with a message, in terms of deadlines. -/
def Memory.onMessage (r : Readings) (agent : Agent R) (msg : Message I T R) (m : Memory I T) :
    Memory I T × Outcome :=
  match msg.expirationTime with
  | none => (m, .typeError)
  | some exp =>
    if exp < r.arrived then (m, .expired)
    else if m.messages.Remembers r.asked msg.messageId then (m, .duplicate)
    else
      let m := { m with messages := m.messages.note r.noted msg.messageId exp }
      match msg.first with
      | none => (m, handle agent msg)
      | some none => (m, .corrupted)
      | some (some traversalId) =>
        if m.traversals.Remembers r.traced traversalId then (m, .knownTraversal)
        else ({ m with traversals := m.traversals.note r.kept traversalId exp }, handle agent msg)

structure Refines (clock : ℚ) (c : Channel I T) (m : Memory I T) : Prop where
  messages : Holds clock c.messageIds m.messages
  traversals : Holds clock c.traversalIds m.traversals

/-- A channel does with a message what its memory says. -/
theorem onMessage_refines (order : HashOrder I) (order' : HashOrder T) {c : Channel I T}
    {m : Memory I T} (h : Refines clock c m) {r : Readings} (hclock : clock ≤ r.arrived)
    (agent : Agent R) (msg : Message I T R) :
    (c.onMessage order order' r agent msg).2 = (m.onMessage r agent msg).2 ∧
      Refines r.kept (c.onMessage order order' r agent msg).1 (m.onMessage r agent msg).1 := by
  have hasked : clock ≤ r.asked := hclock.trans r.arrived_le
  have htraced : clock ≤ r.traced := hasked.trans (r.asked_le.trans r.noted_le)
  have hend : r.arrived ≤ r.kept :=
    r.arrived_le.trans (r.asked_le.trans (r.noted_le.trans r.traced_le))
  have hstay : Refines r.kept c m :=
    ⟨h.messages.mono (hclock.trans hend), h.traversals.mono (hclock.trans hend)⟩
  unfold Channel.onMessage Memory.onMessage
  cases msg.expirationTime with
  | none => exact ⟨rfl, hstay⟩
  | some exp =>
    dsimp only
    simp only [sub_neg]
    split
    · exact ⟨rfl, hstay⟩
    · obtain ⟨hknown, hids⟩ := h.messages.getItem hasked order msg.messageId
      have hset := hids.set r.asked_le order msg.messageId exp
      have hidsEnd := hset.mono (r.noted_le.trans r.traced_le)
      by_cases hdup : m.messages.Remembers r.asked msg.messageId
      · rw [if_pos (hknown.mpr hdup), if_pos hdup]
        refine ⟨rfl, hids.mono ?_, hstay.traversals⟩
        exact r.asked_le.trans (r.noted_le.trans r.traced_le)
      · rw [if_neg (fun hsome => hdup (hknown.mp hsome)), if_neg hdup]
        cases msg.first with
        | none => exact ⟨rfl, hidsEnd, hstay.traversals⟩
        | some first =>
          cases first with
          | none => exact ⟨rfl, hidsEnd, hstay.traversals⟩
          | some traversalId =>
            obtain ⟨hknown', htids⟩ := h.traversals.getItem htraced order' traversalId
            dsimp only
            by_cases hdup' : m.traversals.Remembers r.traced traversalId
            · rw [if_pos (hknown'.mpr hdup'), if_pos hdup']
              exact ⟨rfl, hidsEnd, htids.mono r.traced_le⟩
            · rw [if_neg (fun hsome => hdup' (hknown'.mp hsome)), if_neg hdup']
              exact ⟨rfl, hidsEnd, htids.set r.traced_le order' traversalId exp⟩

/-! ## What gets through -/

/-- The message is no first message, or one with a traversal identifier that is not
    remembered. -/
def Memory.Untraversed (m : Memory I T) (now : ℚ) (msg : Message I T R) : Prop :=
  ∀ first, msg.first = some first → ∃ traversalId,
    first = some traversalId ∧ ¬ m.traversals.Remembers now traversalId

/-- What becomes of a message, and of the memory: the message is expired or known, it is a first
    message that does not get through, or it is handled. -/
inductive Received (r : Readings) (agent : Agent R) (msg : Message I T R) (m : Memory I T) :
    Memory I T → Outcome → Prop where
  | rejected {outcome : Outcome}
      (hknown : ∀ exp, msg.expirationTime = some exp → r.arrived ≤ exp →
        m.messages.Remembers r.asked msg.messageId)
      (hnot : outcome.accepted = false) : Received r agent msg m m outcome
  | traversed {exp : ℚ} {outcome : Outcome} (hexp : msg.expirationTime = some exp)
      (hlive : r.arrived ≤ exp) (htraversed : ¬ m.Untraversed r.traced msg)
      (hnot : outcome.accepted = false) :
      Received r agent msg m
        { m with messages := m.messages.note r.noted msg.messageId exp } outcome
  | handled {exp : ℚ} (hexp : msg.expirationTime = some exp) (hlive : r.arrived ≤ exp)
      (hunknown : ¬ m.messages.Remembers r.asked msg.messageId) (hfirst : msg.first = none) :
      Received r agent msg m
        { m with messages := m.messages.note r.noted msg.messageId exp } (handle agent msg)
  | first {exp : ℚ} {traversalId : T} (hexp : msg.expirationTime = some exp)
      (hlive : r.arrived ≤ exp) (hunknown : ¬ m.messages.Remembers r.asked msg.messageId)
      (hfirst : msg.first = some (some traversalId))
      (huntraversed : ¬ m.traversals.Remembers r.traced traversalId) :
      Received r agent msg m
        ⟨m.messages.note r.noted msg.messageId exp, m.traversals.note r.kept traversalId exp⟩
        (handle agent msg)

variable {r : Readings} {agent : Agent R} {msg : Message I T R} {mem : Memory I T}

theorem received : Received r agent msg mem (mem.onMessage r agent msg).1
    (mem.onMessage r agent msg).2 := by
  unfold Memory.onMessage
  cases hexp : msg.expirationTime with
  | none => exact .rejected (fun exp h => by rw [hexp] at h; cases h) rfl
  | some exp =>
    dsimp only
    by_cases hover : exp < r.arrived
    · rw [if_pos hover]
      refine .rejected (fun exp' hexp' hlive => ?_) rfl
      obtain rfl := Option.some.inj (hexp.symm.trans hexp')
      exact absurd hover (not_lt.mpr hlive)
    · rw [if_neg hover]
      have hlive := not_lt.mp hover
      by_cases hdup : mem.messages.Remembers r.asked msg.messageId
      · rw [if_pos hdup]
        exact .rejected (fun _ _ _ => hdup) rfl
      · rw [if_neg hdup]
        cases hfirst : msg.first with
        | none => exact .handled hexp hlive hdup hfirst
        | some first =>
          cases first with
          | none =>
            refine .traversed hexp hlive (fun hno => ?_) rfl
            obtain ⟨_, hid, -⟩ := hno none hfirst
            cases hid
          | some traversalId =>
            dsimp only
            by_cases htrav : mem.traversals.Remembers r.traced traversalId
            · rw [if_pos htrav]
              refine .traversed hexp hlive (fun hno => ?_) rfl
              obtain ⟨_, hid, hforgotten⟩ := hno _ hfirst
              obtain rfl := Option.some.inj hid
              exact hforgotten htrav
            · rw [if_neg htrav]
              exact .first hexp hlive hdup hfirst htrav

omit [DecidableEq I] [DecidableEq T] in
theorem handle_accepted (agent : Agent R) (msg : Message I T R) :
    (handle agent msg).accepted = true := by
  unfold handle
  split
  · rfl
  · split <;> rfl

variable {next : Memory I T} {outcome : Outcome}

/-- A message gets through the checks when it is neither expired nor known. -/
theorem accepted_iff (h : Received r agent msg mem next outcome) :
    outcome.accepted = true ↔
      ∃ exp, msg.expirationTime = some exp ∧ r.arrived ≤ exp ∧
        ¬ mem.messages.Remembers r.asked msg.messageId ∧ mem.Untraversed r.traced msg := by
  cases h with
  | rejected hknown hnot =>
    rw [hnot]
    refine ⟨fun h => (by cases h), ?_⟩
    rintro ⟨exp, hexp, hlive, hunknown, -⟩
    exact absurd (hknown exp hexp hlive) hunknown
  | traversed _ _ htraversed hnot =>
    rw [hnot]
    refine ⟨fun h => (by cases h), ?_⟩
    rintro ⟨-, -, -, -, huntraversed⟩
    exact absurd huntraversed htraversed
  | handled hexp hlive hunknown hfirst =>
    refine iff_of_true (handle_accepted agent msg) ⟨_, hexp, hlive, hunknown, ?_⟩
    intro first h
    cases hfirst.symm.trans h
  | first hexp hlive hunknown hfirst huntraversed =>
    refine iff_of_true (handle_accepted agent msg) ⟨_, hexp, hlive, hunknown, ?_⟩
    intro first h
    obtain rfl := Option.some.inj (hfirst.symm.trans h)
    exact ⟨_, rfl, huntraversed⟩

theorem accepted_of_passed (h : outcome.passed = true) :
    outcome.accepted = true := by
  unfold Outcome.accepted
  rw [h]
  rfl

/-- A message that gets through the checks is handled. -/
theorem outcome_of_accepted (h : Received r agent msg mem next outcome)
    (haccepted : outcome.accepted = true) : outcome = handle agent msg := by
  cases h with
  | rejected _ hnot => cases haccepted.symm.trans hnot
  | traversed _ _ _ hnot => cases haccepted.symm.trans hnot
  | handled => rfl
  | first => rfl

/-! ## Runs -/

/-- The time for which first messages with a traversal identifier have been there that are not
    expired, up to the latest expiration, and how many of them got through the checks. -/
structure Period where
  expires : ℚ
  accepted : Nat
  deriving DecidableEq

/-- A first message arrives. -/
def Period.receive (period : Option Period) (arrived exp : ℚ) (accepted : Bool) : Period :=
  match period with
  | none => ⟨exp, accepted.toNat⟩
  | some p =>
    if arrived ≤ p.expires then ⟨max p.expires exp, p.accepted + accepted.toNat⟩
    else ⟨exp, accepted.toNat⟩

structure Arrival (I T R : Type) where
  readings : Readings
  agent : Agent R
  message : Message I T R

/-- A channel, the time, and what an observer has seen: what the channel should remember, the
    identifiers of the messages that were passed, and the first messages. -/
structure State (I T : Type) where
  channel : Channel I T
  clock : ℚ
  memory : Memory I T
  passed : List I
  periods : Dict T Period

def State.start (clock : ℚ) : State I T := ⟨.new, clock, ⟨∅, ∅⟩, [], ∅⟩

/-- The first messages, with the one that arrives. -/
def receive (a : Arrival I T R) (accepted : Bool) (periods : Dict T Period) : Dict T Period :=
  match a.message.first.join, a.message.expirationTime with
  | some traversalId, some exp =>
    periods.insert traversalId
      (.receive (periods.lookup traversalId) a.readings.arrived exp accepted)
  | _, _ => periods

/-- A message arrives, not before the one before it has been handled. -/
def step (order : HashOrder I) (order' : HashOrder T) (s : State I T) (a : Arrival I T R) :
    Option (State I T) :=
  if s.clock ≤ a.readings.arrived then
    let (channel, outcome) := s.channel.onMessage order order' a.readings a.agent a.message
    some {
      channel
      clock := a.readings.kept
      memory := (s.memory.onMessage a.readings a.agent a.message).1
      passed := if outcome.passed then s.passed ++ [a.message.messageId] else s.passed
      periods := receive a outcome.accepted s.periods }
  else none

/-- No message was passed twice, and of the first messages with one traversal identifier one at
    most got through, for as long as any of them was not expired. -/
structure ActsOnce (s : State I T) : Prop where
  passed : s.passed.Nodup
  accepted : ∀ traversalId, ∀ period ∈ s.periods.lookup traversalId, period.accepted ≤ 1

/-- One of the first messages got through, and there is one that has not expired. -/
def State.Taken (s : State I T) (now : ℚ) (traversalId : T) : Prop :=
  ∃ period ∈ s.periods.lookup traversalId, now ≤ period.expires ∧ period.accepted ≠ 0

/-- A message that was passed is still remembered when a copy of it arrives that would be passed
    again, and so is a traversal identifier when it was taken and another first message with it
    arrives. -/
structure Remembered (s : State I T) (a : Arrival I T R) : Prop where
  message : ∀ exp, a.message.expirationTime = some exp → a.readings.arrived ≤ exp →
    s.memory.Untraversed a.readings.traced a.message →
    (handle a.agent a.message).passed = true → a.message.messageId ∈ s.passed →
    s.memory.messages.Remembers a.readings.asked a.message.messageId
  traversal : ∀ exp, a.message.expirationTime = some exp → a.readings.arrived ≤ exp →
    ¬ s.memory.messages.Remembers a.readings.asked a.message.messageId →
    ∀ traversalId, a.message.first = some (some traversalId) →
    s.Taken a.readings.arrived traversalId →
    s.memory.traversals.Remembers a.readings.traced traversalId

structure Inv (s : State I T) : Prop where
  once : ActsOnce s
  refines : Refines s.clock s.channel s.memory

variable {order : HashOrder I} {order' : HashOrder T} {s t : State I T} {a : Arrival I T R}

/-- What a step does, in terms of deadlines. -/
theorem step_eq_some (hinv : Refines s.clock s.channel s.memory)
    (h : Defined (step order order') s a t) :
    s.clock ≤ a.readings.arrived ∧ Refines t.clock t.channel t.memory ∧
      t.memory = (s.memory.onMessage a.readings a.agent a.message).1 ∧
      t.passed = (if (s.memory.onMessage a.readings a.agent a.message).2.passed then
        s.passed ++ [a.message.messageId] else s.passed) ∧
      t.periods =
        receive a (s.memory.onMessage a.readings a.agent a.message).2.accepted s.periods := by
  unfold Defined step at h
  split at h
  · rename_i hclock
    obtain ⟨houtcome, hrefines⟩ := onMessage_refines order order' hinv hclock a.agent a.message
    dsimp only at h
    obtain rfl := Option.some.inj h
    rw [← houtcome]
    exact ⟨hclock, hrefines, rfl, rfl, rfl⟩
  · cases h

/-! ## First messages -/

theorem Period.receive_le {period : Option Period} {arrived exp : ℚ} {accepted : Bool}
    (hle : ∀ p ∈ period, p.accepted ≤ 1)
    (hnew : accepted = true → ∀ p ∈ period, arrived ≤ p.expires → p.accepted = 0) :
    (Period.receive period arrived exp accepted).accepted ≤ 1 := by
  have hone := Bool.toNat_le accepted
  unfold Period.receive
  cases period with
  | none => exact hone
  | some p =>
    dsimp only
    split
    · rename_i hopen
      cases accepted with
      | false => exact hle p rfl
      | true =>
        rw [hnew rfl p rfl hopen]
        exact hone
    · exact hone

omit [DecidableEq I] in
/-- What is known of the first messages, after one has arrived. -/
theorem mem_receive {accepted : Bool} {periods : Dict T Period} {traversalId : T}
    {period : Period} (h : period ∈ (receive a accepted periods).lookup traversalId) :
    period ∈ periods.lookup traversalId ∨
      ∃ exp, a.message.first = some (some traversalId) ∧ a.message.expirationTime = some exp ∧
        period =
          .receive (periods.lookup traversalId) a.readings.arrived exp accepted := by
  unfold receive at h
  split at h
  · rename_i k exp hfirst hexp
    by_cases hk : traversalId = k
    · subst hk
      rw [AList.lookup_insert] at h
      obtain rfl := Option.some.inj h
      exact .inr ⟨exp, Option.join_eq_some_iff.mp hfirst, hexp, rfl⟩
    · rw [AList.lookup_insert_ne hk] at h
      exact .inl h
  · exact .inl h

omit [DecidableEq I] in
/-- When one more gets through, there are two. -/
theorem receive_taken {exp : ℚ} {traversalId : T}
    (hfirst : a.message.first = some (some traversalId))
    (hexp : a.message.expirationTime = some exp)
    (htaken : s.Taken a.readings.arrived traversalId) :
    ∃ period ∈ (receive a true s.periods).lookup traversalId, ¬ period.accepted ≤ 1 := by
  obtain ⟨p, hp, hopen, haccepted⟩ := htaken
  unfold receive
  rw [hfirst, hexp]
  refine ⟨_, AList.lookup_insert _, ?_⟩
  rw [Option.mem_def.mp hp]
  unfold Period.receive
  dsimp only
  rw [if_pos hopen]
  dsimp only [Bool.toNat_true]
  omega

/-! ## When a channel acts once -/

/-- While what was taken is remembered, nothing is taken twice. -/
theorem step_kept (hinv : Inv s) (hguard : Remembered s a)
    (h : Defined (step order order') s a t) : Inv t := by
  obtain ⟨-, hrefines, -, hpassed, hperiods⟩ := step_eq_some hinv.refines h
  refine ⟨⟨?_, ?_⟩, hrefines⟩
  · rw [hpassed]
    split
    · rename_i hpass
      have haccepted := accepted_of_passed hpass
      obtain ⟨exp, hexp, hlive, hunknown, huntraversed⟩ := (accepted_iff received).mp haccepted
      rw [outcome_of_accepted received haccepted] at hpass
      refine List.Nodup.append hinv.once.passed (List.nodup_singleton _) ?_
      rw [List.disjoint_singleton]
      intro hold
      exact hunknown (hguard.message exp hexp hlive huntraversed hpass hold)
    · exact hinv.once.passed
  · rw [hperiods]
    intro traversalId period hperiod
    obtain hold | ⟨exp, hfirst, hexp, rfl⟩ := mem_receive hperiod
    · exact hinv.once.accepted traversalId period hold
    · apply Period.receive_le (hinv.once.accepted traversalId)
      intro haccepted p hp hopen
      obtain ⟨exp', hexp', hlive, hunknown, huntraversed⟩ := (accepted_iff received).mp haccepted
      obtain ⟨_, hid, hforgotten⟩ := huntraversed _ hfirst
      obtain rfl := Option.some.inj hid
      by_contra hcount
      exact hforgotten
        (hguard.traversal exp' hexp' hlive hunknown _ hfirst ⟨p, hp, hopen, hcount⟩)

/-- When something that was taken is forgotten, it is taken twice. -/
theorem step_lost (hinv : Inv s) (hguard : ¬ Remembered s a)
    (h : Defined (step order order') s a t) : ¬ ActsOnce t := by
  intro honce
  obtain ⟨-, -, -, hpassed, hperiods⟩ := step_eq_some hinv.refines h
  apply hguard
  constructor
  · intro exp hexp hlive huntraversed hhandled hold
    by_contra hunknown
    have haccepted : (s.memory.onMessage a.readings a.agent a.message).2.accepted = true :=
      (accepted_iff received).mpr ⟨exp, hexp, hlive, hunknown, huntraversed⟩
    have hnodup := honce.passed
    rw [hpassed, outcome_of_accepted received haccepted, if_pos hhandled] at hnodup
    exact List.disjoint_singleton.mp (List.disjoint_of_nodup_append hnodup) hold
  · intro exp hexp hlive hunknown traversalId hfirst htaken
    by_contra hforgotten
    have huntraversed : s.memory.Untraversed a.readings.traced a.message := by
      intro first h
      obtain rfl := Option.some.inj (hfirst.symm.trans h)
      exact ⟨traversalId, rfl, hforgotten⟩
    have haccepted : (s.memory.onMessage a.readings a.agent a.message).2.accepted = true :=
      (accepted_iff received).mpr ⟨exp, hexp, hlive, hunknown, huntraversed⟩
    obtain ⟨period, hperiod, hcount⟩ := receive_taken hfirst hexp htaken
    rw [← haccepted, ← hperiods] at hperiod
    exact hcount (honce.accepted traversalId period hperiod)

theorem inv_start (clock : ℚ) : Inv (State.start clock : State I T) where
  once := ⟨List.nodup_nil, fun _ _ h => by cases h⟩
  refines := ⟨holds_new clock, holds_new clock⟩

/-- A channel acts on each message once, and on one of the first messages with a traversal
    identifier, if and only if what was taken is remembered whenever it arrives again. -/
theorem acts_once_iff (order : HashOrder I) (order' : HashOrder T) (clock : ℚ)
    (es : List (Arrival I T R)) (s : State I T) :
    Run (Guarded Remembered (Defined (step order order'))) (.start clock) es s ↔
      Run (Ending ActsOnce (Defined (step order order'))) (.start clock) es s :=
  run_guarded_iff (fun _ h => h.once) (fun _ _ _ hinv hguard h => step_kept hinv hguard h)
    (fun _ _ _ hinv hguard h => step_lost hinv hguard h) (inv_start clock)

/-- A copy of a message arrives when it expires, and a first message when the one that brought its
    traversal identifier has expired, but not another one. -/
theorem acts_twice :
    (¬ ∀ (es : List (Arrival Nat Nat Nat)) (s : State Nat Nat),
      Run (Defined (step .stored .stored)) (.start 0) es s → s.passed.Nodup) ∧
    ¬ ∀ (es : List (Arrival Nat Nat Nat)) (s : State Nat Nat),
      Run (Defined (step .stored .stored)) (.start 0) es s →
        ∀ traversalId, ∀ period ∈ s.periods.lookup traversalId, period.accepted ≤ 1 := by
  let agent : Agent Nat := ⟨fun _ => false, fun _ _ => some true⟩
  constructor
  · intro h
    let a : Arrival Nat Nat Nat := ⟨.still 10, agent, ⟨1, some 10, none, none, 0, 0⟩⟩
    have hnodup := h [a, a] _ (run_defined (Option.eq_some_of_isSome (by decide +kernel)))
    revert hnodup
    decide +kernel
  · intro h
    let a (now : ℚ) (id : Nat) (exp : ℚ) : Arrival Nat Nat Nat :=
      ⟨.still now, agent, ⟨id, some exp, some (some 5), none, 0, 0⟩⟩
    have hone := h [a 10 1 20, a 15 2 100, a 21 3 100] _
      (run_defined (Option.eq_some_of_isSome (by decide +kernel))) 5 ⟨100, 2⟩
    exact absurd (hone (by decide +kernel)) (by decide)

/-! ## Messages with one identifier that expire together -/

/-- Messages with one identifier expire together, and a message is handled before it expires
    when it has not expired on arrival. -/
structure Together (expires : I → ℚ) (expires' : T → ℚ) (a : Arrival I T R) : Prop where
  message : ∀ exp, a.message.expirationTime = some exp → exp = expires a.message.messageId
  traversal : ∀ exp, a.message.expirationTime = some exp →
    ∀ traversalId, a.message.first = some (some traversalId) → exp = expires' traversalId
  handled : ∀ exp, a.message.expirationTime = some exp → a.readings.arrived ≤ exp →
    a.readings.kept < exp

/-- What was passed or taken is noted with the time it expires at. -/
structure Noted (expires : I → ℚ) (expires' : T → ℚ) (s : State I T) : Prop where
  message : ∀ id ∈ s.passed, s.memory.messages.lookup id = some (expires id)
  traversal : ∀ traversalId, ∀ period ∈ s.periods.lookup traversalId, period.accepted ≠ 0 →
    s.memory.traversals.lookup traversalId = some (expires' traversalId)

variable {expires : I → ℚ} {expires' : T → ℚ}

theorem remembered_of_noted (hnoted : Noted expires expires' s)
    (htogether : Together expires expires' a) : Remembered s a := by
  have htraced := a.readings.traced_le
  have hasked := a.readings.asked_le.trans (a.readings.noted_le.trans htraced)
  constructor
  · intro exp hexp hlive _ _ hold
    refine ⟨_, hnoted.message _ hold, ?_⟩
    rw [← htogether.message exp hexp]
    exact hasked.trans_lt (htogether.handled exp hexp hlive)
  · rintro exp hexp hlive - traversalId hfirst ⟨period, hperiod, -, htaken⟩
    refine ⟨_, hnoted.traversal _ period hperiod htaken, ?_⟩
    rw [← htogether.traversal exp hexp traversalId hfirst]
    exact htraced.trans_lt (htogether.handled exp hexp hlive)

theorem lookup_note {m : Deadlines K} {expires : K → ℚ} {now exp : ℚ} {key k : K}
    (hnow : now < exp) (hexp : exp = expires key)
    (hold : k ≠ key → m.lookup k = some (expires k)) :
    (m.note now key exp).lookup k = some (expires k) := by
  unfold Deadlines.note
  rw [if_pos hnow]
  by_cases hk : k = key
  · rw [hk, AList.lookup_insert, hexp]
  · rw [AList.lookup_insert_ne hk]
    exact hold hk

/-- What a message leaves in the memory, when it is handled before it expires. -/
theorem noted_received (hnoted : Noted expires expires' s) (htogether : Together expires expires' a)
    (h : Received a.readings a.agent a.message s.memory next outcome) :
    (∀ id, id ∈ s.passed ∨ id = a.message.messageId ∧ outcome.accepted = true →
        next.messages.lookup id = some (expires id)) ∧
      ∀ traversalId,
        (∃ period ∈ s.periods.lookup traversalId, period.accepted ≠ 0) ∨
          a.message.first = some (some traversalId) ∧ outcome.accepted = true →
        next.traversals.lookup traversalId = some (expires' traversalId) := by
  have hold : ∀ traversalId, (∃ period ∈ s.periods.lookup traversalId, period.accepted ≠ 0) →
      s.memory.traversals.lookup traversalId = some (expires' traversalId) :=
    fun traversalId ⟨period, hperiod, htaken⟩ =>
      hnoted.traversal traversalId period hperiod htaken
  have hids : ∀ exp, a.message.expirationTime = some exp → a.readings.arrived ≤ exp →
      ∀ id, id ∈ s.passed ∨ id = a.message.messageId ∧ outcome.accepted = true →
        (s.memory.messages.note a.readings.noted a.message.messageId exp).lookup id =
          some (expires id) := by
    intro exp hexp hlive id hid
    have hkept := a.readings.noted_le.trans a.readings.traced_le
    refine lookup_note (hkept.trans_lt (htogether.handled exp hexp hlive))
      (htogether.message exp hexp) fun hother => ?_
    exact hnoted.message id (hid.resolve_right fun hnew => hother hnew.1)
  cases h with
  | rejected _ hnot =>
    rw [hnot]
    exact ⟨fun id hid => hnoted.message id (hid.resolve_right fun h => by cases h.2),
      fun traversalId htid => hold traversalId (htid.resolve_right fun h => by cases h.2)⟩
  | traversed hexp hlive _ hnot =>
    refine ⟨hids _ hexp hlive, fun traversalId htid => hold traversalId ?_⟩
    exact htid.resolve_right fun h => by cases hnot.symm.trans h.2
  | handled hexp hlive _ hfirst =>
    refine ⟨hids _ hexp hlive, fun traversalId htid => hold traversalId ?_⟩
    exact htid.resolve_right fun h => by cases hfirst.symm.trans h.1
  | first hexp hlive _ hfirst _ =>
    refine ⟨hids _ hexp hlive, fun traversalId htid => ?_⟩
    refine lookup_note (htogether.handled _ hexp hlive) (htogether.traversal _ hexp _ hfirst)
      fun hother => hold traversalId (htid.resolve_right fun h => ?_)
    cases hfirst.symm.trans h.1
    exact hother rfl

/-- A period counts a message that got through, now or before. -/
theorem Period.receive_ne_zero {period : Option Period} {arrived exp : ℚ} {accepted : Bool}
    (h : (Period.receive period arrived exp accepted).accepted ≠ 0) :
    (∃ p ∈ period, p.accepted ≠ 0) ∨ accepted = true := by
  cases accepted with
  | true => exact .inr rfl
  | false =>
    unfold Period.receive at h
    cases period with
    | none => exact absurd rfl h
    | some p =>
      dsimp only at h
      split at h
      · exact .inl ⟨p, rfl, h⟩
      · exact absurd rfl h

theorem step_noted (hinv : Inv s) (hnoted : Noted expires expires' s)
    (htogether : Together expires expires' a) (h : Defined (step order order') s a t) :
    Noted expires expires' t := by
  obtain ⟨-, -, hmemory, hpassed, hperiods⟩ := step_eq_some hinv.refines h
  obtain ⟨hids, htids⟩ := noted_received hnoted htogether received
  rw [← hmemory] at hids htids
  constructor
  · intro id hid
    apply hids
    rw [hpassed] at hid
    split at hid
    · rename_i hpass
      obtain hold | hnew := List.mem_append.mp hid
      · exact .inl hold
      · exact .inr ⟨List.mem_singleton.mp hnew, accepted_of_passed hpass⟩
    · exact .inl hid
  · intro traversalId period hperiod htaken
    apply htids
    rw [hperiods] at hperiod
    obtain hold | ⟨exp, hfirst, -, rfl⟩ := mem_receive hperiod
    · exact .inl ⟨period, hold, htaken⟩
    · exact (Period.receive_ne_zero htaken).imp_right fun haccepted => ⟨hfirst, haccepted⟩

/-- A channel acts on each message once where messages with one identifier expire together, and
    none is handled at the time when it expires. -/
theorem acts_once (order : HashOrder I) (order' : HashOrder T) (expires : I → ℚ)
    (expires' : T → ℚ) (clock : ℚ) (es : List (Arrival I T R)) (s : State I T)
    (h : Run (Guarded (fun _ => Together expires expires') (Defined (step order order')))
      (.start clock) es s) : ActsOnce s := by
  have hstart : Noted expires expires' (State.start clock : State I T) :=
    ⟨fun _ h => (by cases h), fun _ _ h => (by cases h)⟩
  have hkeep : ∀ (s : State I T) (a : Arrival I T R) (t : State I T),
      Inv s ∧ Noted expires expires' s →
      Guarded (fun _ => Together expires expires') (Defined (step order order')) s a t →
      Inv t ∧ Noted expires expires' t := by
    rintro s a t ⟨hinv, hnoted⟩ ⟨htogether, hstep⟩
    exact ⟨step_kept hinv (remembered_of_noted hnoted htogether) hstep,
      step_noted hinv hnoted htogether hstep⟩
  exact (h.preserves hkeep ⟨inv_start clock, hstart⟩).1.once

/-- A message and a copy of it, before it expires. -/
theorem acts_once_copied :
    ∃ s : State Nat Nat, s.passed = [1] ∧ ActsOnce s := by
  let a : Arrival Nat Nat Nat :=
    ⟨.still 5, ⟨fun _ => false, fun _ _ => some true⟩, ⟨1, some 10, none, none, 0, 0⟩⟩
  have htogether : Together (fun _ => 10) (fun _ => 10) a := by
    refine ⟨fun exp h => (Option.some.inj h).symm, fun exp _ _ h => (by cases h), fun exp h _ => ?_⟩
    cases h
    decide +kernel
  obtain ⟨s, hs, hpassed⟩ : ∃ s, [a, a].foldlM (step .stored .stored) (.start 0) = some s ∧
      s.passed = [1] := by
    apply Option.map_eq_some_iff.mp
    decide +kernel
  have hrun := run_defined hs
  cases hrun with
  | cons hfirst hrest =>
    cases hrest with
    | cons hsecond hnil =>
      cases hnil
      exact ⟨s, hpassed, acts_once .stored .stored _ _ 0 [a, a] s
        (.cons ⟨htogether, hfirst⟩ (.cons ⟨htogether, hsecond⟩ (.nil s)))⟩

end Feat.Messaging.Incoming
