import Feat.Messaging.Routing

/- What becomes of a copy of a message.

   A copy is handed to the routes that match when it is dispatched, up to the first final
   one, and when there is no final one, later to the first final route that is appended
   before the copy expires (`Story.Delivered`).

   The store keeps one message under an identifier, and the copies of one post have the
   same identifier. A copy that is stored takes the place of one that was stored before it.
   `delivered_iff` says that messages are lost this way only, and `first_copy_lost` that
   they are. -/
namespace Feat.Routing
open Hash Expiring Transition Feat.Common

/-- The matching routes up to the first final one. -/
def upToFinal (message : Message) (routes : List Route) : List Route :=
  let matching := routes.filter fun route => route.matches message
  (matching.takeWhile fun route => !route.final) ++ (matching.find? Route.final).toList

/-- A final route for a copy that is appended before the copy expires. -/
def Story.takes (story : Story) (route : Route) (time : ℚ) : Bool :=
  route.matches story.copy && route.final &&
    story.copy.expirationTime.all fun exp => decide (time < exp)

/-- The first final route that was appended in time. -/
def Story.due (story : Story) : Option Route :=
  (story.later.find? fun (route, time) => story.takes route time).map Prod.fst

/-- There was no final route for the copy when it was dispatched. -/
def Story.metNoFinal (story : Story) : Bool :=
  story.routes.all fun route => !(route.matches story.copy && route.final)

structure Story.Delivered (story : Story) : Prop where
  inOrder : story.routes.Pairwise fun a b => a.priority ≤ b.priority
  present : story.present = upToFinal story.copy story.routes
  later : story.metNoFinal = true → story.copy.expirationTime ≠ none →
    story.handed.filter Route.final = story.due.toList

/-- The copy was stored. -/
def Story.stored (story : Story) : Bool :=
  story.metNoFinal && story.copy.expirationTime.any fun exp => decide (story.time < exp)

/-- The last copy that was stored under an identifier. -/
def lastStored (messageId : Nat) (stories : List Story) : Option Story :=
  (stories.filter fun story => story.stored && story.copy.messageId == messageId).getLast?

/-- The copy was stored and would be taken by a route that is appended. -/
def Story.awaits (story : Story) (route : Route) (time : ℚ) : Bool :=
  story.stored && story.due.isNone && story.takes route time

namespace Messaging

/-- No copy with the same identifier was stored after one that the route takes. -/
def Unshadowed (s : Messaging) : Event → Prop
  | .appendRoute route => ∀ story ∈ s.stories, story.awaits route s.now = true →
    (lastStored story.copy.messageId s.stories).map Story.copy = some story.copy
  | _ => True

def AllDelivered (s : Messaging) : Prop := ∀ story ∈ s.stories, story.Delivered

end Messaging

/-! ## The message store -/

variable {order : HashOrder Nat} {now : ℚ} {store : MessageStore} {route : Route}
  {message : Message}

/-- A message is stored under its identifier. -/
def Keyed (now : ℚ) (store : MessageStore) : Prop :=
  ∀ k item, live now store.items k = some item → ∃ m, item.value = some m ∧ m.messageId = k

theorem live_insert_message (k : Nat) :
    live now (store.insert order now message).items k =
      if k = message.messageId ∧ message.expirationTime.any (fun exp => decide (now < exp)) = true
      then some ⟨message.expirationTime, some message⟩ else live now store.items k := by
  unfold MessageStore.insert
  cases hexp : message.expirationTime with
  | none => simp
  | some exp =>
    simp only [ExpDict.set, deadline, Option.map_some, Bool.false_eq_true, if_false, Option.any_some]
    by_cases hover : exp ≤ now
    · rw [if_pos hover, if_neg (by simp [hover]), live_lazyPack]
    · rw [if_neg hover, live_insert, live_lazyPack]
      have hlt : now < exp := lt_of_not_ge hover
      have halive : Item.alive now (⟨some exp, some message⟩ : ExpItem Message) = true :=
        decide_eq_true hlt
      simp [hlt, Option.filter, halive]

theorem mem_itervalues (order : HashOrder Nat) (hkeyed : Keyed now store) :
    message ∈ (store.itervalues order now).2 ↔
      (live now store.items message.messageId).bind Item.value = some message := by
  unfold MessageStore.itervalues
  simp only [List.mem_filterMap, Prod.exists, mem_liveItems, live_lazyPack]
  refine ⟨fun h => ?_, fun h => ?_⟩
  · obtain ⟨k, item, hlive, hvalue⟩ := h
    obtain ⟨m, hm, hk⟩ := hkeyed k item hlive
    rw [hvalue] at hm
    cases hm
    rw [hk, hlive]
    exact hvalue
  · obtain ⟨item, hlive, hvalue⟩ := Option.bind_eq_some_iff.mp h
    exact ⟨message.messageId, item, hlive, hvalue⟩

theorem nodup_itervalues (order : HashOrder Nat) (hkeyed : Keyed now store) : (store.itervalues order now).2.Nodup := by
  refine List.Nodup.of_map Message.messageId ?_
  have hkeys : (store.itervalues order now).2.map Message.messageId =
      (liveItems order now (store.lazyPack order now).items).map Prod.fst := by
    unfold MessageStore.itervalues
    rw [List.map_filterMap, ← List.filterMap_eq_map]
    refine List.filterMap_congr fun p hp => ?_
    obtain ⟨k, item⟩ := p
    rw [mem_liveItems, live_lazyPack] at hp
    obtain ⟨m, hm, hk⟩ := hkeyed k item hp
    simp [hm, hk]
  rw [hkeys]
  exact nodup_liveItems _ _ _

theorem live_foldl_remove (matching : List Message) (store : MessageStore) (k : Nat) :
    live now (matching.foldl (MessageStore.remove order now) store).items k =
      if ∃ m ∈ matching, m.messageId = k then none else live now store.items k := by
  induction matching generalizing store with
  | nil => simp
  | cons m matching ih =>
    have hone : live now (MessageStore.remove order now store m).items k =
        if k = m.messageId then none else live now store.items k := by
      rw [MessageStore.remove, (pop_spec order store now m.messageId (some none)).2, live_erase]
    rw [List.foldl_cons, ih, hone]
    by_cases hk : k = m.messageId
    · simp [hk]
    · simp [hk, Ne.symm hk]

/-- A final route takes the messages that match it out of the store. -/
theorem live_matchToRoute (order : HashOrder Nat) (hkeyed : Keyed now store) (k : Nat) :
    live now (store.matchToRoute order now route).1.items k =
      (live now store.items k).filter fun item =>
        !(route.final && item.value.any route.matches) := by
  have hsame : ∀ k, live now (store.itervalues order now).1.items k = live now store.items k :=
    fun k => live_lazyPack order store now k
  unfold MessageStore.matchToRoute
  cases hfinal : route.final with
  | false =>
    simp only [Bool.false_eq_true, if_false, hsame, Bool.false_and, Bool.not_false]
    cases live now store.items k <;> rfl
  | true =>
    simp only [if_true, Bool.true_and]
    rw [live_foldl_remove, hsame]
    cases hlive : live now store.items k with
    | none => simp
    | some item =>
      obtain ⟨m, hm, rfl⟩ := hkeyed k item hlive
      have hex : (∃ other ∈ (store.itervalues order now).2.filter route.matches,
          other.messageId = m.messageId) ↔ route.matches m = true := by
        simp only [List.mem_filter, mem_itervalues order hkeyed]
        refine ⟨fun h => ?_, fun h => ⟨m, ⟨?_, h⟩, rfl⟩⟩
        · obtain ⟨other, ⟨hother, hmatches⟩, hid⟩ := h
          rw [hid, hlive, Option.bind_some, hm] at hother
          cases hother
          exact hmatches
        · rw [hlive, Option.bind_some, hm]
      simp only [hex, hm, Option.filter, Option.any_some]
      cases route.matches m <;> rfl

theorem mem_matchToRoute (order : HashOrder Nat) (hkeyed : Keyed now store) :
    message ∈ (store.matchToRoute order now route).2 ↔
      (live now store.items message.messageId).bind Item.value = some message ∧
        route.matches message = true := by
  rw [← mem_itervalues order hkeyed]
  exact List.mem_filter

theorem nodup_matchToRoute (order : HashOrder Nat) (route : Route) (hkeyed : Keyed now store) :
    (store.matchToRoute order now route).2.Nodup := (nodup_itervalues order hkeyed).filter _

/-! ## The routes -/

theorem sendToRoutes_eq (message : Message) (routes : List Route) :
    Table.sendToRoutes message routes =
      (upToFinal message routes, routes.any fun route => route.matches message && route.final) := by
  induction routes with
  | nil => rfl
  | cons route routes ih =>
    unfold Table.sendToRoutes
    cases hmatches : route.matches message with
    | false => simp [ih, upToFinal, hmatches]
    | true =>
      cases hfinal : route.final with
      | false => simp [ih, upToFinal, hmatches, hfinal]
      | true => simp [upToFinal, hmatches, hfinal]

/-- A message is sent to the routes up to the first final one, and stored when there is none. -/
theorem dispatch_spec (order : HashOrder Nat) (now : ℚ) (message : Message) (outgoing : Bool)
    (table : Table) :
    (table.dispatch order now message outgoing).1.routes = table.routes ∧
      (table.dispatch order now message outgoing).1.messageStore =
        (if (table.routes.any fun route => route.matches message && route.final) = true
          then table.messageStore else table.messageStore.insert order now message) ∧
      (table.dispatch order now message outgoing).2.1 = upToFinal message table.routes := by
  unfold Table.dispatch
  rw [sendToRoutes_eq]
  dsimp only
  split
  · exact ⟨rfl, rfl, rfl⟩
  · exact ⟨rfl, rfl, rfl⟩

theorem pairwise_fixOrder (routes : List Route) :
    (Table.fixOrder routes).Pairwise fun a b => a.priority ≤ b.priority := by
  have : Std.Total fun a b : Route => a.priority ≤ b.priority :=
    ⟨fun a b => le_total a.priority b.priority⟩
  have : IsTrans Route fun a b => a.priority ≤ b.priority := ⟨fun _ _ _ => le_trans⟩
  exact List.pairwise_insertionSort _ routes

theorem removeSinkFrom_sublist (sink : Sink) (fuel i : Nat) (routes : List Route) :
    (Table.removeSinkFrom sink fuel i routes).Sublist routes := by
  induction fuel generalizing i routes with
  | zero => exact .refl _
  | succ fuel ih =>
    unfold Table.removeSinkFrom
    split
    · exact .refl _
    · refine (ih _ _).trans ?_
      split
      · exact List.erase_sublist
      · exact .refl _

/-! ## Stories -/

theorem alive_item (now : ℚ) (m : Message) :
    Item.alive now (⟨m.expirationTime, some m⟩ : ExpItem Message) =
      m.expirationTime.all fun exp => decide (now < exp) := by
  unfold Item.alive
  cases m.expirationTime <;> rfl

/-- What the store holds of a copy that was not taken. -/
def Story.item (story : Story) : Option (ExpItem Message) :=
  if story.due = none then some ⟨story.copy.expirationTime, some story.copy⟩ else none

/-- What the store holds under an identifier: the last copy that was stored, unless it was
    taken or has expired. -/
def held (now : ℚ) (stories : List Story) (k : Nat) : Option (ExpItem Message) :=
  ((lastStored k stories).bind Story.item).filter (Item.alive now)

variable {stories : List Story} {story : Story} {toDeliver : List Message} {k : Nat}

@[simp] theorem copy_goOn : (story.goOn route now toDeliver).copy = story.copy := rfl

@[simp] theorem stored_goOn : (story.goOn route now toDeliver).stored = story.stored := rfl

theorem due_goOn : (story.goOn route now toDeliver).due =
    story.due.or (if story.takes route now = true then some route else none) := by
  unfold Story.due Story.goOn
  rw [List.find?_append, Option.map_or]
  congr 1
  rw [List.find?_singleton]
  show Option.map _ (if story.takes route now = true then _ else _) = _
  split <;> rfl

theorem mem_of_lastStored (h : lastStored k stories = some story) :
    story ∈ stories ∧ story.stored = true ∧ story.copy.messageId = k := by
  have hin := List.mem_of_getLast? h
  simpa using hin

theorem lastStored_concat : lastStored k (stories ++ [story]) =
    if story.stored = true ∧ story.copy.messageId = k then some story
    else lastStored k stories := by
  unfold lastStored
  rw [List.filter_append, List.filter_singleton]
  by_cases h : story.stored = true ∧ story.copy.messageId = k
  · rw [if_pos h]
    simp [h.1, h.2]
  · rw [if_neg h]
    have hnot : (story.stored && story.copy.messageId == k) = false := by
      simpa using h
    rw [hnot, cond_false, List.append_nil]

theorem lastStored_goOn : lastStored k (stories.map (Story.goOn route now toDeliver)) =
    (lastStored k stories).map (Story.goOn route now toDeliver) := by
  unfold lastStored
  rw [List.filter_map, List.getLast?_map]
  rfl

/-- What is held has not expired. -/
theorem held_eq_some {item : ExpItem Message} : held now stories k = some item ↔
    ∃ story, lastStored k stories = some story ∧ story.due = none ∧
      item = ⟨story.copy.expirationTime, some story.copy⟩ ∧ item.alive now = true := by
  unfold held
  rw [Option.filter_eq_some_iff]
  simp only [Option.bind_eq_some_iff, Story.item]
  refine ⟨fun h => ?_, fun h => ?_⟩
  · obtain ⟨⟨story, hlast, hitem⟩, halive⟩ := h
    split at hitem
    · rename_i hdue
      exact ⟨story, hlast, hdue, (Option.some.inj hitem).symm, halive⟩
    · cases hitem
  · obtain ⟨story, hlast, hdue, rfl, halive⟩ := h
    exact ⟨⟨story, hlast, if_pos hdue⟩, halive⟩

theorem held_later {now' : ℚ} (hnow : now ≤ now') :
    held now' stories k = (held now stories k).filter (Item.alive now') := by
  unfold held
  rw [Option.filter_filter]
  congr 1
  funext item
  cases h : item.alive now' with
  | false => simp
  | true => simp [Item.alive_mono hnow h]

namespace Messaging

/-! ## What one step does -/

/-- The numbers of the copies. -/
def numbers (s : Messaging) : List Nat :=
  (s.stories.map fun story => story.copy.number) ++ s.pendingDispatches.map fun p => p.1.number

/-- The store holds what it should, and every copy was delivered. -/
structure Good (s : Messaging) : Prop where
  inOrder : s.routing.routes.Pairwise fun a b => a.priority ≤ b.priority
  unique : s.numbers.Nodup
  below : ∀ n ∈ s.numbers, n < s.sent
  past : ∀ story ∈ s.stories, story.time ≤ s.now
  delivered : s.AllDelivered
  holds : ∀ k, live s.now s.routing.messageStore.items k = held s.now s.stories k

variable {s t : Messaging}

theorem good_new : Good new := by
  refine ⟨.nil, .nil, ?_, ?_, ?_, fun k => rfl⟩
  · intro n hn
    cases hn
  · intro story hin
    cases hin
  · intro story hin
    cases hin

theorem Good.story_inj (h : Good s) {a b : Story} (ha : a ∈ s.stories) (hb : b ∈ s.stories)
    (hnumber : a.copy.number = b.copy.number) : a = b :=
  List.inj_on_of_nodup_map (List.nodup_append.mp h.unique).1 ha hb hnumber

theorem Good.keyed (h : Good s) : Keyed s.now s.routing.messageStore := by
  intro k item hlive
  rw [h.holds, held_eq_some] at hlive
  obtain ⟨story, hlast, -, rfl, -⟩ := hlive
  exact ⟨story.copy, rfl, (mem_of_lastStored hlast).2.2⟩

/-- A copy is sent to a route that is appended when it is the last one that was stored under
    its identifier and was not taken. -/
theorem Good.mem_matchToRoute_iff (h : Good s) (route : Route) (order : HashOrder Nat)
    (hin : story ∈ s.stories) :
    story.copy ∈ (s.routing.messageStore.matchToRoute order s.now route).2 ↔
      route.matches story.copy = true ∧ story.due = none ∧
        story.copy.expirationTime.all (fun exp => decide (s.now < exp)) = true ∧
        (lastStored story.copy.messageId s.stories).map Story.copy = some story.copy := by
  rw [mem_matchToRoute order h.keyed, h.holds, ← alive_item s.now story.copy]
  refine ⟨fun hmem => ?_, fun hmem => ?_⟩
  · obtain ⟨hheld, hmatches⟩ := hmem
    obtain ⟨item, hitem, hvalue⟩ := Option.bind_eq_some_iff.mp hheld
    obtain ⟨last, hlast, hdue, rfl, hitem⟩ := held_eq_some.mp hitem
    have hcopy : last.copy = story.copy := Option.some.inj hvalue
    have hsame := h.story_inj (mem_of_lastStored hlast).1 hin (by rw [hcopy])
    rw [hsame] at hlast hdue hitem
    exact ⟨hmatches, hdue, hitem, by rw [hlast]; rfl⟩
  · obtain ⟨hmatches, hdue, hitem, hlast⟩ := hmem
    obtain ⟨last, hlast, hcopy⟩ := Option.map_eq_some_iff.mp hlast
    have hsame := h.story_inj (mem_of_lastStored hlast).1 hin (by rw [hcopy])
    rw [hsame] at hlast
    refine ⟨?_, hmatches⟩
    rw [held_eq_some.mpr ⟨story, hlast, hdue, rfl, hitem⟩]
    rfl

/-- A copy is sent to a route at most once when the route is appended. -/
theorem Good.filter_matchToRoute (h : Good s) (order : HashOrder Nat) (hin : story ∈ s.stories) :
    let toDeliver := (s.routing.messageStore.matchToRoute order s.now route).2
    (toDeliver.filter fun m => m.number = story.copy.number) =
      if story.copy ∈ toDeliver then [story.copy] else [] := by
  intro toDeliver
  have hall : ∀ m ∈ toDeliver.filter (fun m => m.number = story.copy.number),
      m = story.copy := by
    intro m hm
    obtain ⟨hm, hnumber⟩ := List.mem_filter.mp hm
    have hheld := ((mem_matchToRoute order h.keyed).mp hm).1
    rw [h.holds] at hheld
    obtain ⟨item, hitem, hvalue⟩ := Option.bind_eq_some_iff.mp hheld
    obtain ⟨last, hlast, -, rfl, -⟩ := held_eq_some.mp hitem
    obtain rfl : last.copy = m := Option.some.inj hvalue
    rw [h.story_inj (mem_of_lastStored hlast).1 hin (by simpa using hnumber)]
  split
  · rename_i hmem
    refine List.perm_singleton.mp ?_
    refine (List.perm_ext_iff_of_nodup ?_ (List.nodup_singleton _)).mpr fun m => ?_
    · exact (nodup_matchToRoute order route h.keyed).filter _
    · refine ⟨fun hm => List.mem_singleton.mpr (hall m hm), fun hm => ?_⟩
      rw [List.mem_singleton.mp hm]
      exact List.mem_filter.mpr ⟨hmem, decide_eq_true rfl⟩
  · rename_i hnot
    refine List.eq_nil_iff_forall_not_mem.mpr fun m hm => hnot ?_
    rw [← hall m hm]
    exact (List.mem_filter.mp hm).1

/-- What touches neither the routes nor the store nor the copies. -/
theorem Good.same (h : Good s) (hnow : t.now = s.now)
    (hstore : t.routing.messageStore = s.routing.messageStore)
    (hinOrder : t.routing.routes.Pairwise fun a b => a.priority ≤ b.priority)
    (hpending : t.pendingDispatches = s.pendingDispatches) (hsent : t.sent = s.sent)
    (hstories : t.stories = s.stories) : Good t := by
  have hnumbers : t.numbers = s.numbers := by
    unfold numbers
    rw [hstories, hpending]
  refine ⟨hinOrder, ?_, ?_, ?_, ?_, fun k => ?_⟩
  · rw [hnumbers]
    exact h.unique
  · rw [hnumbers, hsent]
    exact h.below
  · rw [hstories, hnow]
    exact h.past
  · unfold AllDelivered
    rw [hstories]
    exact h.delivered
  · rw [hstories, hnow, hstore]
    exact h.holds k

theorem Good.dispatch (h : Good s) (messageId : Nat) (expirationTime : Option ℚ) (outgoing : Bool)
    (recipient : RouteKey) : Good (s.dispatch messageId expirationTime outgoing recipient) := by
  have hnumbers : (s.dispatch messageId expirationTime outgoing recipient).numbers =
      s.numbers ++ [s.sent] := by
    unfold numbers Messaging.dispatch
    rw [List.map_append, List.append_assoc]
    rfl
  refine ⟨h.inOrder, ?_, fun n hn => ?_, h.past, h.delivered, h.holds⟩
  · rw [hnumbers]
    refine List.nodup_append.mpr ⟨h.unique, List.nodup_singleton _, fun a ha b hb => ?_⟩
    rw [List.mem_singleton.mp hb]
    exact Nat.ne_of_lt (h.below a ha)
  · rw [hnumbers] at hn
    obtain hn | hn := List.mem_append.mp hn
    · exact Nat.lt_succ_of_lt (h.below n hn)
    · rw [List.mem_singleton.mp hn]
      exact Nat.lt_succ_self s.sent

theorem Good.post (h : Good s) (recipients : List RouteKey) (expirationTime : Option ℚ) :
    Good (s.post recipients expirationTime) := by
  unfold Messaging.post
  have hstart : Good { s with nextId := s.nextId + 1 } := h.same rfl rfl h.inOrder rfl rfl rfl
  revert hstart
  generalize ({ s with nextId := s.nextId + 1 } : Messaging) = u
  intro hu
  induction recipients generalizing u with
  | nil => exact hu
  | cons recipient recipients ih => exact ih _ (hu.dispatch _ _ _ recipient)

/-- A copy that is dispatched is no longer pending. -/
theorem numbers_eraseIdx {i : Nat} {outgoing : Bool}
    (hi : s.pendingDispatches[i]? = some (message, outgoing)) :
    ((s.stories.map fun story => story.copy.number) ++ [message.number] ++
      (s.pendingDispatches.eraseIdx i).map fun p => p.1.number).Perm s.numbers := by
  obtain ⟨hlt, hget⟩ := List.getElem?_eq_some_iff.mp hi
  rw [List.append_assoc]
  refine List.Perm.append_left _ ?_
  have hperm := (List.getElem_cons_eraseIdx_perm hlt).map fun p => p.1.number
  rw [hget] at hperm
  exact hperm

/-- A copy is dispatched by the table. -/
theorem Good.told (h : Good s) {i : Nat} {outgoing : Bool} {table : Table}
    (hi : s.pendingDispatches[i]? = some (message, outgoing))
    (hroutes : table.routes = s.routing.routes)
    (hstore : table.messageStore =
      (if (s.routing.routes.any fun route => route.matches message && route.final) = true
        then s.routing.messageStore else s.routing.messageStore.insert order s.now message))
    (sink : Option Sink) :
    Good { s with
      routing := table
      pendingDispatches := s.pendingDispatches.eraseIdx i
      stories := s.stories ++ [⟨message, s.now, s.routing.routes,
        upToFinal message s.routing.routes, sink, [], []⟩] } := by
  have hperm := numbers_eraseIdx hi
  refine ⟨?_, ?_, fun n hn => ?_, fun story hin => ?_, fun story hin => ?_, fun k => ?_⟩
  · show table.routes.Pairwise _
    rw [hroutes]
    exact h.inOrder
  · unfold numbers
    rw [List.map_append]
    exact hperm.nodup_iff.mpr h.unique
  · unfold numbers at hn
    rw [List.map_append] at hn
    exact h.below n (hperm.mem_iff.mp hn)
  · obtain hin | hin := List.mem_append.mp hin
    · exact h.past story hin
    · obtain rfl := List.mem_singleton.mp hin
      exact le_refl s.now
  · obtain hin | hin := List.mem_append.mp hin
    · exact h.delivered story hin
    · rw [List.mem_singleton.mp hin]
      exact ⟨h.inOrder, rfl, fun _ _ => rfl⟩
  · show live s.now table.messageStore.items k = held s.now (s.stories ++ [_]) k
    rw [hstore, held, lastStored_concat]
    have hnone : Story.metNoFinal ⟨message, s.now, s.routing.routes,
        upToFinal message s.routing.routes, sink, [], []⟩ =
        !(s.routing.routes.any fun route => route.matches message && route.final) := by
      unfold Story.metNoFinal
      rw [List.not_any_eq_all_not]
    cases hfinal : s.routing.routes.any fun route => route.matches message && route.final with
    | true =>
      rw [hfinal] at hnone
      rw [if_pos rfl, if_neg (by simp [Story.stored, hnone]), h.holds]
      rfl
    | false =>
      rw [hfinal] at hnone
      rw [if_neg (by simp), live_insert_message, h.holds]
      have hstored : Story.stored ⟨message, s.now, s.routing.routes,
          upToFinal message s.routing.routes, sink, [], []⟩ =
          message.expirationTime.any fun exp => decide (s.now < exp) := by
        unfold Story.stored
        rw [hnone]
        rfl
      rw [hstored]
      by_cases hnew : message.expirationTime.any (fun exp => decide (s.now < exp)) = true ∧
          message.messageId = k
      · obtain ⟨hany, rfl⟩ := hnew
        have halive : Item.alive s.now
            (⟨message.expirationTime, some message⟩ : ExpItem Message) = true := by
          obtain ⟨exp, hexp, hlt⟩ := (Option.any_eq_true _ _).mp hany
          rw [hexp]
          exact hlt
        rw [if_pos ⟨rfl, hany⟩, if_pos ⟨hany, rfl⟩]
        exact (Option.filter_eq_some_iff.mpr ⟨rfl, halive⟩).symm
      · rw [if_neg hnew, if_neg fun hnot => hnew ⟨hnot.2, hnot.1.symm⟩]
        rfl

/-- `_dispatch_internal`. -/
theorem Good.dispatchInternal (h : Good s) {i : Nat}
    (hstep : s.dispatchInternal order i = some t) : Good t := by
  obtain ⟨⟨message, outgoing⟩, hi, rfl⟩ := Option.map_eq_some_iff.mp hstep
  obtain ⟨hroutes, hstore, hreached⟩ :=
    dispatch_spec order s.now message outgoing s.routing
  dsimp only
  rw [hreached]
  exact h.told hi hroutes hstore _

/-- A story goes on with the route when its copy is one of those sent to it. -/
theorem Good.handed_goOn (h : Good s) (route : Route) (order : HashOrder Nat)
    (hin : story ∈ s.stories) :
    let toDeliver := (s.routing.messageStore.matchToRoute order s.now route).2
    (story.goOn route s.now toDeliver).handed =
      story.handed ++ if story.copy ∈ toDeliver then [route] else [] := by
  intro toDeliver
  show story.handed ++ (toDeliver.filter _).map _ = _
  rw [h.filter_matchToRoute order hin]
  split <;> rfl

/-- A copy that waits for a route which is appended is handed to it if and only if no other was
    stored in its place. -/
theorem Good.delivered_goOn_iff (h : Good s) (order : HashOrder Nat) (hin : story ∈ s.stories) :
    (story.goOn route s.now
        (s.routing.messageStore.matchToRoute order s.now route).2).Delivered ↔
      (story.awaits route s.now = true →
        (lastStored story.copy.messageId s.stories).map Story.copy = some story.copy) := by
  have hhanded := h.handed_goOn route order hin
  have hmem := h.mem_matchToRoute_iff route order hin
  have hbefore := h.delivered story hin
  refine ⟨fun hafter hawaits => ?_, fun hlast => ⟨hbefore.inOrder, hbefore.present, ?_⟩⟩
  · simp only [Story.awaits, Story.stored, Bool.and_eq_true, Option.isNone_iff_eq_none] at hawaits
    obtain ⟨⟨⟨hmet, hexp⟩, hdue⟩, htakes⟩ := hawaits
    have hsome : story.copy.expirationTime ≠ none := by
      intro hnone
      rw [hnone] at hexp
      cases hexp
    have hlater := hafter.later hmet hsome
    rw [hhanded, List.filter_append, hbefore.later hmet hsome, due_goOn, hdue, if_pos htakes]
      at hlater
    split at hlater
    · rename_i hsent
      exact (hmem.mp hsent).2.2.2
    · cases hlater
  · intro hmet hsome
    have hmet : story.metNoFinal = true := hmet
    have hsome : story.copy.expirationTime ≠ none := hsome
    rw [hhanded, List.filter_append, due_goOn]
    have hold : story.handed.filter Route.final = story.due.toList := hbefore.later hmet hsome
    rw [hold]
    cases htakes : story.takes route s.now with
    | true =>
      simp only [Story.takes, Bool.and_eq_true] at htakes
      obtain ⟨⟨hmatches, hfinal⟩, halive⟩ := htakes
      cases hdue : story.due with
      | some earlier =>
        have hnot : story.copy ∉ (s.routing.messageStore.matchToRoute order s.now route).2 := by
          intro hsent
          have hnone := (hmem.mp hsent).2.1
          rw [hdue] at hnone
          cases hnone
        simp [hnot]
      | none =>
        obtain ⟨exp, hexp⟩ := Option.ne_none_iff_exists'.mp hsome
        have hlt : s.now < exp := by simpa [hexp] using halive
        have hstored : story.stored = true := by
          simp [Story.stored, hmet, hexp, lt_of_le_of_lt (h.past story hin) hlt]
        have hawaits : story.awaits route s.now = true := by
          simp [Story.awaits, hstored, hdue, Story.takes, hmatches, hfinal, halive]
        rw [if_pos (hmem.mpr ⟨hmatches, hdue, halive, hlast hawaits⟩)]
        simp [hfinal]
    | false =>
      have hnone : (if story.copy ∈ (s.routing.messageStore.matchToRoute order s.now route).2
          then [route] else []).filter Route.final = [] := by
        split
        · rename_i hsent
          obtain ⟨hmatches, -, halive, -⟩ := hmem.mp hsent
          have hfinal : route.final = false := by
            simpa [Story.takes, hmatches, halive] using htakes
          simp [hfinal]
        · rfl
      rw [hnone]
      simp

/-- What the store holds when a route was appended. -/
theorem Good.holds_goOn (h : Good s) (order : HashOrder Nat) (toDeliver : List Message) (k : Nat) :
    live s.now (s.routing.messageStore.matchToRoute order s.now route).1.items k =
      held s.now (s.stories.map (Story.goOn route s.now toDeliver)) k := by
  rw [live_matchToRoute order h.keyed, h.holds, held, held, lastStored_goOn]
  cases hlast : lastStored k s.stories with
  | none => rfl
  | some story =>
    simp only [Option.bind_some, Option.map_some, Story.item, due_goOn]
    cases hdue : story.due with
    | some earlier => simp
    | none =>
      have halive := alive_item s.now story.copy
      simp only [if_true, Option.none_or, copy_goOn, Story.takes, ← halive]
      cases hitem : Item.alive s.now ⟨story.copy.expirationTime, some story.copy⟩ with
      | false => simp [Option.filter, hitem]
      | true =>
        cases hmatches : route.matches story.copy <;> cases route.final <;>
          simp [Option.filter, hitem, hmatches]

theorem Good.appendBinding (h : Good s)
    (hall : ∀ story ∈ s.stories, story.awaits route s.now = true →
      (lastStored story.copy.messageId s.stories).map Story.copy = some story.copy) :
    Good (s.appendBinding order route) := by
  unfold Messaging.appendBinding Table.appendRoute
  split
  · exact h
  · rename_i table toDeliver happend
    split at happend
    · cases happend
    · cases happend
      refine ⟨pairwise_fixOrder _, ?_, ?_, fun story hin => ?_, fun story hin => ?_, fun k => ?_⟩
      · unfold numbers
        rw [List.map_map]
        exact h.unique
      · unfold numbers
        rw [List.map_map]
        exact h.below
      · obtain ⟨before, hbefore, rfl⟩ := List.mem_map.mp hin
        exact h.past before hbefore
      · obtain ⟨before, hbefore, rfl⟩ := List.mem_map.mp hin
        exact (h.delivered_goOn_iff order hbefore).mpr (hall before hbefore)
      · exact h.holds_goOn order _ k

theorem step_good {e : Event} (h : Good s) (hguard : Unshadowed s e)
    (hstep : Defined (step order) s e t) : Good t := by
  cases e with
  | post recipients expirationTime =>
    obtain rfl := Option.some.inj hstep
    exact h.post recipients expirationTime
  | received messageId recipient expirationTime outgoing =>
    obtain rfl := Option.some.inj hstep
    exact h.dispatch messageId expirationTime outgoing recipient
  | next i => exact h.dispatchInternal hstep
  | appendRoute route =>
    obtain rfl := Option.some.inj hstep
    exact h.appendBinding hguard
  | removeRoute route =>
    obtain rfl := Option.some.inj hstep
    exact h.same rfl rfl (h.inOrder.sublist List.erase_sublist) rfl rfl rfl
  | removeSink sink =>
    obtain rfl := Option.some.inj hstep
    exact h.same rfl rfl (h.inOrder.sublist (removeSinkFrom_sublist _ _ _ _)) rfl rfl rfl
  | setOutgoingSink sink =>
    dsimp only [Defined, step, Table.setOutgoingSink] at hstep
    split at hstep
    · obtain rfl := Option.some.inj hstep
      exact h
    · rename_i table htable
      obtain rfl := Option.some.inj hstep
      split at htable
      · cases htable
      · cases htable
        exact h.same rfl rfl h.inOrder rfl rfl rfl
  | elapsed seconds =>
    dsimp only [Defined, step] at hstep
    split at hstep
    · rename_i hseconds
      obtain rfl := Option.some.inj hstep
      have hnow : s.now ≤ s.now + seconds := le_add_of_nonneg_right hseconds
      refine ⟨h.inOrder, h.unique, h.below, fun story hin => (h.past story hin).trans hnow,
        h.delivered, fun k => ?_⟩
      show live (s.now + seconds) s.routing.messageStore.items k = held _ s.stories k
      rw [live_later hnow, h.holds, held_later hnow]
    · cases hstep

/-- A copy that was stored before another one with its identifier is not handed to the route
    that it awaited. -/
theorem step_not_delivered {e : Event} (h : Good s) (hguard : ¬ Unshadowed s e)
    (hstep : Defined (step order) s e t) : ¬ AllDelivered t := by
  intro hall
  cases e with
  | appendRoute route =>
    simp only [Unshadowed, not_forall] at hguard
    obtain ⟨story, hin, hawaits, hlast⟩ := hguard
    obtain rfl := Option.some.inj hstep
    have hkey : route.key ≠ none := by
      intro hnone
      simp [Story.awaits, Story.takes, Route.matches, hnone] at hawaits
    have hstories : (s.appendBinding order route).stories = s.stories.map (Story.goOn route s.now
        (s.routing.messageStore.matchToRoute order s.now route).2) := by
      unfold Messaging.appendBinding Table.appendRoute
      rw [if_neg hkey]
    refine hlast ((h.delivered_goOn_iff order hin).mp (hall _ ?_) hawaits)
    rw [hstories]
    exact List.mem_map_of_mem hin
  | post recipients expirationTime => exact hguard trivial
  | received messageId recipient expirationTime outgoing => exact hguard trivial
  | next i => exact hguard trivial
  | removeRoute route => exact hguard trivial
  | removeSink sink => exact hguard trivial
  | setOutgoingSink sink => exact hguard trivial
  | elapsed seconds => exact hguard trivial

/-- Every copy is delivered throughout a run if and only if no final route is appended in it for
    a copy after which another one was stored that has the same identifier. -/
theorem delivered_iff (order : HashOrder Nat) (es : List Event) :
    Run (Ending AllDelivered (Defined (step order))) new es s ↔
      Run (Guarded Unshadowed (Defined (step order))) new es s := by
  symm
  refine run_guarded_iff (fun s (h : Good s) => h.delivered) ?_ ?_ good_new
  · exact fun _ _ _ h hguard hstep => step_good h hguard hstep
  · exact fun _ _ _ h hguard hstep => step_not_delivered h hguard hstep

/-- A message is posted to two recipients that are not bound yet. When the first one is, it gets
    no copy. -/
theorem first_copy_lost : ∃ s, Run (Defined (step HashOrder.stored)) new
      [.post [("a", none), ("b", none)] (some 10), .next 0, .next 0,
        .appendRoute ⟨1, 0, some ("a", none), true⟩] s ∧
      s.stories.map Story.handed = [[], []] ∧ ¬ AllDelivered s := by
  obtain ⟨s, hs, hrun⟩ : ∃ s, ([.post [("a", none), ("b", none)] (some 10), .next 0, .next 0,
        .appendRoute ⟨1, 0, some ("a", none), true⟩] : List Event).foldlM
          (step HashOrder.stored) new = some s ∧
      decide (s.stories.map Story.handed = [[], []] ∧ ∃ story ∈ s.stories,
        story.metNoFinal = true ∧ story.copy.expirationTime ≠ none ∧
          story.handed.filter Route.final ≠ story.due.toList) = true := by
    apply Option.map_eq_some_iff.mp
    decide +kernel
  obtain ⟨hhanded, story, hin, hmet, hexp, hne⟩ := of_decide_eq_true hrun
  exact ⟨s, run_defined hs, hhanded, fun h => hne ((h story hin).later hmet hexp)⟩

end Messaging
end Feat.Routing
