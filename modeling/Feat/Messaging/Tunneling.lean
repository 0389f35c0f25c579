import Feat.Messaging.Release

/- The tunnel to other clusters (`feat.agencies.messaging.tunneling`): what is kept of the
   recipients behind it in the routing table, by `Tunneling` and by its backend.

   Recipients of the two types are different even when they have one key. The types of the
   recipients of messages, and whether posting a message raises an exception, are those of
   any network (`Network`). The rest of the agency may change the routing table, but for
   the routes of the tunnel.

   `created` is not kept by the code. It holds what has been asked for: the address of the
   last external route that was created for a recipient and not removed since. The three
   tables should agree with it (`Agree`). They do throughout a run if and only if nothing
   is removed in it that is known, and the messages stored for a recipient can be posted
   whenever a route is created for it (`tables_agree_iff`). -/
namespace Feat.Routing.Tunneling
open Hash Transition Release

inductive RecipientType where
  | agent
  | broadcast
  deriving DecidableEq

structure Recipient where
  key : String
  route : Option String
  type : RecipientType
  deriving DecidableEq

def Recipient.routingKey (recp : Recipient) : RouteKey := (recp.key, recp.route)

abbrev Uri : Type := String

/-- What posting a message comes to. -/
structure Network where
  typeOf : Message → RecipientType
  raises : Uri → Message → Bool

/-- `message.recipient`. -/
def Network.recipient (net : Network) (message : Message) : Recipient :=
  ⟨message.recipient.1, message.recipient.2, net.typeOf message⟩

inductive TunnelError where
  | valueError (recipient : Recipient)
  | postError
  | attributeError (name : String)
  | routing (error : RoutingError)
  deriving DecidableEq

/-- The tables, and what was asked for. `unremoved` are the recipients that were known and
    whose removal raised an exception. -/
structure State where
  routing : Table
  routes : Dict Recipient Route
  uris : Dict Recipient Uri
  created : Dict Recipient Uri
  unremoved : List Recipient

namespace State

def new : State := ⟨Table.new, ∅, ∅, ∅, []⟩

end State

section Operations
variable (order : HashOrder Nat) (tunnel : Sink) (net : Network) (now : ℚ)

/-- The route that `create_external_route` makes. -/
def externalRoute (tunnel : Sink) (recp : Recipient) : Route :=
  ⟨tunnel, 10, some recp.routingKey, true⟩

/-- `_BaseTunnelBackend.post`. -/
def post (uris : Dict Recipient Uri) (message : Message) : Except TunnelError Unit :=
  if net.typeOf message = .broadcast then .ok ()
  else
    match uris.lookup (net.recipient message) with
    | none => .error (.valueError (net.recipient message))
    | some uri => if net.raises uri message then .error .postError else .ok ()

/-- The messages that a new route is sent. -/
def postAll (uris : Dict Recipient Uri) : List Message → Except TunnelError Unit
  | [] => .ok ()
  | message :: messages =>
    match post net uris message with
    | .error e => .error e
    | .ok () => postAll uris messages

/-- `append_route`, for a route of the tunnel: the stored messages are sent first. -/
def appendRoute (route : Route) (s : State) : State × Except TunnelError Unit :=
  match s.routing.appendRoute order now route with
  | .error e => (s, .error (.routing e))
  | .ok (table, toDeliver) =>
    match postAll net s.uris toDeliver with
    | .error e =>
      ({ s with routing := { s.routing with messageStore := table.messageStore } }, .error e)
    | .ok () => ({ s with routing := table }, .ok ())

/-- `create_external_route`. -/
def createExternalRoute (backendId : BackendId) (recp : Recipient) (uri : Uri) (s : State) :
    State × Except TunnelError Bool :=
  if backendId ≠ "tunnel" then (s, .ok false)
  else
    let route := externalRoute tunnel recp
    let s := { s with uris := s.uris.insert recp uri }
    let s := match s.routes.lookup recp with
      | some old => { s with routing := s.routing.removeRoute old }
      | none => s
    match appendRoute order net now route s with
    | (s, .error e) => (s, .error e)
    | (s, .ok ()) => ({ s with routes := s.routes.insert recp route }, .ok true)

/-- `remove_external_route`: the backend has no attribute `routing`, so nothing comes after. -/
def removeExternalRoute (backendId : BackendId) (_recp : Recipient) (s : State) :
    State × Except TunnelError Bool :=
  if backendId ≠ "tunnel" then (s, .ok false)
  else (s, .error (.attributeError "routing"))

/-- A call of `create_external_route`. -/
def askCreate (backendId : BackendId) (recp : Recipient) (uri : Uri) (s : State) : State :=
  let s' := (createExternalRoute order tunnel net now backendId recp uri s).1
  if backendId ≠ "tunnel" then s' else { s' with created := s.created.insert recp uri }

/-- A call of `remove_external_route`. -/
def askRemove (backendId : BackendId) (recp : Recipient) (s : State) : State :=
  match removeExternalRoute backendId recp s with
  | (s, .ok false) => s
  | (s, .ok true) => { s with created := s.created.erase recp }
  | (s, .error _) =>
    { s with
      created := s.created.erase recp
      unremoved := if recp ∈ s.created then s.unremoved ++ [recp] else s.unremoved }

/-- `_BaseTunnelBackend.dispatch`, where `replyTo` is that of a dialog message. The message
    itself is dispatched in the agency later. -/
def dispatch (uri : Uri) (replyTo : Option Recipient) (s : State) : State :=
  match replyTo with
  | none => s
  | some recp =>
    if s.uris.lookup recp ≠ some uri then askCreate order tunnel net now "tunnel" recp uri s else s

end Operations

inductive Event where
  | create (backendId : BackendId) (recp : Recipient) (uri : Uri) (now : ℚ)
  | remove (backendId : BackendId) (recp : Recipient)
  | received (uri : Uri) (replyTo : Option Recipient) (now : ℚ)
  | elsewhere (table : Table)

variable (order : HashOrder Nat) (tunnel : Sink) (net : Network)

def step (s : State) : Event → Option State
  | .create backendId recp uri now => some (askCreate order tunnel net now backendId recp uri s)
  | .remove backendId recp => some (askRemove backendId recp s)
  | .received uri replyTo now => some (dispatch order tunnel net now uri replyTo s)
  | .elsewhere table =>
    if table.routes.filter (isOwn tunnel) = s.routing.routes.filter (isOwn tunnel) then
      some { s with routing := table }
    else none

/-! ## The tables agree -/

/-- The three tables hold what was asked for: an address and a route for each recipient, and
    each of these routes is in the routing table once. -/
structure Agree (s : State) : Prop where
  known : ∀ recp, s.uris.lookup recp = s.created.lookup recp
  remembered : ∀ recp,
    s.routes.lookup recp = (s.created.lookup recp).map fun _ => externalRoute tunnel recp
  routed : (s.routing.routes.filter (isOwn tunnel)).Perm
    (s.routes.keys.map (externalRoute tunnel))
  removed : s.unremoved = []

/-- Posting the message raises no exception. -/
def Postable (uris : Dict Recipient Uri) (message : Message) : Prop :=
  net.typeOf message = .broadcast ∨
    ∃ uri ∈ uris.lookup (net.recipient message), net.raises uri message = false

/-- The messages stored for a recipient can be posted when it has this address. -/
def Deliverable (s : State) (recp : Recipient) (uri : Uri) (now : ℚ) : Prop :=
  ∀ message ∈ (s.routing.messageStore.matchToRoute order now (externalRoute tunnel recp)).2,
    Postable net (s.uris.insert recp uri) message

/-- Nothing that is known is removed, and what is stored can be posted. -/
def Sound (s : State) : Event → Prop
  | .create backendId recp uri now =>
    backendId = "tunnel" → Deliverable order tunnel net s recp uri now
  | .remove backendId recp => backendId = "tunnel" → recp ∉ s.created
  | .received uri (some recp) now =>
    s.uris.lookup recp ≠ some uri → Deliverable order tunnel net s recp uri now
  | .received _ none _ => True
  | .elsewhere _ => True

variable {order : HashOrder Nat} {tunnel : Sink} {net : Network} {s t : State} {recp : Recipient}
  {uri : Uri} {now : ℚ}

theorem isOwn_externalRoute (tunnel : Sink) (recp : Recipient) :
    isOwn tunnel (externalRoute tunnel recp) = true := decide_eq_true rfl

theorem post_eq_ok_iff {uris : Dict Recipient Uri} {message : Message} :
    post net uris message = .ok () ↔ Postable net uris message := by
  unfold post Postable
  split
  · rename_i hbroadcast
    exact iff_of_true rfl (.inl hbroadcast)
  · rename_i hagent
    rw [or_iff_right hagent]
    cases hlookup : uris.lookup (net.recipient message) with
    | none => simp
    | some uri => cases hraises : net.raises uri message <;> simp [hraises]

theorem postAll_eq_ok_iff {uris : Dict Recipient Uri} {messages : List Message} :
    postAll net uris messages = .ok () ↔ ∀ message ∈ messages, Postable net uris message := by
  induction messages with
  | nil => simp [postAll]
  | cons message messages ih =>
    rw [postAll, List.forall_mem_cons, ← ih, ← post_eq_ok_iff]
    cases hpost : post net uris message with
    | error e => simp
    | ok u => simp

theorem perm_fixOrder (routes : List Route) : (Table.fixOrder routes).Perm routes :=
  List.perm_insertionSort _ routes

/-! ## A route is created -/

/-- The state in which the route is appended: its address is known, and the old route is
    gone. -/
def prepared (recp : Recipient) (uri : Uri) (s : State) : State :=
  { s with
    uris := s.uris.insert recp uri
    routing := match s.routes.lookup recp with
      | some old => s.routing.removeRoute old
      | none => s.routing }

/-- What a created route comes to. -/
theorem askCreate_eq (s : State) :
    askCreate order tunnel net now "tunnel" recp uri s =
      if postAll net (s.uris.insert recp uri)
          (s.routing.messageStore.matchToRoute order now (externalRoute tunnel recp)).2 =
            .ok () then
        { s with
          uris := s.uris.insert recp uri
          routing :=
            { (prepared recp uri s).routing with
              messageStore :=
                (s.routing.messageStore.matchToRoute order now (externalRoute tunnel recp)).1
              routes := Table.fixOrder
                ((prepared recp uri s).routing.routes ++ [externalRoute tunnel recp]) }
          routes := s.routes.insert recp (externalRoute tunnel recp)
          created := s.created.insert recp uri }
      else
        { s with
          uris := s.uris.insert recp uri
          routing :=
            { (prepared recp uri s).routing with
              messageStore :=
                (s.routing.messageStore.matchToRoute order now (externalRoute tunnel recp)).1 }
          created := s.created.insert recp uri } := by
  have hstore : (prepared recp uri s).routing.messageStore = s.routing.messageStore := by
    unfold prepared
    cases s.routes.lookup recp <;> rfl
  have hprepared : (match s.routes.lookup recp with
      | some old => { s with
          uris := s.uris.insert recp uri, routing := s.routing.removeRoute old }
      | none => { s with uris := s.uris.insert recp uri }) = prepared recp uri s := by
    unfold prepared
    cases s.routes.lookup recp <;> rfl
  unfold askCreate createExternalRoute
  simp only [ne_eq, not_true_eq_false, if_false]
  rw [hprepared]
  unfold appendRoute Table.appendRoute
  have hkey : ¬ (externalRoute tunnel recp).key = none := fun h => nomatch h
  rw [if_neg hkey, hstore]
  dsimp only
  have huris : (prepared recp uri s).uris = s.uris.insert recp uri := rfl
  rw [huris]
  cases hpost : postAll net (s.uris.insert recp uri)
      (s.routing.messageStore.matchToRoute order now (externalRoute tunnel recp)).2 with
  | error e =>
    rw [if_neg fun h => nomatch h]
    rfl
  | ok u =>
    rw [if_pos rfl]
    rfl

/-- The routes of the tunnel without that of the recipient. -/
theorem routed_prepared (h : Agree tunnel s) :
    ((prepared recp uri s).routing.routes.filter (isOwn tunnel)).Perm
      ((s.routes.keys.erase recp).map (externalRoute tunnel)) := by
  unfold prepared
  cases hlookup : s.routes.lookup recp with
  | none =>
    have hnot : recp ∉ s.routes.keys := fun hin =>
      AList.lookup_eq_none.mp hlookup (AList.mem_keys.mpr hin)
    rw [List.erase_of_not_mem hnot]
    exact h.routed
  | some old =>
    have hold : old = externalRoute tunnel recp := by
      have hremembered := h.remembered recp
      rw [hlookup] at hremembered
      obtain ⟨_, -, he⟩ := Option.map_eq_some_iff.mp hremembered.symm
      exact he.symm
    have hin : recp ∈ s.routes.keys :=
      AList.mem_keys.mp (AList.lookup_isSome.mp (by rw [hlookup]; rfl))
    have hroute : externalRoute tunnel recp ∈ s.routing.routes :=
      (List.mem_filter.mp (h.routed.mem_iff.mpr (List.mem_map_of_mem hin))).1
    have hperm := (List.perm_cons_erase hroute).filter (isOwn tunnel)
    rw [List.filter_cons_of_pos (isOwn_externalRoute tunnel recp)] at hperm
    have hkeys := (List.perm_cons_erase hin).map (externalRoute tunnel)
    rw [List.map_cons] at hkeys
    rw [hold]
    exact (hperm.symm.trans (h.routed.trans hkeys)).cons_inv

theorem Agree.create (h : Agree tunnel s) (hdeliver : Deliverable order tunnel net s recp uri now) :
    Agree tunnel (askCreate order tunnel net now "tunnel" recp uri s) := by
  rw [askCreate_eq, if_pos (postAll_eq_ok_iff.mpr hdeliver)]
  refine ⟨fun r => ?_, fun r => ?_, ?_, h.removed⟩
  · show (s.uris.insert recp uri).lookup r = (s.created.insert recp uri).lookup r
    by_cases hr : r = recp
    · rw [hr, AList.lookup_insert, AList.lookup_insert]
    · rw [AList.lookup_insert_ne hr, AList.lookup_insert_ne hr, h.known r]
  · show (s.routes.insert recp _).lookup r = ((s.created.insert recp uri).lookup r).map _
    by_cases hr : r = recp
    · rw [hr, AList.lookup_insert, AList.lookup_insert]
      rfl
    · rw [AList.lookup_insert_ne hr, AList.lookup_insert_ne hr, h.remembered r]
  · show ((Table.fixOrder _).filter (isOwn tunnel)).Perm
      ((s.routes.insert recp _).keys.map (externalRoute tunnel))
    rw [AList.keys_insert, List.map_cons]
    refine ((perm_fixOrder _).filter _).trans ?_
    rw [List.filter_append, List.filter_singleton, isOwn_externalRoute, cond_true]
    exact (List.perm_append_singleton _ _).trans ((routed_prepared h).cons _)

/-- A message that cannot be posted leaves the tables apart. -/
theorem not_agree_create (h : Agree tunnel s)
    (hdeliver : ¬ Deliverable order tunnel net s recp uri now) :
    ¬ Agree tunnel (askCreate order tunnel net now "tunnel" recp uri s) := by
  rw [askCreate_eq, if_neg fun hok => hdeliver (postAll_eq_ok_iff.mp hok)]
  intro hafter
  have hlookup : s.routes.lookup recp = some (externalRoute tunnel recp) := by
    have hremembered := hafter.remembered recp
    rw [AList.lookup_insert] at hremembered
    exact hremembered
  have hin : recp ∈ s.routes.keys :=
    AList.mem_keys.mp (AList.lookup_isSome.mp (by rw [hlookup]; rfl))
  have hrouted : ((prepared recp uri s).routing.routes.filter (isOwn tunnel)).Perm
      (s.routes.keys.map (externalRoute tunnel)) := hafter.routed
  have hlength := ((routed_prepared h).symm.trans hrouted).length_eq
  rw [List.length_map, List.length_map, List.length_erase_of_mem hin] at hlength
  have hpos := List.length_pos_of_mem hin
  omega

/-! ## Runs -/

theorem new_agree (tunnel : Sink) : Agree tunnel State.new :=
  ⟨fun _ => rfl, fun _ => rfl, .refl _, rfl⟩

/-- Another backend is asked. -/
theorem askCreate_other {backendId : BackendId} (h : backendId ≠ "tunnel") :
    askCreate order tunnel net now backendId recp uri s = s := by
  unfold askCreate createExternalRoute
  rw [if_pos h, if_pos h]

theorem askRemove_other {backendId : BackendId} (h : backendId ≠ "tunnel") :
    askRemove backendId recp s = s := by
  unfold askRemove removeExternalRoute
  rw [if_pos h]

/-- What is asked for is noted, and nothing is removed. -/
theorem askRemove_tunnel : askRemove "tunnel" recp s =
    { s with
      created := s.created.erase recp
      unremoved := if recp ∈ s.created then s.unremoved ++ [recp] else s.unremoved } := rfl

theorem step_agree {e : Event} (h : Agree tunnel s) (hguard : Sound order tunnel net s e)
    (hstep : Defined (step order tunnel net) s e t) : Agree tunnel t := by
  cases e with
  | create backendId recp uri now =>
    obtain rfl := Option.some.inj hstep
    by_cases hid : backendId = "tunnel"
    · subst hid
      exact h.create (hguard rfl)
    · rw [askCreate_other hid]
      exact h
  | remove backendId recp =>
    obtain rfl := Option.some.inj hstep
    by_cases hid : backendId = "tunnel"
    · subst hid
      have hunknown : recp ∉ s.created := hguard rfl
      have hsame : ∀ r, (s.created.erase recp).lookup r = s.created.lookup r := by
        intro r
        by_cases hr : r = recp
        · rw [hr, AList.lookup_erase, AList.lookup_eq_none.mpr hunknown]
        · rw [AList.lookup_erase_ne hr]
      rw [askRemove_tunnel, if_neg hunknown]
      refine ⟨fun r => ?_, fun r => ?_, h.routed, h.removed⟩
      · exact (h.known r).trans (hsame r).symm
      · show s.routes.lookup r = ((s.created.erase recp).lookup r).map _
        rw [hsame r]
        exact h.remembered r
    · rw [askRemove_other hid]
      exact h
  | received uri replyTo now =>
    obtain rfl := Option.some.inj hstep
    unfold dispatch
    cases replyTo with
    | none => exact h
    | some recp =>
      dsimp only
      split
      · rename_i hnew
        exact h.create (hguard hnew)
      · exact h
  | elsewhere table =>
    dsimp only [Defined, step] at hstep
    split at hstep
    · rename_i hsame
      obtain rfl := Option.some.inj hstep
      refine ⟨h.known, h.remembered, ?_, h.removed⟩
      show (table.routes.filter _).Perm _
      rw [hsame]
      exact h.routed
    · cases hstep

theorem step_not_agree {e : Event} (h : Agree tunnel s) (hguard : ¬ Sound order tunnel net s e)
    (hstep : Defined (step order tunnel net) s e t) : ¬ Agree tunnel t := by
  cases e with
  | create backendId recp uri now =>
    obtain rfl := Option.some.inj hstep
    obtain ⟨rfl, hdeliver⟩ := Classical.not_imp.mp hguard
    exact not_agree_create h hdeliver
  | remove backendId recp =>
    obtain rfl := Option.some.inj hstep
    obtain ⟨rfl, hknown⟩ := Classical.not_imp.mp hguard
    have hknown : recp ∈ s.created := not_not.mp hknown
    intro hafter
    have hremoved := hafter.removed
    rw [askRemove_tunnel, if_pos hknown] at hremoved
    exact absurd hremoved (by simp)
  | received uri replyTo now =>
    obtain rfl := Option.some.inj hstep
    cases replyTo with
    | none => exact absurd trivial hguard
    | some recp =>
      obtain ⟨hnew, hdeliver⟩ := Classical.not_imp.mp hguard
      unfold dispatch
      dsimp only
      rw [if_pos hnew]
      exact not_agree_create h hdeliver
  | elsewhere table => exact absurd trivial hguard

/-- The three tables agree throughout a run if and only if nothing is removed in it that is
    known, and what is stored for a recipient can be posted when a route is created for it. -/
theorem tables_agree_iff (order : HashOrder Nat) (tunnel : Sink) (net : Network)
    {es : List Event} :
    Run (Ending (Agree tunnel) (Defined (step order tunnel net))) .new es s ↔
      Run (Guarded (Sound order tunnel net) (Defined (step order tunnel net))) .new es s := by
  symm
  refine run_guarded_iff (fun _ h => h) ?_ ?_ (new_agree tunnel)
  · exact fun _ _ _ h hguard hstep => step_agree h hguard hstep
  · exact fun _ _ _ h hguard hstep => step_not_agree h hguard hstep

/-- A network in which all recipients are agents and posting raises nothing. -/
def quietNetwork : Network := ⟨fun _ => .agent, fun _ _ => false⟩

/-- A route is created and removed: it is still there. -/
theorem created_and_removed : ∃ s, Run (Defined (step .stored 3 quietNetwork)) .new
      [.create "tunnel" ⟨"a", some "shard", .agent⟩ "emu://1" 5,
        .remove "tunnel" ⟨"a", some "shard", .agent⟩] s ∧
    s.uris.lookup ⟨"a", some "shard", .agent⟩ = some "emu://1" ∧
    s.routing.routes = [externalRoute 3 ⟨"a", some "shard", .agent⟩] ∧ ¬ Agree 3 s := by
  obtain ⟨s, hs, hstate⟩ : ∃ s, ([.create "tunnel" ⟨"a", some "shard", .agent⟩ "emu://1" 5,
        .remove "tunnel" ⟨"a", some "shard", .agent⟩] : List Event).foldlM
          (step .stored 3 quietNetwork) .new = some s ∧
      decide (s.uris.lookup ⟨"a", some "shard", .agent⟩ = some "emu://1" ∧
        s.routing.routes = [externalRoute 3 ⟨"a", some "shard", .agent⟩] ∧
        s.unremoved ≠ []) = true := by
    apply Option.map_eq_some_iff.mp
    decide +kernel
  obtain ⟨huri, hroutes, hunremoved⟩ := of_decide_eq_true hstate
  exact ⟨s, run_defined hs, huri, hroutes, fun h => hunremoved h.removed⟩

end Feat.Routing.Tunneling
