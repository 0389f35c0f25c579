import Feat.Lib.Hash
import Feat.Lib.Replica
import Feat.Lib.Run

/- The state shared by the agencies of a host (`feat.agencies.net.broker`: `SharedState`,
   `Broker.update_state`, `update_state_broadcast`, `remote_handshake`, `become_slave`).

   A slave applies a change of its own at once and sends it to the master, which
   applies it and sends it to all slaves, so that the slave applies it a second
   time. A slave that joins asks for the items of the master with its handshake.

   The links keep the order of what is sent over them: `up` are the calls of a
   slave that have not reached the master, `down` the calls of the master that have
   not reached the slave, the reply to the handshake among them. The ids of agencies
   are unique, so no slave has the id of the master. -/
namespace Feat.Agencies.SharedState
open Hash

variable {κ α : Type} [DecidableEq κ]

/-- The methods of the state that are called over the links. -/
inductive Method (κ α : Type) where
  | setLocally (key : κ) (value : α)
  | delLocally (key : κ)
  | clearLocally
  | resetLocally (items : List (κ × α))
  | updateLocally (items : List (κ × α))

/-- `del_locally`. -/
def delLocally (d : Dict κ α) (key : κ) : Dict κ α := if key ∈ d then d.erase key else d

/-- `clear_locally`. -/
def clearLocally (d : Dict κ α) : Dict κ α := d.keys.foldl delLocally d

/-- `update_locally`. -/
def updateLocally (d : Dict κ α) (items : List (κ × α)) : Dict κ α :=
  items.foldl (fun d p => d.insert p.1 p.2) d

/-- `update_state`. -/
def updateState (d : Dict κ α) : Method κ α → Dict κ α
  | .setLocally key value => d.insert key value
  | .delLocally key => delLocally d key
  | .clearLocally => clearLocally d
  | .resetLocally items => updateLocally (clearLocally d) items
  | .updateLocally items => updateLocally d items

/-- What users of the state do. `popitem` takes any item that is there. -/
inductive Action (κ α : Type) where
  | setitem (key : κ) (value : α)
  | delitem (key : κ)
  | clear
  | pop (key : κ)
  | popitem (key : κ)
  | update (items : List (κ × α))

/-- The state after an action and the method that is broadcast. To pop what is not there raises
an exception. -/
def Action.perform (d : Dict κ α) : Action κ α → Option (Dict κ α × Method κ α)
  | .setitem key value => some (d.insert key value, .setLocally key value)
  | .delitem key => some (delLocally d key, .delLocally key)
  | .clear => some (clearLocally d, .clearLocally)
  | .pop key => if key ∈ d then some (d.erase key, .delLocally key) else none
  | .popitem key => if key ∈ d then some (d.erase key, .delLocally key) else none
  | .update items => some (updateLocally d items, .updateLocally items)

/-- A call of a slave. -/
inductive Upward (κ α : Type) where
  | handshake
  | updateStateBroadcast (method : Method κ α)

/-- A slave and its link to the master. `handshaken` is set when it has called `handshake`,
`appended` when the master has appended it. -/
structure Slave (κ α : Type) where
  sharedState : Dict κ α
  handshaken : Bool
  appended : Bool
  up : List (Upward κ α)
  down : List (Method κ α)

/-- The agencies of a host, the slaves by their ids. -/
structure Host (ι κ α : Type) where
  sharedState : Dict κ α
  slaves : Dict ι (Slave κ α)

variable {ι : Type} [DecidableEq ι] (o : HashOrder κ)

/-- The master alone. -/
def Host.new : Host ι κ α := ⟨∅, ∅⟩

/-- The master calls `update_state` of all its slaves. -/
def Host.broadcast (h : Host ι κ α) (method : Method κ α) : Host ι κ α :=
  { h with slaves := Dict.map (fun slave =>
      if slave.appended then { slave with down := slave.down ++ [method] } else slave) h.slaves }

inductive Event (ι κ α : Type) where
  -- an agency becomes a slave, whatever its state holds
  | connect (id : ι) (state : Dict κ α)
  | handshake (id : ι)
  | actOnMaster (action : Action κ α)
  | actOnSlave (id : ι) (action : Action κ α)
  | reachMaster (id : ι)
  | reachSlave (id : ι)
  | disconnect (id : ι)

/-- What became of a slave. -/
def Host.put (h : Host ι κ α) (id : ι) (slave : Slave κ α) : Host ι κ α :=
  { h with slaves := h.slaves.insert id slave }

/-- A call of a slave reaches the master. -/
def Host.receive (h : Host ι κ α) (id : ι) (slave : Slave κ α) : Upward κ α → Host ι κ α
  | .handshake =>
    h.put id { slave with
      appended := true
      down := slave.down ++ [.resetLocally (Dict.items o h.sharedState)] }
  | .updateStateBroadcast method =>
    ({ h with sharedState := updateState h.sharedState method }.put id slave).broadcast method

/-- One event, when it can happen. -/
def step (h : Host ι κ α) : Event ι κ α → Option (Host ι κ α)
  | .connect id state =>
    if id ∈ h.slaves then none
    else some (h.put id ⟨state, false, false, [], []⟩)
  | .handshake id => do
    let slave ← h.slaves.lookup id
    if slave.handshaken then none
    else some (h.put id { slave with handshaken := true, up := slave.up ++ [.handshake] })
  | .actOnMaster action => do
    let (state, method) ← action.perform h.sharedState
    return { h with sharedState := state }.broadcast method
  | .actOnSlave id action => do
    let slave ← h.slaves.lookup id
    let (state, method) ← action.perform slave.sharedState
    return h.put id
      { slave with sharedState := state, up := slave.up ++ [.updateStateBroadcast method] }
  | .reachMaster id => do
    let slave ← h.slaves.lookup id
    match slave.up with
    | [] => none
    | call :: up => some (h.receive o id { slave with up := up } call)
  | .reachSlave id => do
    let slave ← h.slaves.lookup id
    match slave.down with
    | [] => none
    | method :: down => some (h.put id
      { slave with sharedState := updateState slave.sharedState method, down := down })
  | .disconnect id => some { h with slaves := h.slaves.erase id }

end Feat.Agencies.SharedState
