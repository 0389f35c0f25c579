import Mathlib.Data.List.Basic
import Feat.Lib.Run

/- Partners of an agent (`Partners` of `feat.agents.base.partners`).

   The partners live in the descriptor, which is changed through the queue of
   `AgencyAgent`, one update at a time. Whatever works with a partner works with a copy
   of it, looks it up, changes it and writes it back in separate steps; the callbacks of
   a partner and the goodbye said to it take any time, and may leave the copy changed in
   everything but its key. Partners are compared by value.

   The class of a partner is part of what stands for its role. Relations, the brothers
   that are told to the callbacks and the continuations are not part of the model, nor
   are callbacks after which nothing is written. -/
namespace Feat.Agents.Partners

variable {Key Route Alloc Role : Type} [DecidableEq Key] [DecidableEq Route]
  [DecidableEq Alloc] [DecidableEq Role]

/-- A partner: its recipient, the allocation it owns and its role. -/
structure Partner (Key Route Alloc Role : Type) where
  key : Key
  route : Route
  allocation : Option Alloc
  role : Role
  deriving DecidableEq

/-- An update of the descriptor. -/
inductive Update (Key Route Alloc Role : Type) where
  | put (partner : Partner Key Route Alloc Role)
      (substitute : Option (Partner Key Route Alloc Role))
  | remove (partner : Partner Key Route Alloc Role)

/-- What a chain of callbacks waits for: the allocation of a partner that is created, `initiate` of
a partner, the goodbye that is said to it, or its `on_restarted`. -/
inductive Task (Key Route Alloc Role : Type) where
  | allocating (partner : Partner Key Route Alloc Role)
      (substitute : Option (Partner Key Route Alloc Role))
  | initiating (partner : Partner Key Route Alloc Role)
      (substitute : Option (Partner Key Route Alloc Role))
  | goodbye (partner : Partner Key Route Alloc Role)
  | restarting (partner : Partner Key Route Alloc Role)

structure State (Key Route Alloc Role : Type) where
  /-- The partners in the descriptor. -/
  partners : List (Partner Key Route Alloc Role)
  updates : List (Update Key Route Alloc Role)
  tasks : List (Task Key Route Alloc Role)
  /-- The keys whose partner was removed and for which nothing was created since. -/
  gone : List Key
  /-- The partners whose allocation was released. -/
  released : List (Partner Key Route Alloc Role)
  /-- Those that were in the descriptor when it was. -/
  robbed : List (Partner Key Route Alloc Role)

/-- What happens. A callback leaves its partner with a route, an allocation and a role. -/
inductive Event (Key Route Alloc Role : Type) where
  | create (partner : Partner Key Route Alloc Role)
      (substitute : Option (Partner Key Route Alloc Role))
  | initiatePartner (partner : Partner Key Route Alloc Role)
      (substitute : Option (Partner Key Route Alloc Role))
  | updatePartner (partner : Partner Key Route Alloc Role)
  | remove (partner : Partner Key Route Alloc Role)
  | breakup (partner : Partner Key Route Alloc Role)
  /-- A goodbye of a partner, or that it was buried. -/
  | left (key : Key)
  | restarted (key newKey : Key) (newRoute : Route)
  | died (key : Key)
  | allocated (i : Nat) (found : Bool)
  | initiated (i : Nat) (route : Route) (allocation : Option Alloc) (role : Role)
  | initiateFails (i : Nat)
  | goodbyeSaid (i : Nat)
  | called (i : Nat) (route : Route) (allocation : Option Alloc) (role : Role)
  | saved
  | saveFails

namespace State

/-- `find`. More than one match is an error. -/
def find (s : State Key Route Alloc Role) (key : Key) : Option (Partner Key Route Alloc Role) :=
  match s.partners.filter (·.key = key) with
  | [p] => some p
  | _ => none

/-- `_remove_partner`. -/
def removePartner (partners : List (Partner Key Route Alloc Role))
    (p : Partner Key Route Alloc Role) : List (Partner Key Route Alloc Role) :=
  if p ∈ partners then partners.erase p else partners

/-- A partner replaces the one with its key, or is the last. -/
def place (partners : List (Partner Key Route Alloc Role)) (p : Partner Key Route Alloc Role) :
    List (Partner Key Route Alloc Role) :=
  match partners.filter (·.key = p.key) with
  | [q] => partners.set (partners.idxOf q) p
  | _ => partners ++ [p]

/-- `_do_update_partner`. -/
def doUpdatePartner (partners : List (Partner Key Route Alloc Role))
    (p : Partner Key Route Alloc Role) (substitute : Option (Partner Key Route Alloc Role)) :
    List (Partner Key Route Alloc Role) :=
  match substitute with
  | some q => place (removePartner partners q) p
  | none => place partners p

/-- The removal of a partner is complete, and nothing with its key is put in its place. -/
def leave (s : State Key Route Alloc Role) (key : Key) : State Key Route Alloc Role :=
  { s with gone := key :: s.gone }

/-- `release_resource` after a removal. -/
def release (s : State Key Route Alloc Role) (p : Partner Key Route Alloc Role) :
    State Key Route Alloc Role :=
  match p.allocation with
  | none => s
  | some a =>
    { s with
      released := s.released ++ [p]
      robbed :=
        if s.partners.any fun q => q.key = p.key && q.allocation = some a then s.robbed ++ [p]
        else s.robbed }

/-- An update is saved, and what waits for it goes on. -/
def save (s : State Key Route Alloc Role) :
    Update Key Route Alloc Role → State Key Route Alloc Role
  | .put p substitute =>
    let s' := { s with partners := doUpdatePartner s.partners p substitute }
    match substitute with
    | some q => if q.key = p.key then s' else s'.leave q.key
    | none => s'
  | .remove p => release (leave { s with partners := removePartner s.partners p } p.key) p

def queue (s : State Key Route Alloc Role) (u : Update Key Route Alloc Role) :
    State Key Route Alloc Role := { s with updates := s.updates ++ [u] }

def begin (s : State Key Route Alloc Role) (task : Task Key Route Alloc Role) :
    State Key Route Alloc Role := { s with tasks := s.tasks ++ [task] }

def step (s : State Key Route Alloc Role) :
    Event Key Route Alloc Role → Option (State Key Route Alloc Role)
  | .create p substitute =>
    let s' := { s with gone := s.gone.filter (· ≠ p.key) }
    match s.find p.key with
    | some _ => some s'
    | none =>
      some <| s'.begin <| match p.allocation with
        | some _ => .allocating p substitute
        | none => .initiating p substitute
  | .initiatePartner p substitute => some (s.begin (.initiating p substitute))
  | .updatePartner p => some (s.queue (.put p none))
  | .remove p => some (s.queue (.remove p))
  | .breakup p => some (s.begin (.goodbye p))
  | .left key =>
    match s.find key with
    | some p => some (s.queue (.remove p))
    | none => some s
  | .restarted key newKey newRoute =>
    match s.find key with
    | some p => some (s.begin (.restarting { p with key := newKey, route := newRoute }))
    | none => some s
  | .died _ => some s
  | .allocated i found =>
    match s.tasks[i]? with
    | some (.allocating p substitute) =>
      let s' := { s with tasks := s.tasks.eraseIdx i }
      some (if found then s'.begin (.initiating p substitute) else s')
    | _ => none
  | .initiated i route allocation role =>
    match s.tasks[i]? with
    | some (.initiating p substitute) =>
      some (queue { s with tasks := s.tasks.eraseIdx i }
        (.put ⟨p.key, route, allocation, role⟩ substitute))
    | _ => none
  | .initiateFails i =>
    match s.tasks[i]? with
    | some (.initiating _ _) => some { s with tasks := s.tasks.eraseIdx i }
    | _ => none
  | .goodbyeSaid i =>
    match s.tasks[i]? with
    | some (.goodbye p) => some (queue { s with tasks := s.tasks.eraseIdx i } (.remove p))
    | _ => none
  | .called i route allocation role =>
    match s.tasks[i]? with
    | some (.restarting p) =>
      some (queue { s with tasks := s.tasks.eraseIdx i }
        (.put ⟨p.key, route, allocation, role⟩ none))
    | _ => none
  | .saved =>
    match s.updates with
    | [] => none
    | u :: rest => some (save { s with updates := rest } u)
  | .saveFails =>
    match s.updates with
    | [] => none
    | _ :: rest => some { s with updates := rest }

/-- An agent with some partners. -/
def start (partners : List (Partner Key Route Alloc Role)) : State Key Route Alloc Role where
  partners := partners
  updates := []
  tasks := []
  gone := []
  released := []
  robbed := []

/-! ## Partners that are removed -/

/-- What is asked of the partners. -/
structure Kept (s : State Key Route Alloc Role) : Prop where
  unique : (s.partners.map (·.key)).Nodup
  gone : ∀ p ∈ s.partners, p.key ∉ s.gone
  released : s.robbed = []

/-- The partner with this key is gone, as far as the descriptor that is left. -/
def Removes (partners : List (Partner Key Route Alloc Role))
    (p : Partner Key Route Alloc Role) : Prop :=
  p ∈ partners ∨ ∀ q ∈ partners, q.key ≠ p.key

/-- The condition of a step: a partner is not put back after its removal, and what is removed is
what the descriptor holds, if it holds a partner with that key. -/
def Current (s : State Key Route Alloc Role) : Event Key Route Alloc Role → Prop
  | .saved =>
    match s.updates with
    | .put p substitute :: _ =>
      p.key ∉ s.gone ∧ ∀ q ∈ substitute, q.key ≠ p.key → Removes s.partners q
    | .remove p :: _ => Removes s.partners p
    | [] => True
  | _ => True

end State
end Feat.Agents.Partners
