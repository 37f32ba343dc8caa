import FrpProvisioner.Api.Client

/-! `pkg/utils/controller/refmanager.go`: claiming, adopting and releasing objects. -/
namespace FrpProvisioner
open Effect
variable {ω β : Type}

structure Scheme where
  objectKinds : Except GoError GroupVersionKind

/-- `RefManager`. The scheme is never nil: `getOwner` would already dereference it. -/
structure RefManager (ω : Type) where
  selector : Selector
  owner : Object ω
  schema : Scheme

/-- `once` and `canAdoptErr`: nothing before the first call, its verdict afterwards. -/
abbrev Once := Option (Option GoError)

/-- What `claimObject` leaves behind: the object in memory, its two results, and the verdict. -/
structure Claim (β : Type) where
  obj : Object β
  claimed : Bool
  err : Option GoError
  once : Once

namespace RefManager
variable (mgr : RefManager ω)

/-- `%v/%v (%v)` of namespace, name and UID. -/
def describe (obj : Object β) : String := obj.ns ++ "/" ++ obj.name ++ " (" ++ obj.uid ++ ")"

def getOwner : Api ω β (Except GoError (Object ω)) := do
  match mgr.schema.objectKinds with
  | .error err => return .error err
  | .ok _ => Api.get ⟨mgr.owner.ns, mgr.owner.name⟩

/-- What `canAdopt` makes of the owner it has read again. -/
def verdict : Except GoError (Object ω) → Option GoError
  | .error err => some err
  | .ok fresh =>
    if fresh.uid ≠ mgr.owner.uid then
      some (.text ("original owner " ++ mgr.owner.ns ++ "/" ++ mgr.owner.name ++
        " is gone: got uid " ++ fresh.uid ++ ", wanted " ++ mgr.owner.uid))
    else
      match fresh.deletionTimestamp with
      | some t => some (.text (mgr.owner.ns ++ "/" ++ mgr.owner.name ++
          " has just been deleted at " ++ toString t))
      | none => none

def canAdopt : Api ω β (Option GoError) := do
  return mgr.verdict (← mgr.getOwner)

def canAdoptOnce (once : Once) : Api ω β (Option GoError × Once) :=
  match once with
  | some v => return (v, once)
  | none => do
    let v ← mgr.canAdopt
    return (v, some v)

def cannotAdopt (obj : Object β) (err : GoError) : GoError :=
  .text ("can't adopt Object " ++ describe obj ++ ": " ++ err.error)

def cannotSet (obj : Object β) (err : GoError) : GoError :=
  .text ("can't set Object " ++ describe obj ++ " owner reference: " ++ err.error)

def cannotUpdate (obj : Object β) (err : GoError) : GoError :=
  .text ("can't update Object " ++ describe obj ++ " owner reference: " ++ err.error)

def cannotRemove (obj : Object β) (err : GoError) : GoError :=
  .text ("can't remove Pod " ++ describe obj ++ " owner reference " ++ obj.ns ++ "/" ++
    obj.name ++ " (" ++ mgr.owner.uid ++ "): " ++ err.error)

/-- The reference is set on the caller's object, which stays changed when the update fails. -/
def adopt (once : Once) (obj : Object β) : Api ω β (Object β × Option GoError × Once) := do
  let (v, once) ← mgr.canAdoptOnce once
  match v with
  | some err => return (obj, some (cannotAdopt obj err), once)
  | none =>
    match setControllerReference mgr.owner mgr.schema.objectKinds obj with
    | .error err => return (obj, some (cannotSet obj err), once)
    | .ok adopted =>
      match ← Api.update adopted with
      | .error err => return (adopted, some (cannotUpdate obj err), once)
      | .ok stored => return (stored, none, once)

/-- The first reference with the UID of the owner is dropped, from a deep copy. -/
def release (obj : Object β) : Api ω β (Option GoError) :=
  match obj.ownerReferences.findIdx? (·.uid = mgr.owner.uid) with
  | none => return none
  | some idx => do
    match ← Api.update { obj with ownerReferences := obj.ownerReferences.eraseIdx idx } with
    | .error err => return some (mgr.cannotRemove obj err)
    | .ok _ => return none

def claimObject (isMatch : Object β → Bool) (once : Once) (obj : Object β) :
    Api ω β (Claim β) :=
  match getControllerOf obj with
  | some controllerRef =>
    -- owned by someone else
    if controllerRef.uid ≠ mgr.owner.uid then return ⟨obj, false, none, once⟩
    else if isMatch obj then return ⟨obj, true, none, once⟩
    else if mgr.owner.deletionTimestamp.isSome then return ⟨obj, false, none, once⟩
    else do
      match ← mgr.release obj with
      | some err =>
        if err.isNotFound then return ⟨obj, false, none, once⟩
        else return ⟨obj, false, some err, once⟩
      | none => return ⟨obj, false, none, once⟩
  | none =>
    -- an orphan
    if mgr.owner.deletionTimestamp.isSome || !isMatch obj then return ⟨obj, false, none, once⟩
    else if obj.deletionTimestamp.isSome then return ⟨obj, false, none, once⟩
    else do
      let (adopted, err, once) ← mgr.adopt once obj
      match err with
      | some err =>
        if err.isNotFound then return ⟨adopted, false, none, once⟩
        else return ⟨adopted, false, some err, once⟩
      | none => return ⟨adopted, true, none, once⟩

structure ClaimState (β : Type) where
  claimObjs : List (Object β)
  errList : List GoError
  once : Once

def ClaimState.add (st : ClaimState β) (c : Claim β) : ClaimState β :=
  match c.err with
  | some err => { st with errList := st.errList ++ [err], once := c.once }
  | none =>
    if c.claimed then { st with claimObjs := st.claimObjs ++ [c.obj], once := c.once }
    else { st with once := c.once }

def claimStep (isMatch : Object β → Bool) (st : ClaimState β) (obj : Object β) :
    Api ω β (ClaimState β) := do
  let c ← mgr.claimObject isMatch st.once obj
  return st.add c

def matching (filters : List (Object β → Bool)) (obj : Object β) : Bool :=
  mgr.selector obj.labels && filters.all (fun f => f obj)

/-- A manager claims once: `once` is fresh. -/
def claimOwnedObjects (objs : List (Object β)) (filters : List (Object β → Bool)) :
    Api ω β (List (Object β) × Option GoError) := do
  let st ← objs.foldlM (mgr.claimStep (mgr.matching filters)) ⟨[], [], none⟩
  return (st.claimObjs, newAggregate (st.errList.map some))

end RefManager
end FrpProvisioner
