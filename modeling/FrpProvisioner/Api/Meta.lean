import FrpProvisioner.Effect.Table
import FrpProvisioner.Api.Errors

/-! Object metadata, label selectors and controller references, as `metav1` and
`controllerutil` define them. -/
namespace FrpProvisioner
open Effect

/-- Points in time, in the resolution the API server stores; zero is the zero time. -/
abbrev Time := ℕ

abbrev StringMap := Table (Prod.fst : String × String → String)

namespace StringMap

def get (m : StringMap) (k : String) : Option String := (m.find? k).map Prod.snd

/-- `m[k]`, which is the zero value for a key that is not there. -/
def getD (m : StringMap) (k : String) : String := (m.get k).getD ""

def set (m : StringMap) (k v : String) : StringMap := m.upsert (k, v)

theorem get_eq_some {m : StringMap} {k v : String} : m.get k = some v ↔ (k, v) ∈ m := by
  constructor
  · intro h
    obtain ⟨⟨k', v'⟩, hf, rfl⟩ := Option.map_eq_some_iff.mp h
    obtain ⟨hm, rfl⟩ := Table.find?_eq_some.mp hf
    exact hm
  · intro h
    exact Option.map_eq_some_iff.mpr ⟨(k, v), Table.find?_eq_some.mpr ⟨h, rfl⟩, rfl⟩

@[simp] theorem get_set_self (m : StringMap) (k v : String) : (m.set k v).get k = some v :=
  get_eq_some.mpr (Table.mem_upsert.mpr (Or.inl rfl))

theorem get_set_of_ne {m : StringMap} {k l : String} (v : String) (h : l ≠ k) :
    (m.set k v).get l = m.get l := by
  apply Option.ext
  intro w
  simp only [get_eq_some, set, Table.mem_upsert, Prod.mk.injEq]
  constructor
  · rintro (⟨hl, -⟩ | ⟨hm, -⟩)
    · exact absurd hl h
    · exact hm
  · exact fun hm => Or.inr ⟨hm, h⟩

end StringMap

structure OwnerReference where
  apiVersion : String
  kind : String
  name : String
  uid : String
  controller : Option Bool
  blockOwnerDeletion : Option Bool
  deriving DecidableEq, Repr

def OwnerReference.isController (r : OwnerReference) : Bool := r.controller == some true

structure ObjectMeta where
  name : String
  ns : String
  uid : String
  resourceVersion : ℕ
  deletionTimestamp : Option Time
  labels : StringMap
  annotations : StringMap
  ownerReferences : List OwnerReference
  finalizers : List String
  deriving DecidableEq

/-- An API object: its metadata, embedded as in Go, and its spec and status. -/
structure Object (β : Type) extends ObjectMeta where
  body : β
  deriving DecidableEq

/-- `types.NamespacedName`, also `client.ObjectKey`. -/
structure NamespacedName where
  ns : String
  name : String
  deriving DecidableEq, Repr

def NamespacedName.string (k : NamespacedName) : String := k.ns ++ "/" ++ k.name

def Object.key {β : Type} (o : Object β) : NamespacedName := ⟨o.ns, o.name⟩

/-- `labels.Selector`, by what `Matches` answers. -/
abbrev Selector := StringMap → Bool

/-- `labels.SelectorFromSet`: every listed label is present with the listed value. -/
def selectorFromSet (set : List (String × String)) : Selector := fun labels =>
  set.all fun kv => labels.get kv.1 == some kv.2

section Controller
variable {ω β : Type}

/-- `metav1.GetControllerOf`: the first reference whose `controller` flag is set. -/
def getControllerOf (o : Object β) : Option OwnerReference :=
  o.ownerReferences.find? OwnerReference.isController

def ControlledBy (uid : String) (o : Object β) : Prop :=
  (getControllerOf o).map OwnerReference.uid = some uid

instance (uid : String) (o : Object β) : Decidable (ControlledBy uid o) :=
  inferInstanceAs (Decidable (_ = _))

def AtMostOneController (o : Object β) : Prop :=
  o.ownerReferences.countP OwnerReference.isController ≤ 1

instance (o : Object β) : Decidable (AtMostOneController o) :=
  inferInstanceAs (Decidable (_ ≤ _))

structure GroupVersionKind where
  group : String
  version : String
  kind : String
  deriving DecidableEq, Repr

/-- `GroupVersion.String`. -/
def GroupVersionKind.apiVersion (gvk : GroupVersionKind) : String :=
  if gvk.group ≠ "" then gvk.group ++ "/" ++ gvk.version else gvk.version

/-- `schema.ParseGroupVersion`; none for a text with two slashes. -/
def parseGroupVersion (gv : String) : Option (String × String) :=
  if gv = "" ∨ gv = "/" then some ("", "")
  else
    match gv.toList.count '/' with
    | 0 => some ("", gv)
    | 1 => some (String.ofList (gv.toList.takeWhile (· ≠ '/')),
        String.ofList ((gv.toList.dropWhile (· ≠ '/')).drop 1))
    | _ => none

def parseGroup (gv : String) : Option String := (parseGroupVersion gv).map Prod.fst

/-- Group, kind and name decide; the UID does not. -/
def referSameObject (a b : OwnerReference) : Bool :=
  match parseGroup a.apiVersion, parseGroup b.apiVersion with
  | some g, some h => g = h && a.kind = b.kind && a.name = b.name
  | _, _ => false

def indexOwnerRef (refs : List OwnerReference) (ref : OwnerReference) : Option ℕ :=
  refs.findIdx? (referSameObject · ref)

def upsertOwnerRef (ref : OwnerReference) (owners : List OwnerReference) :
    List OwnerReference :=
  match indexOwnerRef owners ref with
  | none => owners ++ [ref]
  | some idx => owners.set idx ref

def validateOwner (owner : Object ω) (object : Object β) : Option GoError :=
  if owner.ns ≠ "" then
    if object.ns = "" then
      some (.text ("cluster-scoped resource must not have a namespace-scoped owner, " ++
        "owner's namespace " ++ owner.ns))
    else if owner.ns ≠ object.ns then
      some (.text ("cross-namespace owner references are disallowed, owner's namespace " ++
        owner.ns ++ ", obj's namespace " ++ object.ns))
    else none
  else none

def newControllerRef (owner : Object ω) (gvk : GroupVersionKind) : OwnerReference where
  apiVersion := gvk.apiVersion
  kind := gvk.kind
  name := owner.name
  uid := owner.uid
  controller := some true
  blockOwnerDeletion := some true

def alreadyOwnedError (o : Object β) (owner : OwnerReference) : GoError :=
  .text ("Object " ++ o.ns ++ "/" ++ o.name ++ " is already owned by another " ++
    owner.kind ++ " controller " ++ owner.name)

/-- `controllerutil.SetControllerReference`; `gvk` is what the scheme knows of the owner. -/
def setControllerReference (owner : Object ω) (gvk : Except GoError GroupVersionKind)
    (controlled : Object β) : Except GoError (Object β) :=
  match validateOwner owner controlled with
  | some err => .error err
  | none =>
    match gvk with
    | .error err => .error err
    | .ok gvk =>
      let ref := newControllerRef owner gvk
      match getControllerOf controlled with
      | some existing =>
        if referSameObject existing ref then
          .ok { controlled with ownerReferences := upsertOwnerRef ref controlled.ownerReferences }
        else .error (alreadyOwnedError controlled existing)
      | none =>
        .ok { controlled with ownerReferences := upsertOwnerRef ref controlled.ownerReferences }

end Controller

@[simp] theorem upsertOwnerRef_nil (ref : OwnerReference) : upsertOwnerRef ref [] = [ref] := rfl

theorem upsertOwnerRef_cons (ref r : OwnerReference) (rs : List OwnerReference) :
    upsertOwnerRef ref (r :: rs) =
      if referSameObject r ref then ref :: rs else r :: upsertOwnerRef ref rs := by
  unfold upsertOwnerRef indexOwnerRef
  rw [List.findIdx?_cons]
  cases referSameObject r ref with
  | true => rfl
  | false =>
    cases List.findIdx? (referSameObject · ref) rs with
    | none => rfl
    | some idx => rfl

/-- The new reference is the controller whenever the old controller, if any, refers to the
same object. -/
theorem find?_upsertOwnerRef {ref : OwnerReference} {refs : List OwnerReference}
    (href : ref.isController = true)
    (h : ∀ e, refs.find? OwnerReference.isController = some e → referSameObject e ref = true) :
    (upsertOwnerRef ref refs).find? OwnerReference.isController = some ref := by
  induction refs with
  | nil => simp [href]
  | cons r rs ih =>
    rw [upsertOwnerRef_cons]
    cases hr : referSameObject r ref with
    | true => simp [href]
    | false =>
      -- a controller that refers to another object would contradict `h`
      have hc : r.isController = false := by
        cases hc : r.isController with
        | false => rfl
        | true => simpa [hr] using h r (by simp [hc])
      simp only [Bool.false_eq_true, ↓reduceIte, List.find?_cons, hc]
      exact ih fun e he => h e (by simpa [hc] using he)

theorem countP_upsertOwnerRef_le {ref : OwnerReference} {refs : List OwnerReference}
    (p : OwnerReference → Bool) :
    (upsertOwnerRef ref refs).countP p ≤ refs.countP p + 1 := by
  induction refs with
  | nil =>
    rw [upsertOwnerRef_nil]
    exact List.countP_le_length
  | cons r rs ih =>
    rw [upsertOwnerRef_cons]
    split <;> simp only [List.countP_cons] <;> split_ifs <;> omega

section Controller
variable {ω β : Type} {owner : Object ω} {gvk : Except GoError GroupVersionKind}
  {controlled result : Object β}

theorem setControllerReference_ok (h : setControllerReference owner gvk controlled = .ok result) :
    ∃ g, gvk = .ok g ∧
      (∀ e, getControllerOf controlled = some e →
        referSameObject e (newControllerRef owner g) = true) ∧
      result = { controlled with
        ownerReferences :=
          upsertOwnerRef (newControllerRef owner g) controlled.ownerReferences } := by
  unfold setControllerReference at h
  split at h
  · cases h
  split at h
  · cases h
  next g =>
    refine ⟨g, rfl, ?_⟩
    dsimp only at h
    split at h
    next e he =>
      split at h
      next hs =>
        cases h
        refine ⟨fun e' he' => ?_, rfl⟩
        rw [he] at he'
        cases he'
        exact hs
      next => cases h
    next hnone =>
      cases h
      exact ⟨fun e he => by simp [hnone] at he, rfl⟩

theorem controlledBy_setControllerReference
    (h : setControllerReference owner gvk controlled = .ok result) :
    ControlledBy owner.uid result := by
  obtain ⟨g, -, he, rfl⟩ := setControllerReference_ok h
  unfold ControlledBy getControllerOf
  rw [find?_upsertOwnerRef rfl he]
  rfl

/-- Whether the call succeeds does not depend on the name of the object. -/
theorem setControllerReference_rename (name : String)
    (h : setControllerReference owner gvk controlled = .ok result) :
    ∃ result', setControllerReference owner gvk { controlled with name := name } =
      .ok result' := by
  have hv : validateOwner owner { controlled with name := name } =
      validateOwner owner controlled := rfl
  have hc : getControllerOf { controlled with name := name } = getControllerOf controlled := rfl
  unfold setControllerReference at h ⊢
  rw [hv, hc]
  cases hvalid : validateOwner owner controlled with
  | some err => simp [hvalid] at h
  | none =>
    cases gvk with
    | error err => simp [hvalid] at h
    | ok g =>
      cases hctl : getControllerOf controlled with
      | none => exact ⟨_, rfl⟩
      | some e =>
        cases hsame : referSameObject e (newControllerRef owner g) with
        | true => simp [hsame]
        | false => simp [hvalid, hctl, hsame] at h

/-- In the namespace of the owner, an object without controller is accepted. -/
theorem setControllerReference_of_orphan {g : GroupVersionKind} (hns : controlled.ns = owner.ns)
    (hc : getControllerOf controlled = none) :
    setControllerReference owner (.ok g) controlled = .ok { controlled with
      ownerReferences :=
        upsertOwnerRef (newControllerRef owner g) controlled.ownerReferences } := by
  have hv : validateOwner owner controlled = none := by
    unfold validateOwner
    rw [hns]
    split <;> simp_all
  simp only [setControllerReference, hv, hc]

end Controller
end FrpProvisioner
