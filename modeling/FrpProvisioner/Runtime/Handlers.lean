import FrpProvisioner.Api.Meta
import FrpProvisioner.Runtime.Notices

/-! The event handlers of `controller-runtime/pkg/handler` that the builder registers: `For` adds
the key of the object itself, `Owns` the key of its controller. The builder sets no predicates. -/
namespace FrpProvisioner
open Effect
variable {β : Type}

abbrev Object.version (o : Object β) : ℕ := o.resourceVersion

/-- `EnqueueRequestForObject`; an update is added under the new object. -/
def enqueueRequestForObject : Notification (Object β) → List NamespacedName
  | .add newObj => [newObj.key]
  | .update _ newObj => [newObj.key]
  | .delete oldObj => [oldObj.key]

inductive RestScope where
  | root | namespaced
  deriving DecidableEq, Repr

/-- `enqueueRequestForOwner` with `OnlyControllerOwner`; `mapper` is what `RESTMapping` finds for
the owner's group and kind at a version. -/
structure EnqueueRequestForOwner where
  group : String
  kind : String
  mapper : String → Option RestScope

namespace EnqueueRequestForOwner
variable (e : EnqueueRequestForOwner)

/-- The request `getOwnerReconcileRequest` puts into its result, for one reference. -/
def requestFor (object : Object β) (ref : OwnerReference) : Option NamespacedName :=
  match parseGroupVersion ref.apiVersion with
  | none => none
  | some (group, version) =>
    if ref.kind = e.kind ∧ group = e.group then
      match e.mapper version with
      | none => none
      | some .root => some ⟨"", ref.name⟩
      | some .namespaced => some ⟨object.ns, ref.name⟩
    else none

def getOwnerReconcileRequest (object : Object β) : Option NamespacedName :=
  (getControllerOf object).bind (e.requestFor object)

/-- Both states of an updated object are looked at. -/
def enqueue (n : Notification (Object β)) : List NamespacedName :=
  (n.objects.filterMap e.getOwnerReconcileRequest).dedup

theorem mem_enqueue {n : Notification (Object β)} {k : NamespacedName} :
    k ∈ e.enqueue n ↔ ∃ o ∈ n.objects, e.getOwnerReconcileRequest o = some k := by
  simp [enqueue, List.mem_filterMap]

end EnqueueRequestForOwner

/-- The key of an object is added when the listener is told of it. -/
theorem mem_enqueueRequestForObject {n : Notification (Object β)} (h : n.Keyed Object.key)
    {o : Object β} (ho : o ∈ n.objects) : o.key ∈ enqueueRequestForObject n := by
  cases n with
  | add newObj =>
    rw [Notification.objects, List.mem_singleton] at ho
    simp [enqueueRequestForObject, ho]
  | update oldObj newObj =>
    have hkey : oldObj.key = newObj.key := h
    simp only [Notification.objects, List.mem_cons, List.not_mem_nil, or_false] at ho
    rcases ho with rfl | rfl
    · simp [enqueueRequestForObject, hkey]
    · simp [enqueueRequestForObject]
  | delete oldObj =>
    rw [Notification.objects, List.mem_singleton] at ho
    simp [enqueueRequestForObject, ho]

end FrpProvisioner
