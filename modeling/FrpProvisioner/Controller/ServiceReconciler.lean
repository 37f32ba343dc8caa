import FrpProvisioner.Controller.RefManager

/-! `pkg/controller/service_controller.go`: the reconciler that keeps a frp client pod for
every Service of type LoadBalancer that names a frp server. -/
namespace FrpProvisioner
open Effect

/-- `v1.PodPhase`; a pod that was never stored has none. -/
inductive PodPhase where
  | unset | pending | running | succeeded | failed | unknown
  deriving DecidableEq, Repr

structure Container where
  name : String
  image : String
  deriving DecidableEq, Repr

/-- The parts of `v1.Pod` beside its metadata; `rest` stands for the remaining fields. -/
structure PodBody where
  containers : List Container
  specRest : String
  phase : PodPhase
  statusRest : String
  deriving DecidableEq, Repr

abbrev Pod := Object PodBody

inductive ServiceType where
  | clusterIP | nodePort | loadBalancer | externalName
  deriving DecidableEq, Repr

/-- The parts of `v1.Service` beside its metadata; `rest` stands for the remaining fields. -/
structure ServiceBody where
  type : ServiceType
  rest : String
  deriving DecidableEq, Repr

abbrev Service := Object ServiceBody

def finalizerName : String := "finalizer.gofrp.io/tracking"
def labelServiceNameKey : String := "gofrp.io/service-name"
def labelControllerUidKey : String := "gofrp.io/controller-uid"
def annotationFrpServerNameKey : String := "service.beta.kubernetes.io/frp-server-name"
def defaultBaseName : String := "frp-client"

def isPodActive (p : Pod) : Bool :=
  p.body.phase ≠ .succeeded && p.body.phase ≠ .failed && p.deletionTimestamp.isNone

theorem isPodActive_of_marked {p : Pod} (h : p.deletionTimestamp.isSome) :
    isPodActive p = false := by
  obtain ⟨t, ht⟩ := Option.isSome_iff_exists.mp h
  simp [isPodActive, ht]

/-- `base[:n]`, where names are ASCII; no character is cut in half. -/
def takeBytes : ℕ → List Char → List Char
  | _, [] => []
  | n, c :: cs => if c.utf8Size ≤ n then c :: takeBytes (n - c.utf8Size) cs else []

def maxNameLength : ℕ := 63
def randomLength : ℕ := 5
def maxGeneratedNameLength : ℕ := maxNameLength - randomLength

def podSelector (svc : Service) : Selector :=
  selectorFromSet [(labelServiceNameKey, svc.name), (labelControllerUidKey, svc.uid)]

/-- The Service asks for a frp client: the negation of the guard of the clean-up branch. -/
def isWanted (svc : Service) : Bool :=
  !(svc.body.type ≠ .loadBalancer || svc.annotations.entries.length = 0 ||
    svc.annotations.getD annotationFrpServerNameKey = "" || svc.deletionTimestamp.isSome)

/-- `lo.Without(finalizers, FinalizerName)`. -/
def withoutFinalizer (finalizers : List String) : List String :=
  finalizers.filter (· ≠ finalizerName)

/-- The part of the manager's scheme that is about Services, which `init` registers. -/
def serviceScheme : Scheme := ⟨.ok ⟨"", "v1", "Service"⟩⟩

/-- `r.Options.PodTemplate`, with the YAML decoder as a parameter. -/
structure ServiceReconciler where
  podTemplate : String
  unmarshal : String → Except GoError Pod

abbrev ServiceApi (α : Type) := Api ServiceBody PodBody α

def generateName (base : String) : ServiceApi String := do
  let suffix ← Api.rand randomLength
  if base.utf8ByteSize > maxGeneratedNameLength then
    return String.ofList (takeBytes maxGeneratedNameLength base.toList) ++ suffix
  else return base ++ suffix

def getOwnedPods (svc : Service) : ServiceApi (Except GoError (List Pod × List Pod)) := do
  match ← Api.list svc.ns (podSelector svc) with
  | .error err => return .error err
  | .ok items => return .ok (items.filter isPodActive, items.filter (!isPodActive ·))

/-- The errors collected so far, after one more `r.Delete`: NotFound is none. -/
def collect (wrapErr : GoError → GoError) (errsList : List GoError) :
    Except GoError Unit → List GoError
  | .error err => if err.isNotFound then errsList else errsList ++ [wrapErr err]
  | .ok _ => errsList

def deletePods (wrapErr : GoError → GoError) (pods : List Pod) : ServiceApi (List GoError) :=
  pods.foldlM (fun errsList pod => do return collect wrapErr errsList (← Api.delete pod)) []

namespace ServiceReconciler
variable (r : ServiceReconciler)

def templatePod (owner : Service) (template : Pod) (name : String) : Except GoError Pod :=
  let pod := { template with ns := owner.ns, name := name }
  match setControllerReference owner serviceScheme.objectKinds pod with
  | .error err => .error (.wrap ("can't set Pod '" ++ pod.ns ++ "/" ++ pod.name ++
      "' owner reference: " ++ err.error) err)
  | .ok pod => .ok { pod with labels :=
      (pod.labels.set labelServiceNameKey owner.name).set labelControllerUidKey owner.uid }

def generatePod (owner : Service) : ServiceApi (Except GoError Pod) := do
  match r.unmarshal r.podTemplate with
  | .error err =>
    return .error (.wrap ("unable parse yaml from pod template, err: " ++ err.error) err)
  | .ok template =>
    let baseName := if template.name ≠ "" then template.name else defaultBaseName
    let name ← generateName (baseName ++ "-" ++ owner.name)
    return templatePod owner template name

def refManager (svc : Service) : RefManager ServiceBody where
  selector := podSelector svc
  owner := svc
  schema := serviceScheme

def claimPods (svc : Service) (pods : List Pod) : ServiceApi (Except GoError (List Pod)) := do
  let (claimed, err) ← (refManager svc).claimOwnedObjects pods []
  match err with
  | some err => return .error err
  | none => return .ok claimed

/-- The branch for a Service that is not wanted, or being deleted. -/
def cleanUp (req : NamespacedName) (svc : Service) (claimedPods : List Pod) :
    ServiceApi (Option GoError) := do
  let errsList ← deletePods (fun err => .wrap ("unable delete pod '" ++ req.string ++
    "', err: " ++ err.error) err) claimedPods
  match ← Api.updateOwner { svc with finalizers := withoutFinalizer svc.finalizers } with
  | .error err =>
    return newAggregate ((errsList ++ [GoError.wrap ("unable remove finalizers for service '" ++
      req.string ++ "', err: " ++ err.error) err]).map some)
  | .ok _ => return newAggregate (errsList.map some)

/-- The finalizer is added when it is missing; the stored Service is returned. -/
def addFinalizer (req : NamespacedName) (svc : Service) :
    ServiceApi (Except GoError Service) := do
  if finalizerName ∈ svc.finalizers then return .ok svc
  else
    match ← Api.updateOwner { svc with finalizers := svc.finalizers ++ [finalizerName] } with
    | .error err => return .error (.wrap ("unable add finalizers for service '" ++ req.string ++
        "', err: " ++ err.error) err)
    | .ok stored => return .ok stored

/-- The pod is printed whole in the message of a failed create; here by its key. -/
def createPod (svc : Service) : ServiceApi (Option GoError) := do
  match ← r.generatePod svc with
  | .error err =>
    return some (.wrap ("unable generate pod from podTemplate, err: " ++ err.error) err)
  | .ok pod =>
    match ← Api.create pod with
    | .error err => return some (.wrap ("unable create frp pod '" ++ pod.key.string ++
        "',err: " ++ err.error) err)
    | .ok _ => return none

/-- The branch for a wanted Service. -/
def provide (req : NamespacedName) (svc : Service) (claimedPods : List Pod) :
    ServiceApi (Option GoError) := do
  match ← addFinalizer req svc with
  | .error err => return some err
  | .ok svc => if claimedPods.length = 0 then r.createPod svc else return none

/-- What follows once the pods of the Service are claimed. -/
def converge (req : NamespacedName) (svc : Service) (claimedPods inactivePods : List Pod) :
    ServiceApi (Option GoError) := do
  -- kill all inactive pods
  let errsList ← deletePods id inactivePods
  if errsList.length ≠ 0 then return newAggregate (errsList.map some)
  else if isWanted svc then r.provide req svc claimedPods
  else cleanUp req svc claimedPods

/-- What follows once the pods of the Service are listed. -/
def settle (req : NamespacedName) (svc : Service) (activePods inactivePods : List Pod) :
    ServiceApi (Option GoError) := do
  match ← claimPods svc activePods with
  | .error err => return some err
  | .ok claimedPods => r.converge req svc claimedPods inactivePods

def reconcile (req : NamespacedName) : ServiceApi (Option GoError) := do
  match ← Api.get req with
  | .error err => if err.isNotFound then return none else return some err
  | .ok svc =>
    match ← getOwnedPods svc with
    | .error err => return some err
    | .ok (activePods, inactivePods) => r.settle req svc activePods inactivePods

end ServiceReconciler
end FrpProvisioner
