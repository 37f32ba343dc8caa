import FrpProvisioner.Config.Validation
import FrpProvisioner.Controller.Reconciling
import FrpProvisioner.Controller.Store

/-! Pods made of a template that the manager accepted when it started. Validation asks for a
pod with a container; whether the pod can be owned by a Service also depends on the owner
references the template brings along. -/
namespace FrpProvisioner
open Effect

/-- The name of a random suffix fits behind a base that was cut. -/
theorem utf8ByteSize_takeBytes (n : ℕ) (cs : List Char) :
    (String.ofList (takeBytes n cs)).utf8ByteSize ≤ n := by
  induction cs generalizing n with
  | nil => simp [takeBytes]
  | cons c cs ih =>
    rw [takeBytes]
    split
    next hc =>
      have hrest := ih (n - c.utf8Size)
      rw [String.ofList_cons, String.utf8ByteSize_append, String.utf8ByteSize_singleton]
      omega
    next => simp

theorem utf8ByteSize_generatedName {base suffix : String}
    (hsuffix : suffix.utf8ByteSize = randomLength) :
    (generatedName base suffix).utf8ByteSize ≤ maxNameLength := by
  have hlength : maxGeneratedNameLength + randomLength = maxNameLength := rfl
  unfold generatedName
  split
  next =>
    have hcut := utf8ByteSize_takeBytes maxGeneratedNameLength base.toList
    rw [String.utf8ByteSize_append]
    omega
  next =>
    rw [String.utf8ByteSize_append]
    omega

theorem generateName_eq (base : String) : generateName base =
    .request (.rand randomLength) fun suffix => .pure (generatedName base suffix) := by
  refine congrArg (Program.request _) (funext fun suffix => ?_)
  unfold generatedName
  split
  · rfl
  · rfl

structure PodOf (owner : Service) (template pod : Pod) : Prop where
  ns : pod.ns = owner.ns
  controller : ControlledBy owner.uid pod
  serviceName : pod.labels.get labelServiceNameKey = some owner.name
  controllerUid : pod.labels.get labelControllerUidKey = some owner.uid
  otherLabels : ∀ k, k ≠ labelServiceNameKey → k ≠ labelControllerUidKey →
    pod.labels.get k = template.labels.get k
  containers : pod.body.containers = template.body.containers
  specRest : pod.body.specRest = template.body.specRest
  name : pod.name.utf8ByteSize ≤ maxNameLength

/-- A controller reference that `SetControllerReference` takes for one to `owner`: the UID is
not compared. -/
def RefersTo (owner : Service) (ref : OwnerReference) : Prop :=
  parseGroup ref.apiVersion = some "" ∧ ref.kind = "Service" ∧ ref.name = owner.name

namespace ServiceReconciler
variable {owner : Service} {template pod : Pod} {name : String}

theorem referSameObject_service (ref : OwnerReference) (owner : Service) :
    referSameObject ref (newControllerRef owner ⟨"", "v1", "Service"⟩) = true ↔
      RefersTo owner ref := by
  have hversion : (newControllerRef owner ⟨"", "v1", "Service"⟩).apiVersion = "v1" := by
    simp [newControllerRef, GroupVersionKind.apiVersion]
  have hgroup : parseGroup "v1" = some "" := by decide
  unfold referSameObject RefersTo
  rw [hversion, hgroup]
  cases parseGroup ref.apiVersion with
  | none => simp
  | some group =>
    simp only [Bool.and_eq_true, decide_eq_true_eq, Option.some.injEq, and_assoc]
    exact Iff.rfl

/-- A pod that could be made is one for the owner. -/
theorem podOf_templatePod (h : templatePod owner template name = .ok pod)
    (hname : name.utf8ByteSize ≤ maxNameLength) : PodOf owner template pod := by
  unfold templatePod at h
  dsimp only at h
  split at h
  · cases h
  next result hset =>
    have hcontrolled := controlledBy_setControllerReference hset
    obtain ⟨g, -, -, rfl⟩ := setControllerReference_ok hset
    cases h
    constructor
    · rfl
    · exact hcontrolled
    · show (StringMap.set _ _ _).get _ = _
      rw [StringMap.get_set_of_ne _ (by decide), StringMap.get_set_self]
    · exact StringMap.get_set_self _ _ _
    · intro k hservice huid
      show (StringMap.set _ _ _).get _ = _
      rw [StringMap.get_set_of_ne _ huid, StringMap.get_set_of_ne _ hservice]
    · rfl
    · rfl
    · exact hname

/-- A pod can be made unless the template has a controller other than the owner. -/
theorem templatePod_returns_iff (owner : Service) (template : Pod) (name : String) :
    (∃ pod, templatePod owner template name = .ok pod) ↔
      ∀ ref, getControllerOf template = some ref → RefersTo owner ref := by
  have hvalid : validateOwner owner { template with ns := owner.ns, name := name } = none := by
    unfold validateOwner
    split <;> simp_all
  have hcontroller : getControllerOf { template with ns := owner.ns, name := name } =
      getControllerOf template := rfl
  unfold templatePod
  simp only [setControllerReference, hvalid, hcontroller, serviceScheme]
  cases hctl : getControllerOf template with
  | none => simp
  | some ref =>
    by_cases hsame : referSameObject ref (newControllerRef owner ⟨"", "v1", "Service"⟩) = true
    · simp [hsame, (referSameObject_service ref owner).mp hsame]
    · have hnot : ¬ RefersTo owner ref := fun h => hsame ((referSameObject_service ref owner).mpr h)
      simp [hsame, hnot]

def ofOptions (yaml : YamlDecoder) (o : ManagerOptions) : ServiceReconciler where
  podTemplate := o .podTemplate
  unmarshal := yaml.unmarshal

/-- A server whose random texts have the length that is asked for. -/
def drawing : Server (Request ServiceBody PodBody) Response Unit
  | _, .rand n, suffix, _ => suffix.utf8ByteSize = n
  | _, _, _, _ => True

/-- `generatePod` makes a pod for `owner`, whatever suffix is drawn. -/
def WorksFor (r : ServiceReconciler) (owner : Service) : Prop :=
  ∀ es result, Program.Exec drawing (r.generatePod owner) () es result () →
    ∃ template pod, r.unmarshal r.podTemplate = .ok template ∧ result = .ok pod ∧
      PodOf owner template pod

variable {r : ServiceReconciler}

theorem podFor_eq (htemplate : r.unmarshal r.podTemplate = .ok template) (suffix : String) :
    r.podFor owner suffix = templatePod owner template
      (generatedName ((if template.name ≠ "" then template.name else defaultBaseName) ++ "-" ++
        owner.name) suffix) := by
  simp only [podFor, htemplate]

/-- The result is that for the suffix drawn, which may be any. -/
theorem exec_generatePod (htemplate : r.unmarshal r.podTemplate = .ok template)
    (result : Except GoError Pod) :
    (∃ es, Program.Exec drawing (r.generatePod owner) () es result ()) ↔
      ∃ suffix, suffix.utf8ByteSize = randomLength ∧ result = r.podFor owner suffix := by
  have hprogram : r.generatePod owner = .request (.rand randomLength) fun suffix =>
      .pure (r.podFor owner suffix) := by
    unfold generatePod
    rw [htemplate]
    dsimp only
    rw [generateName_eq]
    refine congrArg (Program.request _) (funext fun suffix => ?_)
    rw [podFor_eq htemplate]
    rfl
  rw [hprogram]
  constructor
  · rintro ⟨es, hexec⟩
    cases hexec with
    | request hserve hrest =>
      cases hrest
      exact ⟨_, hserve, rfl⟩
  · rintro ⟨suffix, hsuffix, rfl⟩
    exact ⟨_, .request hsuffix (.pure _ _)⟩

/-- No pod can be made of a template with another controller. -/
theorem podFor_fails {ref : OwnerReference} (htemplate : r.unmarshal r.podTemplate = .ok template)
    (href : getControllerOf template = some ref) (hnot : ¬ RefersTo owner ref) (suffix : String) :
    ∃ err, r.podFor owner suffix = .error err := by
  cases hpod : r.podFor owner suffix with
  | error err => exact ⟨err, rfl⟩
  | ok pod =>
    rw [podFor_eq htemplate] at hpod
    exact absurd ((templatePod_returns_iff owner template _).mp ⟨pod, hpod⟩ ref href) hnot

/-- A template that validation accepts works for a Service exactly when it has no controller
of its own other than that Service. -/
theorem accepted_template_works_iff (yaml : YamlDecoder) (o : ManagerOptions) (owner : Service)
    (hvalid : ManagerOptions.validate yaml o = none) :
    WorksFor (ofOptions yaml o) owner ↔
      ∀ template, yaml.unmarshal (o .podTemplate) = .ok template →
        ∀ ref, getControllerOf template = some ref → RefersTo owner ref := by
  obtain ⟨template, hdecode, -⟩ := ManagerOptions.validate_eq_none.mp hvalid
  have htemplate : (ofOptions yaml o).unmarshal (ofOptions yaml o).podTemplate = .ok template :=
    hdecode
  constructor
  · intro hworks template' hdecode' ref href
    obtain rfl : template = template' := by
      rw [hdecode] at hdecode'
      injection hdecode'
    obtain ⟨es, hexec⟩ :=
      (exec_generatePod htemplate ((ofOptions yaml o).podFor owner "aaaaa")).mpr
        ⟨"aaaaa", rfl, rfl⟩
    obtain ⟨-, pod, -, hpod, -⟩ := hworks es _ hexec
    rw [podFor_eq htemplate] at hpod
    exact (templatePod_returns_iff owner template _).mp ⟨pod, hpod⟩ ref href
  · intro hrefers es result hexec
    obtain ⟨suffix, hsuffix, rfl⟩ := (exec_generatePod htemplate result).mp ⟨es, hexec⟩
    rw [podFor_eq htemplate]
    obtain ⟨pod, hpod⟩ := (templatePod_returns_iff owner template _).mpr (hrefers template hdecode)
    exact ⟨template, pod, hdecode, hpod,
      podOf_templatePod hpod (utf8ByteSize_generatedName hsuffix)⟩

def foreignTemplate : String :=
  "apiVersion: v1\nkind: Pod\nmetadata:\n  name: frp-client\n  labels:\n    app: frp-client\n" ++
  "  ownerReferences:\n  - apiVersion: apps/v1\n    kind: DaemonSet\n    name: frpc\n" ++
  "    uid: ds-1\n    controller: true\n" ++
  "spec:\n  containers:\n  - name: frp-client\n    image: busybox:latest\n"

def foreignPod : Pod :=
  { ManagerOptions.defaultPod with
    ownerReferences := [⟨"apps/v1", "DaemonSet", "frpc", "ds-1", some true, none⟩] }

def decoderOf (text : String) (pod : Pod) : YamlDecoder where
  unmarshal template :=
    if template = text then .ok pod
    else .error (.wrap "error converting YAML to JSON: yaml: did not find expected key"
      (.text "yaml: did not find expected key"))
  wraps := by
    intro template err h
    split at h
    · cases h
    · exact ⟨_, _, (Except.error.inj h).symm⟩

def withTemplate (text : String) : ManagerOptions :=
  Function.update newManagerOptions .podTemplate text

section Known
variable (text : String) (pod : Pod)

theorem unmarshal_decoderOf :
    (decoderOf text pod).unmarshal (withTemplate text .podTemplate) = .ok pod := by
  simp [decoderOf, withTemplate]

theorem validate_decoderOf (h : pod.body.containers ≠ []) :
    ManagerOptions.validate (decoderOf text pod) (withTemplate text) = none :=
  ManagerOptions.validate_eq_none.mpr ⟨pod, unmarshal_decoderOf text pod, h⟩

def reconcilerOf : ServiceReconciler := ofOptions (decoderOf text pod) (withTemplate text)

theorem unmarshal_reconcilerOf :
    (reconcilerOf text pod).unmarshal (reconcilerOf text pod).podTemplate = .ok pod :=
  unmarshal_decoderOf text pod

end Known

theorem accepted_template_works_default :
    WorksFor (reconcilerOf defaultPodTemplate ManagerOptions.defaultPod) webService := by
  have hvalid := validate_decoderOf defaultPodTemplate ManagerOptions.defaultPod
    (List.cons_ne_nil _ _)
  apply (accepted_template_works_iff _ _ webService hvalid).mpr
  intro template htemplate ref href
  rw [unmarshal_decoderOf] at htemplate
  obtain rfl : ManagerOptions.defaultPod = template := by injection htemplate
  cases href

/-- A template with a controller of its own is accepted, and no pod can be made of it. -/
theorem foreign_controller_accepted :
    ManagerOptions.validate (decoderOf foreignTemplate foreignPod) (withTemplate foreignTemplate) =
        none ∧
      (∀ suffix, ∃ err,
        (reconcilerOf foreignTemplate foreignPod).podFor webService suffix = .error err) ∧
      ¬ WorksFor (reconcilerOf foreignTemplate foreignPod) webService := by
  have hdecode := unmarshal_reconcilerOf foreignTemplate foreignPod
  have hnot : ¬ RefersTo webService ⟨"apps/v1", "DaemonSet", "frpc", "ds-1", some true, none⟩ :=
    fun h => absurd h.2.1 (by decide)
  have hfails : ∀ suffix, ∃ err,
      (reconcilerOf foreignTemplate foreignPod).podFor webService suffix = .error err :=
    podFor_fails hdecode rfl hnot
  refine ⟨validate_decoderOf _ _ (List.cons_ne_nil _ _), hfails, fun hworks => ?_⟩
  obtain ⟨err, herr⟩ := hfails "aaaaa"
  obtain ⟨es, hexec⟩ := (exec_generatePod hdecode (.error err)).mpr ⟨"aaaaa", rfl, herr.symm⟩
  obtain ⟨-, pod, -, hpod, -⟩ := hworks es _ hexec
  cases hpod

end ServiceReconciler
end FrpProvisioner
