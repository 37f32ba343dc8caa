import FrpProvisioner.Config.Configuration
import FrpProvisioner.Controller.ServiceReconciler

/-! The checks the manager makes on its configuration before it starts. Those on the log
options join whatever they find. Those on the manager options do too, until the pod template
is decoded into the same error variable. -/
namespace FrpProvisioner

/-- `yaml.Unmarshal` into a pod. Each of its errors wraps that of a stage. -/
structure YamlDecoder where
  unmarshal : String → Except GoError Pod
  wraps : ∀ text err, unmarshal text = .error err → ∃ message inner, err = .wrap message inner

def Options.checks (o : Options) : List (Option GoError) :=
  [failWhen (o.fields .encoding = "") "log.encoding is required",
    failWhen ((o.fields .outputPaths).length = 0) "log.outputPaths is required",
    failWhen ((o.fields .errorOutputPaths).length = 0) "log.errorOutputPaths is required"]

def Options.validate (o : Options) : Option GoError := joinChecks o.checks

namespace ManagerOptions

def fieldChecks (o : ManagerOptions) : List (Option GoError) :=
  [failWhen (o .leaderElectionID = "") "leaderElectionID is required",
    failWhen (o .leaseDuration = 0) "leaseDuration is required",
    failWhen (o .leaderElectionResourceLock = "") "leaderElectionResourceLock is required",
    failWhen (o .renewDeadline = 0) "renewDeadline is required",
    failWhen (o .retryPeriod = 0) "retryPeriod is required",
    failWhen (o .metricsBindAddress = "") "metricsBindAddress is required",
    failWhen (o .gracefulShutdownTimeout = 0) "gracefulShutdownTimeout is required",
    failWhen (o .podTemplate = "") "PodTemplate is required"]

def parseFinding (template : String) : GoError :=
  .text ("unable parse podTemplate with yaml: " ++ template)

def containerFinding : GoError := .text "podTemplate does not specify any container"

/-- The end of `Validate`. The assignment `err = yaml.Unmarshal(..)` overwrites the error of the
checks before, so the argument for it is not used. -/
def checkTemplate (yaml : YamlDecoder) (template : String) (_err : Option GoError) :
    Option GoError :=
  match yaml.unmarshal template with
  | .error err => errorsJoin [some err, some (parseFinding template)]
  | .ok p => if p.body.containers.length = 0 then errorsJoin [none, some containerFinding] else none

def validate (yaml : YamlDecoder) (o : ManagerOptions) : Option GoError :=
  checkTemplate yaml (o .podTemplate) (joinChecks (fieldChecks o))

end ManagerOptions

/-- None when a nil pointer is dereferenced. -/
def Configuration.validate (yaml : YamlDecoder) (c : Configuration) : Option (Option GoError) := do
  let log ← c.log
  let manager ← c.manager
  return joinChecks
    [log.validate.map fun err => .wrap ("invalid log config, got: '" ++ err.error ++ "'") err,
      (ManagerOptions.validate yaml manager).map fun err =>
        .wrap ("invalid manager config, got: '" ++ err.error ++ "'") err]

section Findings
variable {yaml : YamlDecoder} {template : String} {o : ManagerOptions}

theorem failWhen_findings {bad : Bool} {message : String} {e : GoError}
    (h : failWhen bad message = some e) : e = .text message ∧ bad = true := by
  cases bad with
  | false => cases h
  | true => exact ⟨(Option.some.inj h).symm, rfl⟩

namespace ManagerOptions

def FieldsSet (o : ManagerOptions) : Prop :=
  o .leaderElectionID ≠ "" ∧ o .leaderElectionResourceLock ≠ "" ∧ o .metricsBindAddress ≠ "" ∧
    o .podTemplate ≠ "" ∧ o .leaseDuration ≠ 0 ∧ o .renewDeadline ≠ 0 ∧ o .retryPeriod ≠ 0 ∧
    o .gracefulShutdownTimeout ≠ 0

def TemplateUsable (yaml : YamlDecoder) (template : String) : Prop :=
  ∃ p, yaml.unmarshal template = .ok p ∧ p.body.containers ≠ []

/-- Validation misses nothing: it returns nil just when every requirement is met, and each
requirement that is not contributes its finding. -/
structure MissesNothing (yaml : YamlDecoder) (o : ManagerOptions) : Prop where
  nil_iff : validate yaml o = none ↔ FieldsSet o ∧ TemplateUsable yaml (o .podTemplate)
  fields : ∀ e, some e ∈ fieldChecks o → e ∈ found (validate yaml o)
  parse : ∀ err, yaml.unmarshal (o .podTemplate) = .error err →
    parseFinding (o .podTemplate) ∈ found (validate yaml o)
  container : ∀ p, yaml.unmarshal (o .podTemplate) = .ok p → p.body.containers = [] →
    containerFinding ∈ found (validate yaml o)

theorem fieldChecks_none : (∀ c ∈ fieldChecks o, c = none) ↔ FieldsSet o := by
  simp only [fieldChecks, List.forall_mem_cons, failWhen_eq_none, decide_eq_false_iff_not,
    FieldsSet]
  constructor
  · rintro ⟨h1, h2, h3, h4, h5, h6, h7, h8, -⟩
    exact ⟨h1, h3, h6, h8, h2, h4, h5, h7⟩
  · rintro ⟨h1, h3, h6, h8, h2, h4, h5, h7⟩
    exact ⟨h1, h2, h3, h4, h5, h6, h7, h8, fun _ h => absurd h List.not_mem_nil⟩

theorem validate_eq_none : validate yaml o = none ↔ TemplateUsable yaml (o .podTemplate) := by
  unfold validate checkTemplate TemplateUsable
  cases yaml.unmarshal (o .podTemplate) with
  | error err => simp [errorsJoin_eq_none]
  | ok p =>
    cases hc : p.body.containers with
    | nil => simp [errorsJoin_eq_none, hc]
    | cons c cs => simp [hc]

theorem found_validate_error {err : GoError} (h : yaml.unmarshal (o .podTemplate) = .error err) :
    found (validate yaml o) = [err, parseFinding (o .podTemplate)] := by
  obtain ⟨message, inner, rfl⟩ := yaml.wraps _ _ h
  simp only [validate, checkTemplate, h, found_errorsJoin]
  rfl

theorem found_validate_ok {p : Pod} (h : yaml.unmarshal (o .podTemplate) = .ok p) :
    found (validate yaml o) = if p.body.containers = [] then [containerFinding] else [] := by
  simp only [validate, checkTemplate, h, List.length_eq_zero_iff]
  split
  · rfl
  · rfl

/-- The first letter tells the findings on single fields from those on the template. -/
theorem fieldChecks_text {e : GoError} (he : some e ∈ fieldChecks o) :
    ∃ m : String, e = .text m ∧ m.toList.head? ≠ some 'u' ∧ m.toList.head? ≠ some 'p' := by
  simp only [fieldChecks, List.mem_cons, List.not_mem_nil, or_false] at he
  rcases he with he | he | he | he | he | he | he | he <;>
    exact ⟨_, (failWhen_findings he.symm).1, by decide, by decide⟩

/-- Whatever the decoder answers, no finding on a single field is left. -/
theorem not_mem_found_validate {e : GoError} (he : some e ∈ fieldChecks o) :
    e ∉ found (validate yaml o) := by
  obtain ⟨m, rfl, hu, hp⟩ := fieldChecks_text he
  intro hm
  cases hy : yaml.unmarshal (o .podTemplate) with
  | error err =>
    obtain ⟨message, inner, rfl⟩ := yaml.wraps _ _ hy
    rw [found_validate_error hy] at hm
    simp only [List.mem_cons, List.not_mem_nil, or_false, reduceCtorEq, false_or,
      parseFinding, GoError.text.injEq] at hm
    apply hu
    rw [hm, String.toList_append]
    rfl
  | ok p =>
    rw [found_validate_ok hy] at hm
    split at hm
    · simp only [List.mem_singleton, containerFinding, GoError.text.injEq] at hm
      apply hp
      rw [hm]
      rfl
    · cases hm

/-- Validation misses nothing exactly for options whose required fields are set: the decoding
of the template drops every finding made before it. -/
theorem validate_missesNothing_iff (yaml : YamlDecoder) (o : ManagerOptions) :
    MissesNothing yaml o ↔ FieldsSet o := by
  constructor
  · intro h
    rw [← fieldChecks_none]
    intro c hc
    cases c with
    | none => rfl
    | some e => exact absurd (h.fields e hc) (not_mem_found_validate hc)
  · intro h
    constructor
    · rw [validate_eq_none]
      exact ⟨fun ht => ⟨h, ht⟩, And.right⟩
    · intro e he
      cases fieldChecks_none.mpr h _ he
    · intro err herr
      rw [found_validate_error herr]
      exact List.mem_cons_of_mem _ List.mem_cons_self
    · intro p hp hc
      rw [found_validate_ok hp, if_pos hc]
      exact List.mem_cons_self

/-- The default options of a host whose temporary files are below `/tmp`, with a lease duration
of zero. -/
def zeroLease : ManagerOptions :=
  Function.update
    (setDefaults ⟨fun names => "/".intercalate ("/tmp" :: names), fun _ => .error "", fun _ =>
      .error ""⟩ newManagerOptions) .leaseDuration (0 : Duration)

def defaultPod : Pod where
  name := "frp-client"
  ns := ""
  uid := ""
  resourceVersion := 0
  deletionTimestamp := none
  labels := ⟨[("app", "frp-client")], by decide⟩
  annotations := ⟨[], by decide⟩
  ownerReferences := []
  finalizers := []
  body := ⟨[⟨"frp-client", "busybox:latest"⟩], "", .unset, ""⟩

def defaultDecoder : YamlDecoder where
  unmarshal template :=
    if template = defaultPodTemplate then .ok defaultPod
    else .error (.wrap "error converting YAML to JSON: yaml: mapping values are not allowed"
      (.text "yaml: mapping values are not allowed"))
  wraps := by
    intro template err h
    split at h
    · cases h
    · exact ⟨_, _, (Except.error.inj h).symm⟩

/-- A lease duration of zero is not reported: the default template decodes, so the result
is nil. -/
theorem zeroLease_is_accepted :
    zeroLease .leaseDuration = 0 ∧ validate defaultDecoder zeroLease = none ∧
      ¬ MissesNothing defaultDecoder zeroLease := by
  have hzero : zeroLease .leaseDuration = 0 := rfl
  have htemplate : zeroLease .podTemplate = defaultPodTemplate := by
    simp [zeroLease, setDefaults, newManagerOptions, emptyOr]
  have hnil : validate defaultDecoder zeroLease = none := by
    rw [validate_eq_none, htemplate]
    have hdecode : defaultDecoder.unmarshal defaultPodTemplate = .ok defaultPod := by
      simp [defaultDecoder]
    exact ⟨defaultPod, hdecode, List.cons_ne_nil _ _⟩
  constructor
  · exact hzero
  · constructor
    · exact hnil
    · intro h
      obtain ⟨-, -, -, -, hlease, -⟩ := (h.nil_iff.mp hnil).1
      exact hlease hzero

end ManagerOptions

end Findings
end FrpProvisioner
