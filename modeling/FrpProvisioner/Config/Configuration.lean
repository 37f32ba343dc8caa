import FrpProvisioner.FrpClient.Config
import FrpProvisioner.Pflag.Parse
import Mathlib.Logic.Function.Basic

/-! The manager's configuration, with its defaults, the flags bound to its fields and the
configuration file that overwrites some of them. A struct of the source is a function from
its fields; the structs behind pointers stay optional. -/
namespace FrpProvisioner
open Pflag

inductive Level where
  | debug | info | warn | error | dpanic | panic | fatal
  deriving DecidableEq, Repr

inductive LevelEncoder where
  | lowercase | lowercaseColor | capital | capitalColor
  deriving DecidableEq, Repr

inductive TimeEncoder where
  | epoch | epochMillis | epochNanos | iso8601 | rfc3339 | rfc3339Nano | ofLayout (layout : String)
  deriving DecidableEq, Repr

inductive DurationEncoder where
  | seconds | nanos | millis | string
  deriving DecidableEq, Repr

inductive CallerEncoder where
  | full | short
  deriving DecidableEq, Repr

inductive NameEncoder where
  | full
  deriving DecidableEq, Repr

/-- `time.Duration`, in nanoseconds. -/
abbrev Duration := ℤ

def second : Duration := 1000000000

/-- The fields of `log.Options` that a file can set, those of `EncoderConfig` among them. -/
inductive LogField where
  | level | development | disableCaller | disableStacktrace | encoding
  | messageKey | levelKey | timeKey | nameKey | callerKey | functionKey | stacktraceKey
  | skipLineEnding | lineEnding | encodeLevel | encodeTime | encodeDuration | encodeCaller
  | encodeName | consoleSeparator
  | outputPaths | errorOutputPaths | initialFields
  deriving DecidableEq, Repr

/-- A nil encoder is `none`; the values of `InitialFields` are JSON texts. -/
abbrev LogField.Value : LogField → Type
  | level => Level
  | development | disableCaller | disableStacktrace | skipLineEnding => Bool
  | encoding | messageKey | levelKey | timeKey | nameKey | callerKey | functionKey
  | stacktraceKey | lineEnding | consoleSeparator => String
  | encodeLevel => Option LevelEncoder
  | encodeTime => Option TimeEncoder
  | encodeDuration => Option DurationEncoder
  | encodeCaller => Option CallerEncoder
  | encodeName => Option NameEncoder
  | outputPaths | errorOutputPaths => List String
  | initialFields => List (String × String)

inductive SamplingField where
  | initial | thereafter
  deriving DecidableEq, Repr

abbrev SamplingConfig := SamplingField → ℤ

inductive ManagerField where
  | leaderElection | leaderElectionResourceLock | leaderElectionNamespace | leaderElectionID
  | leaderElectionReleaseOnCancel | leaseDuration | renewDeadline | retryPeriod
  | metricsSecureServing | metricsBindAddress | metricsCertDir | metricsCertName
  | metricsKeyName | webhookBindAddress | webhookCertDir | webhookCertName | webhookKeyName
  | webhookClientCAName | healthProbeBindAddress | pprofBindAddress | gracefulShutdownTimeout
  | podTemplate
  deriving DecidableEq, Repr

abbrev ManagerField.Value : ManagerField → Type
  | leaderElection | leaderElectionReleaseOnCancel | metricsSecureServing => Bool
  | leaseDuration | renewDeadline | retryPeriod | gracefulShutdownTimeout => Duration
  | leaderElectionResourceLock | leaderElectionNamespace | leaderElectionID | metricsBindAddress
  | metricsCertDir | metricsCertName | metricsKeyName | webhookBindAddress | webhookCertDir
  | webhookCertName | webhookKeyName | webhookClientCAName | healthProbeBindAddress
  | pprofBindAddress | podTemplate => String

structure Options where
  fields : (f : LogField) → f.Value
  sampling : Option SamplingConfig

abbrev ManagerOptions := (f : ManagerField) → f.Value

structure Configuration where
  log : Option Options
  manager : Option ManagerOptions

inductive Setting where
  | log (f : LogField)
  | sampling (f : SamplingField)
  | manager (f : ManagerField)
  deriving DecidableEq, Repr

abbrev Setting.Value : Setting → Type
  | log f => f.Value
  | sampling _ => ℤ
  | manager f => f.Value

namespace Configuration

/-- A field behind a nil pointer does not exist. -/
def get (c : Configuration) : (s : Setting) → Option s.Value
  | .log f => c.log.map fun o => o.fields f
  | .sampling f => c.log.bind fun o => o.sampling.map fun sampling => sampling f
  | .manager f => c.manager.map fun o => o f

def set (c : Configuration) : (s : Setting) → s.Value → Configuration
  | .log f, v =>
    { c with log := c.log.map fun o => { o with fields := Function.update o.fields f v } }
  | .sampling f, v =>
    { c with
      log := c.log.map fun o =>
        { o with sampling := o.sampling.map fun sampling => Function.update sampling f v } }
  | .manager f, v => { c with manager := c.manager.map fun o => Function.update o f v }

theorem get_set_self {c : Configuration} {s : Setting} {x : s.Value} (h : c.get s = some x)
    (v : s.Value) : (c.set s v).get s = some v := by
  cases s with
  | log f =>
    obtain ⟨o, ho, -⟩ := Option.map_eq_some_iff.1 h
    simp [get, set, ho]
  | sampling f =>
    obtain ⟨o, ho, hs⟩ := Option.bind_eq_some_iff.1 h
    obtain ⟨sampling, hs, -⟩ := Option.map_eq_some_iff.1 hs
    simp [get, set, ho, hs]
  | manager f =>
    obtain ⟨o, ho, -⟩ := Option.map_eq_some_iff.1 h
    simp [get, set, ho]

theorem get_set_of_ne (c : Configuration) {s s' : Setting} (h : s' ≠ s) (v : s.Value) :
    (c.set s v).get s' = c.get s' := by
  obtain ⟨log, manager⟩ := c
  cases s with
  | log f => cases s' <;> cases log <;> simp_all [get, set, Function.update_of_ne]
  | sampling f =>
    cases s' with
    | sampling f' =>
      have hf : f' ≠ f := fun hf => h (congrArg Setting.sampling hf)
      rcases log with _ | ⟨fields, _ | sampling⟩
      · rfl
      · rfl
      · simp [get, set, Function.update_of_ne hf]
    | log f' => cases log <;> simp [get, set]
    | manager f' => simp [get, set]
  | manager f => cases s' <;> cases manager <;> simp_all [get, set, Function.update_of_ne]

end Configuration

/-- `filepath.Join` of a path below `os.TempDir`, and the conversions of `strconv` and `time`
that the flags use. -/
structure ConfigEnv where
  joinTempDir : List String → String
  parseInt : String → Except String ℤ
  parseDuration : String → Except String Duration

section Defaults

def newOptions : Options where
  fields
    | .level => .info
    | .development | .disableCaller | .disableStacktrace | .skipLineEnding => false
    | .encoding | .messageKey | .levelKey | .timeKey | .nameKey | .callerKey | .functionKey
    | .stacktraceKey | .lineEnding | .consoleSeparator => ""
    | .encodeLevel | .encodeTime | .encodeDuration | .encodeCaller | .encodeName => none
    | .outputPaths | .errorOutputPaths | .initialFields => []
  sampling := some fun _ => 0

def newManagerOptions : ManagerOptions
  | .leaderElection | .leaderElectionReleaseOnCancel | .metricsSecureServing => false
  | .leaseDuration | .renewDeadline | .retryPeriod | .gracefulShutdownTimeout => (0 : Duration)
  | .leaderElectionResourceLock | .leaderElectionNamespace | .leaderElectionID
  | .metricsBindAddress | .metricsCertDir | .metricsCertName | .metricsKeyName
  | .webhookBindAddress | .webhookCertDir | .webhookCertName | .webhookKeyName
  | .webhookClientCAName | .healthProbeBindAddress | .pprofBindAddress | .podTemplate => ""

def newConfiguration : Configuration := ⟨some newOptions, some newManagerOptions⟩

def Options.setDefaults (o : Options) : Options where
  fields
    | .level => .debug
    | .encoding => "console"
    | .timeKey => "ts"
    | .levelKey => "level"
    | .nameKey => "logger"
    | .callerKey => "caller"
    | .functionKey => ""
    | .messageKey => "msg"
    | .stacktraceKey => "stacktrace"
    | .lineEnding => "\n"
    | .encodeLevel => some .capital
    | .encodeTime => some .rfc3339Nano
    | .encodeDuration => some .string
    | .encodeCaller => some .short
    | .outputPaths => ["stderr"]
    | .errorOutputPaths => ["stderr"]
    | .development => o.fields .development
    | .disableCaller => o.fields .disableCaller
    | .disableStacktrace => o.fields .disableStacktrace
    | .skipLineEnding => o.fields .skipLineEnding
    | .encodeName => o.fields .encodeName
    | .consoleSeparator => o.fields .consoleSeparator
    | .initialFields => o.fields .initialFields
  sampling := some fun
    | .initial => 100
    | .thereafter => 100

def defaultPodTemplate : String :=
  "\nmetadata:\n labels:\n   app: frp-client\n name: frp-client\n" ++
  "spec:\n containers:\n - image: busybox:latest\n   imagePullPolicy: Always\n" ++
  "   name: frp-client\n   resources:\n     limits:\n       cpu: 500m\n       memory: 1Gi\n" ++
  "     requests:\n       cpu: 100m\n       memory: 128Mi\n" ++
  "   command:\n   - tail\n   - \"-f\"\n"

def ManagerOptions.setDefaults (env : ConfigEnv) (o : ManagerOptions) : ManagerOptions
  | .leaderElectionID => emptyOr (o .leaderElectionID) "frp-provisioner"
  | .leaderElectionResourceLock => emptyOr (o .leaderElectionResourceLock) "leases"
  | .leaseDuration => emptyOr (o .leaseDuration) (15 * second)
  | .renewDeadline => emptyOr (o .renewDeadline) (10 * second)
  | .retryPeriod => emptyOr (o .retryPeriod) (2 * second)
  | .metricsBindAddress => emptyOr (o .metricsBindAddress) ":8080"
  | .gracefulShutdownTimeout => emptyOr (o .gracefulShutdownTimeout) (30 * second)
  | .webhookBindAddress => emptyOr (o .webhookBindAddress) ":9443"
  | .webhookCertDir =>
    emptyOr (o .webhookCertDir) (env.joinTempDir ["k8s-webhook-server", "serving-certs"])
  | .webhookCertName => emptyOr (o .webhookCertName) "tls.crt"
  | .webhookKeyName => emptyOr (o .webhookKeyName) "tls.key"
  | .podTemplate => emptyOr (o .podTemplate) defaultPodTemplate
  | .metricsCertDir =>
    emptyOr (o .metricsCertDir) (env.joinTempDir ["k8s-metrics-server", "serving-certs"])
  | .leaderElection => o .leaderElection
  | .leaderElectionNamespace => o .leaderElectionNamespace
  | .leaderElectionReleaseOnCancel => o .leaderElectionReleaseOnCancel
  | .metricsSecureServing => o .metricsSecureServing
  | .metricsCertName => o .metricsCertName
  | .metricsKeyName => o .metricsKeyName
  | .webhookClientCAName => o .webhookClientCAName
  | .healthProbeBindAddress => o .healthProbeBindAddress
  | .pprofBindAddress => o .pprofBindAddress

def Configuration.setDefaults (env : ConfigEnv) (c : Configuration) : Configuration where
  log := c.log.map Options.setDefaults
  manager := c.manager.map (ManagerOptions.setDefaults env)

end Defaults

section Flags

/-- `zapcore.ParseLevel`, which ignores the case of the text. -/
def parseLevel (text : String) : Except String Level :=
  match text.toLower with
  | "debug" => .ok .debug
  | "info" | "" => .ok .info
  | "warn" => .ok .warn
  | "error" => .ok .error
  | "dpanic" => .ok .dpanic
  | "panic" => .ok .panic
  | "fatal" => .ok .fatal
  | _ => .error ("unrecognized level: " ++ text.quote)

/-- A flag bound to a field. Its default is the value the field has, so that the registration
leaves the field as it is. -/
structure Binding where
  name : String
  setting : Setting
  value : FlagValue setting.Value

variable (env : ConfigEnv)

/-- The flags of the sampling policy exist only where there is one. -/
def Options.addFlags (o : Options) : List Binding :=
  [⟨"log.level", .log .level, .scalar none parseLevel⟩,
   ⟨"log.development", .log .development, boolValue⟩,
   ⟨"log.disable-caller", .log .disableCaller, boolValue⟩,
   ⟨"log.disable-stacktrace", .log .disableStacktrace, boolValue⟩] ++
  (if o.sampling.isSome then
    [⟨"log.sampling.initial", .sampling .initial, .scalar none env.parseInt⟩,
     ⟨"log.sampling.thereafter", .sampling .thereafter, .scalar none env.parseInt⟩]
   else []) ++
  [⟨"log.encoding", .log .encoding, stringValue⟩,
   ⟨"log.output-paths", .log .outputPaths, .stringArray⟩]

def ManagerOptions.addFlags : List Binding :=
  [⟨"manager.leader-election", .manager .leaderElection, boolValue⟩,
   ⟨"manager.leader-election-resource-lock", .manager .leaderElectionResourceLock, stringValue⟩,
   ⟨"manager.leader-election-namespace", .manager .leaderElectionNamespace, stringValue⟩,
   ⟨"manager.leader-election-id", .manager .leaderElectionID, stringValue⟩,
   ⟨"manager.leader-election-release-on-cancel", .manager .leaderElectionReleaseOnCancel,
     boolValue⟩,
   ⟨"manager.leader-election-lease-duration", .manager .leaseDuration,
     .scalar none env.parseDuration⟩,
   ⟨"manager.leader-election-renew-deadline", .manager .renewDeadline,
     .scalar none env.parseDuration⟩,
   ⟨"manager.leader-election-retry-period", .manager .retryPeriod,
     .scalar none env.parseDuration⟩,
   ⟨"manager.health-probe-bind-address", .manager .healthProbeBindAddress, stringValue⟩,
   ⟨"manager.MetricsSecureServing", .manager .metricsSecureServing, boolValue⟩,
   ⟨"manager.metrics-bind-address", .manager .metricsBindAddress, stringValue⟩,
   ⟨"manager.pprof-bind-address", .manager .pprofBindAddress, stringValue⟩,
   ⟨"manager.webhook-client-ca-name", .manager .webhookClientCAName, stringValue⟩,
   ⟨"manager.webhook-key-name", .manager .webhookKeyName, stringValue⟩,
   ⟨"manager.webhook-cert-name", .manager .webhookCertName, stringValue⟩,
   ⟨"manager.webhook-cert-dir", .manager .webhookCertDir, stringValue⟩,
   ⟨"manager.webhook-bind-address", .manager .webhookBindAddress, stringValue⟩,
   ⟨"manager.metrics-key-name", .manager .metricsKeyName, stringValue⟩,
   ⟨"manager.metrics-cert-dir", .manager .metricsCertDir, stringValue⟩,
   ⟨"manager.metrics-cert-name", .manager .metricsCertName, stringValue⟩,
   ⟨"manager.graceful-shutdown-timeout", .manager .gracefulShutdownTimeout,
     .scalar none env.parseDuration⟩]

/-- `none` where a nil pointer would be dereferenced. -/
def Configuration.addFlags (c : Configuration) : Option (List Binding) :=
  match c.log, c.manager with
  | some o, some _ => some (o.addFlags env ++ ManagerOptions.addFlags env)
  | _, _ => none

variable {env} in
theorem Configuration.addFlags_eq_some {c : Configuration} {bs : List Binding}
    (h : c.addFlags env = some bs) : ∃ o m, c = ⟨some o, some m⟩ ∧
      bs = o.addFlags env ++ ManagerOptions.addFlags env := by
  obtain ⟨_ | o, _ | m⟩ := c
  · simp [addFlags] at h
  · simp [addFlags] at h
  · simp [addFlags] at h
  · exact ⟨o, m, rfl, by simpa [addFlags] using h.symm⟩

def allBindings : List Binding :=
  newOptions.addFlags env ++ ManagerOptions.addFlags env

end Flags

section File

/-- A key of a file behind which the source has a pointer. -/
inductive Node (α : Type) where
  | absent
  | null
  | object (a : α)

/-- The keys of a file below `log`. Keys whose value decodes to no change count as absent. -/
structure LogFile where
  fields : (f : LogField) → Option f.Value
  sampling : Node (SamplingField → Option ℤ)

structure ConfigFile where
  log : Node LogFile
  manager : Node ((f : ManagerField) → Option f.Value)

/-- Decoding into a pointer: a null clears it, and an object is written into the struct behind
it, or into a zero one. -/
def Node.decode {α β : Type} (zero : β) (into : α → β → β) : Node α → Option β → Option β
  | absent, p => p
  | null, _ => none
  | object a, p => some (into a (p.getD zero))

def overlay {φ : Type} {val : φ → Type} (file : (f : φ) → Option (val f))
    (o : (f : φ) → val f) : (f : φ) → val f :=
  fun f => (file f).getD (o f)

def LogFile.decode (file : LogFile) (o : Options) : Options where
  fields := overlay file.fields o.fields
  sampling := file.sampling.decode (fun _ => 0) overlay o.sampling

def ConfigFile.decode (file : ConfigFile) (c : Configuration) : Configuration where
  log := file.log.decode { newOptions with sampling := none } LogFile.decode c.log
  manager := file.manager.decode newManagerOptions overlay c.manager

def Node.ofOption {α : Type} : Option α → Node α
  | none => absent
  | some a => object a

def Node.bind {α β : Type} : Node α → (α → Node β) → Node β
  | absent, _ => absent
  | null, _ => null
  | object a, f => f a

/-- What a file says about a field; null where a pointer above the field is cleared. -/
def ConfigFile.lookup (file : ConfigFile) : (s : Setting) → Node s.Value
  | .log f => file.log.bind fun o => .ofOption (o.fields f)
  | .sampling f => file.log.bind fun o => o.sampling.bind fun m => .ofOption (m f)
  | .manager f => file.manager.bind fun m => .ofOption (m f)

/-- The value of a field after the file: its own, none behind a null, or the one before. -/
def Node.orElse {α : Type} : Node α → α → Option α
  | absent, x => some x
  | null, _ => none
  | object a, _ => some a

@[simp] theorem Node.orElse_absent {α : Type} (x : α) : (absent : Node α).orElse x = some x := rfl

@[simp] theorem Node.orElse_null {α : Type} (x : α) : (null : Node α).orElse x = none := rfl

@[simp] theorem Node.orElse_ofOption {α : Type} (v : Option α) (x : α) :
    (Node.ofOption v).orElse x = some (v.getD x) := by cases v <;> rfl

/-- A file overwrites the fields it has keys for. -/
theorem ConfigFile.get_decode (file : ConfigFile) {c : Configuration} {s : Setting} {x : s.Value}
    (h : c.get s = some x) : (file.decode c).get s = (file.lookup s).orElse x := by
  obtain ⟨log, manager⟩ := file
  cases s with
  | log f =>
    obtain ⟨o, ho, rfl⟩ := Option.map_eq_some_iff.1 h
    cases log <;>
      simp [decode, lookup, Node.decode, Node.bind, Configuration.get, ho, LogFile.decode, overlay]
  | sampling f =>
    obtain ⟨o, ho, hsampling⟩ := Option.bind_eq_some_iff.1 h
    obtain ⟨sampling, hs, rfl⟩ := Option.map_eq_some_iff.1 hsampling
    rcases log with _ | _ | ⟨fields, policy⟩
    · simp [decode, lookup, Node.decode, Node.bind, Configuration.get, ho, hs]
    · simp [decode, lookup, Node.decode, Node.bind, Configuration.get]
    · cases policy <;>
        simp [decode, lookup, Node.decode, Node.bind, Configuration.get, ho, hs, LogFile.decode,
          overlay]
  | manager f =>
    obtain ⟨o, ho, rfl⟩ := Option.map_eq_some_iff.1 h
    cases manager <;>
      simp [decode, lookup, Node.decode, Node.bind, Configuration.get, ho, overlay]

end File

end FrpProvisioner
