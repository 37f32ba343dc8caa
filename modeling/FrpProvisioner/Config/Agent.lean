import FrpProvisioner.Config.Startup
import FrpProvisioner.Config.Validation

/-! The agent's configuration and the start of its command. Both are those of the manager
without the manager options. -/
namespace FrpProvisioner
open Pflag

structure AgentConfiguration where
  log : Option Options

def newAgentConfiguration : AgentConfiguration := ⟨some newOptions⟩

namespace AgentConfiguration

def setDefaults (c : AgentConfiguration) : AgentConfiguration := ⟨c.log.map Options.setDefaults⟩

/-- `none` where a nil pointer would be dereferenced. -/
def addFlags (env : ConfigEnv) (c : AgentConfiguration) : Option (List Binding) :=
  c.log.map (Options.addFlags env)

/-- None when a nil pointer is dereferenced. -/
def validate (c : AgentConfiguration) : Option (Option GoError) := do
  let log ← c.log
  return joinChecks
    [log.validate.map fun err => .wrap ("invalid log config, got: '" ++ err.error ++ "'") err]

/-- The fields behind the agent's flags, as those of a configuration without the rest. -/
def fields (c : AgentConfiguration) : Configuration := ⟨c.log, none⟩

end AgentConfiguration

structure AgentFile where
  log : Node LogFile

def AgentFile.decode (file : AgentFile) (c : AgentConfiguration) : AgentConfiguration :=
  ⟨file.log.decode { newOptions with sampling := none } LogFile.decode c.log⟩

structure AgentHost where
  env : ConfigEnv
  stat : String → Option GoError
  /-- `os.ReadFile` and the decoder. -/
  readConfig : String → Except String AgentFile

def defaultAgentConfigFile : String := "/etc/frp-provisioner/agent-config.yaml"

def agentFlags : List (Flag FlagState) := [versionFlag, configFlag]

def validateAgentFlags (host : AgentHost) (configFile : String) : Option GoError :=
  if configFile = "" then some (.text "config file required") else host.stat configFile

def agentFlagPrecedence (env : ConfigEnv) (args : List String) (c : AgentConfiguration) :
    Except Ended AgentConfiguration := do
  let fs ← newFlagSet agentFlags (c.addFlags env)
  let (_, st) ← parseFlags fs args ⟨false, false, "", c.fields⟩
  .ok ⟨st.cfg.log⟩

def loadAgentConfigFile (host : AgentHost) (filename : String) (c : AgentConfiguration) :
    Except Ended AgentConfiguration :=
  match host.readConfig filename with
  | .ok file => .ok (file.decode c)
  | .error err =>
    .error (.failed (.text ("config file " ++ filename ++ " contains errors: " ++ err)))

def agentAfterParse (host : AgentHost) (rest : List String) (st : FlagState) :
    Except Ended AgentConfiguration :=
  match rest with
  | arg :: _ => .error (.failed (.text ("unknown command: " ++ arg)))
  | [] =>
    if st.help then .error .help
    else if st.showVersion then .error .version
    else
      match validateAgentFlags host st.configFile with
      | some err => .error (.failed err)
      | none => loadAgentConfigFile host st.configFile ⟨st.cfg.log⟩

/-- `NewAgentCommand` up to the configuration it validates. -/
def agentStartup (host : AgentHost) (args : List String) : Except Ended AgentConfiguration := do
  let cfg := newAgentConfiguration.setDefaults
  let fs ← newFlagSet (helpFlag :: agentFlags) (cfg.addFlags host.env)
  let (rest, st) ← parseFlags fs args ⟨false, false, defaultAgentConfigFile, cfg.fields⟩
  let cfg ← agentAfterParse host rest st
  agentFlagPrecedence host.env args cfg

/-! ### Flags and fields -/

section
variable {env : ConfigEnv} {bs : List Binding}

def Present (S : Setting → Prop) (st : FlagState) : Prop :=
  ∀ s, S s → ∃ x, st.cfg.get s = some x

/-- Setting a flag takes no field away. -/
theorem Present.set {fs : FlagSet FlagState} {S : Setting → Prop} {st st' : FlagState}
    (hreg : Registered env fs bs) (h : Present S st) {flag : Flag FlagState}
    (hflag : flag ∈ fs.formal) {changed : Bool} {text : String}
    (hset : flag.set changed text st = .ok st') : Present S st' := by
  intro s hs
  obtain ⟨x, hx⟩ := h s hs
  rcases hreg.cases_mem hflag with hflag | ⟨b, _, rfl⟩
  · exact ⟨x, by rw [keeps_cfg hflag hset, hx]⟩
  · obtain ⟨old, v, hold, _, rfl⟩ := Binding.flag_set hset
    by_cases heq : s = b.setting
    · subst heq
      exact ⟨v, Configuration.get_set_self hold v⟩
    · exact ⟨x, (Configuration.get_set_of_ne _ heq v).trans hx⟩

theorem Present.parse {fs : FlagSet FlagState} {S : Setting → Prop} {st st' : FlagState}
    (hreg : Registered env fs bs) (h : Present S st) {args rest : List String}
    (hp : fs.parse args st = .ok (rest, st')) : Present S st' := by
  refine FlagSet.parse_invariant hreg.reads ?_ hp h
  intro flag hflag _ changed text st st' hset hst
  exact Present.set hreg hst hflag hset

end

end FrpProvisioner
