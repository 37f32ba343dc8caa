import FrpProvisioner.Api.Errors
import FrpProvisioner.Config.Configuration
import FrpProvisioner.Pflag.Given
import Mathlib.Data.List.Nodup

/-! The start of the manager command. The defaults are set, the arguments are parsed into the
configuration, the file is decoded over it, and the arguments are parsed once more so that
they override the file. -/
namespace FrpProvisioner
open Pflag

structure FlagState where
  help : Bool
  showVersion : Bool
  configFile : String
  cfg : Configuration

/-- The pointer of a flag is taken when the flag is registered, so its field exists. -/
def Binding.flag (b : Binding) : Flag FlagState where
  name := b.name
  shorthand := none
  noOptDefVal := b.value.noOptDefVal
  set changed text st :=
    match st.cfg.get b.setting with
    | none => .error "invalid memory address or nil pointer dereference"
    | some old =>
      (b.value.set changed old text).map fun v => { st with cfg := st.cfg.set b.setting v }

def boolFlag (name : String) (shorthand : Option Char) (put : Bool → FlagState → FlagState) :
    Flag FlagState where
  name := name
  shorthand := shorthand
  noOptDefVal := some "true"
  set _ text st := (parseBool text).map fun v => put v st

def helpFlag : Flag FlagState := boolFlag "help" (some 'h') fun v st => { st with help := v }

def versionFlag : Flag FlagState := boolFlag "version" none fun v st => { st with showVersion := v }

def configFlag : Flag FlagState where
  name := "config"
  shorthand := none
  noOptDefVal := none
  set _ text st := .ok { st with configFile := text }

def managerFlags : List (Flag FlagState) := [versionFlag, configFlag]

/-- The ways in which the start ends before there is a configuration. -/
inductive Ended where
  | help
  | version
  | flags (err : ParseError)
  | failed (err : GoError)
  | panic

structure Host where
  env : ConfigEnv
  stat : String → Option GoError
  /-- `os.ReadFile` and the decoder. -/
  readConfig : String → Except String ConfigFile

def defaultConfigFile : String := "/etc/manager/config.yaml"

def validateManagerFlags (host : Host) (configFile : String) : Option GoError :=
  if configFile = "" then some (.text "config file required") else host.stat configFile

/-- The given flags and those that `AddFlags` of a configuration binds, if it does not panic at
a nil pointer. Registration panics when two flags have the same name. -/
def newFlagSet (flags : List (Flag FlagState)) : Option (List Binding) →
    Except Ended (FlagSet FlagState)
  | none => .error .panic
  | some bs =>
    if h : ((flags ++ bs.map Binding.flag).map Flag.name).Nodup then .ok ⟨_, h⟩
    else .error .panic

def parseFlags (fs : FlagSet FlagState) (args : List String) (st : FlagState) :
    Except Ended (List String × FlagState) :=
  match fs.parse args st with
  | .ok parsed => .ok parsed
  | .error err => .error (.flags err)

/-- The second parse, with flags of its own. -/
def flagPrecedence (env : ConfigEnv) (args : List String) (c : Configuration) :
    Except Ended Configuration := do
  let fs ← newFlagSet managerFlags (c.addFlags env)
  let (_, st) ← parseFlags fs args ⟨false, false, "", c⟩
  .ok st.cfg

def loadConfigFile (host : Host) (filename : String) (c : Configuration) :
    Except Ended Configuration :=
  match host.readConfig filename with
  | .ok file => .ok (file.decode c)
  | .error err =>
    .error (.failed (.text ("config file " ++ filename ++ " contains errors: " ++ err)))

def afterParse (host : Host) (rest : List String) (st : FlagState) :
    Except Ended Configuration :=
  match rest with
  | arg :: _ => .error (.failed (.text ("unknown command: " ++ arg)))
  | [] =>
    if st.help then .error .help
    else if st.showVersion then .error .version
    else
      match validateManagerFlags host st.configFile with
      | some err => .error (.failed err)
      | none => loadConfigFile host st.configFile st.cfg

/-- `NewManagerCommand` up to the configuration it validates. -/
def startup (host : Host) (args : List String) : Except Ended Configuration := do
  let cfg := newConfiguration.setDefaults host.env
  let fs ← newFlagSet (helpFlag :: managerFlags) (cfg.addFlags host.env)
  let (rest, st) ← parseFlags fs args ⟨false, false, defaultConfigFile, cfg⟩
  let cfg ← afterParse host rest st
  flagPrecedence host.env args cfg

def allFlags (env : ConfigEnv) : List (Flag FlagState) :=
  helpFlag :: managerFlags ++ (allBindings env).map Binding.flag

/-- The values of the flags that may be named without a text; `h` is the only shorthand. -/
def reading (env : ConfigEnv) : Reading where
  bare name := ((allFlags env).find? fun flag => flag.name = name).bind Flag.noOptDefVal
  short c := if c = 'h' then some ("help", "true") else none

/-- The texts the arguments give for a flag. -/
def given (env : ConfigEnv) (args : List String) (name : String) : List String :=
  textsOf name (occurrences (reading env) args)

section Flags
variable {env : ConfigEnv}

theorem allFlags_nodup (env : ConfigEnv) : ((allFlags env).map Flag.name).Nodup := by
  have hnames : (allFlags env).map Flag.name =
      (allFlags ⟨fun _ => "", fun _ => .ok 0, fun _ => .ok 0⟩).map Flag.name := rfl
  rw [hnames]
  decide

theorem allBindings_settings_nodup (env : ConfigEnv) :
    ((allBindings env).map Binding.setting).Nodup := by
  have hsettings : (allBindings env).map Binding.setting =
      (allBindings ⟨fun _ => "", fun _ => .ok 0, fun _ => .ok 0⟩).map Binding.setting := rfl
  rw [hsettings]
  decide

theorem Options.addFlags_sublist (o : Options) :
    (o.addFlags env).Sublist (newOptions.addFlags env) := by
  unfold Options.addFlags
  apply List.Sublist.append_right
  apply List.Sublist.append_left
  split
  · simp [newOptions]
  · simp

theorem Options.get_of_addFlags {o : Options} {b : Binding} (hb : b ∈ o.addFlags env)
    (manager : Option ManagerOptions) :
    ∃ x, (Configuration.mk (some o) manager).get b.setting = some x := by
  have hlog : (∃ f, b.setting = .log f) ∨ (∃ f, b.setting = .sampling f) ∧ o.sampling.isSome := by
    revert b
    cases ho : o.sampling <;> simp [Options.addFlags, ho]
  rcases hlog with ⟨f, hf⟩ | ⟨⟨f, hf⟩, ho⟩
  · rw [hf]
    exact ⟨_, rfl⟩
  · obtain ⟨policy, ho⟩ := Option.isSome_iff_exists.1 ho
    rw [hf]
    exact ⟨policy f, by simp [Configuration.get, ho]⟩

theorem addFlags_sublist {c : Configuration} {bs : List Binding} (h : c.addFlags env = some bs) :
    bs.Sublist (allBindings env) := by
  obtain ⟨o, m, rfl, rfl⟩ := Configuration.addFlags_eq_some h
  exact List.Sublist.append_right o.addFlags_sublist _

theorem bare_of_mem {flag : Flag FlagState} (hflag : flag ∈ allFlags env) :
    (reading env).bare flag.name = flag.noOptDefVal := by
  simp only [reading]
  cases hf : (allFlags env).find? fun other => other.name = flag.name with
  | none => exact absurd (List.find?_eq_none.1 hf flag hflag) (by simp)
  | some other =>
    have hname : other.name = flag.name := by simpa using List.find?_some hf
    rw [List.inj_on_of_nodup_map (allFlags_nodup env) (List.mem_of_find?_eq_some hf) hflag hname]
    rfl

theorem bindings_names_nodup (env : ConfigEnv) :
    ((allBindings env).map Binding.name).Nodup := by
  have hnodup := allFlags_nodup env
  rw [allFlags, List.map_append, List.nodup_append] at hnodup
  simpa [Function.comp_def, Binding.flag] using hnodup.2.1

theorem name_ne_of_binding {flag : Flag FlagState} (hflag : flag ∈ helpFlag :: managerFlags)
    {b : Binding} (hb : b ∈ allBindings env) : flag.name ≠ b.name := by
  have hnodup := allFlags_nodup env
  rw [allFlags, List.map_append, List.nodup_append] at hnodup
  exact hnodup.2.2 _ (List.mem_map_of_mem hflag) _ (List.mem_map_of_mem (List.mem_map_of_mem hb))

/-- A flag set of this command: some of its own flags, and those of a configuration. -/
structure Registered (env : ConfigEnv) (fs : FlagSet FlagState) (bs : List Binding) : Prop where
  bindings : bs.Sublist (allBindings env)
  formal : ∃ flags, flags.Sublist (helpFlag :: managerFlags) ∧
    fs.formal = flags ++ bs.map Binding.flag

/-- No two flags of a command have the same name. -/
theorem newFlagSet_some {flags : List (Flag FlagState)} {bs : List Binding}
    (hflags : flags.Sublist (helpFlag :: managerFlags)) (hbs : bs.Sublist (allBindings env)) :
    ∃ fs, newFlagSet flags (some bs) = .ok fs ∧ fs.formal = flags ++ bs.map Binding.flag ∧
      Registered env fs bs := by
  have hnodup : ((flags ++ bs.map Binding.flag).map Flag.name).Nodup :=
    ((hflags.append (hbs.map _)).map _).nodup (allFlags_nodup env)
  exact ⟨⟨_, hnodup⟩, dif_pos hnodup, rfl, hbs, flags, hflags, rfl⟩

theorem newFlagSet_eq_ok {flags : List (Flag FlagState)} {c : Configuration}
    {fs : FlagSet FlagState} (hflags : flags.Sublist (helpFlag :: managerFlags))
    (h : newFlagSet flags (c.addFlags env) = .ok fs) :
    ∃ bs, c.addFlags env = some bs ∧ Registered env fs bs := by
  cases hbs : c.addFlags env with
  | none => simp [hbs, newFlagSet] at h
  | some bs =>
    obtain ⟨fs', hfs', -, hreg⟩ := newFlagSet_some hflags (addFlags_sublist hbs)
    rw [hbs, hfs'] at h
    exact ⟨bs, rfl, Except.ok.inj h ▸ hreg⟩

theorem boolFlag_set {name : String} {shorthand : Option Char}
    {put : Bool → FlagState → FlagState} {changed : Bool} {text : String} {st st' : FlagState}
    (h : (boolFlag name shorthand put).set changed text st = .ok st') : ∃ v, st' = put v st := by
  simp only [boolFlag] at h
  cases hv : parseBool text with
  | error err => simp [hv, Except.map] at h
  | ok v =>
    simp only [hv, Except.map, Except.ok.injEq] at h
    exact ⟨v, h.symm⟩

theorem mem_commandFlags {flag : Flag FlagState} (h : flag ∈ helpFlag :: managerFlags) :
    flag = helpFlag ∨ flag = versionFlag ∨ flag = configFlag := by
  simpa [managerFlags] using h

theorem keeps_cfg {flag : Flag FlagState} (hflag : flag ∈ helpFlag :: managerFlags)
    {changed : Bool} {text : String} {st st' : FlagState}
    (h : flag.set changed text st = .ok st') : st'.cfg = st.cfg := by
  rcases mem_commandFlags hflag with rfl | rfl | rfl
  · obtain ⟨v, rfl⟩ := boolFlag_set h
    rfl
  · obtain ⟨v, rfl⟩ := boolFlag_set h
    rfl
  · obtain rfl := Except.ok.inj h
    rfl

/-- What setting a bound flag does: its field gets the value of the text. -/
theorem Binding.flag_set {b : Binding} {changed : Bool} {text : String} {st st' : FlagState}
    (h : b.flag.set changed text st = .ok st') :
    ∃ old v, st.cfg.get b.setting = some old ∧ b.value.set changed old text = .ok v ∧
      st' = { st with cfg := st.cfg.set b.setting v } := by
  simp only [Binding.flag] at h
  cases hold : st.cfg.get b.setting with
  | none => simp [hold] at h
  | some old =>
    simp only [hold] at h
    cases hv : b.value.set changed old text with
    | error err => simp [hv, Except.map] at h
    | ok v =>
      simp only [hv, Except.map, Except.ok.injEq] at h
      exact ⟨old, v, rfl, hv, h.symm⟩

namespace Registered
variable {fs : FlagSet FlagState} {bs : List Binding}

theorem cases_mem (h : Registered env fs bs) {flag : Flag FlagState} (hflag : flag ∈ fs.formal) :
    flag ∈ helpFlag :: managerFlags ∨ ∃ b ∈ bs, b.flag = flag := by
  obtain ⟨flags, hsub, heq⟩ := h.formal
  rw [heq, List.mem_append, List.mem_map] at hflag
  exact hflag.imp_left fun hmem => hsub.subset hmem

theorem flag_mem (h : Registered env fs bs) {b : Binding} (hb : b ∈ bs) :
    b.flag ∈ fs.formal := by
  obtain ⟨flags, -, heq⟩ := h.formal
  rw [heq]
  exact List.mem_append_right _ (List.mem_map_of_mem hb)

theorem mem_allFlags (h : Registered env fs bs) {flag : Flag FlagState}
    (hflag : flag ∈ fs.formal) : flag ∈ allFlags env := by
  rcases h.cases_mem hflag with hflag | ⟨b, hb, rfl⟩
  · exact List.mem_append_left _ hflag
  · exact List.mem_append_right _ (List.mem_map_of_mem (h.bindings.subset hb))

theorem eq_helpFlag (h : Registered env fs bs) {flag : Flag FlagState}
    (hflag : flag ∈ fs.formal) (hshort : flag.shorthand ≠ none) : flag = helpFlag := by
  rcases h.cases_mem hflag with hflag | ⟨b, -, rfl⟩
  · rcases mem_commandFlags hflag with rfl | rfl | rfl
    · rfl
    · exact absurd rfl hshort
    · exact absurd rfl hshort
  · exact absurd rfl hshort

theorem reads (h : Registered env fs bs) : fs.Reads (reading env) := by
  constructor
  · intro flag hflag
    exact bare_of_mem (h.mem_allFlags hflag)
  · intro flag hflag c hshort
    obtain rfl := h.eq_helpFlag hflag (by simp [hshort])
    obtain rfl : 'h' = c := Option.some.inj hshort
    exact ⟨"true", rfl, rfl⟩

/-- A parse treats the field of each flag it has as the variable of that flag. -/
theorem tracks (h : Registered env fs bs) {b : Binding} (hb : b ∈ bs) :
    Sets.Tracks fs b.name b.value fun st x => st.cfg.get b.setting = some x := by
  constructor
  · intro flag hflag hname changed text st st' x hset hx
    obtain rfl : flag = b.flag :=
      List.inj_on_of_nodup_map fs.nodup hflag (h.flag_mem hb) hname
    obtain ⟨old, v, hold, hv, rfl⟩ := Binding.flag_set hset
    obtain rfl : x = old := Option.some.inj (hx.symm.trans hold)
    exact ⟨v, hv, Configuration.get_set_self hx v⟩
  · intro flag hflag hname changed text st st' x hset hx
    rcases h.cases_mem hflag with hflag | ⟨b', hb', rfl⟩
    · rw [keeps_cfg hflag hset, hx]
    · obtain ⟨old, v, -, -, rfl⟩ := Binding.flag_set hset
      have hne : b.setting ≠ b'.setting := fun heq => hname <| congrArg Binding.name <|
        List.inj_on_of_nodup_map (allBindings_settings_nodup env) (h.bindings.subset hb')
          (h.bindings.subset hb) heq.symm
      rw [← hx]
      exact Configuration.get_set_of_ne _ hne v

theorem tracks_configFile (h : Registered env fs bs) :
    Sets.Tracks fs "config" stringValue fun st x => st.configFile = x := by
  constructor
  · intro flag hflag hname changed text st st' x hset hx
    rcases h.cases_mem hflag with hflag | ⟨b, hb, rfl⟩
    · rcases mem_commandFlags hflag with rfl | rfl | rfl
      · exact absurd hname (by decide)
      · exact absurd hname (by decide)
      · obtain rfl := Except.ok.inj hset
        exact ⟨text, rfl, rfl⟩
    · have hconfig : configFlag ∈ helpFlag :: managerFlags := by simp [managerFlags]
      exact absurd hname.symm (name_ne_of_binding hconfig (h.bindings.subset hb))
  · intro flag hflag hname changed text st st' x hset hx
    rcases h.cases_mem hflag with hflag | ⟨b, hb, rfl⟩
    · rcases mem_commandFlags hflag with rfl | rfl | rfl
      · obtain ⟨v, rfl⟩ := boolFlag_set hset
        exact hx
      · obtain ⟨v, rfl⟩ := boolFlag_set hset
        exact hx
      · exact absurd rfl hname
    · obtain ⟨old, v, -, -, rfl⟩ := Binding.flag_set hset
      exact hx

variable {args rest : List String} {st st' : FlagState}

/-- A parse leaves a field alone when the arguments name no flag of it. -/
theorem parse_unnamed (h : Registered env fs bs) (hp : fs.parse args st = .ok (rest, st'))
    {s : Setting} (hs : ∀ b ∈ bs, b.setting = s → given env args b.name = []) :
    st'.cfg.get s = st.cfg.get s := by
  refine FlagSet.parse_invariant h.reads (I := fun st' => st'.cfg.get s = st.cfg.get s)
    (fun flag hflag hnamed changed text st₁ st₂ hset hst => ?_) hp rfl
  rcases h.cases_mem hflag with hflag | ⟨b, hb, rfl⟩
  · rw [keeps_cfg hflag hset, hst]
  · obtain ⟨old, v, -, -, rfl⟩ := Binding.flag_set hset
    have hne : b.setting ≠ s := by
      intro heq
      exact hnamed (hs b hb heq)
    rw [← hst]
    exact Configuration.get_set_of_ne _ hne.symm v

theorem parse_named (h : Registered env fs bs) (hp : fs.parse args st = .ok (rest, st'))
    {b : Binding} (hb : b ∈ bs) (hb' : given env args b.name ≠ []) {x : b.setting.Value}
    (hx : st.cfg.get b.setting = some x) :
    ∃ y, st'.cfg.get b.setting = some y ∧ b.value.Final (given env args b.name) y := by
  obtain ⟨y, hy, -, hfinal⟩ := FlagSet.parse_tracks h.reads (h.tracks hb) hp hx
  exact ⟨y, hy, hfinal hb'⟩

theorem mem_of_named (h : Registered env fs bs) (hp : fs.parse args st = .ok (rest, st'))
    {b : Binding} (hb : b ∈ allBindings env) (hb' : given env args b.name ≠ []) : b ∈ bs := by
  have hnamed := FlagSet.named_subset_names h.reads hp (textsOf_ne_nil.mp hb')
  obtain ⟨flag, hflag, hname⟩ := List.mem_map.mp hnamed
  rcases h.cases_mem hflag with hflag | ⟨b', hb'', rfl⟩
  · exact absurd hname (name_ne_of_binding hflag hb)
  · obtain rfl : b' = b := List.inj_on_of_nodup_map (bindings_names_nodup env)
      (h.bindings.subset hb'') hb hname
    exact hb''

end Registered

end Flags

end FrpProvisioner
