import FrpProvisioner.Config.Agent
import FrpProvisioner.Config.Layering
import FrpProvisioner.Pflag.Fewer

/-! What becomes of arguments that the first parse of a command has accepted when they are
parsed again, with the flags of the configuration as the file left it. -/
namespace FrpProvisioner
open Pflag

section
variable {env : ConfigEnv}

theorem boolFlag_set_again {name : String} {shorthand : Option Char}
    {put : Bool → FlagState → FlagState} {changed : Bool} {text : String} {st st' : FlagState}
    (h : (boolFlag name shorthand put).set changed text st = .ok st') (changed' : Bool)
    (st₁ : FlagState) : ∃ st₁', (boolFlag name shorthand put).set changed' text st₁ = .ok st₁' := by
  simp only [boolFlag] at h ⊢
  cases hv : parseBool text with
  | error err => simp [hv, Except.map] at h
  | ok v => exact ⟨put v st₁, rfl⟩

/-- A flag set of a command with fewer flags, on fields that exist. -/
theorem fewer_of_registered {fs fs' : FlagSet FlagState} {bs bs' : List Binding}
    (hreg : Registered env fs bs) (hreg' : Registered env fs' bs')
    (hsub : fs'.formal ⊆ fs.formal) :
    fs.Fewer fs' (Present fun s => ∃ b ∈ bs', b.setting = s) := by
  constructor
  case formal => exact hsub
  case shorthand =>
    intro f hf g hg hshort heq
    rw [hreg.eq_helpFlag hf hshort, hreg.eq_helpFlag hg (heq ▸ hshort)]
  case accepts =>
    intro flag hflag changed text st st₁ hset changed' st' hst'
    have hagain : ∃ st₁', flag.set changed' text st' = .ok st₁' := by
      rcases hreg'.cases_mem hflag with hcommand | ⟨b, hb, rfl⟩
      · rcases mem_commandFlags hcommand with rfl | rfl | rfl
        · exact boolFlag_set_again hset changed' st'
        · exact boolFlag_set_again hset changed' st'
        · exact ⟨_, rfl⟩
      · obtain ⟨old, v, _, hv, _⟩ := Binding.flag_set hset
        obtain ⟨x, hx⟩ := hst' b.setting ⟨b, hb, rfl⟩
        obtain ⟨y, hy⟩ := FlagValue.set_again hv changed' x
        simp only [Binding.flag, hx, hy, Except.map]
        exact ⟨_, rfl⟩
    obtain ⟨st₁', hst₁'⟩ := hagain
    exact ⟨st₁', hst₁', Present.set hreg' hst' hflag hst₁'⟩

/-! ### The flags that can be missing -/

def samplingNames : List String := ["log.sampling.initial", "log.sampling.thereafter"]

/-- Without a sampling policy its two flags are missing, and no others. -/
theorem mem_logNames {o : Options} {n : String} :
    n ∈ (o.addFlags env).map Binding.name ↔ n ∈ (newOptions.addFlags env).map Binding.name ∧
      (o.sampling = none → n ∉ samplingNames) := by
  cases ho : o.sampling with
  | some policy => simp [Options.addFlags, newOptions, ho]
  | none =>
    simp only [Options.addFlags, newOptions, ho, samplingNames, Option.isSome_none,
      Option.isSome_some, Bool.false_eq_true, if_false, if_true, List.map_append, List.map_cons,
      List.map_nil, List.mem_append, List.mem_cons, List.not_mem_nil, or_false, forall_const]
    grind

/-- Every flag of a command but help has one of these names. -/
def secondNames (env : ConfigEnv) (o : Options) (more : List Binding) : List String :=
  managerFlags.map Flag.name ++ (o.addFlags env ++ more).map Binding.name

variable {more : List Binding} {named : List String}

theorem samplingNames_notMem (hmore : more.Sublist (ManagerOptions.addFlags env)) {n : String}
    (hn : n ∈ samplingNames) :
    n ∉ managerFlags.map Flag.name ∧ n ∉ more.map Binding.name := by
  have hlog : n ∈ (newOptions.addFlags env).map Binding.name := by
    have hsub : samplingNames ⊆ (newOptions.addFlags env).map Binding.name := by
      simp [samplingNames, Options.addFlags, newOptions]
    exact hsub hn
  have hnodup := bindings_names_nodup env
  rw [allBindings, List.map_append] at hnodup
  constructor
  · have hdisjoint : ∀ m ∈ samplingNames, m ∉ managerFlags.map Flag.name := by decide
    exact hdisjoint n hn
  · intro hmem
    exact List.disjoint_of_nodup_append hnodup hlog ((hmore.map _).subset hmem)

/-- The flags that arguments can name in the first parse but not in the second are help, and
those of a sampling policy that is gone. -/
theorem subset_names_iff (o : Options) (hmore : more.Sublist (ManagerOptions.addFlags env))
    (hnamed : named ⊆ "help" :: secondNames env newOptions more) :
    named ⊆ secondNames env o more ↔
      "help" ∉ named ∧ (o.sampling = none → ∀ n ∈ samplingNames, n ∉ named) := by
  have hsub : (o.addFlags env ++ more).Sublist (allBindings env) := o.addFlags_sublist.append hmore
  simp only [secondNames, List.map_append] at hnamed ⊢
  constructor
  · intro h
    constructor
    · intro hhelp
      rcases List.mem_append.mp (h hhelp) with hhelp | hhelp
      · simp [managerFlags, versionFlag, configFlag, boolFlag] at hhelp
      · rw [← List.map_append] at hhelp
        obtain ⟨b, hb, hname⟩ := List.mem_map.mp hhelp
        exact name_ne_of_binding List.mem_cons_self (hsub.subset hb) hname.symm
    · intro hnone n hn hmem
      obtain ⟨hcommand, hrest⟩ := samplingNames_notMem hmore hn
      have hlog : n ∉ (o.addFlags env).map Binding.name := by
        rw [mem_logNames]
        exact fun hlog => hlog.2 hnone hn
      have hn' := h hmem
      simp only [List.mem_append, hcommand, hrest, hlog, or_false] at hn'
  · rintro ⟨hhelp, hsampling⟩ n hn
    have hn' := hnamed hn
    simp only [List.mem_cons, List.mem_append] at hn' ⊢
    rcases hn' with rfl | hn' | hn' | hn'
    · exact absurd hn hhelp
    · exact .inl hn'
    · refine .inr (.inl (mem_logNames.mpr ⟨hn', ?_⟩))
      intro hnone hname
      exact hsampling hnone n hname hn
    · exact .inr (.inr hn')

end

section
variable {env : ConfigEnv} {more : List Binding} {args : List String} {o : Options}

/-- The flags that the arguments name are flags of the second parse. -/
def Fits (env : ConfigEnv) (o : Options) (args : List String) : Prop :=
  given env args "help" = [] ∧ (o.sampling = none → ∀ n ∈ samplingNames, given env args n = [])

def Bound (bs : List Binding) (s : Setting) : Prop := ∃ b ∈ bs, b.setting = s

/-- The second parse has flags to register, and it succeeds just when those that the arguments
name are among them. -/
theorem reparse {fs : FlagSet FlagState} {start st st₁ : FlagState}
    (hmore : more.Sublist (ManagerOptions.addFlags env))
    (hformal : fs.formal =
      helpFlag :: managerFlags ++ (newOptions.addFlags env ++ more).map Binding.flag)
    (hp : fs.parse args start = .ok ([], st))
    (hst₁ : Present (Bound (o.addFlags env ++ more)) st₁) :
    ∃ fs', newFlagSet managerFlags (some (o.addFlags env ++ more)) = .ok fs' ∧
      ((∃ st₂, parseFlags fs' args st₁ = .ok ([], st₂) ∧
          Present (Bound (o.addFlags env ++ more)) st₂) ∧ Fits env o args ∨
        (∃ err, parseFlags fs' args st₁ = .error (.flags err)) ∧ ¬ Fits env o args) := by
  have hbs : (newOptions.addFlags env ++ more).Sublist (allBindings env) :=
    hmore.append_left _
  have hreg : Registered env fs (newOptions.addFlags env ++ more) :=
    ⟨hbs, _, List.Sublist.refl _, hformal⟩
  have hsub : (o.addFlags env ++ more).Sublist (newOptions.addFlags env ++ more) :=
    o.addFlags_sublist.append_right _
  obtain ⟨fs', hfs', hformal', hreg'⟩ :=
    newFlagSet_some (List.sublist_cons_self helpFlag managerFlags) (hsub.trans hbs)
  refine ⟨fs', hfs', ?_⟩
  have hfewer : fs'.formal ⊆ fs.formal := by
    rw [hformal, hformal']
    exact ((List.sublist_cons_self _ _).append (hsub.map _)).subset
  have hnames : fs.names = "help" :: secondNames env newOptions more := by
    simp [FlagSet.names, hformal, secondNames, Binding.flag, Function.comp_def, helpFlag, boolFlag]
  have hnames' : fs'.names = secondNames env o more := by
    simp [FlagSet.names, hformal', secondNames, Binding.flag, Function.comp_def]
  have hnamed := FlagSet.named_subset_names hreg.reads hp
  rw [hnames] at hnamed
  have hfits : Fits env o args ↔
      (occurrences (reading env) args).map Prod.fst ⊆ secondNames env o more := by
    rw [subset_names_iff o hmore hnamed]
    simp only [Fits, given, textsOf_eq_nil]
  have hsplit := FlagSet.parse_fewer (fewer_of_registered hreg hreg' hfewer) hreg.reads hp hst₁
  rw [hnames', ← hfits] at hsplit
  rcases hsplit with ⟨⟨st₂, hparse, hst₂⟩, hfits⟩ | ⟨⟨err, herr⟩, hfits⟩
  · exact .inl ⟨⟨st₂, by simp [parseFlags, hparse], hst₂⟩, hfits⟩
  · exact .inr ⟨⟨err, by simp [parseFlags, herr]⟩, hfits⟩

end

/-! ### What the file leaves -/

/-- A null clears the log options, or the sampling policy below them; nothing else does. -/
theorem decode_log {log : Node LogFile} {o : Options} (ho : o.sampling ≠ none) :
    log = .null ∧
        log.decode { newOptions with sampling := none } LogFile.decode (some o) = none ∨
      log ≠ .null ∧ ∃ o',
        log.decode { newOptions with sampling := none } LogFile.decode (some o) = some o' ∧
        (o'.sampling = none ↔ ∃ file, log = .object file ∧ file.sampling = .null) := by
  cases log with
  | absent => exact .inr ⟨by simp, o, rfl, by simp [ho]⟩
  | null => exact .inl ⟨rfl, rfl⟩
  | object file =>
    refine .inr ⟨by simp, _, rfl, ?_⟩
    cases hs : file.sampling with
    | absent => simp [LogFile.decode, Node.decode, hs, ho]
    | null => simp [LogFile.decode, Node.decode, hs]
    | object policy => simp [LogFile.decode, Node.decode, hs]

/-- What the file may not do to the log options, with the flags that the arguments name; help
is one that they may not name at all. -/
structure Harmless (env : ConfigEnv) (args : List String) (log : Node LogFile) : Prop where
  notNull : log ≠ .null
  sampling : (∃ file, log = .object file ∧ file.sampling = .null) →
    ∀ n ∈ samplingNames, given env args n = []
  help : given env args "help" = []

theorem harmless_iff {env : ConfigEnv} {args : List String} {log : Node LogFile} {o : Options}
    (hlog : log ≠ .null)
    (ho : o.sampling = none ↔ ∃ file, log = .object file ∧ file.sampling = .null) :
    Harmless env args log ↔ Fits env o args := by
  constructor
  · intro h
    exact ⟨h.help, fun hnone => h.sampling (ho.mp hnone)⟩
  · intro h
    exact ⟨hlog, fun hnull => h.2 (ho.mpr hnull), h.1⟩

theorem Present.log {S : Setting → Prop} {st : FlagState} (h : Present S st)
    (hlevel : S (.log .level)) : ∃ o, st.cfg.log = some o := by
  obtain ⟨x, hx⟩ := h _ hlevel
  obtain ⟨o, ho, _⟩ := Option.map_eq_some_iff.mp hx
  exact ⟨o, ho⟩

theorem Present.sampling {S : Setting → Prop} {st : FlagState} (h : Present S st)
    (hinitial : S (.sampling .initial)) : ∃ o, st.cfg.log = some o ∧ o.sampling ≠ none := by
  obtain ⟨x, hx⟩ := h _ hinitial
  obtain ⟨o, ho, hs⟩ := Option.bind_eq_some_iff.mp hx
  obtain ⟨policy, hpolicy, _⟩ := Option.map_eq_some_iff.mp hs
  exact ⟨o, ho, by simp [hpolicy]⟩

theorem Present.manager {S : Setting → Prop} {st : FlagState} (h : Present S st)
    (helection : S (.manager .leaderElection)) : ∃ m, st.cfg.manager = some m := by
  obtain ⟨x, hx⟩ := h _ helection
  obtain ⟨m, hm, _⟩ := Option.map_eq_some_iff.mp hx
  exact ⟨m, hm⟩

/-! ### The manager -/

/-- The manager's command comes to its second parse: the arguments are accepted and the file
they name decodes. -/
structure Loads (host : Host) (args : List String) (file : ConfigFile) (st : FlagState) :
    Prop where
  parse : ∃ fs, newFlagSet (helpFlag :: managerFlags)
      ((newConfiguration.setDefaults host.env).addFlags host.env) = .ok fs ∧
    fs.parse args ⟨false, false, defaultConfigFile, newConfiguration.setDefaults host.env⟩ =
      .ok ([], st)
  help : st.help = false
  version : st.showVersion = false
  flags : validateManagerFlags host st.configFile = none
  file : host.readConfig st.configFile = .ok file

section
variable {host : Host} {args : List String} {file : ConfigFile} {st : FlagState}

theorem Loads.startup_eq (h : Loads host args file st) :
    startup host args = flagPrecedence host.env args (file.decode st.cfg) := by
  obtain ⟨fs, hfs, hp⟩ := h.parse
  have hafter : afterParse host [] st = .ok (file.decode st.cfg) := by
    simp [afterParse, h.help, h.version, h.flags, loadConfigFile, h.file]
  unfold startup
  simp only [hfs, parseFlags, hp, hafter, bind, Except.bind]

theorem flagPrecedence_panics {env : ConfigEnv} {c : Configuration} (h : c.addFlags env = none) :
    flagPrecedence env args c = .error .panic := by
  unfold flagPrecedence
  simp only [h, newFlagSet, bind, Except.bind]

/-- Where there are log and manager options, the second parse and the validation end well just
when the flags fit. -/
theorem flagPrecedence_iff {env : ConfigEnv} {o : Options} {m : ManagerOptions}
    {fs : FlagSet FlagState} {start : FlagState}
    (hformal : fs.formal = helpFlag :: managerFlags ++ (allBindings env).map Binding.flag)
    (hp : fs.parse args start = .ok ([], st)) (yaml : YamlDecoder) :
    (∃ cfg, flagPrecedence env args ⟨some o, some m⟩ = .ok cfg ∧
      (cfg.validate yaml).isSome = true) ↔ Fits env o args := by
  have hst₁ : Present (Bound (o.addFlags env ++ ManagerOptions.addFlags env))
      ⟨false, false, "", some o, some m⟩ := by
    rintro s ⟨b, hb, rfl⟩
    exact get_of_addFlags rfl hb
  have hlevel : Bound (o.addFlags env ++ ManagerOptions.addFlags env) (.log .level) := by
    simp [Bound, Options.addFlags]
  have helection : Bound (o.addFlags env ++ ManagerOptions.addFlags env)
      (.manager .leaderElection) :=
    ⟨_, List.mem_append_right _ List.mem_cons_self, rfl⟩
  obtain ⟨fs', hfs', hparse⟩ := reparse (List.Sublist.refl _) hformal hp hst₁
  have haddFlags : (Configuration.mk (some o) (some m)).addFlags env =
      some (o.addFlags env ++ ManagerOptions.addFlags env) := rfl
  unfold flagPrecedence
  simp only [haddFlags, hfs', bind, Except.bind]
  rcases hparse with ⟨⟨st₂, hparse, hst₂⟩, hfits⟩ | ⟨⟨err, herr⟩, hfits⟩
  · simp only [hparse, hfits, iff_true]
    obtain ⟨o₂, ho₂⟩ := hst₂.log hlevel
    obtain ⟨m₂, hm₂⟩ := hst₂.manager helection
    exact ⟨st₂.cfg, rfl, by simp [Configuration.validate, ho₂, hm₂]⟩
  · simp [herr, hfits]

theorem Loads.startup_iff (h : Loads host args file st) (yaml : YamlDecoder) :
    (∃ cfg, startup host args = .ok cfg ∧ (cfg.validate yaml).isSome = true) ↔
      Harmless host.env args file.log ∧ file.manager ≠ .null := by
  obtain ⟨fs, hfs, hp⟩ := h.parse
  have hfirst : (newConfiguration.setDefaults host.env).addFlags host.env =
      some (allBindings host.env) := rfl
  obtain ⟨fs', hfs', hformal, hreg⟩ :=
    newFlagSet_some (List.Sublist.refl _) (List.Sublist.refl (allBindings host.env))
  rw [hfirst, hfs'] at hfs
  obtain rfl : fs' = fs := Except.ok.inj hfs
  have hpresent : Present (fun _ => True) st :=
    Present.parse hreg (fun s _ => get_setDefaults host.env s) hp
  obtain ⟨o, ho, hsampling⟩ := hpresent.sampling trivial
  obtain ⟨m, hm⟩ := hpresent.manager trivial
  rw [h.startup_eq, ConfigFile.decode, ho, hm]
  rcases decode_log hsampling with ⟨hnull, hnone⟩ | ⟨hnot, o', ho', hpolicy⟩
  · rw [hnone, flagPrecedence_panics rfl]
    simp only [reduceCtorEq, false_and, exists_false, false_iff, not_and]
    exact fun hharmless => absurd hnull hharmless.notNull
  · rw [ho', harmless_iff hnot hpolicy]
    cases hmanager : file.manager with
    | null =>
      have hnone : (Node.null.decode newManagerOptions overlay (some m)) = none := rfl
      rw [hnone, flagPrecedence_panics rfl]
      simp
    | absent =>
      rw [Node.decode, flagPrecedence_iff hformal hp]
      simp
    | object m' =>
      rw [Node.decode, flagPrecedence_iff hformal hp]
      simp

end

/-! ### The agent -/

structure AgentLoads (host : AgentHost) (args : List String) (file : AgentFile)
    (st : FlagState) : Prop where
  parse : ∃ fs, newFlagSet (helpFlag :: agentFlags)
      (newAgentConfiguration.setDefaults.addFlags host.env) = .ok fs ∧
    fs.parse args ⟨false, false, defaultAgentConfigFile,
      newAgentConfiguration.setDefaults.fields⟩ = .ok ([], st)
  help : st.help = false
  version : st.showVersion = false
  flags : validateAgentFlags host st.configFile = none
  file : host.readConfig st.configFile = .ok file

section
variable {host : AgentHost} {args : List String} {file : AgentFile} {st : FlagState}

theorem AgentLoads.startup_eq (h : AgentLoads host args file st) :
    agentStartup host args = agentFlagPrecedence host.env args (file.decode ⟨st.cfg.log⟩) := by
  obtain ⟨fs, hfs, hp⟩ := h.parse
  have hafter : agentAfterParse host [] st = .ok (file.decode ⟨st.cfg.log⟩) := by
    simp [agentAfterParse, h.help, h.version, h.flags, loadAgentConfigFile, h.file]
  unfold agentStartup
  simp only [hfs, parseFlags, hp, hafter, bind, Except.bind]

/-- Where there are log options, the agent's second parse and validation end well just when the
flags fit. -/
theorem agentFlagPrecedence_iff {env : ConfigEnv} {o : Options} {fs : FlagSet FlagState}
    {start : FlagState}
    (hformal : fs.formal = helpFlag :: managerFlags ++ (newOptions.addFlags env).map Binding.flag)
    (hp : fs.parse args start = .ok ([], st)) :
    (∃ cfg, agentFlagPrecedence env args ⟨some o⟩ = .ok cfg ∧ cfg.validate.isSome = true) ↔
      Fits env o args := by
  have hst₁ : Present (Bound (o.addFlags env ++ [])) ⟨false, false, "", some o, none⟩ := by
    rintro s ⟨b, hb, rfl⟩
    rw [List.append_nil] at hb
    exact Options.get_of_addFlags hb none
  have hlevel : Bound (o.addFlags env ++ []) (.log .level) := by
    simp [Bound, Options.addFlags]
  rw [← List.append_nil (newOptions.addFlags env)] at hformal
  obtain ⟨fs', hfs', hparse⟩ := reparse (List.nil_sublist _) hformal hp hst₁
  have haddFlags : (AgentConfiguration.mk (some o)).addFlags env = some (o.addFlags env ++ []) := by
    rw [List.append_nil]
    rfl
  have hflags : agentFlags = managerFlags := rfl
  unfold agentFlagPrecedence
  simp only [haddFlags, hflags, hfs', bind, Except.bind, AgentConfiguration.fields]
  rcases hparse with ⟨⟨st₂, hparse, hst₂⟩, hfits⟩ | ⟨⟨err, herr⟩, hfits⟩
  · simp only [hparse, hfits, iff_true]
    obtain ⟨o₂, ho₂⟩ := hst₂.log hlevel
    exact ⟨⟨st₂.cfg.log⟩, rfl, by simp [AgentConfiguration.validate, ho₂]⟩
  · simp [herr, hfits]

theorem AgentLoads.startup_iff (h : AgentLoads host args file st) :
    (∃ cfg, agentStartup host args = .ok cfg ∧ cfg.validate.isSome = true) ↔
      Harmless host.env args file.log := by
  obtain ⟨fs, hfs, hp⟩ := h.parse
  have hfirst : newAgentConfiguration.setDefaults.addFlags host.env =
      some (newOptions.addFlags host.env) := rfl
  obtain ⟨fs', hfs', hformal, hreg⟩ := newFlagSet_some (List.Sublist.refl _)
    (List.sublist_append_left (newOptions.addFlags host.env) _)
  have hflags : agentFlags = managerFlags := rfl
  rw [hfirst, hflags, hfs'] at hfs
  obtain rfl : fs' = fs := Except.ok.inj hfs
  have hstart : Present (fun s => ∀ f, s ≠ .manager f) ⟨false, false, defaultAgentConfigFile,
      newAgentConfiguration.setDefaults.fields⟩ := by
    intro s hs
    cases s with
    | log f => exact ⟨_, rfl⟩
    | sampling f => exact ⟨_, rfl⟩
    | manager f => exact absurd rfl (hs f)
  obtain ⟨o, ho, hsampling⟩ := (Present.parse hreg hstart hp).sampling (by simp)
  rw [h.startup_eq, AgentFile.decode, ho]
  rcases decode_log hsampling with ⟨hnull, hnone⟩ | ⟨hnot, o', ho', hpolicy⟩
  · have hpanic : agentFlagPrecedence host.env args ⟨none⟩ = .error .panic := rfl
    rw [hnone, hpanic]
    simp only [reduceCtorEq, false_and, exists_false, false_iff]
    exact fun hharmless => hharmless.notNull hnull
  · rw [ho', harmless_iff hnot hpolicy, agentFlagPrecedence_iff hformal hp]

end

/-- With arguments that the first parse accepts and a file that decodes, the second parse and
the validation end well, for the manager and for the agent, exactly if the file clears no
options, keeps a sampling policy whose flags are named, and help is not named. -/
theorem second_parse_survives_iff (args : List String) :
    (∀ host file st, Loads host args file st → ∀ yaml,
      ((∃ cfg, startup host args = .ok cfg ∧ (cfg.validate yaml).isSome = true) ↔
        Harmless host.env args file.log ∧ file.manager ≠ .null)) ∧
    ∀ host file st, AgentLoads host args file st →
      ((∃ cfg, agentStartup host args = .ok cfg ∧ cfg.validate.isSome = true) ↔
        Harmless host.env args file.log) := by
  constructor
  · intro host file st h yaml
    exact h.startup_iff yaml
  · intro host file st h
    exact h.startup_iff

/-- Hosts on which every name is that of one file. -/
def hostWith (file : ConfigFile) : Host := { fileHost with readConfig := fun _ => .ok file }

def agentHostWith (file : AgentFile) : AgentHost := ⟨fileHost.env, fun _ => none, fun _ => .ok file⟩

def emptyFile : ConfigFile := ⟨.absent, .absent⟩

/-- A file with `sampling: null` below `log`. -/
def noSampling : LogFile := ⟨fun _ => none, .null⟩

/-- Arguments that leave a sampling policy alone survive a file without one. -/
theorem second_parse_survives_noSampling :
    (∃ cfg, startup (hostWith ⟨.object noSampling, .absent⟩) ["--log.encoding=json"] = .ok cfg ∧
      (cfg.validate ManagerOptions.defaultDecoder).isSome = true) ∧
    ∃ cfg, agentStartup (agentHostWith ⟨.object noSampling⟩) ["--log.encoding=json"] = .ok cfg ∧
      cfg.validate.isSome = true := by
  have hharmless : Harmless fileHost.env ["--log.encoding=json"] (.object noSampling) :=
    ⟨by simp, fun _ => by decide, by decide⟩
  obtain ⟨manager, agent⟩ := second_parse_survives_iff ["--log.encoding=json"]
  constructor
  · have hloads : Loads (hostWith ⟨.object noSampling, .absent⟩) ["--log.encoding=json"]
        ⟨.object noSampling, .absent⟩ _ :=
      ⟨⟨_, rfl, rfl⟩, rfl, rfl, rfl, rfl⟩
    exact (manager _ _ _ hloads _).mpr ⟨hharmless, by simp⟩
  · have hloads : AgentLoads (agentHostWith ⟨.object noSampling⟩) ["--log.encoding=json"]
        ⟨.object noSampling⟩ _ :=
      ⟨⟨_, rfl, rfl⟩, rfl, rfl, rfl, rfl⟩
    exact (agent _ _ _ hloads).mpr hharmless

/-- Starts that fail behind a first parse that accepts: at a nil pointer, at the flag of a
cleared sampling policy, and at the help flag that only the first parse has. -/
theorem accepted_arguments_fail :
    (∃ st, Loads (hostWith ⟨.null, .absent⟩) [] ⟨.null, .absent⟩ st ∧
      startup (hostWith ⟨.null, .absent⟩) [] = .error .panic) ∧
    (∃ st, AgentLoads (agentHostWith ⟨.null⟩) [] ⟨.null⟩ st ∧
      agentStartup (agentHostWith ⟨.null⟩) [] = .error .panic) ∧
    (∃ st, Loads (hostWith ⟨.object noSampling, .absent⟩) ["--log.sampling.initial=5"]
        ⟨.object noSampling, .absent⟩ st ∧
      startup (hostWith ⟨.object noSampling, .absent⟩) ["--log.sampling.initial=5"] =
        .error (.flags (.unknownFlag "log.sampling.initial"))) ∧
    ∃ st, Loads (hostWith emptyFile) ["--help=false"] emptyFile st ∧
      startup (hostWith emptyFile) ["--help=false"] = .error (.flags .helpRequested) := by
  refine ⟨?_, ?_, ?_, ?_⟩
  · have h : Loads (hostWith ⟨.null, .absent⟩) [] ⟨.null, .absent⟩ _ :=
      ⟨⟨_, rfl, rfl⟩, rfl, rfl, rfl, rfl⟩
    exact ⟨_, h, h.startup_eq.trans rfl⟩
  · have h : AgentLoads (agentHostWith ⟨.null⟩) [] ⟨.null⟩ _ :=
      ⟨⟨_, rfl, rfl⟩, rfl, rfl, rfl, rfl⟩
    exact ⟨_, h, h.startup_eq.trans rfl⟩
  · have h : Loads (hostWith ⟨.object noSampling, .absent⟩) ["--log.sampling.initial=5"]
        ⟨.object noSampling, .absent⟩ _ :=
      ⟨⟨_, rfl, rfl⟩, rfl, rfl, rfl, rfl⟩
    exact ⟨_, h, h.startup_eq.trans rfl⟩
  · have h : Loads (hostWith emptyFile) ["--help=false"] emptyFile _ :=
      ⟨⟨_, rfl, rfl⟩, rfl, rfl, rfl, rfl⟩
    exact ⟨_, h, h.startup_eq.trans rfl⟩

end FrpProvisioner
