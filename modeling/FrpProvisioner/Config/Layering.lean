import FrpProvisioner.Config.Startup

/-! Arguments over file over defaults. A start that comes to a configuration has parsed its
arguments twice and decoded the file in between; what each field holds in the end does not
depend on that history. -/
namespace FrpProvisioner
open Pflag

/-- The value of a field that no flag sets: the file's, or else the default. -/
def inherited (env : ConfigEnv) (file : ConfigFile) (s : Setting) : Option s.Value :=
  ((newConfiguration.setDefaults env).get s).bind (file.lookup s).orElse

def configPath (env : ConfigEnv) (args : List String) : String :=
  (given env args "config").getLast?.getD defaultConfigFile

/-- Arguments over file over defaults, for the fields with a flag and for the others. Only the
sampling policy can be missing. -/
structure Layered (env : ConfigEnv) (args : List String) (file : ConfigFile)
    (cfg : Configuration) : Prop where
  named : ∀ b ∈ allBindings env, given env args b.name ≠ [] →
    ∃ x, cfg.get b.setting = some x ∧ b.value.Final (given env args b.name) x
  unnamed : ∀ b ∈ allBindings env, given env args b.name = [] →
    cfg.get b.setting = inherited env file b.setting
  unbound : ∀ s, (∀ b ∈ allBindings env, b.setting ≠ s) → cfg.get s = inherited env file s
  present : ∀ s, cfg.get s = none → ∃ f, s = .sampling f

section Startup
variable {host : Host} {args : List String} {cfg : Configuration}

/-- A flag is bound to a field that exists. -/
theorem get_of_addFlags {env : ConfigEnv} {c : Configuration} {bs : List Binding}
    (h : c.addFlags env = some bs) {b : Binding} (hb : b ∈ bs) :
    ∃ x, c.get b.setting = some x := by
  have hmanager : ∀ b ∈ ManagerOptions.addFlags env, ∃ f, b.setting = .manager f := by
    simp [ManagerOptions.addFlags]
  obtain ⟨o, m, rfl, rfl⟩ := Configuration.addFlags_eq_some h
  rcases List.mem_append.1 hb with hb | hb
  · exact Options.get_of_addFlags hb (some m)
  · obtain ⟨f, hf⟩ := hmanager b hb
    rw [hf]
    exact ⟨_, rfl⟩

theorem get_of_addFlags_some {env : ConfigEnv} {c : Configuration} {bs : List Binding}
    (h : c.addFlags env = some bs) {s : Setting} (hs : ¬ ∃ f, s = .sampling f) :
    ∃ x, c.get s = some x := by
  obtain ⟨o, m, rfl, -⟩ := Configuration.addFlags_eq_some h
  cases s with
  | log f => exact ⟨_, rfl⟩
  | sampling f => exact absurd ⟨f, rfl⟩ hs
  | manager f => exact ⟨_, rfl⟩

private theorem ok_of_bind {α β : Type} {x : Except Ended α} {f : α → Except Ended β} {y : β}
    (h : x >>= f = .ok y) : ∃ a, x = .ok a ∧ f a = .ok y := by
  cases x with
  | error err => exact nomatch h
  | ok a => exact ⟨a, rfl, h⟩

theorem parseFlags_eq_ok {fs : FlagSet FlagState} {st : FlagState}
    {parsed : List String × FlagState} (h : parseFlags fs args st = .ok parsed) :
    fs.parse args st = .ok parsed := by
  unfold parseFlags at h
  cases hp : fs.parse args st with
  | error err => simp [hp] at h
  | ok parsed' => simpa [hp] using h

theorem afterParse_eq_ok {rest : List String} {st : FlagState}
    (h : afterParse host rest st = .ok cfg) :
    rest = [] ∧ ∃ file, host.readConfig st.configFile = .ok file ∧ cfg = file.decode st.cfg := by
  unfold afterParse at h
  cases rest with
  | cons arg rest => simp at h
  | nil =>
    refine ⟨rfl, ?_⟩
    simp only at h
    split at h
    · simp at h
    split at h
    · simp at h
    cases hv : validateManagerFlags host st.configFile with
    | some err => simp [hv] at h
    | none =>
      simp only [hv, loadConfigFile] at h
      cases hr : host.readConfig st.configFile with
      | error err => simp [hr] at h
      | ok file =>
        simp only [hr, Except.ok.injEq] at h
        exact ⟨file, rfl, h.symm⟩

theorem startup_eq_ok (h : startup host args = .ok cfg) :
    ∃ fs st file fs' rest st', newFlagSet (helpFlag :: managerFlags)
          ((newConfiguration.setDefaults host.env).addFlags host.env) = .ok fs ∧
      fs.parse args ⟨false, false, defaultConfigFile, newConfiguration.setDefaults host.env⟩ =
        .ok ([], st) ∧
      host.readConfig st.configFile = .ok file ∧
      newFlagSet managerFlags ((file.decode st.cfg).addFlags host.env) = .ok fs' ∧
      fs'.parse args ⟨false, false, "", file.decode st.cfg⟩ = .ok (rest, st') ∧
      st'.cfg = cfg := by
  obtain ⟨fs, hfs, h⟩ := ok_of_bind h
  obtain ⟨⟨rest, st⟩, hp, h⟩ := ok_of_bind h
  obtain ⟨loaded, hl, h⟩ := ok_of_bind h
  obtain ⟨rfl, file, hfile, rfl⟩ := afterParse_eq_ok hl
  obtain ⟨fs', hfs', h⟩ := ok_of_bind h
  obtain ⟨⟨rest', st'⟩, hp', h⟩ := ok_of_bind h
  exact ⟨fs, st, file, fs', rest', st', hfs, parseFlags_eq_ok hp, hfile, hfs',
    parseFlags_eq_ok hp', Except.ok.inj h⟩

theorem get_setDefaults (env : ConfigEnv) (s : Setting) :
    ∃ x, (newConfiguration.setDefaults env).get s = some x := by
  cases s <;> exact ⟨_, rfl⟩

/-- The command reads the file its last `--config` names. -/
theorem configFile_eq {env : ConfigEnv} {fs : FlagSet FlagState} {bs : List Binding}
    (h : Registered env fs bs) {rest : List String} {st st' : FlagState}
    (hp : fs.parse args st = .ok (rest, st')) (hst : st.configFile = defaultConfigFile) :
    st'.configFile = configPath env args := by
  obtain ⟨y, hy, hnil, hfinal⟩ := FlagSet.parse_tracks h.reads h.tracks_configFile hp hst
  unfold configPath
  by_cases hg : given env args "config" = []
  · rw [hy, hnil hg, hg]
    rfl
  · obtain ⟨text, hlast, htext⟩ := hfinal hg
    have hlast' : (given env args "config").getLast? = some text := hlast
    rw [hy, hlast', Option.getD_some]
    exact (Except.ok.inj htext).symm

/-- Whenever the start comes to a configuration, its fields are layered: the flags the
arguments name come first, then the file they name, then the defaults. -/
theorem startup_layered (h : startup host args = .ok cfg) :
    ∃ file, host.readConfig (configPath host.env args) = .ok file ∧
      Layered host.env args file cfg := by
  obtain ⟨fs, st, file, fs', rest, st', hfs, hp, hfile, hfs', hp', rfl⟩ := startup_eq_ok h
  obtain ⟨bs, -, hreg⟩ := newFlagSet_eq_ok (.refl _) hfs
  obtain ⟨bs', hbs', hreg'⟩ := newFlagSet_eq_ok (List.sublist_cons_self _ _) hfs'
  refine ⟨file, configFile_eq hreg hp rfl ▸ hfile, ?_⟩
  have hnamed : ∀ b ∈ allBindings host.env, given host.env args b.name ≠ [] →
      ∃ x, st'.cfg.get b.setting = some x ∧ b.value.Final (given host.env args b.name) x := by
    intro b hb hb'
    have hmem := hreg'.mem_of_named hp' hb hb'
    obtain ⟨x, hx⟩ := get_of_addFlags hbs' hmem
    exact hreg'.parse_named hp' hmem hb' hx
  -- without a named flag neither parse changes the field, so it is as the file left it
  have hunnamed : ∀ s, (∀ b ∈ allBindings host.env, b.setting = s →
        given host.env args b.name = []) →
      st'.cfg.get s = (file.decode st.cfg).get s ∧ st'.cfg.get s = inherited host.env file s := by
    intro s hs
    obtain ⟨x, hx⟩ := get_setDefaults host.env s
    have hfirst : st.cfg.get s = some x :=
      (hreg.parse_unnamed hp fun b hb => hs b (hreg.bindings.subset hb)).trans hx
    have hsecond : st'.cfg.get s = (file.decode st.cfg).get s :=
      hreg'.parse_unnamed hp' fun b hb => hs b (hreg'.bindings.subset hb)
    refine ⟨hsecond, ?_⟩
    rw [hsecond, file.get_decode hfirst, inherited, hx]
    rfl
  constructor
  · exact hnamed
  · intro b hb hnil
    refine (hunnamed b.setting fun b' hb' heq => ?_).2
    rwa [List.inj_on_of_nodup_map (allBindings_settings_nodup host.env) hb' hb heq]
  · intro s hs
    exact (hunnamed s fun b hb heq => absurd heq (hs b hb)).2
  · intro s hnone
    by_contra hsampling
    obtain ⟨x, hx⟩ := get_of_addFlags_some hbs' hsampling
    by_cases hb : ∃ b ∈ allBindings host.env, b.setting = s ∧ given host.env args b.name ≠ []
    · obtain ⟨b, hb, rfl, hne⟩ := hb
      obtain ⟨y, hy, -⟩ := hnamed b hb hne
      exact nomatch hnone.symm.trans hy
    · push Not at hb
      exact nomatch hnone.symm.trans ((hunnamed s hb).1.trans hx)

end Startup

def fileHost : Host where
  env :=
    { joinTempDir := fun elems => "/".intercalate ("/tmp" :: elems)
      parseInt := fun s => if s = "5" then .ok 5 else .error "invalid syntax"
      parseDuration := fun s => if s = "20s" then .ok (20 * second) else .error "invalid duration" }
  stat _ := none
  readConfig filename :=
    if filename = defaultConfigFile then
      .ok
        { log := .object
            { fields := fun
                | .encoding => some "json"
                | .outputPaths => some ["/var/log/manager.log"]
                | _ => none
              sampling := .object fun
                | .initial => some 10
                | .thereafter => some 20 }
          manager := .object fun
            | .leaseDuration => some (60 * second)
            | _ => none }
    else .error "no such file"

def fileArgs : List String :=
  ["--log.output-paths=a", "--log.encoding", "console", "--manager.leader-election",
    "--log.sampling.initial=5", "--log.output-paths", "b"]

theorem startup_layered_fileHost :
    ∃ cfg, startup fileHost fileArgs = .ok cfg ∧
      cfg.get (.log .outputPaths) = some ["a", "b"] ∧
      cfg.get (.sampling .thereafter) = some 20 ∧
      ∃ file, fileHost.readConfig (configPath fileHost.env fileArgs) = .ok file ∧
        Layered fileHost.env fileArgs file cfg := by
  have hstart : ∃ cfg, startup fileHost fileArgs = .ok cfg ∧
      cfg.get (.log .outputPaths) = some ["a", "b"] ∧
      cfg.get (.sampling .thereafter) = some 20 := ⟨_, rfl, rfl, rfl⟩
  obtain ⟨cfg, hcfg, hpaths, hthereafter⟩ := hstart
  exact ⟨cfg, hcfg, hpaths, hthereafter, startup_layered hcfg⟩

end FrpProvisioner
