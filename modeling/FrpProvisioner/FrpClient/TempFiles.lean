import FrpProvisioner.FrpClient.Walk
import Mathlib.Logic.Function.Basic

/-! The temporary files of the live check: what is in the directory before and after it, and what
the connector finds there when it is opened. -/
namespace FrpProvisioner
open Effect

abbrev Files := String → Option (List UInt8)

/-- A file that was removed while it was open is written to no purpose. -/
def appendTo (files : Files) (file : String) (data : List UInt8) : Files :=
  match files file with
  | some old => Function.update files file (some (old ++ data))
  | none => files

/-- The temporary directory, the Secrets of the cluster, and what the connector was opened with
and found in the directory. -/
structure Machine where
  files : Files
  secrets : NamespacedName → Option SecretData
  opened : List (ClientCommonConfig × Files)

/-- `CreateTemp` returns names that are not in use, and `Remove` succeeds. All else may fail; a
write that does may have written a part. -/
def Machine.serve : Server ProbeRequest ProbeResponse Machine
  | m, .getSecret key, .ok data, m' => m.secrets key = some data ∧ m' = m
  | m, .createTemp _, .ok file, m' => file ≠ "" ∧ m.files file = none ∧
      m' = { m with files := Function.update m.files file (some []) }
  | m, .write file data, none, m' => m' = { m with files := appendTo m.files file data }
  | m, .write file data, some _, m' => ∃ part, part <+: data ∧
      m' = { m with files := appendTo m.files file part }
  | m, .remove file, _, m' => m' = { m with files := Function.update m.files file none }
  | m, .openConnector config, _, m' => m' = { m with opened := m.opened ++ [(config, m.files)] }
  | m, _, _, m' => m' = m

/-- The TLS material of a Secret is in place: TLS is enabled, and the files that are named are
different ones with the contents of the Secret. -/
structure Installed (data : SecretData) (tls : TLSClientConfig) (files : Files) : Prop where
  enable : tls.enable = some true
  cert : ∃ certData, data.get defaultCertFileName = some certData ∧
    files tls.certFile = some certData
  key : ∃ keyData, data.get defaultKeyFileName = some keyData ∧ files tls.keyFile = some keyData
  pair : tls.certFile ≠ tls.keyFile
  ca : ∀ caData, data.get defaultCaFileName = some caData →
    files tls.trustedCaFile = some caData ∧ tls.trustedCaFile ≠ tls.certFile ∧
      tls.trustedCaFile ≠ tls.keyFile
  ca_iff : tls.trustedCaFile ≠ "" ↔ (data.get defaultCaFileName).isSome

/-- The files of `base` with those held on top. -/
def pushFiles (base : Files) (held : List TempFile) : Files :=
  held.foldr (fun file files => Function.update files file.1 (some file.2)) base

theorem pushFiles_cons (base : Files) (file : TempFile) (held : List TempFile) :
    pushFiles base (file :: held) =
      Function.update (pushFiles base held) file.1 (some file.2) := rfl

theorem pushFiles_eq_none {base : Files} {held : List TempFile} {name : String} :
    pushFiles base held name = none ↔ (∀ file ∈ held, file.1 ≠ name) ∧ base name = none := by
  induction held with
  | nil => simp [pushFiles]
  | cons file held ih =>
    rw [pushFiles_cons]
    by_cases hname : name = file.1
    · subst hname
      simp
    · rw [Function.update_of_ne hname, ih]
      simp [Ne.symm hname]

def NewFiles (base : Files) : List TempFile → Prop
  | [] => True
  | file :: held => file.1 ≠ "" ∧ pushFiles base held file.1 = none ∧ NewFiles base held

theorem pushFiles_mem {base : Files} {held : List TempFile} (hnew : NewFiles base held)
    {file : TempFile} (hfile : file ∈ held) : pushFiles base held file.1 = some file.2 := by
  induction held with
  | nil => cases hfile
  | cons newest held ih =>
    obtain ⟨-, hnone, hrest⟩ := hnew
    rw [pushFiles_cons]
    rcases List.mem_cons.mp hfile with rfl | hfile
    · exact Function.update_self ..
    · have hne : file.1 ≠ newest.1 := (pushFiles_eq_none.mp hnone).1 file hfile
      rw [Function.update_of_ne hne]
      exact ih hrest hfile

/-- What holds while a check of the Secret `key` that began in `m₀` holds files. -/
structure Machine.Holding (m₀ : Machine) (key : NamespacedName) (held : List TempFile)
    (m : Machine) : Prop where
  files : m.files = pushFiles m₀.files held
  new : NewFiles m₀.files held
  secrets : m.secrets = m₀.secrets
  opened : ∃ openings, m.opened = m₀.opened ++ openings ∧ ∀ opening ∈ openings, ∃ data,
    m₀.secrets key = some data ∧ Installed data opening.1.transport.tls opening.2

namespace Machine
variable {m₀ m m' : Machine} {key : NamespacedName} {held : List TempFile}

variable {file : String} {content : List UInt8}

theorem Holding.content_eq (h : Holding m₀ key ((file, content) :: held) m) :
    m.files file = some content := by
  rw [h.files, pushFiles_cons]
  exact Function.update_self ..

/-- The newest file is written for the first time. -/
theorem Holding.append (h : Holding m₀ key ((file, []) :: held) m) (data : List UInt8) :
    Holding m₀ key ((file, data) :: held) { m with files := appendTo m.files file data } := by
  refine ⟨?_, h.new, h.secrets, h.opened⟩
  dsimp only [appendTo]
  rw [h.content_eq, h.files, pushFiles_cons, pushFiles_cons]
  exact Function.update_idem ..

/-- The newest file goes. -/
theorem Holding.pop (h : Holding m₀ key ((file, content) :: held) m) :
    Holding m₀ key held { m with files := Function.update m.files file none } := by
  obtain ⟨-, hnone, hnew⟩ := h.new
  refine ⟨?_, hnew, h.secrets, h.opened⟩
  dsimp only at hnone ⊢
  rw [h.files, pushFiles_cons, Function.update_idem, ← hnone]
  exact Function.update_eq_self ..

theorem keepsFiles (m₀ : Machine) (key : NamespacedName) :
    Probe.KeepsFiles serve (fun _ _ _ _ => True) (Holding m₀ key) where
  create held pattern file m m' h hserve := by
    obtain ⟨hname, hnone, rfl⟩ := hserve
    rw [h.files] at hnone
    refine ⟨trivial, ?_, ⟨hname, hnone, h.new⟩, h.secrets, h.opened⟩
    rw [pushFiles_cons, ← h.files]
  noCreate held pattern err m m' h hserve := by
    obtain rfl : m' = m := hserve
    exact ⟨trivial, h⟩
  write held file data m m' h hserve := by
    obtain rfl : m' = _ := hserve
    exact ⟨trivial, h.append data⟩
  noWrite held file data err m m' h hserve := by
    obtain ⟨part, -, rfl⟩ := hserve
    exact ⟨trivial, part, h.append part⟩
  close held file m m' h hserve := by
    obtain rfl : m' = m := hserve
    exact ⟨trivial, h⟩
  remove held file m m' h hserve := by
    obtain rfl : m' = _ := hserve
    exact ⟨trivial, h.pop⟩

/-- The files that were made of a Secret are its material, and completion leaves them named. -/
theorem installed_of_material {data : SecretData} {config c : ClientCommonConfig}
    (httpProxy : String) (henable : config.transport.tls.enable = some true)
    (hempty : config.transport.tls.trustedCaFile = "") (h : Probe.Material data config held c)
    (hfiles : m.files = pushFiles m₀.files held) (hnew : NewFiles m₀.files held) :
    Installed data (c.complete httpProxy).transport.tls m.files := by
  have hheld : ∀ file ∈ held, m.files file.1 = some file.2 := by
    intro file hfile
    rw [hfiles]
    exact pushFiles_mem hnew hfile
  cases h with
  | @pair certFile keyFile certData keyData hcert hkey hnone =>
    obtain ⟨-, hkeyNew, -⟩ := hnew
    have hkeys := (pushFiles_eq_none.mp hkeyNew).1
    constructor
    · show emptyOr config.transport.tls.enable (some true) = some true
      rw [henable]
      rfl
    · exact ⟨certData, hcert, hheld (certFile, certData) (by simp)⟩
    · exact ⟨keyData, hkey, hheld (keyFile, keyData) (by simp)⟩
    · exact hkeys (certFile, certData) (by simp)
    · intro caData hsome
      rw [hnone] at hsome
      cases hsome
    · show config.transport.tls.trustedCaFile ≠ "" ↔ _
      simp [hempty, hnone]
  | @ca certFile keyFile caFile certData keyData caData hcert hkey hsome =>
    obtain ⟨hname, hcaNew, -, hkeyNew, -⟩ := hnew
    have hcas := (pushFiles_eq_none.mp hcaNew).1
    have hkeys := (pushFiles_eq_none.mp hkeyNew).1
    constructor
    · show emptyOr config.transport.tls.enable (some true) = some true
      rw [henable]
      rfl
    · exact ⟨certData, hcert, hheld (certFile, certData) (by simp)⟩
    · exact ⟨keyData, hkey, hheld (keyFile, keyData) (by simp)⟩
    · exact hkeys (certFile, certData) (by simp)
    · intro caData' hsome'
      rw [hsome] at hsome'
      cases hsome'
      exact ⟨hheld (caFile, caData) (by simp), Ne.symm (hcas (certFile, certData) (by simp)),
        Ne.symm (hcas (keyFile, keyData) (by simp))⟩
    · show caFile ≠ "" ↔ _
      simp [hsome, hname]

/-- A request of a login neither makes nor removes a file, and the connector is opened with the
material in place. -/
theorem Holding.login_step {config : ClientCommonConfig} {data : SecretData}
    {i : ProbeRequest} {o : ProbeResponse i} (h : Holding m₀ key held m)
    (hi : Probe.OfLogin config i) (hserve : serve m i o m') (hdata : m₀.secrets key = some data)
    (hinstalled : Installed data config.transport.tls m.files) : Holding m₀ key held m' := by
  cases i with
  | openConnector c =>
    obtain rfl : c = config := hi
    obtain rfl : m' = _ := hserve
    obtain ⟨openings, hopened, hall⟩ := h.opened
    refine ⟨h.files, h.new, h.secrets, openings ++ [(c, m.files)], ?_, ?_⟩
    · dsimp only
      rw [hopened, List.append_assoc]
    · intro opening hmem
      rcases List.mem_append.mp hmem with hmem | hmem
      · exact hall opening hmem
      · rw [List.mem_singleton.mp hmem]
        exact ⟨data, hdata, hinstalled⟩
  | getSecret key' => cases hi
  | createTemp pattern => cases hi
  | write file data => cases hi
  | close file => cases hi
  | remove file => cases hi
  | _ =>
    obtain rfl : m' = m := hserve
    exact h

theorem balanced_login {env : ProbeEnv} {data : SecretData} {config c : ClientCommonConfig}
    (hdata : m₀.secrets key = some data) (henable : config.transport.tls.enable = some true)
    (hempty : config.transport.tls.trustedCaFile = "") (h : Probe.Material data config held c) :
    Probe.Balanced serve (fun _ _ _ _ => True) (Holding m₀ key) (fun _ => True)
      (Probe.login env c) held := by
  have hstep : ∀ (m : Machine) (i : ProbeRequest) (o : ProbeResponse i) (m' : Machine),
      Probe.OfLogin (c.complete env.httpProxy) i → Holding m₀ key held m → serve m i o m' →
      True ∧ Holding m₀ key held m' := by
    intro m i o m' hi hm hserve
    have hinstalled := installed_of_material env.httpProxy henable hempty h hm.files hm.new
    exact ⟨trivial, hm.login_step hi hserve hdata hinstalled⟩
  intro m hm
  exact Probe.wp_login ⟨hstep, fun _ => trivial, fun _ _ _ _ _ _ => trivial⟩ hm

end Machine

/-- The TLS material of a Secret is in the temporary directory as long as the check runs: the
directory is left as it was found on every exit, and whenever the connector is opened the files
it is told about have the contents of the Secret. -/
theorem tls_files_live_with_probe (env : ProbeEnv) (obj : FrpServer) (ref : SecretReference)
    (href : obj.body.spec.transport.tls.secretRef = some ref) (m t : Machine)
    (es : List (Program.Event ProbeRequest ProbeResponse)) (verdict : Verdict)
    (hexec : Program.Exec Machine.serve (validateFrpServerConfig env obj) m es verdict t) :
    t.files = m.files ∧ ∃ openings, t.opened = m.opened ++ openings ∧
      ∀ opening ∈ openings, ∃ data, m.secrets ⟨ref.ns, ref.name⟩ = some data ∧
        Installed data opening.1.transport.tls opening.2 := by
  have hm : Machine.Holding m ⟨ref.ns, ref.name⟩ [] m :=
    ⟨rfl, trivial, rfl, [], (List.append_nil _).symm, fun _ h => absurd h List.not_mem_nil⟩
  have hwp : (validateFrpServerConfig env obj).wp Eq Machine.serve (fun _ _ _ _ => True)
      (fun _ t => Machine.Holding m ⟨ref.ns, ref.name⟩ [] t) m := by
    unfold validateFrpServerConfig
    dsimp only
    rw [href]
    refine Program.wp_call_bind_alone fun o m' ho => ⟨trivial, ?_⟩
    cases o with
    | error err =>
      obtain rfl : m' = m := ho
      exact hm
    | ok data =>
      obtain ⟨hdata, rfl⟩ := ho
      have hcert : Probe.Balanced Machine.serve (fun _ _ _ _ => True)
          (Machine.Holding m' ⟨ref.ns, ref.name⟩) (fun _ => True)
          (Probe.withCert env ⟨ref.ns, ref.name⟩ data
            (obj.body.spec.toClient.setTLS ({ · with enable := some true }))) [] := by
        apply Probe.balanced_withCert (Machine.keepsFiles m' _) (fun _ => trivial)
        intro held c hmaterial
        exact Machine.balanced_login hdata rfl rfl hmaterial
      exact Program.wp_mono (hcert m' hm) fun _ _ h => h.2
  have hend := hexec.post hwp
  exact ⟨hend.files, hend.opened⟩

section Samples

def fullSecret : SecretData := keyPair.upsert (defaultCaFileName, [3])

def secretMachine : Machine :=
  ⟨fun _ => none, fun key => if key = ⟨"default", "frps-tls"⟩ then some fullSecret else none, []⟩

/-- Answers with which nothing fails, as far as files can be made. -/
def Machine.answer (m : Machine) : (i : ProbeRequest) → ProbeResponse i × Machine
  | .createTemp pattern =>
    if pattern ≠ "" ∧ m.files pattern = none then
      (.ok pattern, { m with files := Function.update m.files pattern (some []) })
    else (.error (.text "file exists"), m)
  | .write file data => (none, { m with files := appendTo m.files file data })
  | .remove file => ((), { m with files := Function.update m.files file none })
  | .openConnector config => (none, { m with opened := m.opened ++ [(config, m.files)] })
  | i => Probe.accepting Machine.secrets m i

theorem Machine.serve_answer (m : Machine) (i : ProbeRequest) :
    serve m i (m.answer i).1 (m.answer i).2 := by
  cases i with
  | getSecret key =>
    by_cases hname : key.name = ""
    · simp [answer, Probe.accepting, Probe.accept, hname, serve]
    · cases hdata : m.secrets key with
      | none => simp [answer, Probe.accepting, Probe.accept, hname, hdata, serve]
      | some data => simp [answer, Probe.accepting, Probe.accept, hname, hdata, serve]
  | createTemp pattern =>
    by_cases h : pattern ≠ "" ∧ m.files pattern = none
    · simp [answer, h, serve]
    · simp [answer, h, serve]
  | _ => rfl

theorem tls_files_live_with_probe_tlsServer : ∃ es verdict t opening,
    Program.Exec Machine.serve (validateFrpServerConfig plainProbe tlsServer) secretMachine es
      verdict t ∧ t.files = secretMachine.files ∧ t.opened = [opening] ∧
      Installed fullSecret opening.1.transport.tls opening.2 := by
  have hexec := Program.exec_run Machine.serve_answer
    (validateFrpServerConfig plainProbe tlsServer) secretMachine
  obtain ⟨hfiles, openings, hopened, hall⟩ := tls_files_live_with_probe plainProbe tlsServer
    ⟨"frps-tls", "default"⟩ rfl secretMachine _ _ _ hexec
  have hone : ∃ opening, (Program.run Machine.answer
      (validateFrpServerConfig plainProbe tlsServer) secretMachine).2.2.opened = [opening] :=
    ⟨_, rfl⟩
  obtain ⟨opening, hopening⟩ := hone
  have hmem : opening ∈ openings := by
    have hopenings : openings = [opening] := hopened.symm.trans hopening
    rw [hopenings]
    exact List.mem_singleton.mpr rfl
  obtain ⟨data, hdata, hinstalled⟩ := hall opening hmem
  obtain rfl : fullSecret = data := Option.some.inj hdata
  exact ⟨_, _, _, opening, hexec, hfiles, hopening, hinstalled⟩

end Samples
end FrpProvisioner
