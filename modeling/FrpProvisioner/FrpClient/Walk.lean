import FrpProvisioner.FrpClient.Validate

/-! Rules that walk the live check, for any server and any assertion about its state. The
temporary files are created and removed like a stack with the rest of the function in between;
a login is a sequence of requests that are not about files. -/
namespace FrpProvisioner
open Effect

abbrev TempFile := String × List UInt8

namespace Probe
section Walk
variable {σ : Type} {env : ProbeEnv} {serve G : Server ProbeRequest ProbeResponse σ}
  {A : List TempFile → σ → Prop} {Q : Verdict → Prop} {held : List TempFile} {s : σ}

/-- What the requests about files do to an assertion about the files held, the newest first. -/
structure KeepsFiles (serve G : Server ProbeRequest ProbeResponse σ)
    (A : List TempFile → σ → Prop) : Prop where
  create : ∀ held pattern file s s', A held s → serve s (.createTemp pattern) (.ok file) s' →
    G s (.createTemp pattern) (.ok file) s' ∧ A ((file, []) :: held) s'
  noCreate : ∀ held pattern err s s', A held s → serve s (.createTemp pattern) (.error err) s' →
    G s (.createTemp pattern) (.error err) s' ∧ A held s'
  write : ∀ held file data s s', A ((file, []) :: held) s → serve s (.write file data) none s' →
    G s (.write file data) none s' ∧ A ((file, data) :: held) s'
  /-- A write that fails may have left a part. -/
  noWrite : ∀ held file data err s s', A ((file, []) :: held) s →
    serve s (.write file data) (some err) s' →
    G s (.write file data) (some err) s' ∧ ∃ part, A ((file, part) :: held) s'
  close : ∀ held file s s', A (file :: held) s → serve s (.close file.1) () s' →
    G s (.close file.1) () s' ∧ A (file :: held) s'
  remove : ∀ held file s s', A (file :: held) s → serve s (.remove file.1) () s' →
    G s (.remove file.1) () s' ∧ A held s'

def AboutFiles : ProbeRequest → Prop
  | .createTemp _ | .write _ _ | .close _ | .remove _ => True
  | _ => False

/-- Where nothing is asserted of the files, the requests about them keep it. -/
theorem keepsFiles_trivial (hG : ∀ s i o s', AboutFiles i → G s i o s') :
    KeepsFiles serve G (fun _ _ => True) where
  create _ _ _ _ _ _ _ := ⟨hG _ _ _ _ trivial, trivial⟩
  noCreate _ _ _ _ _ _ _ := ⟨hG _ _ _ _ trivial, trivial⟩
  write _ _ _ _ _ _ _ := ⟨hG _ _ _ _ trivial, trivial⟩
  noWrite _ _ _ _ _ _ _ _ := ⟨hG _ _ _ _ trivial, [], trivial⟩
  close _ _ _ _ _ _ := ⟨hG _ _ _ _ trivial, trivial⟩
  remove _ _ _ _ _ _ := ⟨hG _ _ _ _ trivial, trivial⟩

/-- A part of the check ends with the files it began with. -/
abbrev Balanced (serve G : Server ProbeRequest ProbeResponse σ) (A : List TempFile → σ → Prop)
    (Q : Verdict → Prop) (p : Probe Verdict) (held : List TempFile) : Prop :=
  ∀ s, A held s → p.wp Eq serve G (fun verdict s => Q verdict ∧ A held s) s

theorem balanced_withTemp (hfiles : KeepsFiles serve G A) (hfail : ∀ err, Q (.ok (some err)))
    {pattern : String} {rest : String → Probe Verdict}
    (hrest : ∀ file s, A ((file, []) :: held) s → (rest file).wp Eq serve G
      (fun verdict s => Q verdict ∧ ∃ content, A ((file, content) :: held) s) s) :
    Balanced serve G A Q (withTemp pattern rest) held := by
  intro s hA
  unfold withTemp
  refine Program.wp_call_bind_alone fun o s₁ ho => ?_
  cases o with
  | error err =>
    obtain ⟨hG, hA⟩ := hfiles.noCreate held pattern err s s₁ hA ho
    exact ⟨hG, hfail _, hA⟩
  | ok file =>
    obtain ⟨hG, hA⟩ := hfiles.create held pattern file s s₁ hA ho
    refine ⟨hG, Program.wp_seq (hrest file s₁ hA) ?_⟩
    rintro verdict s₂ ⟨hQ, content, hA⟩
    refine Program.wp_call_bind_alone fun _ s₃ hclose => ?_
    obtain ⟨hG, hA⟩ := hfiles.close held (file, content) s₂ s₃ hA hclose
    refine ⟨hG, Program.wp_call_bind_alone fun _ s₄ hremove => ?_⟩
    obtain ⟨hG, hA⟩ := hfiles.remove held (file, content) s₃ s₄ hA hremove
    exact ⟨hG, hQ, hA⟩

/-- The contents are written, and the rest runs with them. -/
theorem wp_write (hfiles : KeepsFiles serve G A) (hfail : ∀ err, Q (.ok (some err)))
    {file : String} {data : List UInt8} {err : GoError → GoError} {rest : Probe Verdict}
    (hrest : Balanced serve G A Q rest ((file, data) :: held)) (hA : A ((file, []) :: held) s) :
    Program.wp Eq serve G (do
      match ← write file data with
      | some e => fail (err e)
      | none => rest)
      (fun verdict s => Q verdict ∧ ∃ content, A ((file, content) :: held) s) s := by
  refine Program.wp_call_bind_alone fun o s₁ ho => ?_
  cases o with
  | some e =>
    obtain ⟨hG, part, hA⟩ := hfiles.noWrite held file data e s s₁ hA ho
    exact ⟨hG, hfail _, part, hA⟩
  | none =>
    obtain ⟨hG, hA⟩ := hfiles.write held file data s s₁ hA ho
    refine ⟨hG, Program.wp_mono (hrest s₁ hA) ?_⟩
    rintro verdict s₂ ⟨hQ, hA⟩
    exact ⟨hQ, data, hA⟩

/-- The files with which a Secret makes `config` into another configuration. -/
inductive Material (data : SecretData) (config : ClientCommonConfig) :
    List TempFile → ClientCommonConfig → Prop where
  | pair {certFile keyFile : String} {certData keyData : List UInt8} :
      data.get defaultCertFileName = some certData → data.get defaultKeyFileName = some keyData →
      data.get defaultCaFileName = none →
      Material data config [(keyFile, keyData), (certFile, certData)]
        ((config.setTLS ({ · with certFile := certFile })).setTLS ({ · with keyFile := keyFile }))
  | ca {certFile keyFile caFile : String} {certData keyData caData : List UInt8} :
      data.get defaultCertFileName = some certData → data.get defaultKeyFileName = some keyData →
      data.get defaultCaFileName = some caData →
      Material data config [(caFile, caData), (keyFile, keyData), (certFile, certData)]
        (((config.setTLS ({ · with certFile := certFile })).setTLS
          ({ · with keyFile := keyFile })).setTLS ({ · with trustedCaFile := caFile }))

theorem balanced_withCert (hfiles : KeepsFiles serve G A) (hfail : ∀ err, Q (.ok (some err)))
    {key : NamespacedName} {data : SecretData} {config : ClientCommonConfig}
    (hlogin : ∀ held c, Material data config held c → Balanced serve G A Q (login env c) held) :
    Balanced serve G A Q (withCert env key data config) [] := by
  unfold withCert
  refine balanced_withTemp hfiles hfail fun certFile s hA => ?_
  cases hcert : data.get defaultCertFileName with
  | none => exact ⟨hfail _, [], hA⟩
  | some certData =>
    refine wp_write hfiles hfail ?_ hA
    unfold withKey
    refine balanced_withTemp hfiles hfail fun keyFile s hA => ?_
    cases hkey : data.get defaultKeyFileName with
    | none => exact ⟨hfail _, [], hA⟩
    | some keyData =>
      refine wp_write hfiles hfail ?_ hA
      unfold withCa
      cases hca : data.get defaultCaFileName with
      | none => exact hlogin _ _ (.pair hcert hkey hca)
      | some caData =>
        refine balanced_withTemp hfiles hfail fun caFile s hA => ?_
        exact wp_write hfiles hfail (hlogin _ _ (.ca hcert hkey hca)) hA

end Walk

section Session
variable {env : ProbeEnv}

/-- The requests of a login with `config`: they are not about files. -/
def OfLogin (config : ClientCommonConfig) : ProbeRequest → Prop
  | .openConnector c => c = config
  | .getSecret _ | .createTemp _ | .write _ _ | .close _ | .remove _ => False
  | _ => True

def Judged (verdict : Verdict) : Prop := ∃ err, verdict = .ok err

theorem does_exchange {config c : ClientCommonConfig} (setter : AuthSetter) :
    (exchange env c setter).Does (OfLogin config) Judged := by
  have hset : ∀ msg, (setLogin env setter msg).Does (OfLogin config) fun _ => True := by
    intro msg
    cases setter with
    | token token => trivial
    | oidc oidcConfig =>
      apply Program.does_call_bind trivial
      intro o
      cases o <;> trivial
  unfold exchange
  apply Program.does_call_bind trivial
  intro o
  cases o with
  | error err => exact ⟨_, rfl⟩
  | ok hostname =>
    apply Program.does_call_bind trivial
    intro now
    apply (hset _).bind
    intro result _
    cases result with
    | error err => exact ⟨_, rfl⟩
    | ok msg =>
      apply Program.does_call_bind trivial
      intro o
      cases o with
      | some err => exact ⟨_, rfl⟩
      | none =>
        apply Program.does_call_bind trivial
        intro o
        cases o with
        | error err => exact ⟨_, rfl⟩
        | ok resp =>
          dsimp only
          split
          · exact ⟨_, rfl⟩
          · exact ⟨_, rfl⟩

/-- A method that passes the vendored validation has a setter. -/
theorem newAuthSetter_ok {cfg : AuthClientConfig} (h : cfg.method ∈ supportedAuthMethods) :
    ∃ setter, newAuthSetter cfg = .ok setter := by
  simp only [supportedAuthMethods, List.mem_cons, List.not_mem_nil, or_false] at h
  unfold newAuthSetter
  rcases h with h | h
  · exact ⟨_, if_pos h⟩
  · have hne : cfg.method ≠ "token" := by
      rw [h]
      decide
    rw [if_neg hne, if_pos h]
    exact ⟨_, rfl⟩

section Verdict
variable {σ : Type} {serve G : Server ProbeRequest ProbeResponse σ} {I : σ → Prop}
  {Q : Verdict → Prop} {config : ClientCommonConfig}

/-- What each request of a login keeps, and what it may end with: a panic only comes after the
connector has got as far as the options of QUIC. -/
structure LoginEnds (serve G : Server ProbeRequest ProbeResponse σ) (I : σ → Prop)
    (Q : Verdict → Prop) (config : ClientCommonConfig) : Prop where
  step : ∀ s i o s', OfLogin config i → I s → serve s i o s' → G s i o s' ∧ I s'
  judged : ∀ err, Q (.ok err)
  panic : ∀ s s' message, config.transport.protocol = "quic" →
    ¬ Quic.IdleTimeoutFits config.transport.quic.maxIdleTimeout →
    serve s (.openConnector config) none s' → Q (.error message)

/-- The supported protocols are in lower case. -/
theorem eq_quic_of_equalFold {protocol : String} (h : protocol ∈ supportedTransportProtocols)
    (hfold : equalFold protocol "quic" = true) : protocol = "quic" := by
  simp only [supportedTransportProtocols, List.mem_cons, List.not_mem_nil, or_false] at h
  rcases h with rfl | rfl | rfl | rfl | rfl
  all_goals first | rfl | exact absurd hfold (by decide)

theorem wp_openConn (h : LoginEnds serve G I Q config)
    (hprotocol : config.transport.protocol ∈ supportedTransportProtocols) {s : σ} (hI : I s) :
    (openConn config).wp Eq serve G (fun verdict s => Q verdict ∧ I s) s := by
  unfold openConn
  refine Program.wp_call_bind_alone fun o s₁ ho => ?_
  obtain ⟨hG, hI₁⟩ := h.step s _ o s₁ rfl hI ho
  refine ⟨hG, ?_⟩
  cases o with
  | some err => exact ⟨h.judged _, hI₁⟩
  | none =>
    dsimp only
    split
    next hfold =>
      split
      next message hpanic =>
        refine ⟨h.panic s s₁ message (eq_quic_of_equalFold hprotocol hfold) ?_ ho, hI₁⟩
        intro hfit
        obtain ⟨lens, hlens⟩ := (Quic.dialParameters_ok_iff _).mpr hfit
        rw [hpanic] at hlens
        cases hlens
      next =>
        refine Program.wp_call_bind_alone fun o s₂ ho => ?_
        obtain ⟨hG, hI₂⟩ := h.step s₁ _ o s₂ trivial hI₁ ho
        exact ⟨hG, h.judged _, hI₂⟩
    next => exact ⟨h.judged _, hI₁⟩

theorem wp_session (h : LoginEnds serve G I Q config)
    (hprotocol : config.transport.protocol ∈ supportedTransportProtocols) (setter : AuthSetter)
    {s : σ} (hI : I s) :
    (session env config setter).wp Eq serve G (fun verdict s => Q verdict ∧ I s) s := by
  unfold session
  refine Program.wp_seq (wp_openConn h hprotocol hI) ?_
  rintro verdict s₁ ⟨hQ, hI₁⟩
  match verdict with
  | .error message => exact ⟨hQ, hI₁⟩
  | .ok (some err) => exact ⟨hQ, hI₁⟩
  | .ok none =>
    refine Program.wp_call_bind_alone fun o s₂ ho => ?_
    obtain ⟨hG, hI₂⟩ := h.step s₁ _ o s₂ trivial hI₁ ho
    refine ⟨hG, ?_⟩
    cases o with
    | some err => exact ⟨h.judged _, hI₂⟩
    | none =>
      refine Program.wp_seq ((does_exchange setter).wp hI₂ h.step) ?_
      rintro _ s₃ ⟨⟨err, rfl⟩, hI₃⟩
      refine Program.wp_call_bind_alone fun o s₄ ho => ?_
      obtain ⟨hG, hI₄⟩ := h.step s₃ _ o s₄ trivial hI₃ ho
      exact ⟨hG, h.judged _, hI₄⟩

theorem wp_login {c : ClientCommonConfig} (h : LoginEnds serve G I Q (c.complete env.httpProxy))
    {s : σ} (hI : I s) :
    (login env c).wp Eq serve G (fun verdict s => Q verdict ∧ I s) s := by
  unfold login
  dsimp only
  split
  · exact ⟨h.judged _, hI⟩
  next hvalid =>
    obtain ⟨hmethod, -, -, -, -, hprotocol, -⟩ := validateClientCommonConfig_pass.mp hvalid
    obtain ⟨setter, hsetter⟩ := newAuthSetter_ok hmethod
    rw [hsetter]
    refine Program.wp_seq (wp_session h hprotocol setter hI) ?_
    rintro verdict s₁ ⟨hQ, hI₁⟩
    refine Program.wp_call_bind_alone fun o s₂ ho => ?_
    obtain ⟨hG, hI₂⟩ := h.step s₁ _ o s₂ trivial hI₁ ho
    exact ⟨hG, hQ, hI₂⟩

end Verdict
end Session
end Probe

section Samples

def plainProbe : ProbeEnv :=
  ⟨"", "0.53.2", "linux", "amd64", fun token _ => token, id, fun _ => none⟩

def keyPair : SecretData :=
  (Table.empty.upsert (defaultCertFileName, [1])).upsert (defaultKeyFileName, [2])

/-- A server with TLS whose port and protocol are left to the defaults. -/
def tlsServer : FrpServer :=
  { tcpServer with
    body := ⟨{ tcpSpec with
      serverPort := 0
      transport := { tcpSpec.transport with
        protocol := "", tls := ⟨some ⟨"frps-tls", "default"⟩, "", none⟩ } }, .empty⟩ }

/-- Answers with which nothing fails that can succeed: a Secret has to exist, and a port to be
one of UDP. -/
def Probe.accept (secrets : NamespacedName → Option SecretData) :
    (i : ProbeRequest) → ProbeResponse i
  | .getSecret key =>
    if key.name = "" then .error (.text "no name")
    else (secrets key).elim (.error (.text "not found")) .ok
  | .createTemp pattern => .ok pattern
  | .write _ _ => none
  | .close _ => ()
  | .remove _ => ()
  | .openConnector config => failWhen (65535 < config.serverPort) "invalid port"
  | .handshake => none
  | .connect => none
  | .closeConn => ()
  | .closeConnector => ()
  | .hostname => .ok "host"
  | .now => 1
  | .token _ => .ok "token"
  | .writeMsg _ => none
  | .readMsg => .ok ⟨"", "run", ""⟩

def Probe.accepting {σ : Type} (secrets : σ → NamespacedName → Option SecretData) (s : σ)
    (i : ProbeRequest) : ProbeResponse i × σ := (Probe.accept (secrets s) i, s)

end Samples
end FrpProvisioner
