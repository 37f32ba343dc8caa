import FrpProvisioner.Controller.FrpServerValidator
import FrpProvisioner.FrpClient.Walk

/-! What an admitted `FrpServer` satisfies. Its constraints are enforced in three places, the
defaults, the static checks and the live check, whose network and frp server answer anything. -/
namespace FrpProvisioner
open Effect

abbrev Secrets := NamespacedName → Option SecretData

/-- A Secret is read as it is stored, and never under an empty name; all else is answered in
any way. -/
def Secrets.serve : Server ProbeRequest ProbeResponse Secrets
  | s, .getSecret key, .ok data, s' => key.name ≠ "" ∧ s key = some data ∧ s' = s
  | s, _, _, s' => s' = s

def HoldsKeyPair (s : Secrets) (ref : SecretReference) : Prop :=
  ∃ data, s ⟨ref.ns, ref.name⟩ = some data ∧ (data.get defaultCertFileName).isSome ∧
    (data.get defaultKeyFileName).isSome

structure Documented (s : Secrets) (spec : FrpServerSpec) : Prop where
  method : spec.auth.method = frpServerAuthMethodToken ∨ spec.auth.method = frpServerAuthMethodOIDC
  scopes : ∀ scope ∈ spec.auth.additionalScopes, scope ∈ frpServerAuthScopes
  token : spec.auth.method = frpServerAuthMethodToken → spec.auth.token ≠ ""
  serverAddr : spec.serverAddr ≠ ""
  serverPort : 1 ≤ spec.serverPort ∧ spec.serverPort ≤ 65535
  externalIPs : spec.externalIPs ≠ []
  protocol : spec.transport.protocol ∈ frpServerTransportProtocols
  heartbeat : 0 < spec.transport.heartbeatTimeout → 0 < spec.transport.heartbeatInterval →
    spec.transport.heartbeatInterval ≤ spec.transport.heartbeatTimeout
  secretRef : ∀ ref, spec.transport.tls.secretRef = some ref →
    ref.name ≠ "" ∧ ref.ns ≠ "" ∧ HoldsKeyPair s ref

namespace Probe
variable {env : ProbeEnv} {s s' : Secrets} {P : Prop}

abbrev Implies (P : Prop) : Verdict → Secrets → Prop := fun verdict _ => verdict = .ok none → P

/-- What is shown of a part of the check: it accepts only if `P` holds. -/
abbrev AcceptsOnly (p : Probe Verdict) (P : Prop) (s : Secrets) : Prop :=
  p.wp Eq Secrets.serve (fun _ _ _ _ => True) (Implies P) s

theorem acceptsOnly_fail (err : GoError) : AcceptsOnly (fail err) P s := by
  intro h
  cases h

/-- Only a completed configuration that passes the vendored validation is accepted. -/
theorem acceptsOnly_login (config : ClientCommonConfig) :
    AcceptsOnly (login env config)
      (emptyOr config.transport.protocol "tcp" ∈ supportedTransportProtocols) s := by
  unfold login
  dsimp only
  split
  · exact acceptsOnly_fail _
  next hvalid =>
    obtain ⟨-, -, -, -, -, hprotocol, -⟩ := validateClientCommonConfig_pass.mp hvalid
    split
    · intro h
      cases h
    · exact Program.wp_mono (Program.wp_trivial _) fun _ _ _ _ => hprotocol

theorem AcceptsOnly.imp {p : Probe Verdict} {P' : Prop} (h : AcceptsOnly p P s)
    (himp : P → P') : AcceptsOnly p P' s :=
  Program.wp_mono h fun _ _ hverdict hnone => himp (hverdict hnone)

/-- The files of a Secret with a key pair change nothing in the protocol. -/
theorem protocol_of_material {data : SecretData} {config c : ClientCommonConfig}
    {held : List TempFile} (h : Material data config held c) :
    (data.get defaultCertFileName).isSome ∧ (data.get defaultKeyFileName).isSome ∧
      c.transport.protocol = config.transport.protocol := by
  cases h with
  | pair hcert hkey _ => exact ⟨by simp [hcert], by simp [hkey], rfl⟩
  | ca hcert hkey _ => exact ⟨by simp [hcert], by simp [hkey], rfl⟩

theorem acceptsOnly_withCert {key : NamespacedName} {data : SecretData}
    (config : ClientCommonConfig) :
    AcceptsOnly (withCert env key data config)
      ((data.get defaultCertFileName).isSome ∧ (data.get defaultKeyFileName).isSome ∧
        emptyOr config.transport.protocol "tcp" ∈ supportedTransportProtocols) s := by
  have hcert : Balanced Secrets.serve (fun _ _ _ _ => True) (fun _ _ => True)
      (fun verdict => verdict = .ok none → (data.get defaultCertFileName).isSome ∧
        (data.get defaultKeyFileName).isSome ∧
        emptyOr config.transport.protocol "tcp" ∈ supportedTransportProtocols)
      (withCert env key data config) [] := by
    apply balanced_withCert (keepsFiles_trivial fun _ _ _ _ _ => trivial)
    · intro err h
      cases h
    · intro held c hmaterial s _
      obtain ⟨hcert, hkey, hprotocol⟩ := protocol_of_material hmaterial
      refine Program.wp_mono (acceptsOnly_login c) fun verdict _ haccepts => ⟨?_, trivial⟩
      intro hverdict
      rw [← hprotocol]
      exact ⟨hcert, hkey, haccepts hverdict⟩
  exact Program.wp_mono (hcert s trivial) fun _ _ h => h.1

/-- The live check accepts only a supported protocol and a Secret with a key pair. -/
theorem acceptsOnly_validateFrpServerConfig (obj : FrpServer) :
    AcceptsOnly (validateFrpServerConfig env obj)
      (emptyOr obj.body.spec.transport.protocol "tcp" ∈ supportedTransportProtocols ∧
        ∀ ref, obj.body.spec.transport.tls.secretRef = some ref →
          ref.name ≠ "" ∧ HoldsKeyPair s ref) s := by
  unfold validateFrpServerConfig
  dsimp only
  split
  next href =>
    exact (acceptsOnly_login _).imp fun hprotocol => ⟨hprotocol, fun ref h => by simp [href] at h⟩
  next ref href =>
    refine Program.wp_call_bind_alone fun o s' ho => ⟨trivial, ?_⟩
    cases o with
    | error err => exact acceptsOnly_fail _
    | ok data =>
      obtain ⟨hname, hdata, -⟩ := ho
      refine (acceptsOnly_withCert _).imp fun ⟨hcert, hkey, hprotocol⟩ => ⟨hprotocol, ?_⟩
      intro ref' href'
      obtain rfl : ref = ref' := Option.some.inj (href.symm.trans href')
      exact ⟨hname, data, hdata, hcert, hkey⟩

end Probe

namespace FrpServerValidator

/-- What `Default` leaves in the fields that are not checked for zero later. -/
theorem default_ok {ctxErr err : Option GoError} {obj obj' : FrpServer}
    (h : default ctxErr obj = .ok (obj', err)) :
    obj'.body.spec.serverPort ≠ 0 ∧ obj'.body.spec.transport.protocol ≠ "" := by
  obtain ⟨-, quic, -, rfl⟩ := default_eq_ok.mp h
  exact ⟨emptyOr_ne_default (by decide), emptyOr_ne_default (by decide)⟩

/-- The two lists of protocols have the same members. -/
theorem mem_protocols_of_supported {protocol : String}
    (h : protocol ∈ supportedTransportProtocols) : protocol ∈ frpServerTransportProtocols := by
  simp only [supportedTransportProtocols, List.mem_cons, List.not_mem_nil, or_false] at h
  rcases h with rfl | rfl | rfl | rfl | rfl <;> decide

/-- An object that was defaulted and then admitted satisfies every documented constraint,
whatever the network and the frp server answered. -/
theorem admission_sound (env : ProbeEnv) (ctxErr err : Option GoError) (obj obj' : FrpServer)
    (hdefault : default ctxErr obj = .ok (obj', err)) (s t : Secrets)
    (es : List (Program.Event ProbeRequest ProbeResponse))
    (hexec : Program.Exec Secrets.serve (validateCreate (validateFrpServerConfig env) obj')
      s es (.ok none) t) : Documented s obj'.body.spec := by
  obtain ⟨hport, hprotocol⟩ := default_ok hdefault
  have hlive : Probe.AcceptsOnly (validateCreate (validateFrpServerConfig env) obj')
      (staticCreate obj'.body.spec = none ∧
        emptyOr obj'.body.spec.transport.protocol "tcp" ∈ supportedTransportProtocols ∧
        ∀ ref, obj'.body.spec.transport.tls.secretRef = some ref →
          ref.name ≠ "" ∧ HoldsKeyPair s ref) s := by
    unfold validateCreate validate
    cases hstatic : staticCreate obj'.body.spec with
    | some errs =>
      intro h
      cases h
    | none =>
      refine Program.wp_seq (Probe.acceptsOnly_validateFrpServerConfig obj') ?_
      intro verdict _ h hok
      exact ⟨rfl, h (report_accepts.mp hok)⟩
  obtain ⟨hstatic, hsupported, hsecret⟩ := hexec.post hlive rfl
  obtain ⟨hcommon, hlow, hhigh⟩ := staticCreate_pass.mp hstatic
  rw [emptyOr_of_ne hprotocol] at hsupported
  refine ⟨by simpa [frpServerAuthMethods] using hcommon.method, hcommon.scopes, hcommon.token,
    hcommon.serverAddr, ⟨by omega, hhigh⟩, hcommon.externalIPs,
    mem_protocols_of_supported hsupported, hcommon.heartbeat, fun ref href => ?_⟩
  obtain ⟨hname, hpair⟩ := hsecret ref href
  exact ⟨hname, (hcommon.secretRef ref href).1.mp hname, hpair⟩

section Samples

def tlsSecrets : Secrets := fun key => if key = ⟨"default", "frps-tls"⟩ then some keyPair else none

theorem serve_accepting (s : Secrets) (i : ProbeRequest) :
    Secrets.serve s i (Probe.accepting id s i).1 (Probe.accepting id s i).2 := by
  cases i with
  | getSecret key =>
    by_cases hname : key.name = ""
    · simp [Probe.accepting, Probe.accept, hname, Secrets.serve]
    · cases hdata : s key with
      | none => simp [Probe.accepting, Probe.accept, hname, hdata, Secrets.serve]
      | some data => simp [Probe.accepting, Probe.accept, hname, hdata, Secrets.serve]
  | _ => rfl

theorem admission_sound_tlsServer : Documented tlsSecrets (defaultSpec tlsServer.body.spec) := by
  have hexec := Program.exec_run serve_accepting
    (validateCreate (validateFrpServerConfig plainProbe)
      { tlsServer with body := { tlsServer.body with spec := defaultSpec tlsServer.body.spec } })
    tlsSecrets
  exact admission_sound plainProbe none none tlsServer _ rfl tlsSecrets _ _ hexec

end Samples
end FrpServerValidator
end FrpProvisioner
