import FrpProvisioner.Controller.FrpServerValidator

/-! The defaults of the webhook against those of the frp client. They are written twice, on the
spec and on the client configuration; a stored default never changes what is probed. -/
namespace FrpProvisioner

def Kept {α : Type} [Inhabited α] (old new : α) : Prop := old ≠ default → new = old

theorem kept_emptyOr {α : Type} [DecidableEq α] [Inhabited α] (v fallback : α) :
    Kept v (emptyOr v fallback) := fun h => emptyOr_of_ne h

@[simp] theorem emptyOr_emptyOr {α : Type} [DecidableEq α] [Inhabited α] (v fallback : α) :
    emptyOr (emptyOr v fallback) fallback = emptyOr v fallback := by
  by_cases h : v = default
  · have hv : emptyOr v fallback = fallback := if_pos h
    rw [hv]
    unfold emptyOr
    split <;> rfl
  · rw [emptyOr_of_ne h, emptyOr_of_ne h]

section Probe
variable {env : ProbeEnv} {c c' : ClientCommonConfig}

/-- Fields of the TLS configuration that completion does not look at can be set before or
after it. -/
theorem complete_setTLS (httpProxy : String) (c : ClientCommonConfig)
    {f : TLSClientConfig → TLSClientConfig} (hf : ∀ tls, (f tls).complete = f tls.complete) :
    (c.setTLS f).complete httpProxy = (c.complete httpProxy).setTLS f := by
  simp only [ClientCommonConfig.complete, ClientCommonConfig.setTLS,
    ClientTransportConfig.complete, hf]

def SameProbe (env : ProbeEnv) (c c' : ClientCommonConfig) : Prop :=
  c.complete env.httpProxy = c'.complete env.httpProxy

theorem SameProbe.setTLS (h : SameProbe env c c') {f : TLSClientConfig → TLSClientConfig}
    (hf : ∀ tls, (f tls).complete = f tls.complete) : SameProbe env (c.setTLS f) (c'.setTLS f) := by
  unfold SameProbe
  rw [complete_setTLS _ _ hf, complete_setTLS _ _ hf, h]

theorem SameProbe.login (h : SameProbe env c c') : Probe.login env c = Probe.login env c' := by
  unfold Probe.login
  rw [h]

variable (key : NamespacedName) (data : SecretData)

theorem SameProbe.withCa (h : SameProbe env c c') :
    Probe.withCa env key data c = Probe.withCa env key data c' := by
  unfold Probe.withCa
  cases data.get defaultCaFileName with
  | none => exact h.login
  | some caData =>
    have hlogin : ∀ caFile, Probe.login env (c.setTLS ({ · with trustedCaFile := caFile })) =
        Probe.login env (c'.setTLS ({ · with trustedCaFile := caFile })) := by
      intro caFile
      apply SameProbe.login
      apply h.setTLS
      intro tls
      rfl
    simp only [hlogin]

theorem SameProbe.withKey (h : SameProbe env c c') :
    Probe.withKey env key data c = Probe.withKey env key data c' := by
  have hrest : ∀ keyFile,
      Probe.withCa env key data (c.setTLS ({ · with keyFile := keyFile })) =
        Probe.withCa env key data (c'.setTLS ({ · with keyFile := keyFile })) := by
    intro keyFile
    apply SameProbe.withCa
    apply h.setTLS
    intro tls
    rfl
  unfold Probe.withKey
  simp only [hrest]

theorem SameProbe.withCert (h : SameProbe env c c') :
    Probe.withCert env key data c = Probe.withCert env key data c' := by
  have hrest : ∀ certFile,
      Probe.withKey env key data (c.setTLS ({ · with certFile := certFile })) =
        Probe.withKey env key data (c'.setTLS ({ · with certFile := certFile })) := by
    intro certFile
    apply SameProbe.withKey
    apply h.setTLS
    intro tls
    rfl
  unfold Probe.withCert
  simp only [hrest]

end Probe

/-- Objects with the same completed configuration and Secret are probed in the same way. -/
theorem validateFrpServerConfig_congr (env : ProbeEnv) {obj obj' : FrpServer}
    (href : obj.body.spec.transport.tls.secretRef = obj'.body.spec.transport.tls.secretRef)
    (h : SameProbe env obj.body.spec.toClient obj'.body.spec.toClient) :
    validateFrpServerConfig env obj = validateFrpServerConfig env obj' := by
  unfold validateFrpServerConfig
  rw [href]
  cases obj'.body.spec.transport.tls.secretRef with
  | none => exact h.login
  | some ref =>
    have hcert : ∀ key data,
        Probe.withCert env key data
            (obj.body.spec.toClient.setTLS ({ · with enable := some true })) =
          Probe.withCert env key data
            (obj'.body.spec.toClient.setTLS ({ · with enable := some true })) := by
      intro key data
      apply SameProbe.withCert
      apply h.setTLS
      intro tls
      rfl
    simp only [hcert]

namespace FrpServerValidator

section Filled
variable {protocol : String} {old new : Option FrpServerTransportQUIC}

theorem FilledQUIC.cases (h : FilledQUIC protocol old new) : new = old ∨
    ∃ q quic, old = some q ∧ defaultQUIC (some q) = .ok quic ∧ new = some quic := by
  unfold FilledQUIC at h
  split at h
  · obtain ⟨quic, hquic, rfl⟩ := h
    cases old with
    | none => cases hquic
    | some q => exact Or.inr ⟨q, quic, rfl, hquic, rfl⟩
  · exact Or.inl h

/-- For QUIC, `Default` only returns if there are options. -/
theorem FilledQUIC.given (h : FilledQUIC protocol old new)
    (hprotocol : protocol = frpServerTransportProtocolQUIC) : ∃ q, old = some q := by
  unfold FilledQUIC at h
  rw [if_pos hprotocol] at h
  obtain ⟨quic, hquic, -⟩ := h
  cases old with
  | none => cases hquic
  | some q => exact ⟨q, rfl⟩

/-- Filling in twice is filling in once. -/
theorem FilledQUIC.again (h : FilledQUIC protocol old new) : FilledQUIC protocol new new := by
  unfold FilledQUIC at h ⊢
  split
  next hprotocol =>
    rw [if_pos hprotocol] at h
    obtain ⟨quic, hquic, rfl⟩ := h
    cases old with
    | none => cases hquic
    | some q =>
      cases hquic
      refine ⟨_, ?_, rfl⟩
      simp only [defaultQUIC, emptyOr_emptyOr]
  next => rfl

/-- Options that were given stay, with the fields that were set. -/
theorem FilledQUIC.kept (h : FilledQUIC protocol old new) {q : FrpServerTransportQUIC}
    (hq : old = some q) : ∃ q', new = some q' ∧ Kept q.keepalivePeriod q'.keepalivePeriod ∧
      Kept q.maxIdleTimeout q'.maxIdleTimeout ∧
      Kept q.maxIncomingStreams q'.maxIncomingStreams := by
  rcases h.cases with rfl | ⟨r, quic, hr, hquic, rfl⟩
  · exact ⟨q, hq, fun _ => rfl, fun _ => rfl, fun _ => rfl⟩
  · obtain rfl : r = q := by
      rw [hr] at hq
      injection hq
    cases hquic
    exact ⟨_, rfl, kept_emptyOr _ _, kept_emptyOr _ _, kept_emptyOr _ _⟩

/-- The frp client fills in the same values. -/
theorem FilledQUIC.complete (h : FilledQUIC protocol old new) :
    (quicToClient new).complete = (quicToClient old).complete := by
  rcases h.cases with rfl | ⟨q, quic, rfl, hquic, rfl⟩
  · rfl
  · cases hquic
    simp only [quicToClient, Option.elim_some, QUICOptions.complete, emptyOr_emptyOr]

end Filled

/-- Every field of the spec that was set keeps its value, and of the others only those with a
default change. -/
structure KeepsSet (old new : FrpServerSpec) : Prop where
  method : Kept old.auth.method new.auth.method
  serverPort : Kept old.serverPort new.serverPort
  loginFailExit : Kept old.loginFailExit new.loginFailExit
  natHoleSTUNServer : Kept old.natHoleSTUNServer new.natHoleSTUNServer
  udpPacketSize : Kept old.udpPacketSize new.udpPacketSize
  protocol : Kept old.transport.protocol new.transport.protocol
  dialServerTimeout : Kept old.transport.dialServerTimeout new.transport.dialServerTimeout
  dialServerKeepAlive : Kept old.transport.dialServerKeepAlive new.transport.dialServerKeepAlive
  poolCount : Kept old.transport.poolCount new.transport.poolCount
  tcpMux : Kept old.transport.tcpMux new.transport.tcpMux
  tcpMuxKeepaliveInterval :
    Kept old.transport.tcpMuxKeepaliveInterval new.transport.tcpMuxKeepaliveInterval
  heartbeatInterval : Kept old.transport.heartbeatInterval new.transport.heartbeatInterval
  heartbeatTimeout : Kept old.transport.heartbeatTimeout new.transport.heartbeatTimeout
  disableCustomTLSFirstByte : Kept old.transport.tls.disableCustomTLSFirstByte
    new.transport.tls.disableCustomTLSFirstByte
  quic : ∀ q, old.transport.quic = some q → ∃ q', new.transport.quic = some q' ∧
    Kept q.keepalivePeriod q'.keepalivePeriod ∧ Kept q.maxIdleTimeout q'.maxIdleTimeout ∧
    Kept q.maxIncomingStreams q'.maxIncomingStreams
  rest : new = { old with
    auth := { old.auth with method := new.auth.method }
    serverPort := new.serverPort
    loginFailExit := new.loginFailExit
    natHoleSTUNServer := new.natHoleSTUNServer
    udpPacketSize := new.udpPacketSize
    transport := { old.transport with
      protocol := new.transport.protocol
      dialServerTimeout := new.transport.dialServerTimeout
      dialServerKeepAlive := new.transport.dialServerKeepAlive
      poolCount := new.transport.poolCount
      tcpMux := new.transport.tcpMux
      tcpMuxKeepaliveInterval := new.transport.tcpMuxKeepaliveInterval
      quic := new.transport.quic
      heartbeatInterval := new.transport.heartbeatInterval
      heartbeatTimeout := new.transport.heartbeatTimeout
      tls := { old.transport.tls with
        disableCustomTLSFirstByte := new.transport.tls.disableCustomTLSFirstByte } } }

section Spec
variable {spec : FrpServerSpec} {quic : Option FrpServerTransportQUIC}

theorem withDefaults_again (spec : FrpServerSpec) (quic : Option FrpServerTransportQUIC) :
    withDefaults (withDefaults spec quic) quic = withDefaults spec quic := by
  simp only [withDefaults, defaultSpec, defaultTransport, emptyOr_emptyOr]

theorem keepsSet_withDefaults (h : FilledQUIC (defaultSpec spec).transport.protocol
    spec.transport.quic quic) : KeepsSet spec (withDefaults spec quic) where
  method := kept_emptyOr _ _
  serverPort := kept_emptyOr _ _
  loginFailExit := kept_emptyOr _ _
  natHoleSTUNServer := kept_emptyOr _ _
  udpPacketSize := kept_emptyOr _ _
  protocol := kept_emptyOr _ _
  dialServerTimeout := kept_emptyOr _ _
  dialServerKeepAlive := kept_emptyOr _ _
  poolCount := kept_emptyOr _ _
  tcpMux := kept_emptyOr _ _
  tcpMuxKeepaliveInterval := kept_emptyOr _ _
  heartbeatInterval := kept_emptyOr _ _
  heartbeatTimeout := kept_emptyOr _ _
  disableCustomTLSFirstByte := kept_emptyOr _ _
  quic _ hq := h.kept hq
  rest := rfl

/-- Every default of the webhook is one of the frp client. -/
theorem complete_withDefaults (httpProxy : String)
    (h : FilledQUIC (defaultSpec spec).transport.protocol spec.transport.quic quic) :
    (withDefaults spec quic).toClient.complete httpProxy = spec.toClient.complete httpProxy := by
  simp only [withDefaults, defaultSpec, defaultTransport, FrpServerSpec.toClient,
    FrpServerAuth.toClient, FrpServerTransport.toClient, ClientCommonConfig.complete,
    AuthClientConfig.complete, ClientTransportConfig.complete, TLSClientConfig.complete,
    frpServerAuthMethodToken, frpServerTransportProtocolTCP, defaultNatHoleSTUNAddr,
    emptyOr_emptyOr, h.complete]

end Spec

/-- Defaulting changes nothing when it is done again, keeps what was set, and leaves the
completed configuration and with it every step of the probe as they were. -/
theorem default_is_closure (ctxErr err : Option GoError) (obj obj' : FrpServer)
    (h : default ctxErr obj = .ok (obj', err)) :
    (∀ ctxErr', default ctxErr' obj' = .ok (obj', ctxErr')) ∧
      obj' = { obj with body := { obj.body with spec := obj'.body.spec } } ∧
      KeepsSet obj.body.spec obj'.body.spec ∧
      (∀ httpProxy, obj'.body.spec.toClient.complete httpProxy =
        obj.body.spec.toClient.complete httpProxy) ∧
      ∀ env, validateFrpServerConfig env obj' = validateFrpServerConfig env obj := by
  obtain ⟨-, quic, hquic, rfl⟩ := default_eq_ok.mp h
  have hcomplete : ∀ httpProxy, (withDefaults obj.body.spec quic).toClient.complete httpProxy =
      obj.body.spec.toClient.complete httpProxy := fun httpProxy =>
    complete_withDefaults httpProxy hquic
  refine ⟨fun ctxErr' => ?_, rfl, keepsSet_withDefaults hquic, hcomplete, fun env => ?_⟩
  · apply default_eq_ok.mpr
    refine ⟨rfl, quic, ?_, ?_⟩
    · have hprotocol : (defaultSpec (withDefaults obj.body.spec quic)).transport.protocol =
          (defaultSpec obj.body.spec).transport.protocol := emptyOr_emptyOr _ _
      rw [hprotocol]
      exact hquic.again
    · dsimp only
      rw [withDefaults_again]
  · exact validateFrpServerConfig_congr env rfl (hcomplete env.httpProxy)

def sparseServer : FrpServer :=
  { tcpServer with
    body := ⟨{ tcpSpec with
      serverPort := 0
      loginFailExit := none
      transport := { tcpSpec.transport with
        protocol := frpServerTransportProtocolQUIC, poolCount := 0, quic := some ⟨0, 5, 0⟩ } },
      .empty⟩ }

theorem default_is_closure_sparse : ∃ obj', default none sparseServer = .ok (obj', none) ∧
    obj'.body.spec.serverPort = 7000 ∧ obj'.body.spec.transport.quic = some ⟨10, 5, 100000⟩ ∧
    ∀ env, validateFrpServerConfig env obj' = validateFrpServerConfig env sparseServer := by
  have hdefault : ∃ obj', default none sparseServer = .ok (obj', none) ∧
      obj'.body.spec.serverPort = 7000 ∧
      obj'.body.spec.transport.quic = some ⟨10, 5, 100000⟩ := ⟨_, rfl, rfl, rfl⟩
  obtain ⟨obj', h, hport, hquic⟩ := hdefault
  obtain ⟨-, -, -, -, hprobe⟩ := default_is_closure none none sparseServer obj' h
  exact ⟨obj', h, hport, hquic, hprobe⟩

end FrpServerValidator
end FrpProvisioner
