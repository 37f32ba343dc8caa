import FrpProvisioner.FrpClient.Validate

/-! `pkg/controller/frpserver_validator.go`: the defaulting and validating webhooks of
`FrpServer`. The two validators differ in the check of the port. -/
namespace FrpProvisioner
namespace FrpServerValidator

section Default

/-- The options of QUIC, which are read without a look at the pointer. -/
def defaultQUIC : Option FrpServerTransportQUIC → Except String FrpServerTransportQUIC
  | none => .error "invalid memory address or nil pointer dereference"
  | some quic => .ok
    { keepalivePeriod := emptyOr quic.keepalivePeriod 10
      maxIdleTimeout := emptyOr quic.maxIdleTimeout 30
      maxIncomingStreams := emptyOr quic.maxIncomingStreams 100000 }

def defaultTransport (transport : FrpServerTransport) : FrpServerTransport :=
  { transport with
    protocol := emptyOr transport.protocol frpServerTransportProtocolTCP
    dialServerTimeout := emptyOr transport.dialServerTimeout 10
    dialServerKeepAlive := emptyOr transport.dialServerKeepAlive 7200
    poolCount := emptyOr transport.poolCount 1
    tcpMux := emptyOr transport.tcpMux (some true)
    tcpMuxKeepaliveInterval := emptyOr transport.tcpMuxKeepaliveInterval 60
    heartbeatInterval := emptyOr transport.heartbeatInterval 30
    heartbeatTimeout := emptyOr transport.heartbeatTimeout 90
    tls :=
      { transport.tls with
        disableCustomTLSFirstByte :=
          emptyOr transport.tls.disableCustomTLSFirstByte (some true) } }

def defaultSpec (spec : FrpServerSpec) : FrpServerSpec :=
  { spec with
    auth := { spec.auth with method := emptyOr spec.auth.method frpServerAuthMethodToken }
    serverPort := emptyOr spec.serverPort 7000
    loginFailExit := emptyOr spec.loginFailExit (some true)
    natHoleSTUNServer := emptyOr spec.natHoleSTUNServer defaultNatHoleSTUNAddr
    udpPacketSize := emptyOr spec.udpPacketSize 1500
    transport := defaultTransport spec.transport }

/-- `Default`: the changed object with `ctx.Err()`, or a panic. -/
def default (ctxErr : Option GoError) (obj : FrpServer) :
    Except String (FrpServer × Option GoError) := do
  let spec := defaultSpec obj.body.spec
  if spec.transport.protocol = frpServerTransportProtocolQUIC then
    let quic ← defaultQUIC spec.transport.quic
    let spec := { spec with transport := { spec.transport with quic := some quic } }
    return ({ obj with body := { obj.body with spec := spec } }, ctxErr)
  else
    return ({ obj with body := { obj.body with spec := spec } }, ctxErr)

def FilledQUIC (protocol : String) (old new : Option FrpServerTransportQUIC) : Prop :=
  if protocol = frpServerTransportProtocolQUIC then
    ∃ quic, defaultQUIC old = .ok quic ∧ new = some quic
  else new = old

def withDefaults (spec : FrpServerSpec) (quic : Option FrpServerTransportQUIC) : FrpServerSpec :=
  { defaultSpec spec with transport := { defaultTransport spec.transport with quic := quic } }

/-- What `Default` returns, when it does. -/
theorem default_eq_ok {ctxErr err : Option GoError} {obj obj' : FrpServer} :
     default ctxErr obj = .ok (obj', err) ↔ err = ctxErr ∧
    ∃ quic, FilledQUIC (defaultSpec obj.body.spec).transport.protocol
        obj.body.spec.transport.quic quic ∧
      obj' = { obj with body := { obj.body with spec := withDefaults obj.body.spec quic } } := by
  unfold default FilledQUIC
  dsimp only
  by_cases hprotocol : (defaultSpec obj.body.spec).transport.protocol =
      frpServerTransportProtocolQUIC
  · simp only [if_pos hprotocol]
    have hsame : (defaultSpec obj.body.spec).transport.quic = obj.body.spec.transport.quic := rfl
    rw [hsame]
    constructor
    · intro h
      cases hquic : defaultQUIC obj.body.spec.transport.quic with
      | error panic =>
        rw [hquic] at h
        cases h
      | ok quic =>
        rw [hquic] at h
        cases h
        exact ⟨rfl, some quic, ⟨quic, rfl, rfl⟩, rfl⟩
    · rintro ⟨rfl, _, ⟨quic, hquic, rfl⟩, rfl⟩
      rw [hquic]
      rfl
  · simp only [if_neg hprotocol]
    constructor
    · intro h
      cases h
      exact ⟨rfl, _, rfl, rfl⟩
    · rintro ⟨rfl, _, rfl, rfl⟩
      rfl

end Default

section Static
variable (spec : FrpServerSpec)

def authChecks (auth : FrpServerAuth) : List (Option GoError) :=
  [failWhen (!frpServerAuthMethods.contains auth.method)
      ("invalid spec.auth.method, optional values are " ++ listed frpServerAuthMethods),
    failWhen (!auth.additionalScopes.all frpServerAuthScopes.contains)
      ("invalid spec.auth.authScopes, optional values are " ++ listed frpServerAuthScopes),
    failWhen (auth.method = frpServerAuthMethodToken && auth.token = "")
      "field spec.auth.token should not be empty"]

/-- The protocol is looked at only when there is a reference. -/
def secretRefChecks (transport : FrpServerTransport) : List (Option GoError) :=
  match transport.tls.secretRef with
  | none => []
  | some ref =>
    [failWhen (ref.name ≠ "" && ref.ns = "")
        ("field spec.transport.tls.secretRef.namespace" ++
          " should not be empty when spec.transport.tls.secretRef.name is not empty"),
      failWhen (ref.name = "" && ref.ns ≠ "")
        ("field spec.transport.tls.secretRef.name" ++
          " should not be empty when spec.transport.tls.secretRef.namespace is not empty"),
      failWhen (!frpServerTransportProtocols.contains transport.protocol)
        ("invalid spec.transport.protocol, optional values are " ++
          listed frpServerTransportProtocols)]

/-- The static checks in their order, with the check of the port as a parameter. -/
def staticChecks (portCheck : ℤ → Option GoError) : List (Option GoError) :=
  authChecks spec.auth ++
  [failWhen (spec.serverAddr = "") "field spec.serverAddr should not be empty",
    portCheck spec.serverPort,
    failWhen spec.externalIPs.isEmpty "field spec.externalIPs should not be empty",
    failWhen (0 < spec.transport.heartbeatTimeout && 0 < spec.transport.heartbeatInterval &&
        spec.transport.heartbeatTimeout < spec.transport.heartbeatInterval)
      ("invalid spec.transport.heartbeatTimeout, spec.transport.heartbeatTimeout should" ++
        " not less than spec.transport.heartbeatInterval")] ++
  secretRefChecks spec.transport

def createPort (port : ℤ) : Option GoError :=
  (validatePort port).map fun err =>
    .wrap ("invalid field spec.serverPort, got: " ++ err.error) err

def updatePort (port : ℤ) : Option GoError :=
  failWhen (port ≤ 0) "field spec.serverPort should not be empty"

def staticCreate : Option GoError := joinChecks (staticChecks spec createPort)

def staticUpdate : Option GoError := joinChecks (staticChecks spec updatePort)

end Static

section Validate
variable {m : Type → Type} [Monad m] (live : FrpServer → m Verdict)

def report : Verdict → Verdict
  | .error panic => .error panic
  | .ok none => .ok none
  | .ok (some err) => .ok (errorsJoin [none,
      some (.wrap ("failed to validate frp config, got: " ++ err.error) err)])

/-- The live check is made when the static ones have passed. -/
def validate (static : Option GoError) (obj : FrpServer) : m Verdict :=
  match static with
  | some errs => return .ok (some errs)
  | none => do return report (← live obj)

def validateCreate (obj : FrpServer) : m Verdict := validate live (staticCreate obj.body.spec) obj

def validateUpdate (_old obj : FrpServer) : m Verdict :=
  validate live (staticUpdate obj.body.spec) obj

end Validate

structure CommonOk (spec : FrpServerSpec) : Prop where
  method : spec.auth.method ∈ frpServerAuthMethods
  scopes : ∀ scope ∈ spec.auth.additionalScopes, scope ∈ frpServerAuthScopes
  token : spec.auth.method = frpServerAuthMethodToken → spec.auth.token ≠ ""
  serverAddr : spec.serverAddr ≠ ""
  externalIPs : spec.externalIPs ≠ []
  heartbeat : 0 < spec.transport.heartbeatTimeout → 0 < spec.transport.heartbeatInterval →
    spec.transport.heartbeatInterval ≤ spec.transport.heartbeatTimeout
  secretRef : ∀ ref, spec.transport.tls.secretRef = some ref → (ref.name ≠ "" ↔ ref.ns ≠ "") ∧
    spec.transport.protocol ∈ frpServerTransportProtocols

section Agreement
variable {spec : FrpServerSpec}

theorem authChecks_pass {auth : FrpServerAuth} : (∀ c ∈ authChecks auth, c = none) ↔
    auth.method ∈ frpServerAuthMethods ∧
    (∀ scope ∈ auth.additionalScopes, scope ∈ frpServerAuthScopes) ∧
    (auth.method = frpServerAuthMethodToken → auth.token ≠ "") := by
  simp [authChecks]

theorem secretRefChecks_pass {transport : FrpServerTransport} :
    (∀ c ∈ secretRefChecks transport, c = none) ↔
    ∀ ref, transport.tls.secretRef = some ref → (ref.name ≠ "" ↔ ref.ns ≠ "") ∧
      transport.protocol ∈ frpServerTransportProtocols := by
  unfold secretRefChecks
  cases transport.tls.secretRef with
  | none => simp
  | some ref =>
    by_cases hname : ref.name = "" <;> by_cases hns : ref.ns = "" <;> simp [hname, hns]

/-- A spec passes the static checks when it meets the common demands and its port passes. -/
theorem staticChecks_pass {portCheck : ℤ → Option GoError} :
    joinChecks (staticChecks spec portCheck) = none ↔
      CommonOk spec ∧ portCheck spec.serverPort = none := by
  have hbody : ∀ {checks : List (Option GoError)}, joinChecks (authChecks spec.auth ++ checks ++
      secretRefChecks spec.transport) = none ↔ (∀ c ∈ authChecks spec.auth, c = none) ∧
        (∀ c ∈ checks, c = none) ∧ ∀ c ∈ secretRefChecks spec.transport, c = none := by
    intro checks
    rw [joinChecks_eq_none, List.forall_mem_append, List.forall_mem_append, and_assoc]
  unfold staticChecks
  rw [hbody, authChecks_pass, secretRefChecks_pass]
  simp only [List.forall_mem_cons, List.not_mem_nil, failWhen_eq_none]
  constructor
  · rintro ⟨⟨hmethod, hscopes, htoken⟩, ⟨haddr, hport, hips, hbeat, -⟩, href⟩
    refine ⟨⟨hmethod, hscopes, htoken, by simpa using haddr, by simpa using hips, ?_, href⟩, hport⟩
    simpa using hbeat
  · rintro ⟨h, hport⟩
    refine ⟨⟨h.method, h.scopes, h.token⟩, ⟨?_, hport, ?_, ?_, by simp⟩, h.secretRef⟩
    · simpa using h.serverAddr
    · simpa using h.externalIPs
    · simpa using h.heartbeat

theorem createPort_pass {port : ℤ} : createPort port = none ↔ 0 ≤ port ∧ port ≤ 65535 := by
  simp [createPort, validatePort]

theorem updatePort_pass {port : ℤ} : updatePort port = none ↔ 0 < port := by
  simp [updatePort]

theorem staticCreate_pass : staticCreate spec = none ↔
    CommonOk spec ∧ 0 ≤ spec.serverPort ∧ spec.serverPort ≤ 65535 :=
  staticChecks_pass.trans (and_congr_right fun _ => createPort_pass)

theorem staticUpdate_pass : staticUpdate spec = none ↔ CommonOk spec ∧ 0 < spec.serverPort :=
  staticChecks_pass.trans (and_congr_right fun _ => updatePort_pass)

theorem report_accepts {verdict : Verdict} : report verdict = .ok none ↔ verdict = .ok none := by
  match verdict with
  | .error panic => simp [report]
  | .ok none => simp [report]
  | .ok (some err) => simp [report, errorsJoin_eq_none]

theorem validate_accepts {verdict : Verdict} {static : Option GoError} {obj : FrpServer} :
    validate (m := Id) (fun _ => verdict) static obj = .ok none ↔
      static = none ∧ verdict = .ok none := by
  cases static with
  | some errs =>
    show (Except.ok (some errs) : Verdict) = .ok none ↔ _
    simp
  | none =>
    show report verdict = .ok none ↔ _
    simp [report_accepts]

/-- The webhooks agree on an object: the static checks do, and so do the verdicts for every
answer of the live check. -/
def Agree (old obj : FrpServer) : Prop :=
  (staticUpdate obj.body.spec = none ↔ staticCreate obj.body.spec = none) ∧
    ∀ verdict : Verdict, validateUpdate (m := Id) (fun _ => verdict) old obj = .ok none ↔
      validateCreate (m := Id) (fun _ => verdict) obj = .ok none

/-- On an object that is not refused for another reason, the webhooks agree exactly when the
port is negative or a port number other than zero. -/
theorem agree_iff (old obj : FrpServer) : Agree old obj ↔ (CommonOk obj.body.spec →
    obj.body.spec.serverPort < 0 ∨
      (1 ≤ obj.body.spec.serverPort ∧ obj.body.spec.serverPort ≤ 65535)) := by
  have hstatic : Agree old obj ↔
      (staticUpdate obj.body.spec = none ↔ staticCreate obj.body.spec = none) := by
    refine ⟨And.left, fun h => ⟨h, fun verdict => ?_⟩⟩
    exact validate_accepts.trans ((and_congr_left fun _ => h).trans validate_accepts.symm)
  rw [hstatic, staticUpdate_pass, staticCreate_pass]
  constructor
  · intro h hok
    simp only [hok, true_and] at h
    omega
  · intro h
    refine and_congr_right fun hok => ?_
    have := h hok
    omega

/-- Port 70000 can be stored by an update but not on creation. -/
def outOfRangeServer : FrpServer :=
  { tcpServer with body := ⟨{ tcpSpec with serverPort := 70000 }, .empty⟩ }

theorem not_agree_outOfRangeServer : ¬ Agree tcpServer outOfRangeServer ∧
    validateUpdate (m := Id) (fun _ => .ok none) tcpServer outOfRangeServer = .ok none ∧
    validateCreate (m := Id) (fun _ => .ok none) outOfRangeServer ≠ .ok none := by
  have hcreate : staticCreate outOfRangeServer.body.spec ≠ none := by decide
  have hupdate : staticUpdate outOfRangeServer.body.spec = none := by decide
  refine ⟨fun h => hcreate (h.1.mp hupdate), validate_accepts.mpr ⟨hupdate, rfl⟩, fun h => ?_⟩
  exact hcreate (validate_accepts.mp h).1

end Agreement
end FrpServerValidator
end FrpProvisioner
