import FrpProvisioner.Api.Meta
import Mathlib.Data.Int.Notation

/-! The configuration of the frp client as vendored: `ClientCommonConfig`, its defaults
(`Complete`) and its validation. -/
namespace FrpProvisioner

/-- `util.EmptyOr`; the zero values of the types it is used at are their defaults. -/
def emptyOr {α : Type} [DecidableEq α] [Inhabited α] (v fallback : α) : α :=
  if v = default then fallback else v

theorem emptyOr_of_ne {α : Type} [DecidableEq α] [Inhabited α] {v fallback : α}
    (h : v ≠ default) : emptyOr v fallback = v := if_neg h

theorem emptyOr_ne_default {α : Type} [DecidableEq α] [Inhabited α] {v fallback : α}
    (h : fallback ≠ default) : emptyOr v fallback ≠ default := by
  unfold emptyOr
  split <;> assumption

structure AuthOIDCClientConfig where
  clientID : String
  clientSecret : String
  audience : String
  scope : String
  tokenEndpointURL : String
  additionalEndpointParams : StringMap
  deriving DecidableEq

structure AuthClientConfig where
  method : String
  additionalScopes : List String
  token : String
  oidc : AuthOIDCClientConfig
  deriving DecidableEq

structure TLSConfig where
  certFile : String
  keyFile : String
  trustedCaFile : String
  serverName : String
  deriving DecidableEq

structure TLSClientConfig extends TLSConfig where
  enable : Option Bool
  disableCustomTLSFirstByte : Option Bool
  deriving DecidableEq

structure QUICOptions where
  keepalivePeriod : ℤ
  maxIdleTimeout : ℤ
  maxIncomingStreams : ℤ
  deriving DecidableEq

structure ClientTransportConfig where
  protocol : String
  dialServerTimeout : ℤ
  dialServerKeepAlive : ℤ
  connectServerLocalIP : String
  proxyURL : String
  poolCount : ℤ
  tcpMux : Option Bool
  tcpMuxKeepaliveInterval : ℤ
  quic : QUICOptions
  heartbeatInterval : ℤ
  heartbeatTimeout : ℤ
  tls : TLSClientConfig
  deriving DecidableEq

structure LogConfig where
  /-- `To`, a keyword here. -/
  dest : String
  level : String
  maxDays : ℤ
  deriving DecidableEq

structure WebServerConfig where
  addr : String
  port : ℤ
  tls : Option TLSConfig
  deriving DecidableEq

structure ClientCommonConfig where
  auth : AuthClientConfig
  user : String
  serverAddr : String
  serverPort : ℤ
  natHoleSTUNServer : String
  dnsServer : String
  loginFailExit : Option Bool
  log : LogConfig
  webServer : WebServerConfig
  transport : ClientTransportConfig
  udpPacketSize : ℤ
  metadatas : StringMap
  includeConfigFiles : List String
  deriving DecidableEq

section Complete

def AuthClientConfig.complete (c : AuthClientConfig) : AuthClientConfig :=
  { c with method := emptyOr c.method "token" }

def LogConfig.complete (c : LogConfig) : LogConfig where
  dest := emptyOr c.dest "console"
  level := emptyOr c.level "info"
  maxDays := emptyOr c.maxDays 3

def WebServerConfig.complete (c : WebServerConfig) : WebServerConfig :=
  { c with addr := emptyOr c.addr "127.0.0.1" }

def QUICOptions.complete (c : QUICOptions) : QUICOptions where
  keepalivePeriod := emptyOr c.keepalivePeriod 10
  maxIdleTimeout := emptyOr c.maxIdleTimeout 30
  maxIncomingStreams := emptyOr c.maxIncomingStreams 100000

def TLSClientConfig.complete (c : TLSClientConfig) : TLSClientConfig :=
  { c with
    enable := emptyOr c.enable (some true)
    disableCustomTLSFirstByte := emptyOr c.disableCustomTLSFirstByte (some true) }

/-- `httpProxy` is the environment variable `http_proxy`. -/
def ClientTransportConfig.complete (httpProxy : String) (c : ClientTransportConfig) :
    ClientTransportConfig :=
  { c with
    protocol := emptyOr c.protocol "tcp"
    dialServerTimeout := emptyOr c.dialServerTimeout 10
    dialServerKeepAlive := emptyOr c.dialServerKeepAlive 7200
    proxyURL := emptyOr c.proxyURL httpProxy
    poolCount := emptyOr c.poolCount 1
    tcpMux := emptyOr c.tcpMux (some true)
    tcpMuxKeepaliveInterval := emptyOr c.tcpMuxKeepaliveInterval 60
    heartbeatInterval := emptyOr c.heartbeatInterval 30
    heartbeatTimeout := emptyOr c.heartbeatTimeout 90
    quic := c.quic.complete
    tls := c.tls.complete }

def ClientCommonConfig.complete (httpProxy : String) (c : ClientCommonConfig) :
    ClientCommonConfig :=
  { c with
    serverAddr := emptyOr c.serverAddr "0.0.0.0"
    serverPort := emptyOr c.serverPort 7000
    loginFailExit := emptyOr c.loginFailExit (some true)
    natHoleSTUNServer := emptyOr c.natHoleSTUNServer "stun.easyvoip.com:3478"
    auth := c.auth.complete
    log := c.log.complete
    transport := c.transport.complete httpProxy
    webServer := c.webServer.complete
    udpPacketSize := emptyOr c.udpPacketSize 1500 }

end Complete

section Validation

def supportedTransportProtocols : List String := ["tcp", "kcp", "quic", "websocket", "wss"]
def supportedAuthMethods : List String := ["token", "oidc"]
def supportedAuthAdditionalScopes : List String := ["HeartBeats", "NewWorkConns"]
def supportedLogLevels : List String := ["trace", "debug", "info", "warn", "error"]

/-- A Go list of strings under `%v`. -/
def listed (values : List String) : String := "[" ++ " ".intercalate values ++ "]"

def failWhen (bad : Bool) (message : String) : Option GoError :=
  if bad then some (.text message) else none

@[simp] theorem failWhen_eq_none {bad : Bool} {message : String} :
    failWhen bad message = none ↔ bad = false := by
  cases bad <;> simp [failWhen]

def validatePortField (port : ℤ) (fieldPath : String) : Option GoError :=
  failWhen (!(0 ≤ port && port ≤ 65535)) (fieldPath ++ ": port number " ++ toString port ++
    " must be in the range 0..65535")

def validateLogConfig (c : LogConfig) : Option GoError :=
  failWhen (!supportedLogLevels.contains c.level)
    ("invalid log level, optional values are " ++ listed supportedLogLevels)

def validateWebServerConfig (c : WebServerConfig) : Option GoError :=
  match c.tls with
  | some tls =>
    if tls.certFile = "" then
      some (.text "tls.certFile must be specified when tls is enabled")
    else if tls.keyFile = "" then
      some (.text "tls.keyFile must be specified when tls is enabled")
    else validatePortField c.port "webServer.port"
  | none => validatePortField c.port "webServer.port"

def checkTLSConfig (name value : String) : Option GoError :=
  failWhen (value ≠ "") (name ++ " is invalid when transport.tls.enable is false")

def warnClientCommonConfig (c : ClientCommonConfig) : Option GoError :=
  if c.transport.tls.enable.getD false then none
  else
    errorsJoin [errorsJoin [errorsJoin [none,
      checkTLSConfig "transport.tls.certFile" c.transport.tls.certFile],
      checkTLSConfig "transport.tls.keyFile" c.transport.tls.keyFile],
      checkTLSConfig "transport.tls.trustedCaFile" c.transport.tls.trustedCaFile]

/-- The checks of `ValidateClientCommonConfig` in their order; `includeError` is what the file
system says about the directory of an included file. -/
def clientCommonChecks (includeError : String → Option GoError) (c : ClientCommonConfig) :
    List (Option GoError) :=
  [failWhen (!supportedAuthMethods.contains c.auth.method)
      ("invalid auth method, optional values are " ++ listed supportedAuthMethods),
    failWhen (!c.auth.additionalScopes.all supportedAuthAdditionalScopes.contains)
      ("invalid auth additional scopes, optional values are " ++
        listed supportedAuthAdditionalScopes),
    validateLogConfig c.log,
    validateWebServerConfig c.webServer,
    failWhen (0 < c.transport.heartbeatTimeout && 0 < c.transport.heartbeatInterval &&
        c.transport.heartbeatTimeout < c.transport.heartbeatInterval)
      ("invalid transport.heartbeatTimeout, heartbeat timeout should not less than " ++
        "heartbeat interval"),
    failWhen (!supportedTransportProtocols.contains c.transport.protocol)
      ("invalid transport.protocol, optional values are " ++
        listed supportedTransportProtocols)] ++
  c.includeConfigFiles.map includeError

def validateClientCommonConfig (includeError : String → Option GoError)
    (c : ClientCommonConfig) : Option GoError × Option GoError :=
  (warnClientCommonConfig c, joinChecks (clientCommonChecks includeError c))

theorem validateClientCommonConfig_pass {includeError : String → Option GoError}
    {c : ClientCommonConfig} : (validateClientCommonConfig includeError c).2 = none ↔
      c.auth.method ∈ supportedAuthMethods ∧
      (∀ scope ∈ c.auth.additionalScopes, scope ∈ supportedAuthAdditionalScopes) ∧
      validateLogConfig c.log = none ∧ validateWebServerConfig c.webServer = none ∧
      (0 < c.transport.heartbeatTimeout → 0 < c.transport.heartbeatInterval →
        c.transport.heartbeatInterval ≤ c.transport.heartbeatTimeout) ∧
      c.transport.protocol ∈ supportedTransportProtocols ∧
      ∀ file ∈ c.includeConfigFiles, includeError file = none := by
  simp [validateClientCommonConfig, joinChecks_eq_none, clientCommonChecks]

end Validation
end FrpProvisioner
