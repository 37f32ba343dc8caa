import FrpProvisioner.Api.FrpServer
import FrpProvisioner.FrpClient.Quic
import FrpProvisioner.Effect.Program

/-! `pkg/utils/frpclient/validate.go`: the live check of an `FrpServer`. It builds the
configuration of an frp client, puts the TLS material of a Secret into temporary files, and
logs in once. Deferred calls run when the rest of the function has ended. -/
namespace FrpProvisioner
open Effect

def validatePort (port : ℤ) : Option GoError :=
  if 0 ≤ port ∧ port ≤ 65535 then none
  else some (.text ("port number " ++ toString port ++ " must be in the range 0..65535"))

abbrev SecretData := Table (Prod.fst : String × List UInt8 → String)

def SecretData.get (data : SecretData) (name : String) : Option (List UInt8) :=
  (data.find? name).map Prod.snd

structure ClientSpec where
  type : String
  alwaysAuthPass : Bool
  deriving DecidableEq

structure Login where
  version : String
  hostname : String
  os : String
  arch : String
  user : String
  privilegeKey : String
  timestamp : Time
  runID : String
  metas : StringMap
  clientSpec : ClientSpec
  poolCount : ℤ
  deriving DecidableEq

structure LoginResp where
  version : String
  runID : String
  error : String
  deriving DecidableEq

/-- What the process knows: its environment, its build, and functions of other packages. -/
structure ProbeEnv where
  httpProxy : String
  version : String
  goos : String
  goarch : String
  /-- `util.GetAuthKey`, a hash of token and timestamp. -/
  getAuthKey : String → Time → String
  /-- `fmt.Errorf` of a text without operands. -/
  errorf : String → String
  includeError : String → Option GoError

inductive ProbeRequest where
  | getSecret (key : NamespacedName)
  | createTemp (pattern : String)
  | write (file : String) (data : List UInt8)
  | close (file : String)
  | remove (file : String)
  /-- `connMgr.Open`, for QUIC up to the first packet. -/
  | openConnector (config : ClientCommonConfig)
  /-- The rest of `connMgr.Open` for QUIC. -/
  | handshake
  | connect
  | closeConn
  | closeConnector
  | hostname
  | now
  /-- `tokenGenerator.Token` of the OIDC provider. -/
  | token (config : AuthOIDCClientConfig)
  | writeMsg (msg : Login)
  | readMsg

@[reducible] def ProbeResponse : ProbeRequest → Type
  | .getSecret _ => Except GoError SecretData
  | .createTemp _ => Except GoError String
  | .write _ _ => Option GoError
  | .close _ => Unit
  | .remove _ => Unit
  | .openConnector _ => Option GoError
  | .handshake => Option GoError
  | .connect => Option GoError
  | .closeConn => Unit
  | .closeConnector => Unit
  | .hostname => Except GoError String
  | .now => Time
  | .token _ => Except GoError String
  | .writeMsg _ => Option GoError
  | .readMsg => Except GoError LoginResp

abbrev Probe (α : Type) := Program ProbeRequest ProbeResponse α

namespace Probe

abbrev getSecret (key : NamespacedName) : Probe (Except GoError SecretData) :=
  Program.call (ProbeRequest.getSecret key)
abbrev createTemp (pattern : String) : Probe (Except GoError String) :=
  Program.call (ProbeRequest.createTemp pattern)
abbrev write (file : String) (data : List UInt8) : Probe (Option GoError) :=
  Program.call (ProbeRequest.write file data)
abbrev close (file : String) : Probe Unit := Program.call (ProbeRequest.close file)
abbrev remove (file : String) : Probe Unit := Program.call (ProbeRequest.remove file)
abbrev openConnector (config : ClientCommonConfig) : Probe (Option GoError) :=
  Program.call (ProbeRequest.openConnector config)
abbrev handshake : Probe (Option GoError) := Program.call ProbeRequest.handshake
abbrev connect : Probe (Option GoError) := Program.call ProbeRequest.connect
abbrev closeConn : Probe Unit := Program.call ProbeRequest.closeConn
abbrev closeConnector : Probe Unit := Program.call ProbeRequest.closeConnector
abbrev hostname : Probe (Except GoError String) := Program.call ProbeRequest.hostname
abbrev now : Probe Time := Program.call ProbeRequest.now
abbrev token (config : AuthOIDCClientConfig) : Probe (Except GoError String) :=
  Program.call (ProbeRequest.token config)
abbrev writeMsg (msg : Login) : Probe (Option GoError) :=
  Program.call (ProbeRequest.writeMsg msg)
abbrev readMsg : Probe (Except GoError LoginResp) := Program.call ProbeRequest.readMsg

end Probe

/-- The error that is returned, or the message of a panic. -/
abbrev Verdict := Except String (Option GoError)

inductive AuthSetter where
  | token (token : String)
  | oidc (config : AuthOIDCClientConfig)

/-- `auth.NewAuthSetter`, which panics for other methods. -/
def newAuthSetter (cfg : AuthClientConfig) : Except String AuthSetter :=
  if cfg.method = "token" then .ok (.token cfg.token)
  else if cfg.method = "oidc" then .ok (.oidc cfg.oidc)
  else .error ("wrong method: '" ++ cfg.method ++ "'")

section Convert

def FrpServerAuthOIDC.toClient (oidc : FrpServerAuthOIDC) : AuthOIDCClientConfig where
  clientID := oidc.clientID
  clientSecret := oidc.clientSecret
  audience := oidc.audience
  scope := oidc.scope
  tokenEndpointURL := oidc.tokenEndpointURL
  additionalEndpointParams := oidc.additionalEndpointParams

def AuthOIDCClientConfig.zero : AuthOIDCClientConfig := ⟨"", "", "", "", "", .empty⟩

def FrpServerAuth.toClient (auth : FrpServerAuth) : AuthClientConfig where
  method := auth.method
  additionalScopes := auth.additionalScopes
  token := auth.token
  oidc := auth.oidc.elim .zero FrpServerAuthOIDC.toClient

/-- Options that are not given are zero. -/
def quicToClient (quic : Option FrpServerTransportQUIC) : QUICOptions :=
  quic.elim ⟨0, 0, 0⟩ fun quic =>
    ⟨quic.keepalivePeriod, quic.maxIdleTimeout, quic.maxIncomingStreams⟩

def FrpServerTransport.toClient (transport : FrpServerTransport) : ClientTransportConfig where
  protocol := transport.protocol
  dialServerTimeout := transport.dialServerTimeout
  dialServerKeepAlive := transport.dialServerKeepAlive
  connectServerLocalIP := transport.connectServerLocalIP
  proxyURL := transport.proxyURL
  poolCount := transport.poolCount
  tcpMux := transport.tcpMux
  tcpMuxKeepaliveInterval := transport.tcpMuxKeepaliveInterval
  quic := quicToClient transport.quic
  heartbeatInterval := transport.heartbeatInterval
  heartbeatTimeout := transport.heartbeatTimeout
  tls :=
    { certFile := "", keyFile := "", trustedCaFile := "", serverName := transport.tls.serverName
      enable := some transport.tls.secretRef.isSome
      disableCustomTLSFirstByte := transport.tls.disableCustomTLSFirstByte }

/-- `commonConfig` as it is built from the spec, before any file is named. -/
def FrpServerSpec.toClient (spec : FrpServerSpec) : ClientCommonConfig where
  auth := spec.auth.toClient
  user := spec.user
  serverAddr := spec.serverAddr
  serverPort := spec.serverPort
  natHoleSTUNServer := spec.natHoleSTUNServer
  dnsServer := spec.dnsServer
  loginFailExit := spec.loginFailExit
  log := ⟨"", "", 0⟩
  webServer := ⟨"", 0, none⟩
  transport := spec.transport.toClient
  udpPacketSize := spec.udpPacketSize
  metadatas := spec.metadatas
  includeConfigFiles := []

def ClientCommonConfig.setTLS (config : ClientCommonConfig)
    (f : TLSClientConfig → TLSClientConfig) : ClientCommonConfig :=
  { config with transport := { config.transport with tls := f config.transport.tls } }

end Convert

/-- `strings.EqualFold` with a text whose letters fold to ASCII only. -/
def equalFold (s t : String) : Bool := s.toList.map Char.toLower == t.toList.map Char.toLower

namespace Probe
variable (env : ProbeEnv)

def fail (err : GoError) : Probe Verdict := return .ok (some err)

def setLogin (setter : AuthSetter) (msg : Login) : Probe (Except GoError Login) :=
  match setter with
  | .token token => return .ok { msg with privilegeKey := env.getAuthKey token msg.timestamp }
  | .oidc config => do
    match ← token config with
    | .error err =>
      return .error (.text ("couldn't generate OIDC token for login: " ++ err.error))
    | .ok accessToken => return .ok { msg with privilegeKey := accessToken }

def loginMsg (config : ClientCommonConfig) (hostname : String) (now : Time) : Login where
  version := env.version
  hostname := hostname
  os := env.goos
  arch := env.goarch
  user := config.user
  privilegeKey := ""
  timestamp := now
  runID := ""
  metas := .empty
  clientSpec := ⟨"", false⟩
  poolCount := config.transport.poolCount

/-- From `os.Hostname` to the end. -/
def exchange (config : ClientCommonConfig) (setter : AuthSetter) : Probe Verdict := do
  match ← hostname with
  | .error err => fail err
  | .ok hostname =>
    let now ← now
    match ← setLogin env setter (loginMsg env config hostname now) with
    | .error err => fail err
    | .ok msg =>
      match ← writeMsg msg with
      | some err => fail err
      | none =>
        match ← readMsg with
        | .error err => fail err
        | .ok resp =>
          if resp.error ≠ "" then fail (.text (env.errorf resp.error)) else return .ok none

/-- `connMgr.Open`; over QUIC the options are written before the first packet. -/
def openConn (config : ClientCommonConfig) : Probe Verdict := do
  match ← openConnector config with
  | some err => fail err
  | none =>
    if equalFold config.transport.protocol "quic" then
      match Quic.dialParameters config.transport.quic with
      | .error panic => return .error panic
      | .ok _ => return .ok (← handshake)
    else return .ok none

/-- From `connMgr.Open` to the end; a connection is closed on every path. -/
def session (config : ClientCommonConfig) (setter : AuthSetter) : Probe Verdict := do
  match ← openConn config with
  | .error panic => return .error panic
  | .ok (some err) => fail err
  | .ok none =>
    match ← connect with
    | some err => fail err
    | none =>
      let verdict ← exchange env config setter
      closeConn
      return verdict

/-- The connector is closed on every path. -/
def connected (config : ClientCommonConfig) (setter : AuthSetter) : Probe Verdict := do
  let verdict ← session env config setter
  closeConnector
  return verdict

/-- From `commonConfig.Complete` to the end. -/
def login (config : ClientCommonConfig) : Probe Verdict :=
  let config := config.complete env.httpProxy
  match (validateClientCommonConfig env.includeError config).2 with
  | some err => fail err
  | none =>
    match newAuthSetter config.auth with
    | .error message => return .error message
    | .ok setter => connected env config setter

def withTemp (pattern : String) (rest : String → Probe Verdict) : Probe Verdict := do
  match ← createTemp pattern with
  | .error err => fail (.wrap ("unable create temp file, got: '" ++ err.error ++ "'") err)
  | .ok file =>
    let verdict ← rest file
    close file
    remove file
    return verdict

/-- `fmt.Errorf` with a nil error under `%w`. -/
def fileNotFound (name : String) (key : NamespacedName) : GoError :=
  .text ("file '" ++ name ++ "' not found on secret '" ++ key.string ++ "', got: %!w(<nil>)")

def incorrectContent (name : String) (key : NamespacedName) (err : GoError) : GoError :=
  .wrap ("file '" ++ name ++ "' has incorrect content on secret '" ++ key.string ++ "', got: " ++
    err.error) err

/-- The CA file is optional. -/
def withCa (key : NamespacedName) (data : SecretData) (config : ClientCommonConfig) :
    Probe Verdict :=
  match data.get defaultCaFileName with
  | none => login env config
  | some caData => withTemp "ca" fun caFile => do
    match ← write caFile caData with
    | some err => fail (incorrectContent defaultCaFileName key err)
    | none => login env (config.setTLS ({ · with trustedCaFile := caFile }))

def withKey (key : NamespacedName) (data : SecretData) (config : ClientCommonConfig) :
    Probe Verdict :=
  withTemp "key" fun keyFile =>
    match data.get defaultKeyFileName with
    | none => fail (fileNotFound defaultKeyFileName key)
    | some keyData => do
      match ← write keyFile keyData with
      -- the message names the certificate
      | some err => fail (incorrectContent defaultCertFileName key err)
      | none => withCa env key data (config.setTLS ({ · with keyFile := keyFile }))

def withCert (key : NamespacedName) (data : SecretData) (config : ClientCommonConfig) :
    Probe Verdict :=
  withTemp "cert" fun certFile =>
    match data.get defaultCertFileName with
    | none => fail (fileNotFound defaultCertFileName key)
    | some certData => do
      match ← write certFile certData with
      | some err => fail (incorrectContent defaultCertFileName key err)
      | none => withKey env key data (config.setTLS ({ · with certFile := certFile }))

end Probe

def validateFrpServerConfig (env : ProbeEnv) (obj : FrpServer) : Probe Verdict :=
  let config := obj.body.spec.toClient
  match obj.body.spec.transport.tls.secretRef with
  | none => Probe.login env config
  | some ref => do
    let key : NamespacedName := ⟨ref.ns, ref.name⟩
    match ← Probe.getSecret key with
    | .error err =>
      Probe.fail
        (.wrap ("unable get secret '" ++ key.string ++ "', got: '" ++ err.error ++ "'") err)
    | .ok data =>
      Probe.withCert env key data (config.setTLS ({ · with enable := some true }))

end FrpProvisioner
