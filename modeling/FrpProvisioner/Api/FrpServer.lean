import FrpProvisioner.Api.Meta
import Mathlib.Data.Int.Notation

/-! The `FrpServer` resource of `pkg/api/v1beta1` with its constants, and the status
conditions of `k8s.io/apimachinery`. Auth methods, scopes and protocols are Go strings: the
API server decodes any text into them, so they stay texts here. -/
namespace FrpProvisioner

section Spec

def frpServerAuthMethodToken : String := "token"
def frpServerAuthMethodOIDC : String := "oidc"
def frpServerAuthMethods : List String := [frpServerAuthMethodToken, frpServerAuthMethodOIDC]

def frpServerAuthScopeHeartBeats : String := "HeartBeats"
def frpServerAuthScopeNewWorkConns : String := "NewWorkConns"
def frpServerAuthScopes : List String :=
  [frpServerAuthScopeHeartBeats, frpServerAuthScopeNewWorkConns]

def frpServerTransportProtocolTCP : String := "tcp"
def frpServerTransportProtocolKCP : String := "kcp"
def frpServerTransportProtocolQUIC : String := "quic"
def frpServerTransportProtocolWebsocket : String := "websocket"
def frpServerTransportProtocolWSS : String := "wss"
def frpServerTransportProtocols : List String :=
  [frpServerTransportProtocolTCP, frpServerTransportProtocolKCP, frpServerTransportProtocolQUIC,
    frpServerTransportProtocolWSS, frpServerTransportProtocolWebsocket]

def defaultCaFileName : String := "tls.ca"
def defaultCertFileName : String := "tls.crt"
def defaultKeyFileName : String := "tls.key"
def defaultNatHoleSTUNAddr : String := "stun.easyvoip.com:3478"

structure FrpServerAuthOIDC where
  clientID : String
  clientSecret : String
  audience : String
  scope : String
  tokenEndpointURL : String
  additionalEndpointParams : StringMap
  deriving DecidableEq

structure FrpServerAuth where
  method : String
  additionalScopes : List String
  token : String
  oidc : Option FrpServerAuthOIDC
  deriving DecidableEq

structure FrpServerTransportQUIC where
  keepalivePeriod : ℤ
  maxIdleTimeout : ℤ
  maxIncomingStreams : ℤ
  deriving DecidableEq

structure SecretReference where
  name : String
  ns : String
  deriving DecidableEq

structure FrpServerTransportTLS where
  secretRef : Option SecretReference
  serverName : String
  disableCustomTLSFirstByte : Option Bool
  deriving DecidableEq

structure FrpServerTransport where
  protocol : String
  dialServerTimeout : ℤ
  dialServerKeepAlive : ℤ
  connectServerLocalIP : String
  proxyURL : String
  poolCount : ℤ
  tcpMux : Option Bool
  tcpMuxKeepaliveInterval : ℤ
  quic : Option FrpServerTransportQUIC
  heartbeatInterval : ℤ
  heartbeatTimeout : ℤ
  tls : FrpServerTransportTLS
  deriving DecidableEq

structure FrpServerSpec where
  auth : FrpServerAuth
  user : String
  serverAddr : String
  serverPort : ℤ
  externalIPs : List String
  natHoleSTUNServer : String
  dnsServer : String
  loginFailExit : Option Bool
  transport : FrpServerTransport
  udpPacketSize : ℤ
  metadatas : StringMap
  deriving DecidableEq

end Spec

/-- `FrpServerPhase`; `unset` is the empty text, `other` any text without a constant. -/
inductive FrpServerPhase where
  | unset | pending | healthy | unhealthy | unknown
  | other (phase : String)
  deriving DecidableEq, Repr

inductive ConditionStatus where
  | conditionTrue | conditionFalse | conditionUnknown
  deriving DecidableEq, Repr

structure Condition where
  type : String
  status : ConditionStatus
  observedGeneration : ℤ
  lastTransitionTime : Time
  reason : String
  message : String
  deriving DecidableEq, Repr

structure ServiceReference where
  name : String
  ns : String
  deriving DecidableEq

structure FrpServerStatus where
  phase : FrpServerPhase
  conditions : List Condition
  reason : String
  serviceReferences : List ServiceReference
  deriving DecidableEq

def FrpServerStatus.empty : FrpServerStatus := ⟨.unset, [], "", []⟩

structure FrpServerBody where
  spec : FrpServerSpec
  status : FrpServerStatus
  deriving DecidableEq

abbrev FrpServer := Object FrpServerBody

def FrpServer.setStatus (obj : FrpServer) (status : FrpServerStatus) : FrpServer :=
  { obj with body := { obj.body with status := status } }

/-- `meta.FindStatusCondition`: the first condition of that type. -/
def findStatusCondition (conditions : List Condition) (conditionType : String) :
    Option Condition :=
  conditions.find? (·.type = conditionType)

/-- An existing condition takes over the new one; its transition time moves only when the
status does. `now` is the clock, for a new condition without a time. -/
def Condition.merge (now : Time) (existing new : Condition) : Condition where
  type := existing.type
  status := new.status
  observedGeneration := new.observedGeneration
  lastTransitionTime :=
    if existing.status ≠ new.status then
      if new.lastTransitionTime ≠ 0 then new.lastTransitionTime else now
    else existing.lastTransitionTime
  reason := new.reason
  message := new.message

def Condition.fresh (now : Time) (new : Condition) : Condition :=
  if new.lastTransitionTime = 0 then { new with lastTransitionTime := now } else new

def setStatusCondition (now : Time) (new : Condition) : List Condition → List Condition
  | [] => [new.fresh now]
  | c :: cs =>
    if c.type = new.type then c.merge now new :: cs else c :: setStatusCondition now new cs

@[simp] theorem Condition.fresh_type (now : Time) (new : Condition) :
    (new.fresh now).type = new.type := by
  unfold Condition.fresh
  split <;> rfl

theorem findStatusCondition_set (now : Time) (new : Condition) (cs : List Condition) :
    findStatusCondition (setStatusCondition now new cs) new.type =
      some ((findStatusCondition cs new.type).elim (new.fresh now) (·.merge now new)) := by
  induction cs with
  | nil => simp [setStatusCondition, findStatusCondition]
  | cons c cs ih =>
    unfold findStatusCondition at ih ⊢
    by_cases hc : c.type = new.type
    · have htype : (c.merge now new).type = new.type := hc
      simp [setStatusCondition, hc, htype]
    · simpa [setStatusCondition, hc] using ih

/-- The conditions of other types stay, in their order. -/
theorem filter_setStatusCondition (now : Time) (new : Condition) (cs : List Condition) :
    (setStatusCondition now new cs).filter (·.type ≠ new.type) =
      cs.filter (·.type ≠ new.type) := by
  induction cs with
  | nil => simp [setStatusCondition]
  | cons c cs ih =>
    by_cases hc : c.type = new.type
    · have htype : (c.merge now new).type = new.type := hc
      simp [setStatusCondition, hc, htype]
    · simpa [setStatusCondition, hc] using ih

/-- A condition is added only where there was none of its type. -/
theorem countP_setStatusCondition (now : Time) (new : Condition) (cs : List Condition) :
    (setStatusCondition now new cs).countP (·.type = new.type) =
      max 1 (cs.countP (·.type = new.type)) := by
  induction cs with
  | nil => simp [setStatusCondition]
  | cons c cs ih =>
    by_cases hc : c.type = new.type
    · have htype : (c.merge now new).type = new.type := hc
      simp only [setStatusCondition, hc, ↓reduceIte, List.countP_cons, htype, decide_true]
      omega
    · simpa [setStatusCondition, hc, List.countP_cons] using ih

section Samples

/-- A server that is reached over TCP with a token. -/
def tcpSpec : FrpServerSpec where
  auth := ⟨frpServerAuthMethodToken, [], "secret", none⟩
  user := ""
  serverAddr := "frps.example"
  serverPort := 7000
  externalIPs := ["192.0.2.1"]
  natHoleSTUNServer := defaultNatHoleSTUNAddr
  dnsServer := ""
  loginFailExit := some true
  transport :=
    { protocol := frpServerTransportProtocolTCP, dialServerTimeout := 10
      dialServerKeepAlive := 7200, connectServerLocalIP := "", proxyURL := "", poolCount := 1
      tcpMux := some true, tcpMuxKeepaliveInterval := 60, quic := none, heartbeatInterval := 30
      heartbeatTimeout := 90, tls := ⟨none, "", some true⟩ }
  udpPacketSize := 1500
  metadatas := .empty

def tcpServer : FrpServer where
  name := "frps"
  ns := ""
  uid := "frps-uid"
  resourceVersion := 1
  deletionTimestamp := none
  labels := .empty
  annotations := .empty
  ownerReferences := []
  finalizers := []
  body := ⟨tcpSpec, .empty⟩

end Samples
end FrpProvisioner
