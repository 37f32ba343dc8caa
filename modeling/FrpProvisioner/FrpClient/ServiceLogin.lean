import FrpProvisioner.FrpClient.TempFiles

/-! The login of the frp client itself, `Service.login` of the vendored `client/service.go`, and
how the login of the live check differs from it: the client sends the metadata of its
configuration, the check does not. -/
namespace FrpProvisioner
open Effect

/-- `client.Service`, as far as `login` reads it. -/
structure ClientService where
  common : ClientCommonConfig
  authSetter : AuthSetter
  runID : String
  clientSpec : Option ClientSpec
  /-- `NewService` makes the setter of the configuration. -/
  setter_eq : newAuthSetter common.auth = .ok authSetter

namespace ClientService
variable (env : ProbeEnv) (svr : ClientService)

def loginMsg (now : Time) : Login where
  version := env.version
  hostname := ""
  os := env.goos
  arch := env.goarch
  user := svr.common.user
  privilegeKey := ""
  timestamp := now
  runID := svr.runID
  metas := svr.common.metadatas
  clientSpec := svr.clientSpec.getD ⟨"", false⟩
  poolCount := svr.common.transport.poolCount

/-- `login` from `connector.Connect` on; the new `runID` is returned. -/
def register : Probe (Except GoError String) := do
  match ← Probe.connect with
  | some err => return .error err
  | none =>
    let now ← Probe.now
    match ← Probe.setLogin env svr.authSetter (svr.loginMsg env now) with
    | .error err => return .error err
    | .ok msg =>
      match ← Probe.writeMsg msg with
      | some err => return .error err
      | none =>
        match ← Probe.readMsg with
        | .error err => return .error err
        | .ok resp =>
          if resp.error ≠ "" then return .error (.text resp.error) else return .ok resp.runID

/-- `login`: the new `runID`, an error or a panic. The connector is closed when `login` fails
after it was opened. -/
def login : Probe (Except String (Except GoError String)) := do
  match ← Probe.openConn svr.common with
  | .error panic => return .error panic
  | .ok (some err) => return .ok (.error err)
  | .ok none =>
    match ← svr.register env with
    | .error err =>
      Probe.closeConnector
      return .ok (.error err)
    | .ok runID => return .ok (.ok runID)

end ClientService

abbrev Provider := AuthOIDCClientConfig → Except GoError String

/-- Tokens come from the provider; all else is answered in any way. -/
def Provider.serve (tokens : Provider) : Server ProbeRequest ProbeResponse Unit
  | _, .token config, o, _ => o = tokens config
  | _, _, _, _ => True

def AuthSetter.keyAt (env : ProbeEnv) (tokens : Provider) (timestamp : Time) :
    AuthSetter → Except GoError String
  | .token secret => .ok (env.getAuthKey secret timestamp)
  | .oidc config => tokens config

def Signed (env : ProbeEnv) (tokens : Provider) (setter : AuthSetter) (unsigned m : Login) : Prop :=
  ∃ key, setter.keyAt env tokens unsigned.timestamp = .ok key ∧
    m = { unsigned with privilegeKey := key }

/-- The fields of a login that the configuration determines, at a given time. -/
structure Login.Determined where
  user : String
  poolCount : ℤ
  metas : StringMap
  privilegeKey : String

def Login.determined (m : Login) : Login.Determined :=
  ⟨m.user, m.poolCount, m.metas, m.privilegeKey⟩

/-- The part of a configuration that a login is made of. -/
structure LoginPart where
  auth : AuthClientConfig
  user : String
  poolCount : ℤ
  metadatas : StringMap

def ClientCommonConfig.loginPart (c : ClientCommonConfig) : LoginPart :=
  ⟨c.auth, c.user, c.transport.poolCount, c.metadatas⟩

theorem loginPart_complete {c c' : ClientCommonConfig} (h : c.loginPart = c'.loginPart)
    (httpProxy : String) :
    (c.complete httpProxy).loginPart = (c'.complete httpProxy).loginPart := by
  simp only [ClientCommonConfig.loginPart, LoginPart.mk.injEq] at h
  obtain ⟨hauth, huser, hpool, hmeta⟩ := h
  simp only [ClientCommonConfig.loginPart, ClientCommonConfig.complete,
    ClientTransportConfig.complete, hauth, huser, hpool, hmeta]

/-- Files change nothing in it. -/
theorem loginPart_material {data : SecretData} {config c : ClientCommonConfig}
    {held : List TempFile} (h : Probe.Material data config held c) :
    c.loginPart = config.loginPart := by
  cases h with
  | pair => rfl
  | ca => rfl

section Requests
variable {env : ProbeEnv} {tokens : Provider} {P : ProbeRequest → Prop}

/-- The requests of a program, with answers of the provider, satisfy `P`. -/
abbrev Sends (tokens : Provider) (P : ProbeRequest → Prop) {α : Type} (p : Probe α)
    (Q : α → Prop) : Prop :=
  p.wp Eq tokens.serve (fun _ i _ _ => P i) (fun a _ => Q a) ()

theorem sends_setLogin (htoken : ∀ config, P (.token config)) (setter : AuthSetter)
    (msg : Login) : Sends tokens P (Probe.setLogin env setter msg)
      fun result => ∀ m, result = .ok m → Signed env tokens setter msg m := by
  cases setter with
  | token token =>
    intro m hm
    cases hm
    exact ⟨_, rfl, rfl⟩
  | oidc config =>
    refine Program.wp_call_bind_alone fun o _ ho => ⟨htoken config, ?_⟩
    obtain rfl : o = tokens config := ho
    cases htokens : tokens config with
    | error err =>
      intro m hm
      cases hm
    | ok accessToken =>
      intro m hm
      cases hm
      exact ⟨accessToken, htokens, rfl⟩

theorem sends_openConn {c : ClientCommonConfig} (hopen : P (.openConnector c))
    (hhandshake : P .handshake) : Sends tokens P (Probe.openConn c) fun _ => True := by
  unfold Probe.openConn
  refine Program.wp_call_bind_alone fun o _ _ => ⟨hopen, ?_⟩
  cases o with
  | some err => trivial
  | none =>
    dsimp only
    split
    · split
      · trivial
      · exact Program.wp_call_bind_alone fun _ _ _ => ⟨hhandshake, trivial⟩
    · trivial

def OfClient (env : ProbeEnv) (tokens : Provider) (svr : ClientService) : ProbeRequest → Prop
  | .writeMsg m => ∃ now, Signed env tokens svr.authSetter (svr.loginMsg env now) m
  | _ => True

theorem sends_clientLogin (env : ProbeEnv) (tokens : Provider) (svr : ClientService) :
    Sends tokens (OfClient env tokens svr) (svr.login env) fun _ => True := by
  have hregister : Sends tokens (OfClient env tokens svr) (svr.register env) fun _ => True := by
    unfold ClientService.register
    refine Program.wp_call_bind_alone fun o _ _ => ⟨trivial, ?_⟩
    cases o with
    | some err => trivial
    | none =>
      refine Program.wp_call_bind_alone fun now _ _ => ⟨trivial, ?_⟩
      refine Program.wp_seq (sends_setLogin (fun _ => trivial) _ _) fun result _ hsigned => ?_
      cases result with
      | error err => trivial
      | ok msg =>
        refine Program.wp_call_bind_alone fun o _ _ => ⟨⟨now, hsigned msg rfl⟩, ?_⟩
        cases o with
        | some err => trivial
        | none =>
          refine Program.wp_call_bind_alone fun o _ _ => ⟨trivial, ?_⟩
          cases o with
          | error err => trivial
          | ok resp =>
            dsimp only
            split
            · trivial
            · trivial
  unfold ClientService.login
  refine Program.wp_seq (sends_openConn trivial trivial) fun verdict _ _ => ?_
  match verdict with
  | .error panic => trivial
  | .ok (some err) => trivial
  | .ok none =>
    refine Program.wp_seq hregister fun result _ _ => ?_
    cases result with
    | error err => exact Program.wp_call_bind_alone fun _ _ _ => ⟨trivial, trivial⟩
    | ok runID => trivial

/-- `c` is completed from `config`, as far as a login goes. -/
def CompletedFrom (env : ProbeEnv) (config c : ClientCommonConfig) : Prop :=
  c.loginPart = (config.complete env.httpProxy).loginPart

/-- The requests of the check of a spec: every configuration is completed from that of the spec,
and so is the one a login is made of. -/
def OfProbe (env : ProbeEnv) (tokens : Provider) (config : ClientCommonConfig) :
    ProbeRequest → Prop
  | .openConnector c => CompletedFrom env config c
  | .writeMsg m => ∃ c setter hostname now, CompletedFrom env config c ∧
      newAuthSetter c.auth = .ok setter ∧
      Signed env tokens setter (Probe.loginMsg env c hostname now) m
  | _ => True

variable {config c : ClientCommonConfig}

theorem sends_exchange {setter : AuthSetter} (hc : CompletedFrom env config c)
    (hsetter : newAuthSetter c.auth = .ok setter) :
    Sends tokens (OfProbe env tokens config) (Probe.exchange env c setter) fun _ => True := by
  unfold Probe.exchange
  refine Program.wp_call_bind_alone fun o _ _ => ⟨trivial, ?_⟩
  cases o with
  | error err => trivial
  | ok hostname =>
    refine Program.wp_call_bind_alone fun now _ _ => ⟨trivial, ?_⟩
    refine Program.wp_seq (sends_setLogin (fun _ => trivial) _ _) fun result _ hsigned => ?_
    cases result with
    | error err => trivial
    | ok msg =>
      refine Program.wp_call_bind_alone fun o _ _ => ?_
      refine ⟨⟨c, setter, hostname, now, hc, hsetter, hsigned msg rfl⟩, ?_⟩
      cases o with
      | some err => trivial
      | none =>
        refine Program.wp_call_bind_alone fun o _ _ => ⟨trivial, ?_⟩
        cases o with
        | error err => trivial
        | ok resp =>
          dsimp only
          split
          · trivial
          · trivial

theorem sends_login (hc : c.loginPart = config.loginPart) :
    Sends tokens (OfProbe env tokens config) (Probe.login env c) fun _ => True := by
  have hcomplete : CompletedFrom env config (c.complete env.httpProxy) := loginPart_complete hc _
  unfold Probe.login
  dsimp only
  split
  · trivial
  · split
    · trivial
    next setter hsetter =>
      unfold Probe.connected
      refine Program.wp_seq (P := fun _ _ => True) ?_ fun verdict _ _ =>
        Program.wp_call_bind_alone fun _ _ _ => ⟨trivial, trivial⟩
      unfold Probe.session
      refine Program.wp_seq (sends_openConn hcomplete trivial) fun verdict _ _ => ?_
      match verdict with
      | .error panic => trivial
      | .ok (some err) => trivial
      | .ok none =>
        refine Program.wp_call_bind_alone fun o _ _ => ⟨trivial, ?_⟩
        cases o with
        | some err => trivial
        | none =>
          refine Program.wp_seq (sends_exchange hcomplete hsetter) fun verdict _ _ => ?_
          exact Program.wp_call_bind_alone fun _ _ _ => ⟨trivial, trivial⟩

theorem sends_validateFrpServerConfig (env : ProbeEnv) (tokens : Provider) (obj : FrpServer) :
    Sends tokens (OfProbe env tokens obj.body.spec.toClient) (validateFrpServerConfig env obj)
      fun _ => True := by
  unfold validateFrpServerConfig
  dsimp only
  cases obj.body.spec.transport.tls.secretRef with
  | none => exact sends_login rfl
  | some ref =>
    refine Program.wp_call_bind_alone fun o _ _ => ⟨trivial, ?_⟩
    cases o with
    | error err => trivial
    | ok data =>
      have hcert : Probe.Balanced tokens.serve
          (fun _ i _ _ => OfProbe env tokens obj.body.spec.toClient i) (fun _ _ => True)
          (fun _ => True) (Probe.withCert env ⟨ref.ns, ref.name⟩ data
            (obj.body.spec.toClient.setTLS ({ · with enable := some true }))) [] := by
        have hfiles : ∀ i, Probe.AboutFiles i →
            OfProbe env tokens obj.body.spec.toClient i := by
          intro i hi
          cases i <;> trivial
        apply Probe.balanced_withCert (Probe.keepsFiles_trivial fun _ i _ _ => hfiles i)
          (fun _ => trivial)
        intro held c hmaterial s _
        refine Program.wp_mono (sends_login ?_) fun _ _ _ => ⟨trivial, trivial⟩
        rw [loginPart_material hmaterial]
        rfl
      exact Program.wp_mono (hcert () trivial) fun _ _ _ => trivial

end Requests

/-- The login of the check tells an frp server the same as that of a client with the same
completed configuration, at the same time, exactly when the spec has no metadata. -/
theorem probe_logs_in_alike_iff (env : ProbeEnv) (tokens : Provider) (obj : FrpServer)
    (svr : ClientService) (es es' : List (Program.Event ProbeRequest ProbeResponse))
    (verdict : Verdict) (result : Except String (Except GoError String))
    (hprobe : Program.Exec tokens.serve (validateFrpServerConfig env obj) () es verdict ())
    (hclient : Program.Exec tokens.serve (svr.login env) () es' result ())
    (opened : Option GoError) (hsame : ⟨.openConnector svr.common, opened⟩ ∈ es)
    (m m' : Login) (sent sent' : Option GoError) (hm : ⟨.writeMsg m, sent⟩ ∈ es)
    (hm' : ⟨.writeMsg m', sent'⟩ ∈ es') (htime : m'.timestamp = m.timestamp) :
    m.determined = m'.determined ↔ obj.body.spec.metadatas = .empty := by
  have hsends := sends_validateFrpServerConfig env tokens obj
  obtain ⟨-, -, hcommon⟩ := hprobe.guarantee hsends hsame
  obtain ⟨-, -, c, setter, hostname, now, hc, hsetter, key, hkey, rfl⟩ :=
    hprobe.guarantee hsends hm
  obtain ⟨-, -, now', key', hkey', rfl⟩ :=
    hclient.guarantee (sends_clientLogin env tokens svr) hm'
  have hmetas : svr.common.metadatas = obj.body.spec.metadatas :=
    congrArg LoginPart.metadatas hcommon
  have hpart : c.loginPart = svr.common.loginPart := hc.trans hcommon.symm
  have hauth : c.auth = svr.common.auth := congrArg LoginPart.auth hpart
  have huser : c.user = svr.common.user := congrArg LoginPart.user hpart
  have hpool : c.transport.poolCount = svr.common.transport.poolCount :=
    congrArg LoginPart.poolCount hpart
  -- the same setter signs both at the same time
  have hsetters : setter = svr.authSetter := by
    rw [hauth, svr.setter_eq] at hsetter
    injection hsetter with h
    exact h.symm
  have hkeys : key = key' := by
    obtain rfl : now' = now := htime
    rw [hsetters] at hkey
    have h : Except.ok key = Except.ok key' := hkey.symm.trans hkey'
    injection h
  show Login.Determined.mk c.user c.transport.poolCount .empty key =
    ⟨svr.common.user, svr.common.transport.poolCount, svr.common.metadatas, key'⟩ ↔ _
  rw [huser, hpool, hkeys, hmetas, Login.Determined.mk.injEq]
  constructor
  · rintro ⟨-, -, h, -⟩
    exact h.symm
  · intro h
    exact ⟨rfl, rfl, h.symm, rfl⟩

section Samples

def acceptAll : Unit → (i : ProbeRequest) → ProbeResponse i × Unit :=
  Probe.accepting fun _ _ => none

theorem serve_acceptAll (s : Unit) (i : ProbeRequest) :
    Provider.serve (fun _ => .ok "token") s i (acceptAll s i).1 (acceptAll s i).2 := by
  cases i with
  | token config => rfl
  | _ => trivial

def taggedServer (metadatas : StringMap) : FrpServer :=
  { tcpServer with body := ⟨{ tcpSpec with metadatas := metadatas }, .empty⟩ }

def taggedClient (metadatas : StringMap) : ClientService where
  common := (taggedServer metadatas).body.spec.toClient.complete ""
  authSetter := .token "secret"
  runID := ""
  clientSpec := none
  setter_eq := rfl

def probeLogin : Login :=
  ⟨"0.53.2", "host", "linux", "amd64", "", "secret", 1, "", .empty, ⟨"", false⟩, 1⟩

def clientLogin (metadatas : StringMap) : Login :=
  ⟨"0.53.2", "", "linux", "amd64", "", "secret", 1, "", metadatas, ⟨"", false⟩, 1⟩

theorem openConn_taggedClient (metadatas : StringMap) :
    Probe.openConn (taggedClient metadatas).common = do
      match ← Probe.openConnector (taggedClient metadatas).common with
      | some err => Probe.fail err
      | none => return .ok none := by
  have htcp : (taggedClient metadatas).common.transport.protocol = "tcp" := rfl
  have hfold : equalFold "tcp" "quic" = false := rfl
  unfold Probe.openConn
  simp only [htcp, hfold]
  rfl

theorem exec_taggedServer (metadatas : StringMap) : ∃ es verdict,
    Program.Exec (Provider.serve fun _ => .ok "token")
      (validateFrpServerConfig plainProbe (taggedServer metadatas)) () es verdict () ∧
      ⟨.openConnector (taggedClient metadatas).common, none⟩ ∈ es ∧
      ⟨.writeMsg probeLogin, none⟩ ∈ es := by
  have hrun := Program.exec_run serve_acceptAll
    (validateFrpServerConfig plainProbe (taggedServer metadatas)) ()
  have hevents : (Program.run acceptAll
      (validateFrpServerConfig plainProbe (taggedServer metadatas)) ()).1 =
      [⟨.openConnector (taggedClient metadatas).common, none⟩, ⟨.connect, none⟩,
        ⟨.hostname, .ok "host"⟩, ⟨.now, 1⟩, ⟨.writeMsg probeLogin, none⟩,
        ⟨.readMsg, .ok ⟨"", "run", ""⟩⟩, ⟨.closeConn, ()⟩, ⟨.closeConnector, ()⟩] := by
    have hlogin : validateFrpServerConfig plainProbe (taggedServer metadatas) =
      Probe.connected plainProbe (taggedClient metadatas).common (.token "secret") := rfl
    rw [hlogin]
    unfold Probe.connected Probe.session
    rw [openConn_taggedClient]
    rfl
  refine ⟨_, _, hrun, ?_, ?_⟩
  · rw [hevents]
    exact List.mem_cons_self
  · rw [hevents]
    simp

theorem exec_taggedClient (metadatas : StringMap) : ∃ es result,
    Program.Exec (Provider.serve fun _ => .ok "token")
      ((taggedClient metadatas).login plainProbe) () es result () ∧
      ⟨.writeMsg (clientLogin metadatas), none⟩ ∈ es := by
  have hrun := Program.exec_run serve_acceptAll ((taggedClient metadatas).login plainProbe) ()
  have hevents : (Program.run acceptAll ((taggedClient metadatas).login plainProbe) ()).1 =
      [⟨.openConnector (taggedClient metadatas).common, none⟩, ⟨.connect, none⟩, ⟨.now, 1⟩,
        ⟨.writeMsg (clientLogin metadatas), none⟩, ⟨.readMsg, .ok ⟨"", "run", ""⟩⟩] := by
    unfold ClientService.login
    rw [openConn_taggedClient]
    rfl
  refine ⟨_, _, hrun, ?_⟩
  rw [hevents]
  simp

theorem probe_logs_in_alike_without_metadata :
    probeLogin.determined = (clientLogin .empty).determined := by
  obtain ⟨es, verdict, hprobe, hopened, hsent⟩ := exec_taggedServer .empty
  obtain ⟨es', result, hclient, hsent'⟩ := exec_taggedClient .empty
  exact (probe_logs_in_alike_iff plainProbe (fun _ => .ok "token") (taggedServer .empty)
    (taggedClient .empty) es es' verdict result hprobe hclient none hopened probeLogin
    (clientLogin .empty) none none hsent hsent' rfl).mpr rfl

/-- With metadata in the spec the check and the client log in with different messages. -/
theorem metadata_not_sent :
    ∃ metadatas es verdict es' result,
      Program.Exec (Provider.serve fun _ => .ok "token")
        (validateFrpServerConfig plainProbe (taggedServer metadatas)) () es verdict () ∧
      Program.Exec (Provider.serve fun _ => .ok "token")
        ((taggedClient metadatas).login plainProbe) () es' result () ∧
      ⟨.openConnector (taggedClient metadatas).common, none⟩ ∈ es ∧
      ⟨.writeMsg probeLogin, none⟩ ∈ es ∧ ⟨.writeMsg (clientLogin metadatas), none⟩ ∈ es' ∧
      probeLogin.timestamp = (clientLogin metadatas).timestamp ∧
      probeLogin.determined ≠ (clientLogin metadatas).determined := by
  obtain ⟨es, verdict, hprobe, hopened, hsent⟩ :=
    exec_taggedServer (Table.empty.upsert ("tenant", "a"))
  obtain ⟨es', result, hclient, hsent'⟩ := exec_taggedClient (Table.empty.upsert ("tenant", "a"))
  refine ⟨_, es, verdict, es', result, hprobe, hclient, hopened, hsent, hsent', rfl, ?_⟩
  intro h
  have hmetas : (Table.empty : StringMap) = Table.empty.upsert ("tenant", "a") :=
    congrArg Login.Determined.metas h
  exact absurd hmetas (by decide)

end Samples
end FrpProvisioner
