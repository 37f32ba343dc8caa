import FrpProvisioner.Config.Configuration
import FrpProvisioner.Effect.Program
import Mathlib.Algebra.Ring.Nat

/-! `pkg/server/server.go`: the manager server is put together from the manager options. The
address of the webhook server is taken apart here; the other options are handed on to
controller-runtime, which may fail at every step. -/
namespace FrpProvisioner
open Effect

section Addresses

def addrError (addr why : String) : GoError :=
  .text (if addr = "" then why else "address " ++ addr ++ ": " ++ why)

def lastIndexByte (cs : List Char) (c : Char) : Option ℕ :=
  (cs.reverse.idxOf? c).map fun k => cs.length - 1 - k

/-- The host before the last colon, which is at `i`, and the places from which on no further
bracket may stand. -/
def splitHost (hostport : String) (i : ℕ) : Except GoError (List Char × ℕ × ℕ) :=
  if hostport.toList.head? = some '[' then
    match hostport.toList.idxOf? ']' with
    | none => .error (addrError hostport "missing ']' in address")
    | some close =>
      if close + 1 = hostport.toList.length then
        .error (addrError hostport "missing port in address")
      else if close + 1 = i then .ok ((hostport.toList.take close).drop 1, 1, close + 1)
      -- the closing bracket is not followed by the last colon
      else if hostport.toList[close + 1]? = some ':' then
        .error (addrError hostport "too many colons in address")
      else .error (addrError hostport "missing port in address")
  else if ':' ∈ hostport.toList.take i then
    .error (addrError hostport "too many colons in address")
  else .ok (hostport.toList.take i, 0, 0)

def splitHostPort (hostport : String) : Except GoError (String × String) :=
  match lastIndexByte hostport.toList ':' with
  | none => .error (addrError hostport "missing port in address")
  | some i => do
    let (host, j, k) ← splitHost hostport i
    if '[' ∈ hostport.toList.drop j then
      .error (addrError hostport "unexpected '[' in address")
    else if ']' ∈ hostport.toList.drop k then
      .error (addrError hostport "unexpected ']' in address")
    else .ok (String.ofList host, String.ofList (hostport.toList.drop (i + 1)))

def numError (s why : String) : GoError :=
  .text ("strconv.Atoi: parsing " ++ s.quote ++ ": " ++ why)

/-- The loop of `strconv.ParseUint` in base 10. -/
def parseUint (s : String) : ℕ → List Char → Except GoError ℕ
  | n, [] => .ok n
  | n, c :: cs =>
    if c.isDigit then
      if 2 ^ 64 ≤ 10 * n + (c.toNat - '0'.toNat) then .error (numError s "value out of range")
      else parseUint s (10 * n + (c.toNat - '0'.toNat)) cs
    else .error (numError s "invalid syntax")

def parseDigits (s : String) (digits : List Char) : Except GoError ℕ :=
  if digits = [] then .error (numError s "invalid syntax") else parseUint s 0 digits

/-- `strconv.Atoi` for integers of 64 bits. -/
def atoi (s : String) : Except GoError ℤ :=
  match s.toList with
  | '-' :: digits => do
    let n ← parseDigits s digits
    if 2 ^ 63 < n then .error (numError s "value out of range") else return -(n : ℤ)
  | '+' :: digits => do
    let n ← parseDigits s digits
    if 2 ^ 63 ≤ n then .error (numError s "value out of range") else return n
  | digits => do
    let n ← parseDigits s digits
    if 2 ^ 63 ≤ n then .error (numError s "value out of range") else return n

theorem atoi_empty : ∃ err, atoi "" = .error err := ⟨_, rfl⟩

theorem parseUint_digits (s : String) {digits : List Char} (hdigit : ∀ c ∈ digits, c.isDigit)
    (n : ℕ) (hlt : Nat.ofDigitChars 10 digits n < 2 ^ 64) :
    parseUint s n digits = .ok (Nat.ofDigitChars 10 digits n) := by
  induction digits generalizing n with
  | nil => rfl
  | cons c cs ih =>
    rw [Nat.ofDigitChars_cons] at hlt ⊢
    have hc : c.isDigit := hdigit c List.mem_cons_self
    have hle : 10 * n + (c.toNat - '0'.toNat) ≤
        Nat.ofDigitChars 10 cs (10 * n + (c.toNat - '0'.toNat)) := by
      rw [Nat.ofDigitChars_eq_ofDigitChars_zero]
      exact Nat.le_add_right_of_le (Nat.le_mul_of_pos_left _ (Nat.pow_pos (by decide)))
    rw [parseUint, if_pos hc, if_neg (by omega)]
    exact ih (fun c hc => hdigit c (List.mem_cons_of_mem _ hc)) _ hlt

/-- A text of digits denotes the number that is returned for it. -/
theorem atoi_digits {digits : List Char} (hne : digits ≠ []) (hdigit : ∀ c ∈ digits, c.isDigit)
    (hlt : Nat.ofDigitChars 10 digits 0 < 2 ^ 63) :
    atoi (String.ofList digits) = .ok (Nat.ofDigitChars 10 digits 0) := by
  have hparse : parseDigits (String.ofList digits) digits =
      .ok (Nat.ofDigitChars 10 digits 0) := by
    rw [parseDigits, if_neg hne]
    exact parseUint_digits _ hdigit 0 (by omega)
  unfold atoi
  rw [String.toList_ofList]
  split
  next tail =>
    exact absurd (hdigit '-' List.mem_cons_self) (by decide)
  next tail =>
    exact absurd (hdigit '+' List.mem_cons_self) (by decide)
  next =>
    simp only [hparse, bind, Except.bind]
    rw [if_neg (by omega)]
    rfl

theorem idxOf?_append_cons {front back : List Char} {c : Char} (h : c ∉ front) :
    (front ++ c :: back).idxOf? c = some front.length := by
  induction front with
  | nil => simp [List.idxOf?_cons]
  | cons d front ih =>
    have hd : d ≠ c := fun hd => h (hd ▸ List.mem_cons_self)
    have ih := ih fun hc => h (List.mem_cons_of_mem _ hc)
    simp [List.idxOf?_cons, hd, ih]

/-- An address without brackets and with one colon is split there. -/
theorem splitHostPort_plain {host port : List Char}
    (hhost : ∀ c ∈ host, c ∉ [':', '[', ']']) (hport : ∀ c ∈ port, c ∉ [':', '[', ']']) :
    splitHostPort (String.ofList (host ++ ':' :: port)) =
      .ok (String.ofList host, String.ofList port) := by
  have hlast : lastIndexByte (host ++ ':' :: port) ':' = some host.length := by
    have hrev : (host ++ ':' :: port).reverse = port.reverse ++ ':' :: host.reverse := by simp
    have hcolon : ':' ∉ port.reverse := by
      rw [List.mem_reverse]
      exact fun h => hport ':' h (by decide)
    unfold lastIndexByte
    rw [hrev, idxOf?_append_cons hcolon]
    simp
  have hbracket : ∀ c ∈ ['[', ']'], c ∉ host ++ ':' :: port := by
    intro c hc hmem
    have hbad : c ∈ [':', '[', ']'] := List.mem_cons_of_mem _ hc
    rcases List.mem_append.mp hmem with h | h
    · exact hhost c h hbad
    · rcases List.mem_cons.mp h with rfl | h
      · exact absurd hc (by decide)
      · exact hport c h hbad
  have hopen : '[' ∉ host ++ ':' :: port := hbracket '[' (by decide)
  have hclose : ']' ∉ host ++ ':' :: port := hbracket ']' (by decide)
  have hhead : (host ++ ':' :: port).head? ≠ some '[' :=
    fun h => hopen (List.mem_of_mem_head? h)
  have htake : (host ++ ':' :: port).take host.length = host := by simp
  have hcolon : ':' ∉ host := fun h => hhost ':' h (by decide)
  have hsplit : splitHost (String.ofList (host ++ ':' :: port)) host.length =
      .ok (host, 0, 0) := by
    unfold splitHost
    rw [String.toList_ofList, if_neg hhead, htake, if_neg hcolon]
  unfold splitHostPort
  rw [String.toList_ofList, hlast]
  simp only [hsplit, bind, Except.bind, List.drop_zero]
  rw [if_neg hopen, if_neg hclose]
  simp

end Addresses

def defaultPort : ℤ := 9443

structure WebhookOptions where
  host : String
  port : ℤ
  certDir : String
  certName : String
  keyName : String
  clientCAName : String
  deriving DecidableEq, Repr

structure MetricsOptions where
  certDir : String
  certName : String
  keyName : String
  secureServing : Bool
  bindAddress : String
  deriving DecidableEq, Repr

/-- `ctrl.Options` without the scheme. -/
structure CtrlOptions where
  leaderElection : Bool
  leaderElectionResourceLock : String
  leaderElectionNamespace : String
  leaderElectionID : String
  leaderElectionReleaseOnCancel : Bool
  leaseDuration : Duration
  renewDeadline : Duration
  retryPeriod : Duration
  metrics : MetricsOptions
  webhookServer : WebhookOptions
  healthProbeBindAddress : String
  pprofBindAddress : String
  gracefulShutdownTimeout : Duration
  deriving DecidableEq, Repr

/-- The calls into controller-runtime. -/
inductive SetupRequest where
  /-- `ctrl.GetConfig`. -/
  | getConfig
  | newManager (opts : CtrlOptions)
  | indexField (name : String)
  /-- `ServiceReconciler.SetupWithManager`; the reconciler keeps the options. -/
  | setupServiceReconciler (options : ManagerOptions)
  | setupFrpServerReconciler
  /-- `FrpServerValidator.SetupWebhookWithManager`. -/
  | setupFrpServerValidator
  | addHealthzCheck (name : String)
  | addReadyzCheck (name : String)
  /-- `mgr.Start`. -/
  | start

/-- Each of them returns an error or nil. -/
abbrev Setup := ExceptT GoError (Program SetupRequest fun _ => Option GoError)

def Setup.call (i : SetupRequest) : Setup Unit := ExceptT.mk do
  match ← Program.call i with
  | some err => return .error err
  | none => return .ok ()

/-- `fmt.Errorf` with the text of the error between two others. -/
def errorf (before after : String) (err : GoError) : GoError :=
  .wrap (before ++ err.error ++ after) err

def indexNameForOwnerRefUID : String := "ownerRefUID"
def indexNameForFrpServerPhase : String := "status.phase"

def registerFieldIndexes : Setup Unit := do
  Setup.call (.indexField indexNameForOwnerRefUID)
  Setup.call (.indexField indexNameForFrpServerPhase)

/-- The manager is known by the options it was made with. -/
structure ManagerServer where
  mgr : CtrlOptions
  cfg : ManagerOptions

namespace ManagerServer

/-- The port of the webhook server. Only an empty text is converted. -/
def webhookPort (port : String) : Except GoError ℤ :=
  if port = "" then
    match atoi port with
    | .error err => .error (errorf "unable to convert port to number, got: '" "'" err)
    | .ok n => .ok n
  else .ok defaultPort

def webhookOptions (o : ManagerOptions) : Except GoError WebhookOptions :=
  match splitHostPort (o .webhookBindAddress) with
  | .error err => .error (errorf "unable to split host and port, got: '" "'" err)
  | .ok (host, port) => do
    let port ← webhookPort port
    return { host := host, port := port, certDir := o .webhookCertDir
             certName := o .webhookCertName, keyName := o .webhookKeyName
             clientCAName := o .webhookClientCAName }

def metricsOptions (o : ManagerOptions) : MetricsOptions where
  certDir := o .metricsCertDir
  certName := o .metricsCertName
  keyName := o .metricsKeyName
  secureServing := o .metricsSecureServing
  bindAddress := o .metricsBindAddress

def ctrlOptions (o : ManagerOptions) (webhook : WebhookOptions) : CtrlOptions where
  leaderElection := o .leaderElection
  leaderElectionResourceLock := o .leaderElectionResourceLock
  leaderElectionNamespace := o .leaderElectionNamespace
  leaderElectionID := o .leaderElectionID
  leaderElectionReleaseOnCancel := o .leaderElectionReleaseOnCancel
  leaseDuration := o .leaseDuration
  renewDeadline := o .renewDeadline
  retryPeriod := o .retryPeriod
  metrics := metricsOptions o
  webhookServer := webhook
  healthProbeBindAddress := o .healthProbeBindAddress
  pprofBindAddress := o .pprofBindAddress
  gracefulShutdownTimeout := o .gracefulShutdownTimeout

def newManagerServer (o : ManagerOptions) : Setup ManagerServer := do
  let webhook ← ExceptT.mk (pure (webhookOptions o))
  (Setup.call .getConfig).adapt (errorf "unable to get kubernetes config, got: '" "'")
  (Setup.call (.newManager (ctrlOptions o webhook))).adapt
    (errorf "unable to start manager, got: '" "'")
  registerFieldIndexes.adapt (errorf "unable  RegisterFieldIndexes to cache got: '" "'")
  (Setup.call (.setupServiceReconciler o)).adapt
    (errorf "unable to setup server reconciler, got: " "")
  (Setup.call .setupFrpServerReconciler).adapt
    (errorf "unable to setup frpserver reconciler, got: " "")
  (Setup.call .setupFrpServerValidator).adapt
    (errorf "unable to setup FrpServerValidator webhook, got: " "")
  (Setup.call (.addHealthzCheck "healthz")).adapt
    (errorf "unable to set up health check, got: " "")
  (Setup.call (.addReadyzCheck "readyz")).adapt
    (errorf "unable to set up ready check, got: " "")
  return { mgr := ctrlOptions o webhook, cfg := o }

def start (_ : ManagerServer) : Setup Unit :=
  (Setup.call .start).adapt (errorf "unable running frp-provisioner controller, got: " "")

/-- The address is accepted, and the manager is made with a webhook server that listens on
`host` and `port`. -/
def ListensOn (o : ManagerOptions) (host : String) (port : ℤ) : Prop :=
  ∃ k, (newManagerServer o).run = .request .getConfig k ∧
    ∃ opts k', k none = .request (.newManager opts) k' ∧
      opts.webhookServer.host = host ∧ opts.webhookServer.port = port

/-- Nothing is asked of controller-runtime: an error is returned at once. -/
def Rejects (o : ManagerOptions) : Prop := ∃ err, (newManagerServer o).run = .pure (.error err)

/-- The webhook server listens where the address, split into `host` and `port`, says. -/
structure Obeys (o : ManagerOptions) (host port : String) : Prop where
  number : ∀ n, atoi port = .ok n → ListensOn o host n
  empty : port = "" → ListensOn o host defaultPort
  other : port ≠ "" → ∀ err, atoi port = .error err → Rejects o

section Webhook
variable {o : ManagerOptions} {host port : String}

/-- An empty port is rejected. -/
theorem newManagerServer_empty (hsplit : splitHostPort (o .webhookBindAddress) = .ok (host, "")) :
    Rejects o := by
  obtain ⟨err, herr⟩ := atoi_empty
  have hoptions : ∃ e, webhookOptions o = .error e := by
    simp only [webhookOptions, hsplit, webhookPort, if_true, herr]
    exact ⟨_, rfl⟩
  obtain ⟨e, he⟩ := hoptions
  refine ⟨e, ?_⟩
  unfold newManagerServer
  rw [he]
  rfl

/-- With any other port the webhook server listens on the default one. -/
theorem listensOn_iff (hsplit : splitHostPort (o .webhookBindAddress) = .ok (host, port))
    (hport : port ≠ "") (n : ℤ) : ListensOn o host n ↔ n = defaultPort := by
  have hoptions : ∃ w, webhookOptions o = .ok w ∧ w.host = host ∧ w.port = defaultPort := by
    simp only [webhookOptions, hsplit, webhookPort, if_neg hport]
    exact ⟨_, rfl, rfl, rfl⟩
  obtain ⟨w, hw, hhost, hdefault⟩ := hoptions
  have hrun : ∃ k k', (newManagerServer o).run = .request .getConfig k ∧
      k none = .request (.newManager (ctrlOptions o w)) k' := by
    unfold newManagerServer
    rw [hw]
    exact ⟨_, _, rfl, rfl⟩
  obtain ⟨k, k', hfirst, hsecond⟩ := hrun
  constructor
  · rintro ⟨l, hl, opts, l', hl', -, hn⟩
    rw [hfirst] at hl
    obtain rfl : k = l := by injection hl
    rw [hsecond] at hl'
    have hopts : ctrlOptions o w = opts := by injection hl' with h; injection h
    rw [← hn, ← hopts]
    exact hdefault
  · rintro rfl
    exact ⟨k, hfirst, _, k', hsecond, hhost, hdefault⟩

theorem Rejects.not_listensOn (h : Rejects o) (n : ℤ) : ¬ ListensOn o host n := by
  obtain ⟨err, herr⟩ := h
  rintro ⟨k, hk, -⟩
  rw [herr] at hk
  cases hk

/-- A decimal port behind a plain host is ignored. -/
theorem plain_port_ignored (hostname digits : List Char)
    (haddr : o .webhookBindAddress = String.ofList (hostname ++ ':' :: digits))
    (hhost : ∀ c ∈ hostname, c ∉ [':', '[', ']']) (hne : digits ≠ [])
    (hdigit : ∀ c ∈ digits, c.isDigit) (hlt : Nat.ofDigitChars 10 digits 0 < 2 ^ 63) :
    atoi (String.ofList digits) = .ok (Nat.ofDigitChars 10 digits 0) ∧
      ∀ n, ListensOn o (String.ofList hostname) n ↔ n = defaultPort := by
  have hplain : ∀ c ∈ digits, c ∉ [':', '[', ']'] := by
    intro c hc hbad
    have hd := hdigit c hc
    simp only [List.mem_cons, List.not_mem_nil, or_false] at hbad
    rcases hbad with rfl | rfl | rfl
    · exact absurd hd (by decide)
    · exact absurd hd (by decide)
    · exact absurd hd (by decide)
  have hsplit : splitHostPort (o .webhookBindAddress) =
      .ok (String.ofList hostname, String.ofList digits) := by
    rw [haddr]
    exact splitHostPort_plain hhost hplain
  have hport : String.ofList digits ≠ "" := by
    intro h
    apply hne
    have hlist : (String.ofList digits).toList = [] := by rw [h]; rfl
    rwa [String.toList_ofList] at hlist
  exact ⟨atoi_digits hne hdigit hlt, listensOn_iff hsplit hport⟩

end Webhook

/-- The webhook server listens where it is told exactly when it is told the default port. -/
theorem webhook_obeys_iff (o : ManagerOptions) (host port : String)
    (hsplit : splitHostPort (o .webhookBindAddress) = .ok (host, port)) :
    Obeys o host port ↔ atoi port = .ok defaultPort := by
  by_cases hport : port = ""
  · subst hport
    have hrejects := newManagerServer_empty hsplit
    constructor
    · intro h
      exact absurd (h.empty rfl) (hrejects.not_listensOn _)
    · intro h
      obtain ⟨err, herr⟩ := atoi_empty
      rw [herr] at h
      cases h
  · have hlistens := listensOn_iff hsplit hport
    have hnot : ¬ Rejects o := fun h => h.not_listensOn defaultPort ((hlistens _).mpr rfl)
    cases hatoi : atoi port with
    | error err =>
      constructor
      · intro h
        exact absurd (h.other hport err hatoi) hnot
      · intro h
        cases h
    | ok n =>
      constructor
      · intro h
        rw [(hlistens n).mp (h.number n hatoi)]
      · intro h
        have hn : n = defaultPort := by injection h
        subst hn
        constructor
        · intro m hm
          rw [hatoi] at hm
          injection hm with hm
          exact (hlistens m).mpr hm.symm
        · intro hempty
          exact absurd hempty hport
        · intro _ err herr
          rw [hatoi] at herr
          cases herr

def boundTo (addr : String) : ManagerOptions :=
  Function.update newManagerOptions .webhookBindAddress addr

theorem webhook_obeys_default_address : Obeys (boundTo ":9443") "" "9443" :=
  (webhook_obeys_iff (boundTo ":9443") "" "9443" rfl).mpr rfl

/-- Told to listen on port 8443, the webhook server listens on 9443. -/
theorem told_8443_listens_9443 :
    splitHostPort (boundTo ":8443" .webhookBindAddress) = .ok ("", "8443") ∧
      atoi "8443" = .ok 8443 ∧ ListensOn (boundTo ":8443") "" 9443 ∧
      ¬ Obeys (boundTo ":8443") "" "8443" := by
  have hport : ∀ n, ListensOn (boundTo ":8443") "" n ↔ n = defaultPort := by
    exact (plain_port_ignored [] ['8', '4', '4', '3'] rfl (by simp) (by simp)
      (by simp [Char.isDigit]) (by decide)).2
  have hatoi : atoi "8443" = .ok 8443 := rfl
  refine ⟨rfl, hatoi, (hport 9443).mpr rfl, fun h => ?_⟩
  have h8443 : (8443 : ℤ) = defaultPort := (hport 8443).mp (h.number 8443 hatoi)
  exact absurd h8443 (by decide)

end ManagerServer
end FrpProvisioner
