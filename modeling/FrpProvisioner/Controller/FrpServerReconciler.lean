import FrpProvisioner.Api.FrpServer
import FrpProvisioner.Effect.Program

/-! `pkg/controller/frpserver_controller.go`: the health of an frp server as the status of its
`FrpServer`, over whole histories of health checks. -/
namespace FrpProvisioner
open Effect

/-- The calls of the reconciler; `ValidateFrpServerConfig` is the health check. -/
inductive ServerRequest where
  | get (key : NamespacedName)
  | validateFrpServerConfig (obj : FrpServer)
  /-- `time.Now()`. -/
  | now
  /-- `r.Status().Update`. -/
  | updateStatus (obj : FrpServer)

@[reducible] def ServerResponse : ServerRequest → Type
  | .get _ => Except GoError FrpServer
  | .validateFrpServerConfig _ => Option GoError
  | .now => Time
  | .updateStatus _ => Except GoError FrpServer

abbrev ServerApi (α : Type) := Program ServerRequest ServerResponse α

namespace ServerApi

abbrev get (key : NamespacedName) : ServerApi (Except GoError FrpServer) :=
  Program.call (ServerRequest.get key)

abbrev validateFrpServerConfig (obj : FrpServer) : ServerApi (Option GoError) :=
  Program.call (ServerRequest.validateFrpServerConfig obj)

abbrev now : ServerApi Time := Program.call ServerRequest.now

abbrev updateStatus (obj : FrpServer) : ServerApi (Except GoError FrpServer) :=
  Program.call (ServerRequest.updateStatus obj)

end ServerApi

namespace FrpServerReconciler

def initializedType : String := "Initialized"
def reasonInitialized : String := "Initialized"
def reasonInitializeFailed : String := "InitializeFailed"

def invalidConfig (err : GoError) : String := "Invalid frp config: " ++ err.error
def isHealthy : String := "FrpServer is healthy"

/-- The condition for a check at time `now`; both outcomes set the same status. -/
def initializedCondition (now : Time) (check : Option GoError) : Condition :=
  match check with
  | some err =>
    { type := initializedType, status := .conditionTrue, observedGeneration := 0
      lastTransitionTime := now, reason := reasonInitializeFailed, message := invalidConfig err }
  | none =>
    { type := initializedType, status := .conditionTrue, observedGeneration := 0
      lastTransitionTime := now, reason := reasonInitialized, message := isHealthy }

def checkedStatus (now : Time) (check : Option GoError) (status : FrpServerStatus) :
    FrpServerStatus :=
  { status with
    conditions := setStatusCondition now (initializedCondition now check) status.conditions
    phase := match check with
      | some _ => .unhealthy
      | none => .healthy
    reason := match check with
      | some err => invalidConfig err
      | none => isHealthy }

def errorOf {α : Type} : Except GoError α → Option GoError
  | .error err => some err
  | .ok _ => none

/-- `Reconcile`; the result is always the zero `ctrl.Result`. -/
def reconcile (req : NamespacedName) : ServerApi (Option GoError) := do
  match ← ServerApi.get req with
  -- an error other than NotFound is only logged
  | .error _ => return none
  | .ok obj =>
    if obj.body.status.phase = .unknown then
      let obj := FrpServer.setStatus obj { obj.body.status with phase := .pending }
      let updated ← ServerApi.updateStatus obj
      return newAggregate [none, errorOf updated]
    else
      let check ← ServerApi.validateFrpServerConfig obj
      let now ← ServerApi.now
      let obj := FrpServer.setStatus obj (checkedStatus now check obj.body.status)
      let updated ← ServerApi.updateStatus obj
      return newAggregate [check, errorOf updated]

end FrpServerReconciler

/-- A stored `FrpServer` and the time of the last look at the clock. -/
structure Monitored where
  obj : FrpServer
  clock : Time

/-- Checks have any outcome, clocks advance, and every status update is stored. -/
def Monitored.serve : Server ServerRequest ServerResponse Monitored
  | s, .get _, o, s' => o = .ok s.obj ∧ s' = s
  | s, .validateFrpServerConfig _, _, s' => s' = s
  | s, .now, now, s' => s.clock < now ∧ s' = { s with clock := now }
  | s, .updateStatus w, o, s' => ∃ version,
      s' = { s with obj := { s.obj.setStatus w.body.status with resourceVersion := version } } ∧
      o = .ok s'.obj

structure Check where
  outcome : Option GoError
  time : Time

def Check.succeeded (c : Check) : Bool := c.outcome.isNone

def checksOf : List (Program.Event ServerRequest ServerResponse) → List Check
  | ⟨.validateFrpServerConfig _, outcome⟩ :: ⟨.now, time⟩ :: es => ⟨outcome, time⟩ :: checksOf es
  | _ :: es => checksOf es
  | [] => []

/-- Runs of the reconciler one after the other, with the checks they made. -/
inductive CheckedRuns (req : NamespacedName) (s : Monitored) : List Check → Monitored → Prop where
  | nil : CheckedRuns req s [] s
  | run {h : List Check} {t u : Monitored} {es : List (Program.Event ServerRequest ServerResponse)}
      {result : Option GoError} : CheckedRuns req s h t →
      Program.Exec Monitored.serve (FrpServerReconciler.reconcile req) t es result u →
      CheckedRuns req s (h ++ checksOf es) u

/-- The outcome of the current unbroken series of equal outcomes, and the time of its first
check. -/
def currentSeries (h : List Check) : Option (Bool × Time) :=
  h.foldl (fun series c =>
    match series with
    | some (succeeded, start) =>
      if c.succeeded = succeeded then some (succeeded, start) else some (c.succeeded, c.time)
    | none => some (c.succeeded, c.time)) none

/-- The status follows the health of the server: `Initialized` is true exactly after a
successful check, which is when the phase is healthy, since the start of the series. -/
def FollowsHealth (status : FrpServerStatus) (h : List Check) : Prop :=
  ∃ cond, findStatusCondition status.conditions FrpServerReconciler.initializedType = some cond ∧
    (cond.status = .conditionTrue ↔ ∃ c, h.getLast? = some c ∧ c.succeeded = true) ∧
    (cond.status = .conditionTrue ↔ status.phase = .healthy) ∧
    (currentSeries h).map Prod.snd = some cond.lastTransitionTime

theorem currentSeries_snoc (h : List Check) (c : Check) :
    currentSeries (h ++ [c]) =
      match currentSeries h with
      | some (succeeded, start) =>
        if c.succeeded = succeeded then some (succeeded, start) else some (c.succeeded, c.time)
      | none => some (c.succeeded, c.time) := by
  simp only [currentSeries, List.foldl_append, List.foldl_cons, List.foldl_nil]

/-- One run on a `FrpServer` whose phase is not `Unknown` makes one check and stores its
outcome. -/
theorem exec_reconcile {req : NamespacedName} {s t : Monitored}
    {es : List (Program.Event ServerRequest ServerResponse)} {result : Option GoError}
    (hexec : Program.Exec Monitored.serve (FrpServerReconciler.reconcile req) s es result t)
    (hphase : s.obj.body.status.phase ≠ .unknown) :
    ∃ c : Check, checksOf es = [c] ∧ s.clock < c.time ∧ t.clock = c.time ∧
      t.obj.body.status =
        FrpServerReconciler.checkedStatus c.time c.outcome s.obj.body.status := by
  have hwp : (FrpServerReconciler.reconcile req).wp Eq (Program.traced Monitored.serve)
      (fun _ _ _ _ => True) (fun _ u => ∃ c : Check, checksOf u.2 = [c] ∧ s.clock < c.time ∧
        u.1.clock = c.time ∧ u.1.obj.body.status =
          FrpServerReconciler.checkedStatus c.time c.outcome s.obj.body.status) (s, []) := by
    unfold FrpServerReconciler.reconcile
    refine Program.wp_traced_call_bind ?_
    rintro o s₁ ⟨rfl, rfl⟩
    refine ⟨trivial, ?_⟩
    dsimp only
    rw [if_neg hphase]
    refine Program.wp_traced_call_bind ?_
    rintro check s₂ rfl
    refine ⟨trivial, Program.wp_traced_call_bind ?_⟩
    rintro now s₃ ⟨hlt, rfl⟩
    refine ⟨trivial, Program.wp_traced_call_bind ?_⟩
    rintro o s₄ ⟨version, rfl, rfl⟩
    exact ⟨trivial, ⟨check, now⟩, rfl, hlt, rfl, rfl⟩
  exact (hexec.traced []).post hwp

/-- The current series of a history that begins with `first`. -/
structure SeriesOf (first : Check) (h : List Check) (succeeded : Bool) (start : Time) : Prop where
  current : currentSeries h = some (succeeded, start)
  last : ∃ c, h.getLast? = some c ∧ c.succeeded = succeeded
  le : first.time ≤ start
  /-- It reaches back to the first check when all outcomes are equal. -/
  whole : start = first.time ↔ ∀ c ∈ h, c.succeeded = succeeded

theorem SeriesOf.snoc {first c : Check} {h : List Check} {succeeded : Bool} {start : Time}
    (hs : SeriesOf first h succeeded start) (hc : start < c.time) :
    ∃ succeeded' start', SeriesOf first (h ++ [c]) succeeded' start' ∧ start' ≤ c.time := by
  have hcurrent := currentSeries_snoc h c
  rw [hs.current] at hcurrent
  by_cases hsame : c.succeeded = succeeded
  · refine ⟨succeeded, start, ⟨?_, ⟨c, by simp, hsame⟩, hs.le, ?_⟩, Nat.le_of_lt hc⟩
    · simpa [hsame] using hcurrent
    · rw [hs.whole]
      simp [or_imp, forall_and, hsame]
  · refine ⟨c.succeeded, c.time, ⟨?_, ⟨c, by simp, rfl⟩, ?_, ?_⟩, Nat.le_refl _⟩
    · simpa [hsame] using hcurrent
    · exact Nat.le_trans hs.le (Nat.le_of_lt hc)
    · -- the last check before `c` had the other outcome
      obtain ⟨d, hd, hds⟩ := hs.last
      have hmem : d ∈ h ++ [c] := List.mem_append_left _ (List.mem_of_getLast? hd)
      refine iff_of_false (fun heq => ?_) fun hall => hsame ?_
      · exact Nat.not_le.mpr hc (Nat.le_trans (Nat.le_of_eq heq) hs.le)
      · rw [← hall d hmem, hds]

theorem SeriesOf.single (c : Check) : SeriesOf c [c] c.succeeded c.time where
  current := rfl
  last := ⟨c, rfl, rfl⟩
  le := Nat.le_refl _
  whole := by simp

open FrpServerReconciler in
/-- What holds after the checks `h`: the condition is true since the first of them. -/
structure HealthInv (h : List Check) (s : Monitored) : Prop where
  phase : s.obj.body.status.phase ≠ .unknown
  fresh : h = [] → findStatusCondition s.obj.body.status.conditions initializedType = none
  checked : ∀ first, h.head? = some first → ∃ succeeded start cond,
    SeriesOf first h succeeded start ∧ start ≤ s.clock ∧
    findStatusCondition s.obj.body.status.conditions initializedType = some cond ∧
    cond.status = .conditionTrue ∧ cond.lastTransitionTime = first.time ∧
    (s.obj.body.status.phase = .healthy ↔ succeeded = true)

theorem SeriesOf.last_eq {first c : Check} {h : List Check} {succeeded : Bool} {start : Time}
    (hs : SeriesOf first (h ++ [c]) succeeded start) : c.succeeded = succeeded := by
  obtain ⟨d, hd, hds⟩ := hs.last
  obtain rfl : c = d := by simpa using hd
  exact hds

namespace FrpServerReconciler

@[simp] theorem initializedCondition_type (now : Time) (check : Option GoError) :
    (initializedCondition now check).type = initializedType := by cases check <;> rfl

@[simp] theorem initializedCondition_status (now : Time) (check : Option GoError) :
    (initializedCondition now check).status = .conditionTrue := by cases check <;> rfl

@[simp] theorem initializedCondition_time (now : Time) (check : Option GoError) :
    (initializedCondition now check).lastTransitionTime = now := by cases check <;> rfl

/-- The condition a check leaves behind is true; its time is that of the condition before. -/
theorem find_checkedStatus (now : Time) (check : Option GoError) (status : FrpServerStatus) :
    ∃ cond, findStatusCondition (checkedStatus now check status).conditions initializedType =
        some cond ∧ cond.status = .conditionTrue ∧
      (findStatusCondition status.conditions initializedType = none →
        cond.lastTransitionTime = now) ∧
      (∀ old, findStatusCondition status.conditions initializedType = some old →
        old.status = .conditionTrue → cond.lastTransitionTime = old.lastTransitionTime) := by
  have hfind := findStatusCondition_set now (initializedCondition now check) status.conditions
  rw [initializedCondition_type] at hfind
  refine ⟨_, hfind, ?_⟩
  cases findStatusCondition status.conditions initializedType with
  | none =>
    by_cases hnow : now = 0
    · simp [Condition.fresh, hnow]
    · simp [Condition.fresh, hnow]
  | some old => simp +contextual [Condition.merge]

theorem phase_checkedStatus (now : Time) (check : Option GoError) (status : FrpServerStatus) :
    (checkedStatus now check status).phase = if check.isNone then .healthy else .unhealthy := by
  cases check <;> rfl

end FrpServerReconciler

open FrpServerReconciler in
theorem HealthInv.next {h : List Check} {c : Check} {s t : Monitored} (hs : HealthInv h s)
    (hlt : s.clock < c.time) (hclock : t.clock = c.time)
    (hstatus : t.obj.body.status = checkedStatus c.time c.outcome s.obj.body.status) :
    HealthInv (h ++ [c]) t := by
  have hphase : t.obj.body.status.phase = if c.succeeded then .healthy else .unhealthy := by
    rw [hstatus, phase_checkedStatus]
    rfl
  have hhealthy : t.obj.body.status.phase = .healthy ↔ c.succeeded = true := by
    rw [hphase]
    cases c.succeeded <;> simp
  obtain ⟨cond, hfind, htrue, hnew, hold⟩ :=
    find_checkedStatus c.time c.outcome s.obj.body.status
  rw [← hstatus] at hfind
  refine ⟨?_, by simp, fun first hfirst => ?_⟩
  · rw [hphase]
    cases c.succeeded <;> simp
  · cases h with
    | nil =>
      obtain rfl : c = first := by simpa using hfirst
      exact ⟨_, _, cond, .single c, Nat.le_of_eq hclock.symm, hfind, htrue, hnew (hs.fresh rfl),
        hhealthy⟩
    | cons d h =>
      obtain rfl : d = first := by simpa using hfirst
      obtain ⟨_, start, old, hseries, hstart, hfindOld, hstatusOld, htime, -⟩ := hs.checked d rfl
      obtain ⟨succeeded, start', hseries', hle⟩ := hseries.snoc (Nat.lt_of_le_of_lt hstart hlt)
      rw [hseries'.last_eq] at hhealthy
      exact ⟨succeeded, start', cond, hseries', hclock ▸ hle, hfind, htrue,
        (hold old hfindOld hstatusOld).trans htime, hhealthy⟩

theorem CheckedRuns.inv {req : NamespacedName} {s₀ s : Monitored} {h : List Check}
    (hruns : CheckedRuns req s₀ h s) (hempty : s₀.obj.body.status = .empty) : HealthInv h s := by
  induction hruns with
  | nil =>
    refine ⟨?_, fun _ => ?_, by simp⟩
    · rw [hempty]
      decide
    · rw [hempty]
      rfl
  | run _ hexec ih =>
    obtain ⟨c, hc, hlt, hclock, hstatus⟩ := exec_reconcile hexec ih.phase
    rw [hc]
    exact ih.next hlt hclock hstatus

/-- From an empty status on, the status follows the health of the server as long as every
check succeeds, and never afterwards: a failed check also sets the condition to true. -/
theorem followsHealth_iff (req : NamespacedName) (s₀ s : Monitored) (h : List Check)
    (hempty : s₀.obj.body.status = .empty) (hruns : CheckedRuns req s₀ h s) (hne : h ≠ []) :
    FollowsHealth s.obj.body.status h ↔ ∀ c ∈ h, c.succeeded = true := by
  obtain ⟨first, rest, rfl⟩ := List.exists_cons_of_ne_nil hne
  obtain ⟨succeeded, start, cond, hseries, -, hfind, htrue, htime, hhealthy⟩ :=
    (hruns.inv hempty).checked first rfl
  obtain ⟨last, hlast, hlastSucceeded⟩ := hseries.last
  constructor
  · rintro ⟨cond', hfind', hsucceeded, -, hstart⟩
    obtain rfl : cond = cond' := Option.some.inj (hfind.symm.trans hfind')
    obtain ⟨last', hlast', htrue'⟩ := hsucceeded.mp htrue
    obtain rfl : last = last' := Option.some.inj (hlast.symm.trans hlast')
    rw [hseries.current, htime] at hstart
    have hall := hseries.whole.mp (Option.some.inj hstart)
    intro c hc
    rw [hall c hc, ← hlastSucceeded, htrue']
  · intro hall
    have hlastTrue := hall last (List.mem_of_getLast? hlast)
    have hsucceeded : succeeded = true := hlastSucceeded ▸ hlastTrue
    have hstart : start = first.time :=
      hseries.whole.mpr fun c hc => (hall c hc).trans hsucceeded.symm
    refine ⟨cond, hfind, iff_of_true htrue ⟨last, hlast, hlastTrue⟩,
      iff_of_true htrue (hhealthy.mpr hsucceeded), ?_⟩
    rw [hseries.current, htime, ← hstart]
    rfl

section Samples

def Monitored.answering (check : Option GoError) (s : Monitored) :
    (i : ServerRequest) → ServerResponse i × Monitored
  | .get _ => (.ok s.obj, s)
  | .validateFrpServerConfig _ => (check, s)
  | .now => (s.clock + 1, { s with clock := s.clock + 1 })
  | .updateStatus w => (.ok (s.obj.setStatus w.body.status),
      { s with obj := s.obj.setStatus w.body.status })

def Monitored.checkedBy (check : Option GoError) (s : Monitored) : Monitored :=
  (Program.run (Monitored.answering check) (FrpServerReconciler.reconcile tcpServer.key) s).2.2

private theorem CheckedRuns.checkedBy {h : List Check} {s₀ s : Monitored} (check : Option GoError)
    (hruns : CheckedRuns tcpServer.key s₀ h s) :
    CheckedRuns tcpServer.key s₀ (h ++ checksOf (Program.run (Monitored.answering check)
      (FrpServerReconciler.reconcile tcpServer.key) s).1) (s.checkedBy check) := by
  have hserve : ∀ s i, Monitored.serve s i (s.answering check i).1 (s.answering check i).2 := by
    intro s i
    cases i with
    | get => exact ⟨rfl, rfl⟩
    | validateFrpServerConfig => rfl
    | now => exact ⟨Nat.lt_succ_self _, rfl⟩
    | updateStatus w => exact ⟨s.obj.resourceVersion, rfl, rfl⟩
  exact hruns.run (Program.exec_run hserve (FrpServerReconciler.reconcile tcpServer.key) _)

/-- A new server is checked twice. -/
theorem followsHealth_checkedTwice :
    FollowsHealth ((Monitored.checkedBy none ⟨tcpServer, 0⟩).checkedBy none).obj.body.status
      [⟨none, 1⟩, ⟨none, 2⟩] := by
  have hruns : CheckedRuns tcpServer.key ⟨tcpServer, 0⟩ [⟨none, 1⟩, ⟨none, 2⟩] _ :=
    (CheckedRuns.nil.checkedBy none).checkedBy none
  exact (followsHealth_iff tcpServer.key ⟨tcpServer, 0⟩ _ _ rfl hruns (by simp)).mpr
    (by simp [Check.succeeded])

/-- After a failed check the condition is true. -/
theorem not_followsHealth_checkedOnce :
    CheckedRuns tcpServer.key ⟨tcpServer, 0⟩ [⟨some (.text "connection refused"), 1⟩]
      (Monitored.checkedBy (some (.text "connection refused")) ⟨tcpServer, 0⟩) ∧
    ¬ FollowsHealth
      (Monitored.checkedBy (some (.text "connection refused")) ⟨tcpServer, 0⟩).obj.body.status
      [⟨some (.text "connection refused"), 1⟩] := by
  refine ⟨CheckedRuns.nil.checkedBy _, ?_⟩
  rintro ⟨cond, hfind, hsucceeded, -⟩
  obtain rfl := Option.some.inj hfind
  obtain ⟨c, hc, hcs⟩ := hsucceeded.mp rfl
  obtain rfl := Option.some.inj hc
  cases hcs

end Samples
end FrpProvisioner
