import FrpProvisioner.Api.Errors
import FrpProvisioner.Effect.Program
import FrpProvisioner.Server.ManagerServer

/-! Leader election: the record that the candidates keep in a `Lease`, what one of them
remembers of it, and its try to acquire or renew it. Times are in nanoseconds, as the
candidate's own clock shows them. -/
namespace FrpProvisioner
open Effect

def microsecond : ℤ := 1000

/-- `LeaderElectionRecord`; the empty identity is `none`. -/
structure LeaderElectionRecord (ι : Type) where
  holderIdentity : Option ι
  leaseDurationSeconds : ℤ
  acquireTime : ℤ
  renewTime : ℤ
  leaderTransitions : ℕ
  deriving DecidableEq

/-- `LeaderElectionRecordToLeaseSpec`: the times of a `Lease` are whole microseconds. -/
def LeaderElectionRecord.toLeaseSpec {ι : Type} (r : LeaderElectionRecord ι) :
    LeaderElectionRecord ι :=
  { r with acquireTime := r.acquireTime / microsecond * microsecond
           renewTime := r.renewTime / microsecond * microsecond }

/-- `json.Marshal` of a record: the text has whole seconds. -/
def LeaderElectionRecord.marshal {ι : Type} (r : LeaderElectionRecord ι) :
    LeaderElectionRecord ι :=
  { r with acquireTime := r.acquireTime / second, renewTime := r.renewTime / second }

structure LeaderElectionConfig where
  leaseDuration : ℤ
  renewDeadline : ℤ
  retryPeriod : ℤ
  releaseOnCancel : Bool
  deriving DecidableEq

/-- `lease` is the version of the `Lease` that the lock has at hand. -/
structure LeaderElector (ι : Type) where
  observedRecord : LeaderElectionRecord ι
  observedRawRecord : Option (LeaderElectionRecord ι)
  observedTime : ℤ
  lease : Option ℕ
  deriving DecidableEq

/-- `jittered d` is `time.Duration(JitterFactor*float64(d))`. -/
def newLeaderElector {ι : Type} (jittered : ℤ → ℤ) (lec : LeaderElectionConfig) :
    Except String (LeaderElector ι) :=
  if lec.leaseDuration ≤ lec.renewDeadline then
    .error "leaseDuration must be greater than renewDeadline"
  else if lec.renewDeadline ≤ jittered lec.retryPeriod then
    .error "renewDeadline must be greater than retryPeriod*JitterFactor"
  else if lec.leaseDuration < 1 then
    .error "leaseDuration must be greater than zero"
  else if lec.renewDeadline < 1 then
    .error "renewDeadline must be greater than zero"
  else if lec.retryPeriod < 1 then
    .error "retryPeriod must be greater than zero"
  else
    .ok ⟨⟨none, 0, 0, 0, 0⟩, none, 0, none⟩

/-- What a candidate asks for: its clock and the `Lease`, which is written where it is still as
expected. The last three mark the stages of `Run`. -/
inductive LockRequest (ι : Type) where
  | now
  | get
  | write (expected : Option ℕ) (record : LeaderElectionRecord ι)
  /-- A try begins. -/
  | begins
  /-- The try is over. -/
  | returns (succeeded : Bool) (le : LeaderElector ι)
  /-- `OnStoppedLeading`. -/
  | stops

abbrev LockResponse {ι : Type} : LockRequest ι → Type
  | .now => ℤ
  | .get => Except GoError (LeaderElectionRecord ι × ℕ)
  | .write .. => Except GoError ℕ
  | .begins | .returns .. | .stops => Unit

abbrev Elect (ι : Type) := Program (LockRequest ι) LockResponse

namespace LeaderElector
variable {ι : Type}

def clockNow : Elect ι ℤ := Program.call LockRequest.now

def lockGet : Elect ι (Except GoError (LeaderElectionRecord ι × ℕ)) := Program.call LockRequest.get

/-- A `Create` expects that there is no `Lease`. -/
def lockCreate (record : LeaderElectionRecord ι) : Elect ι (Except GoError ℕ) :=
  Program.call (LockRequest.write none record)

def lockUpdate (version : ℕ) (record : LeaderElectionRecord ι) : Elect ι (Except GoError ℕ) :=
  Program.call (LockRequest.write (some version) record)

def setObservedRecord (le : LeaderElector ι) (observedRecord : LeaderElectionRecord ι) :
    Elect ι (LeaderElector ι) := do
  let now ← clockNow
  return { le with observedRecord := observedRecord, observedTime := now }

variable [DecidableEq ι]

def isLeader (le : LeaderElector ι) (identity : ι) : Bool :=
  le.observedRecord.holderIdentity = some identity

/-- A record that was got is observed when its text has changed. -/
def observe (le : LeaderElector ι) (old : LeaderElectionRecord ι) : Elect ι (LeaderElector ι) :=
  if le.observedRawRecord = some old.marshal then
    return le
  else do
    let le ← le.setObservedRecord old
    return { le with observedRawRecord := some old.marshal }

def update (le : LeaderElector ι) (record : LeaderElectionRecord ι) :
    Elect ι (Bool × LeaderElector ι) :=
  match le.lease with
  | none => return (false, le)
  | some version => do
    match ← lockUpdate version record with
    | .error _ => return (false, le)
    | .ok version =>
      let le ← { le with lease := some version }.setObservedRecord record
      return (true, le)

/-- The lock is held by someone else and has not yet expired. -/
def mustWait (le : LeaderElector ι) (identity : ι) (now : ℤ) (old : LeaderElectionRecord ι) :
    Bool :=
  old.holderIdentity.isSome && decide (now < le.observedTime + second * old.leaseDurationSeconds) &&
    !le.isLeader identity

def succeed (le : LeaderElector ι) (identity : ι) (record old : LeaderElectionRecord ι) :
    LeaderElectionRecord ι :=
  if le.isLeader identity then
    { record with acquireTime := old.acquireTime, leaderTransitions := old.leaderTransitions }
  else
    { record with leaderTransitions := old.leaderTransitions + 1 }

def newRecord (lec : LeaderElectionConfig) (identity : ι) (now : ℤ) : LeaderElectionRecord ι :=
  ⟨some identity, lec.leaseDuration / second, now, now, 0⟩

/-- Step 1 of a try where there is no `Lease` yet. -/
def create (le : LeaderElector ι) (record : LeaderElectionRecord ι) :
    Elect ι (Bool × LeaderElector ι) := do
  match ← lockCreate record with
  | .error _ => return (false, { le with lease := none })
  | .ok version =>
    let le ← { le with lease := some version }.setObservedRecord record
    return (true, le)

/-- Steps 2 and 3 of a try, once the record that was got is observed. -/
def contend (lec : LeaderElectionConfig) (identity : ι) (now : ℤ)
    (old : LeaderElectionRecord ι) (le : LeaderElector ι) : Elect ι (Bool × LeaderElector ι) :=
  if le.mustWait identity now old then
    return (false, le)
  else
    le.update (le.succeed identity (newRecord lec identity now) old)

def tryAcquireOrRenew (lec : LeaderElectionConfig) (identity : ι) (le : LeaderElector ι) :
    Elect ι (Bool × LeaderElector ι) := do
  let now ← clockNow
  match ← lockGet with
  | .error err =>
    if err.isNotFound then
      le.create (newRecord lec identity now)
    else
      return (false, le)
  | .ok (old, version) =>
    let le ← { le with lease := some version }.observe old
    le.contend lec identity now old

def release (identity : ι) (le : LeaderElector ι) : Elect ι (Bool × LeaderElector ι) :=
  if le.isLeader identity then do
    let now ← clockNow
    le.update ⟨none, 1, now, now, le.observedRecord.leaderTransitions⟩
  else
    return (true, le)

end LeaderElector
end FrpProvisioner
