import FrpProvisioner.Effect.Interleaving
import FrpProvisioner.Election.LeaderElector

/-! The candidates for one `Lease`. Each of them goes through `LeaderElector.Run`, and their
requests interleave in any order. Their clocks run alike, but may differ by a constant. A write
that is answered with an error may have been lost or may arrive later. Timers fire on time: a
leader that has not renewed the lease stops at its deadline. -/
namespace FrpProvisioner
open Effect

section Config
variable {ι : Type} {jittered : ℤ → ℤ} {lec : LeaderElectionConfig}
  {le : LeaderElector ι}

theorem newLeaderElector_ok (h : newLeaderElector jittered lec = .ok le) :
    lec.renewDeadline < lec.leaseDuration ∧ 0 < lec.renewDeadline ∧ 0 < lec.retryPeriod ∧
      le.observedRawRecord = none := by
  unfold newLeaderElector at h
  split_ifs at h
  cases h
  refine ⟨?_, ?_, ?_, rfl⟩ <;> omega

end Config

/-- A leader is to stop at `stopBy` unless it renews the lease before. -/
inductive Standing where
  | acquiring
  | leading (stopBy : ℤ)
  | stopped
  deriving DecidableEq

/-- `since` is when the try that is under way has begun, and `due` when the next one may. -/
structure Candidate (ι : Type) where
  elector : LeaderElector ι
  standing : Standing
  since : Option ℤ
  due : ℤ

/-- The timers of `acquire` and `renew` after a try that ends at `time`. -/
def Candidate.returned {ι : Type} (lec : LeaderElectionConfig) (time : ℤ) (c : Candidate ι)
    (succeeded : Bool) (le : LeaderElector ι) : Candidate ι :=
  match c.standing, succeeded with
  | .acquiring, true => ⟨le, .leading (time + lec.renewDeadline), none, time⟩
  | .acquiring, false => ⟨le, .acquiring, none, time + lec.retryPeriod⟩
  | .leading _, true =>
    ⟨le, .leading (time + lec.retryPeriod + lec.renewDeadline), none, time + lec.retryPeriod⟩
  -- the ticks of `PollImmediateUntil` do not wait for a try that takes long
  | .leading stopBy, false => ⟨le, .leading stopBy, none, time⟩
  | .stopped, _ => ⟨le, .stopped, none, time⟩

structure Election (ι : Type) where
  time : ℤ
  lease : Option (LeaderElectionRecord ι × ℕ)
  inFlight : List (Option ℕ × LeaderElectionRecord ι)
  candidates : ι → Candidate ι

namespace Election
variable {ι : Type}

def version (s : Election ι) : Option ℕ := s.lease.map Prod.snd

def nextVersion : Option ℕ → ℕ
  | none => 0
  | some version => version + 1

def commit (s : Election ι) (expected : Option ℕ) (record : LeaderElectionRecord ι) :
    Election ι :=
  { s with lease := some (record, nextVersion expected) }

def send (s : Election ι) (expected : Option ℕ) (record : LeaderElectionRecord ι) : Election ι :=
  { s with inFlight := (expected, record) :: s.inFlight }

def Leads (s : Election ι) (p : ι) : Prop := ∃ stopBy, (s.candidates p).standing = .leading stopBy

theorem version_eq_some {s : Election ι} {v : ℕ} :
    s.version = some v ↔ ∃ record, s.lease = some (record, v) := by
  simp [version]

variable [DecidableEq ι]

def set (s : Election ι) (p : ι) (c : Candidate ι) : Election ι :=
  { s with candidates := Function.update s.candidates p c }

@[simp] theorem set_self (s : Election ι) (p : ι) (c : Candidate ι) :
    (s.set p c).candidates p = c := Function.update_self ..

theorem set_of_ne (s : Election ι) {p q : ι} (c : Candidate ι) (h : q ≠ p) :
    (s.set p c).candidates q = s.candidates q := Function.update_of_ne h ..

end Election

/-- The circumstances: a configuration that `NewLeaderElector` accepts, how far each clock is
ahead, and how long a try lasts at most. -/
structure Electorate (ι : Type) where
  config : LeaderElectionConfig
  jittered : ℤ → ℤ
  elector : LeaderElector ι
  created : newLeaderElector jittered config = .ok elector
  skew : ι → ℤ
  latency : ℤ
  latency_nonneg : 0 ≤ latency

/-- Two managers whose clocks differ by a second. -/
def twoManagers (lec : LeaderElectionConfig) (latency : ℤ)
    (created : newLeaderElector (fun d => d * 6 / 5) lec =
      .ok (⟨⟨none, 0, 0, 0, 0⟩, none, 0, none⟩ : LeaderElector Bool))
    (latency_nonneg : 0 ≤ latency) : Electorate Bool :=
  ⟨lec, fun d => d * 6 / 5, _, created, fun p => if p then second else 0, latency, latency_nonneg⟩

namespace Electorate
variable {ι : Type} [DecidableEq ι] (E : Electorate ι)

def start (time : ℤ) (lease : Option (LeaderElectionRecord ι × ℕ)) : Election ι :=
  ⟨time, lease, [], fun _ => ⟨E.elector, .acquiring, none, time⟩⟩

def serve (p : ι) : Server (LockRequest ι) LockResponse (Election ι)
  | s, .now, t, s' => t = s.time + E.skew p ∧ s' = s
  | s, .get, .ok (record, version), s' => s.lease = some (record, version) ∧ s' = s
  | s, .get, .error err, s' => (err.isNotFound = true → s.lease = none) ∧ s' = s
  | s, .write expected record, .ok version, s' => s.version = expected ∧
      version = Election.nextVersion expected ∧ s' = s.commit expected record.toLeaseSpec
  | s, .write expected record, .error _, s' => s' = s ∨ s' = s.send expected record.toLeaseSpec
  | s, .begins, _, s' => s' = s.set p { s.candidates p with since := some s.time }
  | s, .returns succeeded le, _, s' =>
      s' = s.set p ((s.candidates p).returned E.config s.time succeeded le)
  | s, .stops, _, s' => s' = s.set p { s.candidates p with standing := .stopped }

/-- Time passes, but neither beyond the deadline of a leader nor beyond that of a try; or a
write arrives. -/
inductive Env (s : Election ι) : Election ι → Prop where
  | tick {time : ℤ} : s.time ≤ time →
      (∀ p stopBy, (s.candidates p).standing = .leading stopBy → time ≤ stopBy) →
      (∀ p since, (s.candidates p).since = some since → time ≤ since + E.latency) →
      Env s { s with time := time }
  | arrive {expected : Option ℕ} {record : LeaderElectionRecord ι} :
      (expected, record) ∈ s.inFlight → s.version = expected → Env s (s.commit expected record)

def conclude (result : Bool × LeaderElector ι) : Elect ι Unit :=
  Program.call (LockRequest.returns result.1 result.2)

def attempt (p : ι) (le : LeaderElector ι) : Elect ι Unit := do
  Program.call LockRequest.begins
  let result ← le.tryAcquireOrRenew E.config p
  conclude result

def releaseOnCancel (p : ι) (le : LeaderElector ι) : Elect ι Unit :=
  if E.config.releaseOnCancel then do
    let _ ← le.release p
    return ()
  else
    return ()

/-- The end of `renew` at its deadline: the lease is released before `OnStoppedLeading`. -/
def lose (p : ι) (le : LeaderElector ι) : Elect ι Unit := do
  E.releaseOnCancel p le
  Program.call LockRequest.stops

/-- The end of `renew` when the manager shuts down, which has stopped its controllers first. -/
def shutDown (p : ι) (le : LeaderElector ι) : Elect ι Unit := do
  Program.call LockRequest.stops
  E.releaseOnCancel p le

inductive Starts (p : ι) (s : Election ι) : Elect ι Unit → Prop where
  | attempt : (s.candidates p).standing ≠ .stopped → (s.candidates p).due ≤ s.time →
      Starts p s (E.attempt p (s.candidates p).elector)
  | lose : (s.candidates p).standing = .leading s.time →
      Starts p s (E.lose p (s.candidates p).elector)
  | shutDown {stopBy : ℤ} : (s.candidates p).standing = .leading stopBy →
      Starts p s (E.shutDown p (s.candidates p).elector)

def system : System ι (LockRequest ι) LockResponse (Election ι) Unit where
  start := E.Starts
  serve := E.serve
  env := E.Env

end Electorate
end FrpProvisioner
