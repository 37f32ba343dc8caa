import FrpProvisioner.Election.Electorate

/-! The stages of a try, each as a run of the candidate's own requests while nothing else
happens. They are put together to the tries that acquire the lease, take it over or release
it. -/
namespace FrpProvisioner
open Effect

namespace Electorate
variable {ι : Type} [DecidableEq ι] {E : Electorate ι}

section Stages
variable {s : Election ι} {p : ι} {ps : ι → Option (Elect ι Unit)} {le : LeaderElector ι}
  {old r : LeaderElectionRecord ι} {version : ℕ} {now : ℤ}

theorem reaches_call {s' : Election ι} (i : LockRequest ι) (o : LockResponse i)
    (h : E.serve p s i o s') {k : LockResponse i → Elect ι Unit} :
    E.system.Reaches ⟨s, Function.update ps p (some (.request i k))⟩
      ⟨s', Function.update ps p (some (k o))⟩ :=
  System.reaches_request h

theorem reaches_begins (hps : ps p = none) (helector : (s.candidates p).elector = le)
    (hstanding : (s.candidates p).standing ≠ .stopped) (hdue : (s.candidates p).due ≤ s.time) :
    E.system.Reaches ⟨s, ps⟩
      ⟨s.set p { s.candidates p with since := some s.time },
        Function.update ps p (some (le.tryAcquireOrRenew E.config p >>= conclude))⟩ := by
  subst helector
  have hstart : System.Step E.system ⟨s, ps⟩ (.start p) ⟨s, Function.update ps p
      (some (E.attempt p (s.candidates p).elector))⟩ := .start hps (.attempt hstanding hdue)
  exact hstart.reaches.trans (reaches_call .begins () rfl)

theorem reaches_create (hnone : s.lease = none) :
    E.system.Reaches
      ⟨s, Function.update ps p (some (le.tryAcquireOrRenew E.config p >>= conclude))⟩
      ⟨s.commit none (LeaderElector.newRecord E.config p (s.time + E.skew p)).toLeaseSpec,
        Function.update ps p (some (({ le with lease := some 0 }.setObservedRecord
          (LeaderElector.newRecord E.config p (s.time + E.skew p)) >>= fun le =>
            pure (true, le)) >>= conclude))⟩ := by
  have hnotFound : (GoError.status ⟨.notFound, 404, "not found"⟩).isNotFound = true := by
    simp [GoError.isNotFound, GoError.asStatus]
  refine (reaches_call .now (s.time + E.skew p) ⟨rfl, rfl⟩).trans ?_
  refine (reaches_call .get (.error (.status ⟨.notFound, 404, "not found"⟩))
    ⟨fun _ => hnone, rfl⟩).trans ?_
  dsimp only [Program.bind]
  rw [hnotFound, if_pos rfl]
  refine reaches_call (.write none _) (.ok 0) ⟨?_, rfl, rfl⟩
  rw [Election.version, hnone]
  rfl

theorem reaches_observe (hstored : s.lease = some (old, version)) {le' : LeaderElector ι}
    (hle' : le' = if le.observedRawRecord = some old.marshal then { le with lease := some version }
      else ⟨old, some old.marshal, s.time + E.skew p, some version⟩) :
    E.system.Reaches
      ⟨s, Function.update ps p (some (le.tryAcquireOrRenew E.config p >>= conclude))⟩
      ⟨s, Function.update ps p
        (some (le'.contend E.config p (s.time + E.skew p) old >>= conclude))⟩ := by
  refine (reaches_call .now (s.time + E.skew p) ⟨rfl, rfl⟩).trans ?_
  refine (reaches_call .get (.ok (old, version)) ⟨hstored, rfl⟩).trans ?_
  subst hle'
  dsimp only [Program.bind, LeaderElector.observe]
  split_ifs with hraw
  · exact ⟨[], .nil _⟩
  · exact reaches_call .now (s.time + E.skew p) ⟨rfl, rfl⟩

/-- The candidate has to wait, or its write is refused. -/
theorem reaches_fail (hps : ps p = none) (hlease : le.lease = some version) :
    E.system.Reaches
      ⟨s, Function.update ps p (some (le.contend E.config p now old >>= conclude))⟩
      ⟨s.set p ((s.candidates p).returned E.config s.time false le), ps⟩ := by
  have hend : E.system.Reaches
      ⟨s, Function.update ps p (some (pure (false, le) >>= conclude))⟩
      ⟨s.set p ((s.candidates p).returned E.config s.time false le), ps⟩ :=
    (reaches_call (.returns false le) () rfl).trans
      (System.reaches_finish hps)
  unfold LeaderElector.contend
  split_ifs with hwait
  · exact hend
  · unfold LeaderElector.update
    rw [hlease]
    exact (reaches_call (.write _ _) (.error (.text "conflict")) (Or.inl rfl)).trans hend

theorem reaches_update (hwait : le.mustWait p now old = false) (hlease : le.lease = some version)
    (hversion : s.version = some version)
    (hr : r = le.succeed p (LeaderElector.newRecord E.config p now) old) :
    E.system.Reaches
      ⟨s, Function.update ps p (some (le.contend E.config p now old >>= conclude))⟩
      ⟨s.commit (some version) r.toLeaseSpec, Function.update ps p
        (some (({ le with lease := some (version + 1) }.setObservedRecord r >>= fun le =>
          pure (true, le)) >>= conclude))⟩ := by
  subst hr
  unfold LeaderElector.contend LeaderElector.update
  rw [hwait, hlease]
  exact reaches_call (.write _ _) (.ok _) ⟨hversion, rfl, rfl⟩

/-- The write of the candidate was made, and its try succeeds. -/
theorem reaches_succeed (hps : ps p = none) :
    E.system.Reaches
      ⟨s, Function.update ps p (some ((le.setObservedRecord r >>= fun le =>
        pure (true, le)) >>= conclude))⟩
      ⟨s.set p ((s.candidates p).returned E.config s.time true
        ⟨r, le.observedRawRecord, s.time + E.skew p, le.lease⟩), ps⟩ := by
  refine (reaches_call .now (s.time + E.skew p) ⟨rfl, rfl⟩).trans ?_
  exact (reaches_call (.returns true _) () rfl).trans
    (System.reaches_finish hps)

end Stages
section Tries
variable {s : Election ι} {p : ι} {old : LeaderElectionRecord ι} {version : ℕ}

variable (E) in
def firstRecord (p : ι) (time : ℤ) : LeaderElectionRecord ι :=
  (LeaderElector.newRecord E.config p (time + E.skew p)).toLeaseSpec

theorem reaches_acquire (ps : ι → Option (Elect ι Unit)) (hps : ps p = none)
    (hacquiring : (s.candidates p).standing = .acquiring)
    (hdue : (s.candidates p).due ≤ s.time) (hnone : s.lease = none) :
    E.system.Reaches ⟨s, ps⟩
      ⟨(s.commit none (E.firstRecord p s.time)).set p
        ⟨⟨LeaderElector.newRecord E.config p (s.time + E.skew p),
            (s.candidates p).elector.observedRawRecord, s.time + E.skew p, some 0⟩,
          .leading (s.time + E.config.renewDeadline), none, s.time⟩, ps⟩ := by
  refine (reaches_begins hps rfl (by simp [hacquiring]) hdue).trans ?_
  refine (reaches_create (s := s.set p _) hnone).trans ((reaches_succeed hps).trans ?_)
  simp only [Election.set, Election.commit, Function.update_idem, Function.update_self,
    Candidate.returned, hacquiring]
  exact ⟨[], .nil _⟩

theorem reaches_takeOver (ps : ι → Option (Elect ι Unit)) (hps : ps p = none)
    (hacquiring : (s.candidates p).standing = .acquiring)
    (hdue : (s.candidates p).due ≤ s.time) (hstored : s.lease = some (old, version))
    (le : LeaderElector ι) (hle : le = if (s.candidates p).elector.observedRawRecord =
      some old.marshal then { (s.candidates p).elector with lease := some version }
      else ⟨old, some old.marshal, s.time + E.skew p, some version⟩)
    (hwait : le.mustWait p (s.time + E.skew p) old = false) :
    ∃ s', E.system.Reaches ⟨s, ps⟩ ⟨s', ps⟩ ∧ s'.Leads p ∧
      ∀ q, q ≠ p → s'.candidates q = s.candidates q := by
  have hlease : le.lease = some version := by
    rw [hle]
    split_ifs <;> rfl
  refine ⟨_, (reaches_begins hps rfl (by simp [hacquiring]) hdue).trans
    ((reaches_observe (s := s.set p _) hstored hle).trans
      ((reaches_update hwait hlease ?_ rfl).trans (reaches_succeed hps))), ?_, fun q hq => ?_⟩
  · exact Election.version_eq_some.mpr ⟨old, hstored⟩
  · refine ⟨s.time + E.config.renewDeadline, ?_⟩
    simp [Election.set, Election.commit, Candidate.returned, hacquiring]
  · simp [Election.set, Election.commit, hq]

/-- A leader at its deadline releases the lease, and is still to stop. -/
theorem reaches_release (ps : ι → Option (Elect ι Unit)) (hps : ps p = none)
    (hleading : (s.candidates p).standing = .leading s.time)
    (hrelease : E.config.releaseOnCancel = true)
    (hleader : (s.candidates p).elector.isLeader p = true)
    (hlease : (s.candidates p).elector.lease = some version)
    (hversion : s.version = some version) :
    ∃ r prog, r.holderIdentity = none ∧ E.system.Reaches ⟨s, ps⟩
      ⟨s.commit (some version) r, Function.update ps p (some prog)⟩ := by
  have hstart : System.Step E.system ⟨s, ps⟩ (.start p) ⟨s, Function.update ps p
      (some (E.lose p (s.candidates p).elector))⟩ := .start hps (.lose hleading)
  obtain ⟨prog, hprog⟩ : ∃ prog, E.system.Reaches
      ⟨s, Function.update ps p (some (E.lose p (s.candidates p).elector))⟩
      ⟨s.commit (some version) (LeaderElectionRecord.mk none 1 (s.time + E.skew p)
        (s.time + E.skew p)
        (s.candidates p).elector.observedRecord.leaderTransitions).toLeaseSpec,
        Function.update ps p (some prog)⟩ := by
    unfold lose releaseOnCancel LeaderElector.release LeaderElector.update
    rw [if_pos hrelease, if_pos hleader, hlease]
    exact ⟨_, (reaches_call .now (s.time + E.skew p) ⟨rfl, rfl⟩).trans
      (reaches_call (.write _ _) (.ok _) ⟨hversion, rfl, rfl⟩)⟩
  exact ⟨_, prog, rfl, hstart.reaches.trans hprog⟩

end Tries

end Electorate
end FrpProvisioner
