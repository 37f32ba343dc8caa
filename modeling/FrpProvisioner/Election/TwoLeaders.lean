import FrpProvisioner.Election.Grace
import FrpProvisioner.Election.Stages

/-! Where two candidates lead at a time. The check of `NewLeaderElector` that the lease lasts
longer than the renew deadline does not exclude it: a leader counts its deadline from the end of
its last try, and only after a pause. -/
namespace FrpProvisioner
open Effect

namespace Electorate
variable {ι : Type} [DecidableEq ι] {E : Electorate ι}

section Scene
variable {p q : ι} {begin time : ℤ} {lease : Option (LeaderElectionRecord ι × ℕ)}
  {c d c' : Candidate ι}

variable (E) in
def scene (p q : ι) (begin time : ℤ) (lease : Option (LeaderElectionRecord ι × ℕ))
    (c d : Candidate ι) : Election ι :=
  ⟨time, lease, [], Function.update (Function.update (E.start begin none).candidates p c) q d⟩

theorem scene_fst (hpq : p ≠ q) : (E.scene p q begin time lease c d).candidates p = c := by
  simp [scene, hpq]

theorem scene_snd : (E.scene p q begin time lease c d).candidates q = d := by
  simp [scene]

theorem scene_set_fst (hpq : p ≠ q) :
    (E.scene p q begin time lease c d).set p c' = E.scene p q begin time lease c' d := by
  simp [scene, Election.set, Function.update_comm hpq]

theorem scene_set_snd :
    (E.scene p q begin time lease c d).set q c' = E.scene p q begin time lease c c' := by
  simp [scene, Election.set]

theorem scene_commit {expected : Option ℕ} {r : LeaderElectionRecord ι} :
    (E.scene p q begin time lease c d).commit expected r =
      E.scene p q begin time (some (r, Election.nextVersion expected)) c d := rfl

theorem start_eq_scene : E.start begin none = E.scene p q begin begin none
    ⟨E.elector, .acquiring, none, begin⟩ ⟨E.elector, .acquiring, none, begin⟩ := by
  have hself : ∀ p, Function.update (E.start begin none).candidates p
      ⟨E.elector, .acquiring, none, begin⟩ = (E.start begin none).candidates :=
    fun p => Function.update_eq_self p (E.start begin none).candidates
  rw [scene, hself p, hself q]
  rfl

theorem scene_tick {ps : ι → Option (Elect ι Unit)} (time' : ℤ) (hle : time ≤ time')
    (hc : ∀ stopBy, c.standing = .leading stopBy → time' ≤ stopBy)
    (hd : ∀ stopBy, d.standing = .leading stopBy → time' ≤ stopBy)
    (hsince : ∀ since, c.since = some since → time' ≤ since + E.latency)
    (hsince' : ∀ since, d.since = some since → time' ≤ since + E.latency) :
    E.system.Reaches ⟨E.scene p q begin time lease c d, ps⟩
      ⟨E.scene p q begin time' lease c d, ps⟩ := by
  have henv : E.Env (E.scene p q begin time lease c d) (E.scene p q begin time' lease c d) := by
    refine .tick hle (fun x stopBy hx => ?_) fun x since hx => ?_
    all_goals
      simp only [scene, Function.update_apply] at hx
      split_ifs at hx
    · exact hd stopBy hx
    · exact hc stopBy hx
    · cases hx
    · exact hsince' since hx
    · exact hsince since hx
    · cases hx
  exact (System.Step.env henv).reaches

end Scene

section Race
variable {p q : ι} {t b : ℤ}

/-- `p` creates the lease, `q` observes it at once, and `p` learns of its success after `b`. -/
theorem reaches_first (hpq : p ≠ q) (hb : 0 ≤ b) (hlatency : b ≤ E.latency) :
    E.system.Reaches (System.idle (E.start t none))
      ⟨E.scene p q t (t + b) (some (E.firstRecord p t, 0))
        ⟨⟨LeaderElector.newRecord E.config p (t + E.skew p), none, t + b + E.skew p, some 0⟩,
          .leading (t + b + E.config.renewDeadline), none, t + b⟩
        ⟨⟨E.firstRecord p t, some (E.firstRecord p t).marshal, t + E.skew q, some 0⟩,
          .acquiring, none, t + E.config.retryPeriod⟩, fun _ => none⟩ := by
  obtain ⟨-, -, -, hnone⟩ := newLeaderElector_ok E.created
  rw [System.idle, start_eq_scene (p := p) (q := q)]
  refine (reaches_begins (p := p) rfl (by rw [scene_fst hpq]) (by simp [scene_fst hpq])
    (by rw [scene_fst hpq]; exact Int.le_refl t)).trans ?_
  rw [scene_set_fst hpq, scene_fst hpq]
  refine (reaches_create rfl).trans ?_
  refine (reaches_begins (p := q) (s := E.scene p q t t (some (E.firstRecord p t, 0)) _ _)
    (Function.update_of_ne hpq.symm _ _) (by rw [scene_snd]) (by simp [scene_snd])
    (by rw [scene_snd]; exact Int.le_refl t)).trans ?_
  rw [scene_set_snd, scene_snd]
  refine (reaches_observe (s := E.scene p q t t (some (E.firstRecord p t, 0)) _ _)
    rfl rfl).trans ?_
  rw [if_neg (by simp [hnone])]
  refine (reaches_fail (Function.update_of_ne hpq.symm _ _) rfl).trans ?_
  rw [scene_set_snd, scene_snd]
  refine (scene_tick (t + b) (Int.le_add_of_nonneg_right hb) ?_ ?_ ?_ ?_).trans ?_
  · simp
  · simp [Candidate.returned]
  · rintro since hsince
    cases hsince
    exact Int.add_le_add_left hlatency t
  · simp [Candidate.returned]
  refine (reaches_succeed rfl).trans ?_
  rw [scene_set_fst hpq, scene_fst hpq, hnone]
  exact ⟨[], .nil _⟩

variable (E) in
def secondRecord (p : ι) (time time' : ℤ) : LeaderElectionRecord ι :=
  { LeaderElector.newRecord E.config p (time' + E.skew p) with
      acquireTime := (E.firstRecord p time).acquireTime }.toLeaseSpec

/-- The leader renews the lease at once, but learns of its success as late as possible. -/
theorem reaches_second (hpq : p ≠ q) {u : ℤ} (hlatency : E.latency ≤ E.config.renewDeadline)
    {le : LeaderElector ι} (hraw : le.observedRawRecord = none) {d : Candidate ι}
    (hd : d.standing = .acquiring) (hsince : d.since = none) :
    E.system.Reaches
      ⟨E.scene p q t u (some (E.firstRecord p t, 0))
        ⟨le, .leading (u + E.config.renewDeadline), none, u⟩ d, fun _ => none⟩
      ⟨E.scene p q t (u + E.latency) (some (E.secondRecord p t u, 1))
        ⟨⟨{ LeaderElector.newRecord E.config p (u + E.skew p) with
            acquireTime := (E.firstRecord p t).acquireTime },
            some (E.firstRecord p t).marshal, u + E.latency + E.skew p, some 1⟩,
          .leading (u + E.latency + E.config.retryPeriod + E.config.renewDeadline), none,
          u + E.latency + E.config.retryPeriod⟩ d, fun _ => none⟩ := by
  refine (reaches_begins (p := p) rfl (by rw [scene_fst hpq]) (by simp [scene_fst hpq])
    (by rw [scene_fst hpq]; exact Int.le_refl u)).trans ?_
  rw [scene_set_fst hpq, scene_fst hpq]
  refine (reaches_observe (s := E.scene p q t u (some (E.firstRecord p t, 0)) _ _)
    rfl rfl).trans ?_
  rw [if_neg (by simp [hraw])]
  have hleader : ∀ raw time, (⟨E.firstRecord p t, raw, time, some 0⟩ :
      LeaderElector ι).isLeader p = true := fun _ _ => decide_eq_true rfl
  refine (reaches_update (s := E.scene p q t u (some (E.firstRecord p t, 0)) _ _)
    (by simp [LeaderElector.mustWait, hleader]) rfl rfl rfl).trans ?_
  rw [LeaderElector.succeed, if_pos (hleader _ _)]
  refine (scene_tick (E := E) (c := ⟨le, _, some u, u⟩) (u + E.latency)
    (Int.le_add_of_nonneg_right E.latency_nonneg) ?_ ?_ ?_ ?_).trans ?_
  · rintro stopBy hstop
    cases hstop
    exact Int.add_le_add_left hlatency u
  · simp [hd]
  · rintro since hbegun
    cases hbegun
    exact Int.le_refl _
  · simp [hsince]
  refine (reaches_succeed rfl).trans ?_
  rw [scene_set_fst hpq, scene_fst hpq]
  exact ⟨[], .nil _⟩

/-- The other candidate has waited for as long as it takes the lease to last. -/
theorem scene_takeOver (hpq : p ≠ q) {m : ℤ} {old : LeaderElectionRecord ι} (version : ℕ)
    {c d : Candidate ι} (hacquiring : d.standing = .acquiring) (hdue : d.due ≤ m)
    (hraw : d.elector.observedRawRecord = some old.marshal)
    (hover : d.elector.observedTime + old.leaseDurationSeconds * second ≤ m + E.skew q) :
    ∃ s, E.system.Reaches ⟨E.scene p q t m (some (old, version)) c d, fun _ => none⟩
      ⟨s, fun _ => none⟩ ∧ s.candidates p = c ∧ s.Leads q := by
  obtain ⟨s, hs, hq, hother⟩ := reaches_takeOver (E := E) (p := q)
    (s := E.scene p q t m (some (old, version)) c d) (fun _ => none) rfl
    (by rw [scene_snd, hacquiring]) (by rw [scene_snd]; exact hdue) rfl
    { d.elector with lease := some version } (by rw [scene_snd, if_pos hraw]) (by
      rw [Int.mul_comm] at hover
      simp [LeaderElector.mustWait, scene, Int.not_lt.mpr hover])
  exact ⟨s, hs, (hother p hpq).trans (scene_fst hpq), hq⟩

/-- One candidate creates the lease, and the other has not begun. -/
theorem scene_acquire (hpq : p ≠ q) :
    E.system.Reaches (System.idle (E.start t none))
      ⟨E.scene p q t t (some (E.firstRecord p t, 0))
        ⟨⟨LeaderElector.newRecord E.config p (t + E.skew p), none, t + E.skew p, some 0⟩,
          .leading (t + E.config.renewDeadline), none, t⟩
        ⟨E.elector, .acquiring, none, t⟩, fun _ => none⟩ := by
  obtain ⟨-, -, -, hnone⟩ := newLeaderElector_ok E.created
  rw [System.idle, start_eq_scene (p := p) (q := q)]
  refine (reaches_acquire (p := p) (fun _ => none) rfl (by rw [scene_fst hpq])
    (by rw [scene_fst hpq]; exact Int.le_refl t) rfl).trans ?_
  rw [scene_commit, scene_set_fst hpq, scene_fst hpq, hnone]
  exact ⟨[], .nil _⟩

/-- The leader releases the lease at its deadline, and the other candidate has it before the
leader stops. -/
theorem scene_release (hpq : p ≠ q) (hrelease : E.config.releaseOnCancel = true) {m : ℤ}
    {old : LeaderElectionRecord ι} {version : ℕ} {c d : Candidate ι}
    (hleading : c.standing = .leading m) (hleader : c.elector.isLeader p = true)
    (hlease : c.elector.lease = some version) (hacquiring : d.standing = .acquiring)
    (hdue : d.due ≤ m) :
    ∃ s prog, E.system.Reaches ⟨E.scene p q t m (some (old, version)) c d, fun _ => none⟩
      ⟨s, Function.update (fun _ => none) p (some prog)⟩ ∧ s.candidates p = c ∧ s.Leads q := by
  obtain ⟨r, prog, hr, hreleased⟩ := reaches_release (E := E) (p := p)
    (s := E.scene p q t m (some (old, version)) c d) (fun _ => none) rfl
    (by rw [scene_fst hpq]; exact hleading) hrelease (by rw [scene_fst hpq]; exact hleader)
    (by rw [scene_fst hpq]; exact hlease) rfl
  rw [scene_commit] at hreleased
  obtain ⟨s, htake, hq, hother⟩ := reaches_takeOver (E := E) (p := q)
    (s := E.scene p q t m (some (r, version + 1)) c d)
    (Function.update (fun _ => none) p (some prog)) (Function.update_of_ne hpq.symm _ _)
    (by rw [scene_snd, hacquiring]) (by rw [scene_snd]; exact hdue) rfl _ rfl
    (by simp [LeaderElector.mustWait, hr])
  exact ⟨s, prog, hreleased.trans htake, (hother p hpq).trans (scene_fst hpq), hq⟩

omit [DecidableEq ι] in
/-- Two records that a candidate makes within one second of its clock have the same text. -/
theorem marshal_secondRecord (ht : t + E.skew p = 0) (hb : 0 ≤ b) (hsecond : b < second) :
    (E.firstRecord p t).marshal = (E.secondRecord p t (t + b)).marshal := by
  have hb' : t + b + E.skew p = b := by omega
  have hsecond' : b < 1000000000 := hsecond
  simp only [firstRecord, secondRecord, LeaderElectionRecord.marshal,
    LeaderElectionRecord.toLeaseSpec, LeaderElector.newRecord, ht, hb', microsecond, second,
    LeaderElectionRecord.mk.injEq, true_and, and_true]
  exact ⟨by omega, by omega⟩

end Race

/-- A lease that does not outlast the grace of its holder by more than what one second of the
text hides: the leader renews it unnoticed, and is replaced while it counts on its deadline. -/
theorem two_leaders_of_short_lease {p q : ι} (hpq : p ≠ q)
    (hlatency : E.latency ≤ E.config.renewDeadline)
    (hlease : E.config.leaseDuration / second * second ≤ E.grace + min E.latency (second - 1)) :
    ∃ time c, E.system.Reaches (System.idle (E.start time none)) c ∧ c.state.Leads p ∧
      c.state.Leads q := by
  obtain ⟨-, hrenew, hretry, -⟩ := newLeaderElector_ok E.created
  have hnonneg := E.latency_nonneg
  obtain ⟨t, ht⟩ : ∃ t, t + E.skew p = 0 := ⟨-E.skew p, Int.add_left_neg _⟩
  obtain ⟨b, hb, hle, hsecond, hlease⟩ : ∃ b, 0 ≤ b ∧ b ≤ E.latency ∧ b < second ∧
      E.config.leaseDuration / second * second ≤ E.grace + b := by
    refine ⟨min E.latency (second - 1), ?_, ?_, ?_, hlease⟩ <;> simp only [second] <;> omega
  -- the other candidate tries again when the lease is over, but not before its own pause is
  obtain ⟨m, hm, hexpired, hdue, hstop⟩ : ∃ m, t + b + E.latency ≤ m ∧
      t + E.config.leaseDuration / second * second ≤ m ∧ t + E.config.retryPeriod ≤ m ∧
      m ≤ t + b + E.latency + E.config.retryPeriod + E.config.renewDeadline := by
    unfold grace at hlease
    refine ⟨max (max (t + b + E.latency) (t + E.config.leaseDuration / second * second))
      (t + E.config.retryPeriod), ?_, ?_, ?_, ?_⟩ <;> omega
  have hfirst := reaches_first (E := E) (t := t) hpq hb hle
  have hrenewed := hfirst.trans (reaches_second hpq hlatency rfl rfl rfl)
  have hlater := hrenewed.trans (scene_tick m hm
    (by rintro stopBy hs; cases hs; exact hstop) (by simp) (by simp) (by simp))
  obtain ⟨s, htake, hp, hq⟩ := scene_takeOver (E := E) (t := t) (m := m) hpq 1
    (d := ⟨⟨E.firstRecord p t, some (E.firstRecord p t).marshal, t + E.skew q, some 0⟩,
          .acquiring, none, t + E.config.retryPeriod⟩) rfl hdue
    (congrArg some (marshal_secondRecord ht hb hsecond)) (by
      change t + E.skew q + E.config.leaseDuration / second * second ≤ m + E.skew q
      omega)
  exact ⟨t, _, hlater.trans htake, ⟨_, congrArg Candidate.standing hp⟩, hq⟩

/-- The lease lasts longer than the renew deadline, but not than the pause before it as well. -/
private def hastyManagers : Electorate Bool :=
  twoManagers ⟨11 * second, 10 * second, 2 * second, false⟩ 0 rfl (by decide)

theorem two_leaders_of_short_lease_accepted : ∃ time c,
    hastyManagers.system.Reaches (System.idle (hastyManagers.start time none)) c ∧
      c.state.Leads true ∧ c.state.Leads false :=
  two_leaders_of_short_lease (by decide) (by decide) (by decide)

/-- With `ReleaseOnCancel` a leader that fails to renew gives the lease away before it stops
leading, whatever the durations are. -/
theorem two_leaders_of_release {p q : ι} (hpq : p ≠ q)
    (hrelease : E.config.releaseOnCancel = true) (time : ℤ) :
    ∃ c, E.system.Reaches (System.idle (E.start time none)) c ∧ c.state.Leads p ∧
      c.state.Leads q := by
  obtain ⟨-, hrenew, -, -⟩ := newLeaderElector_ok E.created
  have hnonneg : 0 ≤ E.config.renewDeadline := Int.le_of_lt hrenew
  have hdeadline := (scene_acquire (E := E) (t := time) hpq).trans (scene_tick
    (time + E.config.renewDeadline) (Int.le_add_of_nonneg_right hnonneg)
    (by rintro stopBy hs; cases hs; exact Int.le_refl _) (by simp) (by simp) (by simp))
  obtain ⟨s, prog, hreleased, hp, hq⟩ := scene_release (E := E) (t := time)
    (c := ⟨⟨LeaderElector.newRecord E.config p (time + E.skew p), none, time + E.skew p, some 0⟩,
      .leading (time + E.config.renewDeadline), none, time⟩)
    (d := ⟨E.elector, .acquiring, none, time⟩) hpq hrelease
    rfl (decide_eq_true rfl) rfl rfl (Int.le_add_of_nonneg_right hnonneg)
  exact ⟨_, hdeadline.trans hreleased, ⟨_, congrArg Candidate.standing hp⟩, hq⟩

private def releasingManagers : Electorate Bool :=
  twoManagers ⟨15 * second, 10 * second, 2 * second, true⟩ 0 rfl (by decide)

theorem two_leaders_of_release_default : ∃ c,
    releasingManagers.system.Reaches (System.idle (releasingManagers.start 0 none)) c ∧
      c.state.Leads true ∧ c.state.Leads false :=
  two_leaders_of_release (by decide) rfl 0

end Electorate
end FrpProvisioner
