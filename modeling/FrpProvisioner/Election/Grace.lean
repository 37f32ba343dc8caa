import FrpProvisioner.Election.Electorate

/-! The invariant of an election. A leader stops within a grace period after the time in its
record, and nobody else replaces the record before that period is over. Each step that a
candidate, the clock or a late write makes keeps the invariant, provided that the candidates
write records of this kind only. -/
namespace FrpProvisioner
open Effect

namespace Electorate
variable {ι : Type} (E : Electorate ι)

def grace : ℤ := E.latency + E.config.retryPeriod + E.config.renewDeadline

/-- A record with a holder is one that the holder has made before now. -/
def Proper (s : Election ι) (r : LeaderElectionRecord ι) : Prop :=
  ∀ q, r.holderIdentity = some q → r.renewTime ≤ s.time + E.skew q ∧
    r.renewTime % microsecond = 0 ∧ r.leaseDurationSeconds = E.config.leaseDuration / second

/-- The holder has had its grace. -/
def Expired (s : Election ι) (r : LeaderElectionRecord ι) : Prop :=
  ∀ q, r.holderIdentity = some q → r.renewTime + microsecond + E.grace ≤ s.time + E.skew q

/-- What a write does to the record it replaces: its holder renews it, or it has expired. -/
def Allowed (s : Election ι) (expected : Option ℕ) (r : LeaderElectionRecord ι) : Prop :=
  ∀ old v, s.lease = some (old, v) → expected = some v →
    (r.holderIdentity = old.holderIdentity ∧ old.renewTime ≤ r.renewTime ∧
        old.leaderTransitions ≤ r.leaderTransitions) ∨
      (old.leaderTransitions < r.leaderTransitions ∧ E.Expired s old)

structure Fair (s : Election ι) (expected : Option ℕ) (r : LeaderElectionRecord ι) : Prop where
  proper : E.Proper s r
  allowed : E.Allowed s expected r
  known : ∀ v, expected = some v → ∃ old w, s.lease = some (old, w) ∧ v ≤ w

/-- The candidate holds the lease, with grace until `time`. -/
def Holds (s : Election ι) (p : ι) (time : ℤ) : Prop :=
  ∃ r v, s.lease = some (r, v) ∧ r.holderIdentity = some p ∧
    time + E.skew p < r.renewTime + microsecond + E.grace

structure Evolves (s s' : Election ι) : Prop where
  time : s.time ≤ s'.time
  lease : s'.lease = s.lease ∨ ∃ expected r, s.version = expected ∧ E.Fair s expected r ∧
    s'.lease = some (r, Election.nextVersion expected)

structure Follows (r : LeaderElectionRecord ι) (v : ℕ) (r' : LeaderElectionRecord ι) (v' : ℕ) :
    Prop where
  version : v ≤ v'
  same : v' = v → r' = r
  transitions : r.leaderTransitions ≤ r'.leaderTransitions
  holder : r'.holderIdentity = r.holderIdentity ∨ r.leaderTransitions < r'.leaderTransitions

def Seen (r : LeaderElectionRecord ι) (v : ℕ) (s : Election ι) : Prop :=
  ∃ r' v', s.lease = some (r', v') ∧ Follows r v r' v'

section Evolution
variable {E} {s s' : Election ι} {p : ι} {r : LeaderElectionRecord ι} {v : ℕ}

theorem Follows.refl : Follows r v r v := ⟨Nat.le_refl v, fun _ => rfl, Nat.le_refl _, Or.inl rfl⟩

theorem Follows.trans {r' r'' : LeaderElectionRecord ι} {v' v'' : ℕ} (h : Follows r v r' v')
    (h' : Follows r' v' r'' v'') : Follows r v r'' v'' := by
  have hversion := h.version
  have hversion' := h'.version
  have htransitions := h.transitions
  have htransitions' := h'.transitions
  refine ⟨by omega, fun heq => ?_, by omega, ?_⟩
  · have hv : v' = v := by omega
    rw [h'.same (heq.trans hv.symm), h.same hv]
  · rcases h'.holder with hholder' | hlt
    · rcases h.holder with hholder | hlt
      · exact Or.inl (hholder'.trans hholder)
      · exact Or.inr (by omega)
    · exact Or.inr (by omega)

theorem Evolves.seen (he : E.Evolves s s') (h : s.lease = some (r, v)) : Seen r v s' := by
  rcases he.lease with hsame | ⟨expected, r', hversion, hfair, hlease⟩
  · exact ⟨r, v, hsame.trans h, Follows.refl⟩
  · obtain rfl : expected = some v := hversion.symm.trans (by rw [Election.version, h]; rfl)
    have hnew : v + 1 = v → r' = r := by omega
    rcases hfair.allowed r v h rfl with ⟨hholder, -, hle⟩ | ⟨hlt, -⟩
    · exact ⟨r', v + 1, hlease, Nat.le_succ v, hnew, hle, Or.inl hholder⟩
    · exact ⟨r', v + 1, hlease, Nat.le_succ v, hnew, Nat.le_of_lt hlt, Or.inr hlt⟩

theorem Seen.evolves (h : Seen r v s) (he : E.Evolves s s') : Seen r v s' := by
  obtain ⟨r', v', hlease, hfollows⟩ := h
  obtain ⟨r'', v'', hlease', hfollows'⟩ := he.seen hlease
  exact ⟨r'', v'', hlease', hfollows.trans hfollows'⟩

theorem Proper.evolves (h : E.Proper s r) (he : E.Evolves s s') : E.Proper s' r := by
  intro q hq
  obtain ⟨hle, hrest⟩ := h q hq
  have htime := he.time
  exact ⟨by omega, hrest⟩

theorem Expired.evolves (h : E.Expired s r) (he : E.Evolves s s') : E.Expired s' r := by
  intro q hq
  have hle := h q hq
  have htime := he.time
  omega

theorem Fair.evolves {expected : Option ℕ} (h : E.Fair s expected r) (he : E.Evolves s s') :
    E.Fair s' expected r := by
  refine ⟨h.proper.evolves he, ?_, ?_⟩
  · rintro old v hlease rfl
    rcases he.lease with hsame | ⟨expected', r', hversion, -, hlease'⟩
    · refine (h.allowed old v (hsame.symm.trans hlease) rfl).imp_right ?_
      rintro ⟨hlt, hexpired⟩
      exact ⟨hlt, hexpired.evolves he⟩
    · -- a version that is new was not expected by anyone before
      obtain ⟨old', w, hold, hle⟩ := h.known v rfl
      obtain rfl : expected' = some w := hversion.symm.trans (by rw [Election.version, hold]; rfl)
      have hnext : w + 1 = v := by
        rw [hlease'] at hlease
        exact congrArg Prod.snd (Option.some.inj hlease)
      omega
  · intro v hv
    obtain ⟨old, w, hold, hle⟩ := h.known v hv
    obtain ⟨old', w', hold', hfollows⟩ := he.seen hold
    exact ⟨old', w', hold', Nat.le_trans hle hfollows.version⟩

/-- The lease does not change hands before the grace is over. -/
theorem Holds.evolves {time : ℤ} (h : E.Holds s p time) (htime : s.time ≤ time)
    (he : E.Evolves s s') : E.Holds s' p time := by
  obtain ⟨r, v, hlease, hholder, hgrace⟩ := h
  rcases he.lease with hsame | ⟨expected, r', hversion, hfair, hlease'⟩
  · exact ⟨r, v, hsame.trans hlease, hholder, hgrace⟩
  · obtain rfl : expected = some v := hversion.symm.trans (by rw [Election.version, hlease]; rfl)
    rcases hfair.allowed r v hlease rfl with ⟨hholder', hrenewed, -⟩ | ⟨-, hexpired⟩
    · exact ⟨r', v + 1, hlease', hholder'.trans hholder, by omega⟩
    · have hover := hexpired p hholder
      omega

theorem Holds.mono {time time' : ℤ} (h : E.Holds s p time) (hle : time' ≤ time) :
    E.Holds s p time' := by
  obtain ⟨r, v, hlease, hholder, hgrace⟩ := h
  exact ⟨r, v, hlease, hholder, by omega⟩

end Evolution

variable [DecidableEq ι]

/-- What the candidate has observed was there in time, and where it takes itself for the leader
it still is, or there was a transition since. -/
structure Remembers (s : Election ι) (p : ι) (le : LeaderElector ι)
    (raw : LeaderElectionRecord ι) : Prop where
  time : le.observedTime ≤ s.time + E.skew p
  holder : ∀ q, raw.holderIdentity = some q →
    raw.renewTime * second + E.skew p ≤ le.observedTime + E.skew q
  stored : ∃ r v, s.lease = some (r, v) ∧ raw.leaderTransitions ≤ r.leaderTransitions ∧
    (le.isLeader p = true → r.holderIdentity = some p ∨
      raw.leaderTransitions < r.leaderTransitions)

structure Sound (s : Election ι) : Prop where
  stored : ∀ r v, s.lease = some (r, v) → E.Proper s r
  flying : ∀ expected r, (expected, r) ∈ s.inFlight → E.Fair s expected r
  leading : ∀ p stopBy, (s.candidates p).standing = .leading stopBy →
    s.time ≤ stopBy ∧ E.Holds s p stopBy
  since : ∀ p since, (s.candidates p).since = some since →
    since ≤ s.time ∧ s.time ≤ since + E.latency
  memory : ∀ p raw, (s.candidates p).elector.observedRawRecord = some raw →
    E.Remembers s p (s.candidates p).elector raw

variable {E} in
theorem Remembers.evolves {s s' : Election ι} {p : ι} {le : LeaderElector ι}
    {r : LeaderElectionRecord ι} (h : E.Remembers s p le r) (he : E.Evolves s s') :
    E.Remembers s' p le r := by
  refine ⟨Int.le_trans h.time (by have := he.time; omega), h.holder, ?_⟩
  obtain ⟨r', v', hlease, hle, hleader⟩ := h.stored
  obtain ⟨r'', v'', hlease', hfollows⟩ := he.seen hlease
  have htransitions := hfollows.transitions
  refine ⟨r'', v'', hlease', by omega, fun hl => ?_⟩
  rcases hleader hl with hholder | hlt
  · rcases hfollows.holder with hholder' | hlt
    · exact Or.inl (hholder'.trans hholder)
    · exact Or.inr (by omega)
  · exact Or.inr (by omega)

def Guarantee (p : ι) : Server (LockRequest ι) LockResponse (Election ι)
  | s, .write expected r, _, _ =>
    E.Fair s expected r.toLeaseSpec ∧ r.holderIdentity = some p
  | s, .returns succeeded le, _, _ =>
    (∀ raw, le.observedRawRecord = some raw → E.Remembers s p le raw) ∧
      (succeeded = true → ∃ since, (s.candidates p).since = some since ∧
        E.Holds s p (since + E.grace))
  | _, _, _, _ => True

section Steps
variable {E} {s s' : Election ι} {p : ι}

/-- The parts of a sound state that a step has to account for. -/
theorem Sound.next (h : E.Sound s) (he : E.Evolves s s')
    (hflying : ∀ expected r, (expected, r) ∈ s'.inFlight →
      (expected, r) ∈ s.inFlight ∨ E.Fair s expected r)
    (hleading : ∀ p stopBy, (s'.candidates p).standing = .leading stopBy → s'.time ≤ stopBy ∧
      ((s.candidates p).standing = .leading stopBy ∨ E.Holds s' p stopBy))
    (hsince : ∀ p since, (s'.candidates p).since = some since →
      since ≤ s'.time ∧ s'.time ≤ since + E.latency)
    (hmemory : ∀ p, (s'.candidates p).elector = (s.candidates p).elector ∨
      ∀ raw, (s'.candidates p).elector.observedRawRecord = some raw →
        E.Remembers s' p (s'.candidates p).elector raw) : E.Sound s' where
  stored r v hlease := by
    rcases he.lease with hsame | ⟨expected, r', -, hfair, hlease'⟩
    · exact (h.stored r v (hsame.symm.trans hlease)).evolves he
    · rw [hlease'] at hlease
      cases hlease
      exact hfair.proper.evolves he
  flying expected r hmem := by
    rcases hflying expected r hmem with hold | hnew
    · exact (h.flying expected r hold).evolves he
    · exact hnew.evolves he
  leading p stopBy hp := by
    obtain ⟨htime, hsame | hnew⟩ := hleading p stopBy hp
    · obtain ⟨hle, hholds⟩ := h.leading p stopBy hsame
      exact ⟨htime, hholds.evolves hle he⟩
    · exact ⟨htime, hnew⟩
  since := hsince
  memory p raw hraw := by
    rcases hmemory p with hsame | hnew
    · rw [hsame] at hraw ⊢
      exact (h.memory p raw hraw).evolves he
    · exact hnew raw hraw

theorem Sound.write (h : E.Sound s) (he : E.Evolves s s') (htime : s'.time = s.time)
    (hcandidates : s'.candidates = s.candidates)
    (hflying : ∀ expected r, (expected, r) ∈ s'.inFlight →
      (expected, r) ∈ s.inFlight ∨ E.Fair s expected r) : E.Sound s' := by
  refine h.next he hflying ?_ ?_ ?_
  · intro p stopBy hp
    rw [hcandidates] at hp
    exact ⟨htime ▸ (h.leading p stopBy hp).1, Or.inl hp⟩
  · rw [hcandidates, htime]
    exact h.since
  · exact fun p => Or.inl (by rw [hcandidates])

theorem Sound.commit (h : E.Sound s) {expected : Option ℕ} {r : LeaderElectionRecord ι}
    (hversion : s.version = expected) (hfair : E.Fair s expected r) :
    E.Sound (s.commit expected r) ∧ E.Evolves s (s.commit expected r) := by
  have he : E.Evolves s (s.commit expected r) :=
    ⟨Int.le_refl _, Or.inr ⟨expected, r, hversion, hfair, rfl⟩⟩
  exact ⟨h.write he rfl rfl fun _ _ hmem => Or.inl hmem, he⟩

theorem Sound.env (h : E.Sound s) (hs : E.Env s s') : E.Sound s' ∧ E.Evolves s s' := by
  cases hs with
  | tick htime hstop hsince =>
    have he : E.Evolves s { s with time := _ } := ⟨htime, Or.inl rfl⟩
    refine ⟨h.next he (fun _ _ hmem => Or.inl hmem) ?_ ?_ fun p => Or.inl rfl, he⟩
    · exact fun p stopBy hp => ⟨hstop p stopBy hp, Or.inl hp⟩
    · exact fun p since hp => ⟨Int.le_trans (h.since p since hp).1 htime, hsince p since hp⟩
  | arrive hmem hversion => exact h.commit hversion (h.flying _ _ hmem)

theorem Sound.set (h : E.Sound s) {c : Candidate ι}
    (hleading : ∀ stopBy, c.standing = .leading stopBy → s.time ≤ stopBy ∧
      ((s.candidates p).standing = .leading stopBy ∨ E.Holds s p stopBy))
    (hsince : ∀ since, c.since = some since → since ≤ s.time ∧ s.time ≤ since + E.latency)
    (hmemory : ∀ raw, c.elector.observedRawRecord = some raw → E.Remembers s p c.elector raw) :
    E.Sound (s.set p c) ∧ E.Evolves s (s.set p c) := by
  have he : E.Evolves s (s.set p c) := ⟨Int.le_refl _, Or.inl rfl⟩
  refine ⟨h.next he (fun _ _ hmem => Or.inl hmem) ?_ ?_ ?_, he⟩
  · intro q stopBy hq
    by_cases hqp : q = p
    · subst hqp
      rw [Election.set_self] at hq
      exact hleading stopBy hq
    · rw [Election.set_of_ne s c hqp] at hq
      exact ⟨(h.leading q stopBy hq).1, Or.inl hq⟩
  · intro q since hq
    by_cases hqp : q = p
    · subst hqp
      rw [Election.set_self] at hq
      exact hsince since hq
    · rw [Election.set_of_ne s c hqp] at hq
      exact h.since q since hq
  · intro q
    by_cases hqp : q = p
    · subst hqp
      rw [Election.set_self]
      exact Or.inr fun raw hraw => (hmemory raw hraw).evolves he
    · exact Or.inl (by rw [Election.set_of_ne s c hqp])

/-- A try that has succeeded gives its candidate time to lead. -/
theorem Sound.returned (h : E.Sound s) {succeeded : Bool} {le : LeaderElector ι}
    (hmemory : ∀ raw, le.observedRawRecord = some raw → E.Remembers s p le raw)
    (hholds : succeeded = true → ∃ since, (s.candidates p).since = some since ∧
      E.Holds s p (since + E.grace)) :
    E.Sound (s.set p ((s.candidates p).returned E.config s.time succeeded le)) ∧
      E.Evolves s (s.set p ((s.candidates p).returned E.config s.time succeeded le)) := by
  obtain ⟨-, hrenew, hretry, -⟩ := newLeaderElector_ok E.created
  have hlead : succeeded = true → ∀ time, time ≤ s.time + E.config.retryPeriod +
      E.config.renewDeadline → E.Holds s p time := by
    intro hs time hle
    obtain ⟨since, hsince, hholds⟩ := hholds hs
    have hlatency := (h.since p since hsince).2
    exact hholds.mono (by unfold grace; omega)
  refine h.set ?_ ?_ ?_
  · intro stopBy hstanding
    unfold Candidate.returned at hstanding
    split at hstanding
    case h_1 =>
      cases hstanding
      exact ⟨by omega, Or.inr (hlead rfl _ (by omega))⟩
    case h_3 =>
      cases hstanding
      exact ⟨by omega, Or.inr (hlead rfl _ (Int.le_refl _))⟩
    case h_4 hleading =>
      cases hstanding
      exact ⟨(h.leading p _ hleading).1, Or.inl hleading⟩
    all_goals cases hstanding
  · intro since hsince
    unfold Candidate.returned at hsince
    split at hsince <;> cases hsince
  · have helector : ((s.candidates p).returned E.config s.time succeeded le).elector = le := by
      unfold Candidate.returned
      split <;> rfl
    rw [helector]
    exact hmemory

theorem Sound.serve (h : E.Sound s) {i : LockRequest ι} {o : LockResponse i}
    (hs : E.serve p s i o s') (hg : E.Guarantee p s i o s') : E.Sound s' ∧ E.Evolves s s' := by
  have hrefl : E.Sound s ∧ E.Evolves s s := ⟨h, Int.le_refl _, Or.inl rfl⟩
  cases i with
  | now => exact hs.2 ▸ hrefl
  | get =>
    cases o with
    | ok found => exact hs.2 ▸ hrefl
    | error err => exact hs.2 ▸ hrefl
  | write expected r =>
    cases o with
    | ok version =>
      obtain ⟨hversion, -, rfl⟩ := hs
      exact h.commit hversion hg.1
    | error err =>
      rcases hs with rfl | rfl
      · exact hrefl
      · have he : E.Evolves s (s.send expected r.toLeaseSpec) := ⟨Int.le_refl _, Or.inl rfl⟩
        refine ⟨h.write he rfl rfl fun expected' r' hmem => ?_, he⟩
        rcases List.mem_cons.mp hmem with heq | hold
        · cases heq
          exact Or.inr hg.1
        · exact Or.inl hold
  | begins =>
    cases hs
    refine h.set (fun stopBy hp => ⟨(h.leading p stopBy hp).1, Or.inl hp⟩) ?_ (h.memory p)
    intro since hsince
    cases hsince
    exact ⟨Int.le_refl _, by have := E.latency_nonneg; omega⟩
  | returns succeeded le =>
    cases hs
    exact h.returned hg.1 hg.2
  | stops =>
    cases hs
    exact h.set (fun stopBy hp => nomatch hp) (h.since p) (h.memory p)

end Steps
end Electorate
end FrpProvisioner
