import FrpProvisioner.Election.Grace
import FrpProvisioner.Election.Stages

/-! A lease that is long enough keeps two candidates from leading at a time: a candidate that
takes over has waited, on its own clock, until the grace period of the leader was over. -/
namespace FrpProvisioner
open Effect

namespace Electorate
variable {ι : Type} [DecidableEq ι] (E : Electorate ι)

/-- The records of the candidate, stored or on their way, are not younger than `now`. -/
def Own (p : ι) (now : ℤ) (s : Election ι) : Prop :=
  (∀ r v, s.lease = some (r, v) → r.holderIdentity = some p → r.renewTime ≤ now) ∧
    ∀ expected r, (expected, r) ∈ s.inFlight → r.holderIdentity = some p → r.renewTime ≤ now

structure Around (p : ι) (s s' : Election ι) : Prop where
  sound : E.Sound s'
  evolves : E.Evolves s s'
  candidate : s'.candidates p = s.candidates p
  own : ∀ now, Own p now s → Own p now s'

section Rely
variable {E} {s s' : Election ι} {p : ι}

theorem around_env (h : E.Sound s) (hs : E.Env s s') : E.Around p s s' := by
  obtain ⟨hsound, hevolves⟩ := h.env hs
  cases hs with
  | tick _ _ _ => exact ⟨hsound, hevolves, rfl, fun _ hown => hown⟩
  | @arrive expected r hmem hversion =>
    refine ⟨hsound, hevolves, rfl, fun now hown => ⟨?_, hown.2⟩⟩
    rintro r' v hlease hp
    cases hlease
    exact hown.2 expected r hmem hp

theorem around_serve (h : E.Sound s) {q : ι} (hq : q ≠ p) {i : LockRequest ι}
    {o : LockResponse i} (hs : E.serve q s i o s') (hg : E.Guarantee q s i o s') :
    E.Around p s s' := by
  obtain ⟨hsound, hevolves⟩ := h.serve hs hg
  have hrefl : s' = s → E.Around p s s' := by
    rintro rfl
    exact ⟨h, hevolves, rfl, fun _ hown => hown⟩
  have hset : ∀ c, s' = s.set q c → E.Around p s s' := by
    rintro c rfl
    exact ⟨hsound, hevolves, Election.set_of_ne s c hq.symm, fun _ hown => hown⟩
  have hother : ∀ r : LeaderElectionRecord ι, r.holderIdentity = some q →
      r.holderIdentity ≠ some p := fun r hr hp => hq (Option.some.inj (hr.symm.trans hp))
  cases i with
  | now => exact hrefl hs.2
  | get =>
    cases o with
    | ok found => exact hrefl hs.2
    | error err => exact hrefl hs.2
  | write expected r =>
    cases o with
    | ok version =>
      obtain ⟨-, -, rfl⟩ := hs
      refine ⟨hsound, hevolves, rfl, fun now hown => ⟨?_, hown.2⟩⟩
      intro r' v hlease hp
      cases hlease
      exact absurd hp (hother _ hg.2)
    | error err =>
      rcases hs with heq | rfl
      · exact hrefl heq
      · refine ⟨hsound, hevolves, rfl, fun now hown => ⟨hown.1, ?_⟩⟩
        intro expected' r' hmem hp
        rcases List.mem_cons.mp hmem with heq | hold
        · cases heq
          exact absurd hp (hother _ hg.2)
        · exact hown.2 expected' r' hold hp
  | begins => exact hset _ hs
  | returns succeeded le => exact hset _ hs
  | stops => exact hset _ hs

/-- An assertion about sound states that survives each step around the candidate. -/
theorem stable_of_around {A : Election ι → Prop} (hsound : ∀ s, A s → E.Sound s)
    (hA : ∀ s s', A s → E.Around p s s' → A s') :
    ∀ s s', A s → Relation.ReflTransGen (E.system.Rely E.Sound E.Guarantee p) s s' → A s' := by
  intro s s' hs hrely
  induction hrely with
  | refl => exact hs
  | tail _ hstep ih =>
    refine hA _ _ ih ?_
    rcases hstep.2 with henv | ⟨q, hq, i, o, hserve, hg⟩
    · exact around_env (hsound _ ih) henv
    · exact around_serve (hsound _ ih) hq hserve hg

end Rely

/-- A try that has begun at `since`, with `now` as the time of its record. -/
structure Trying (p : ι) (le : LeaderElector ι) (since now : ℤ) (s : Election ι) : Prop where
  sound : E.Sound s
  elector : (s.candidates p).elector = le
  begun : (s.candidates p).since = some since
  own : Own p now s
  early : since + E.skew p ≤ now
  late : now ≤ s.time + E.skew p

/-- What the candidate knows of the record it has got. -/
structure Knows (p : ι) (old : LeaderElectionRecord ι) (version : ℕ) (le : LeaderElector ι) :
    Prop where
  lease : le.lease = some version
  raw : le.observedRawRecord = some old.marshal
  holder : ∀ q, old.holderIdentity = some q →
    old.renewTime / second * second + E.skew p ≤ le.observedTime + E.skew q
  leader : le.isLeader p = true → old.holderIdentity = some p

/-- The record that the candidate has got is the stored one, or was replaced since. -/
structure Got (p : ι) (old : LeaderElectionRecord ι) (version : ℕ) (s : Election ι) : Prop where
  seen : Seen old version s
  proper : E.Proper s old

structure Ended (p : ι) (since : ℤ) (result : Bool × LeaderElector ι) (s : Election ι) :
    Prop where
  sound : E.Sound s
  begun : (s.candidates p).since = some since
  memory : ∀ raw, result.2.observedRawRecord = some raw → E.Remembers s p result.2 raw
  holds : result.1 = true → E.Holds s p (since + E.grace)

section Tries
variable {E} {s s' : Election ι} {p : ι} {le : LeaderElector ι} {since now : ℤ}
  {old : LeaderElectionRecord ι} {version : ℕ}

theorem Trying.around (h : E.Trying p le since now s) (hs : E.Around p s s') :
    E.Trying p le since now s' where
  sound := hs.sound
  elector := hs.candidate ▸ h.elector
  begun := hs.candidate ▸ h.begun
  own := hs.own now h.own
  early := h.early
  late := Int.le_trans h.late (by have := hs.evolves.time; omega)

theorem Got.around (h : E.Got p old version s) (hs : E.Around p s s') :
    E.Got p old version s' :=
  ⟨h.seen.evolves hs.evolves, h.proper.evolves hs.evolves⟩

theorem Ended.around {result : Bool × LeaderElector ι} (h : E.Ended p since result s)
    (hs : E.Around p s s') : E.Ended p since result s' where
  sound := hs.sound
  begun := hs.candidate ▸ h.begun
  memory raw hraw := (h.memory raw hraw).evolves hs.evolves
  holds hresult := by
    refine (h.holds hresult).evolves ?_ hs.evolves
    obtain ⟨-, hrenew, hretry, -⟩ := newLeaderElector_ok E.created
    have hlatency := (h.sound.since p since h.begun).2
    unfold grace
    omega

/-- What the candidate may keep in mind of a record it knows. -/
theorem Knows.remembers (h : E.Knows p old version le) (hgot : E.Got p old version s)
    (htime : le.observedTime ≤ s.time + E.skew p) :
    ∀ raw, le.observedRawRecord = some raw → E.Remembers s p le raw := by
  intro raw hraw
  obtain rfl : old.marshal = raw := Option.some.inj (h.raw.symm.trans hraw)
  obtain ⟨r, v, hlease, hfollows⟩ := hgot.seen
  refine ⟨htime, h.holder, r, v, hlease, hfollows.transitions, fun hleader => ?_⟩
  exact hfollows.holder.imp_left fun hholder => hholder.trans (h.leader hleader)

omit [DecidableEq ι] in
theorem proper_toLeaseSpec (hlate : now ≤ s.time + E.skew p) {r : LeaderElectionRecord ι}
    (hholder : r.holderIdentity = some p) (hrenew : r.renewTime = now)
    (hduration : r.leaseDurationSeconds = E.config.leaseDuration / second) :
    E.Proper s r.toLeaseSpec := by
  rintro q hq
  obtain rfl : q = p := Option.some.inj (hq.symm.trans hholder)
  simp only [LeaderElectionRecord.toLeaseSpec, hrenew, microsecond]
  exact ⟨by omega, by omega, hduration⟩

/-- The record by which a candidate renews the lease or takes it over. -/
theorem fair_succeed (hlease : E.grace + second ≤ E.config.leaseDuration / second * second)
    (h : E.Trying p le since now s) (hgot : E.Got p old version s) {le' : LeaderElector ι}
    (hknows : E.Knows p old version le') (hwait : le'.mustWait p now old = false)
    {r : LeaderElectionRecord ι}
    (hr : r = le'.succeed p (LeaderElector.newRecord E.config p now) old) :
    E.Fair s (some version) r.toLeaseSpec ∧ r.holderIdentity = some p ∧ r.renewTime = now := by
  obtain ⟨hholder, hrenew, hduration⟩ : r.holderIdentity = some p ∧ r.renewTime = now ∧
      r.leaseDurationSeconds = E.config.leaseDuration / second := by
    subst hr
    unfold LeaderElector.succeed
    split <;> exact ⟨rfl, rfl, rfl⟩
  refine ⟨⟨proper_toLeaseSpec h.late hholder hrenew hduration, ?_, ?_⟩, hholder, hrenew⟩
  · intro r' v hstored hv
    cases hv
    obtain ⟨r'', v'', hstored', hfollows⟩ := hgot.seen
    obtain rfl : r' = old := by
      rw [hstored] at hstored'
      cases hstored'
      exact hfollows.same rfl
    cases hleader : le'.isLeader p with
    | true =>
      have hp := hknows.leader hleader
      have hown := h.own.1 r' version hstored hp
      have haligned := (h.sound.stored r' version hstored p hp).2.1
      have htransitions : r.leaderTransitions = r'.leaderTransitions := by
        simp [hr, LeaderElector.succeed, hleader]
      refine Or.inl ⟨hholder.trans hp.symm, ?_, Nat.le_of_eq htransitions.symm⟩
      simp only [LeaderElectionRecord.toLeaseSpec, hrenew, microsecond] at haligned ⊢
      omega
    | false =>
      have htransitions : r.leaderTransitions = r'.leaderTransitions + 1 := by
        simp [hr, LeaderElector.succeed, hleader]
      refine Or.inr ⟨Nat.lt_of_lt_of_eq (Nat.lt_succ_self _) htransitions.symm, fun q hq => ?_⟩
      have hexpired : le'.observedTime + second * r'.leaseDurationSeconds ≤ now := by
        simpa [LeaderElector.mustWait, hq, hleader] using hwait
      obtain ⟨-, haligned, hdur⟩ := h.sound.stored r' version hstored q hq
      have hseen := hknows.holder q hq
      have hlate := h.late
      rw [hdur] at hexpired
      simp only [second, microsecond] at *
      omega
  · intro v hv
    cases hv
    obtain ⟨r', v', hstored, hfollows⟩ := hgot.seen
    exact ⟨r', v', hstored, hfollows.version⟩

theorem Ended.setObservedRecord (h : E.Ended p since (true, le) s) {r : LeaderElectionRecord ι}
    {lease : Option ℕ} :
    E.Ended p since (true, ⟨r, le.observedRawRecord, s.time + E.skew p, lease⟩) s where
  sound := h.sound
  begun := h.begun
  memory raw hraw := by
    have hremembers := h.memory raw hraw
    refine ⟨Int.le_refl _, fun q hq => Int.le_trans (hremembers.holder q hq) ?_, ?_⟩
    · exact Int.add_le_add_right hremembers.time _
    · obtain ⟨r', v, hstored, hp, -⟩ := h.holds rfl
      obtain ⟨r'', v', hstored', htransitions, -⟩ := hremembers.stored
      rw [hstored] at hstored'
      cases hstored'
      exact ⟨r', v, hstored, htransitions, fun _ => Or.inl hp⟩
  holds := h.holds

/-- What holds of candidate `p` when it has run a program, whatever happens around it. -/
abbrev wp {α : Type} (E : Electorate ι) (p : ι) (prog : Elect ι α) (Q : α → Election ι → Prop)
    (s : Election ι) : Prop :=
  prog.wp (Relation.ReflTransGen (E.system.Rely E.Sound E.Guarantee p))
    (E.system.serveIn E.Sound p) (E.Guarantee p) Q s

theorem wp_request {α : Type} {i : LockRequest ι} {f : LockResponse i → Elect ι α}
    {Q : α → Election ι → Prop} (A : Election ι → Prop) (hA : A s)
    (hsound : ∀ s, A s → E.Sound s) (haround : ∀ s s', A s → E.Around p s s' → A s')
    (h : ∀ s, A s → ∀ o s', E.serve p s i o s' → E.Guarantee p s i o s' ∧
      (E.Sound s' → E.Evolves s s' → E.wp p (f o) Q s')) :
    E.wp p (Program.call i >>= f) Q s := by
  refine Program.wp_call_bind A hA (stable_of_around hsound haround) fun s hs o s' ho => ?_
  obtain ⟨hg, hf⟩ := h s hs o s' ho.2
  obtain ⟨hsound', hevolves⟩ := (hsound s hs).serve ho.2 hg
  exact ⟨hg, hf hsound' hevolves⟩

theorem wp_clockNow {α : Type} {f : ℤ → Elect ι α} {Q : α → Election ι → Prop}
    (A : Election ι → Prop) (hA : A s) (hsound : ∀ s, A s → E.Sound s)
    (haround : ∀ s s', A s → E.Around p s s' → A s')
    (h : ∀ s, A s → E.wp p (f (s.time + E.skew p)) Q s) :
    E.wp p (LeaderElector.clockNow >>= f) Q s := by
  refine wp_request A hA hsound haround fun s hs o s' ho => ?_
  obtain ⟨rfl, rfl⟩ := ho
  exact ⟨trivial, fun _ _ => h _ hs⟩

/-- A write of the candidate's own record, and what `Create` and `Update` are followed by. -/
theorem wp_write {expected lease : Option ℕ} {r : LeaderElectionRecord ι} {le' : LeaderElector ι}
    (h : E.Trying p le since now s)
    (hmemory : ∀ raw, le'.observedRawRecord = some raw → E.Remembers s p le' raw)
    (hfair : E.Fair s expected r.toLeaseSpec) (hholder : r.holderIdentity = some p)
    (hrenew : r.renewTime = now) :
    E.wp p (Program.call (LockRequest.write expected r) >>= fun o : Except GoError ℕ =>
      match o with
      | .error _ => pure (false, { le' with lease := lease })
      | .ok version => do
        let le ← { le' with lease := some version }.setObservedRecord r
        pure (true, le)) (E.Ended p since) s := by
  refine wp_request (fun s => E.Trying p le since now s ∧
      (∀ raw, le'.observedRawRecord = some raw → E.Remembers s p le' raw) ∧
      E.Fair s expected r.toLeaseSpec) ⟨h, hmemory, hfair⟩ (fun s hs => hs.1.sound) ?_ ?_
  · rintro s s' ⟨hs, hmemory, hfair⟩ haround
    exact ⟨hs.around haround, fun raw hraw => (hmemory raw hraw).evolves haround.evolves,
      hfair.evolves haround.evolves⟩
  · rintro s ⟨hs, hmemory, hfair⟩ o s' ho
    refine ⟨⟨hfair, hholder⟩, fun hsound hevolves => ?_⟩
    cases o with
    | error err =>
      have hbegun : (s'.candidates p).since = some since := by
        rcases ho with rfl | rfl
        · exact hs.begun
        · exact hs.begun
      refine ⟨hsound, hbegun, fun raw hraw => ?_, fun hfalse => nomatch hfalse⟩
      have hremembers := (hmemory raw hraw).evolves hevolves
      exact ⟨hremembers.time, hremembers.holder, hremembers.stored⟩
    | ok version =>
      obtain ⟨-, -, rfl⟩ := ho
      have hholds : E.Holds (s.commit expected r.toLeaseSpec) p (since + E.grace) := by
        refine ⟨_, _, rfl, hholder, ?_⟩
        have hearly := hs.early
        simp only [LeaderElectionRecord.toLeaseSpec, hrenew, microsecond]
        omega
      refine wp_clockNow (E.Ended p since (true, le')) ?_ (fun s hs => hs.sound)
        (fun s s' hs haround => hs.around haround) fun s hs => hs.setObservedRecord
      exact ⟨hsound, hs.begun, fun raw hraw => (hmemory raw hraw).evolves hevolves,
        fun _ => hholds⟩

theorem wp_observe (h : E.Trying p le since now s) (hstored : s.lease = some (old, version)) :
    E.wp p ({ le with lease := some version }.observe old) (fun le' s =>
      E.Trying p le since now s ∧ E.Got p old version s ∧ E.Knows p old version le' ∧
        le'.observedTime ≤ s.time + E.skew p) s := by
  have hgot : E.Got p old version s :=
    ⟨⟨old, version, hstored, Follows.refl⟩, h.sound.stored old version hstored⟩
  unfold LeaderElector.observe
  split_ifs with hraw
  · have hremembers := h.sound.memory p old.marshal (h.elector ▸ hraw)
    rw [h.elector] at hremembers
    obtain ⟨r, v, hlease, -, hleader⟩ := hremembers.stored
    rw [hstored] at hlease
    cases hlease
    refine ⟨h, hgot, ⟨rfl, hraw, hremembers.holder, fun hl => ?_⟩, hremembers.time⟩
    exact (hleader hl).resolve_right (Nat.lt_irrefl _)
  · refine wp_clockNow (fun s => E.Trying p le since now s ∧ E.Got p old version s) ⟨h, hgot⟩
      (fun s hs => hs.1.sound)
      (fun s s' hs haround => ⟨hs.1.around haround, hs.2.around haround⟩) ?_
    rintro s ⟨hs, hgot⟩
    refine ⟨hs, hgot, ⟨rfl, rfl, fun q hq => ?_, fun hl => ?_⟩, Int.le_refl _⟩
    · have hle := (hgot.proper q hq).1
      simp only [second]
      omega
    · simpa [LeaderElector.isLeader] using hl

theorem wp_tryAcquireOrRenew
    (hlease : E.grace + second ≤ E.config.leaseDuration / second * second) (h : E.Sound s)
    (helector : (s.candidates p).elector = le) (hbegun : (s.candidates p).since = some since) :
    E.wp p (le.tryAcquireOrRenew E.config p) (E.Ended p since) s := by
  refine wp_clockNow (fun s => E.Sound s ∧ (s.candidates p).elector = le ∧
      (s.candidates p).since = some since) ⟨h, helector, hbegun⟩ (fun s hs => hs.1)
    (fun s s' hs haround => ⟨haround.sound, by rw [haround.candidate]; exact hs.2⟩) ?_
  rintro s ⟨h, helector, hbegun⟩
  have htrying : E.Trying p le since (s.time + E.skew p) s := by
    refine ⟨h, helector, hbegun, ⟨fun r v hr hp => (h.stored r v hr p hp).1,
      fun expected r hr hp => ((h.flying expected r hr).proper p hp).1⟩, ?_, Int.le_refl _⟩
    have hle := (h.since p since hbegun).1
    omega
  clear helector hbegun h
  generalize s.time + E.skew p = now at htrying
  refine wp_request (E.Trying p le since now) htrying (fun s hs => hs.sound)
    (fun s s' hs haround => hs.around haround) ?_
  intro s hs o s' ho
  have hmemory : ∀ raw, le.observedRawRecord = some raw → E.Remembers s p le raw := by
    rw [← hs.elector]
    exact hs.sound.memory p
  cases o with
  | error err =>
    obtain ⟨-, rfl⟩ := ho
    refine ⟨trivial, fun _ _ => ?_⟩
    dsimp only
    split_ifs with hnotFound
    · refine wp_write hs hmemory ⟨proper_toLeaseSpec hs.late rfl rfl rfl, ?_, ?_⟩ rfl rfl
      · exact fun _ _ _ hv => nomatch hv
      · exact fun _ hv => nomatch hv
    · exact ⟨hs.sound, hs.begun, hmemory, fun hfalse => nomatch hfalse⟩
  | ok found =>
    obtain ⟨old, version⟩ := found
    obtain ⟨hstored, rfl⟩ := ho
    refine ⟨trivial, fun _ _ => Program.wp_seq (wp_observe hs hstored) ?_⟩
    rintro le' s ⟨hs, hgot, hknows, htime⟩
    have hmemory := hknows.remembers hgot htime
    unfold LeaderElector.contend
    split_ifs with hwait
    · exact ⟨hs.sound, hs.begun, hmemory, fun hfalse => nomatch hfalse⟩
    · obtain ⟨hfair, hholder, hrenew⟩ :=
        fair_succeed hlease hs hgot hknows (by simpa using hwait) rfl
      unfold LeaderElector.update
      rw [hknows.lease]
      exact wp_write hs hmemory hfair hholder hrenew

end Tries

section Safety
variable {E}

theorem compatible (hlease : E.grace + second ≤ E.config.leaseDuration / second * second)
    (hrelease : E.config.releaseOnCancel = false) :
    E.system.Compatible E.Sound E.Guarantee (fun _ _ _ => True) where
  env s s' h hs := (h.env hs).1
  guarantee p s i o s' h hs hg := (h.serve hs hg).1
  stable _ _ _ _ _ _ := trivial
  start p s prog h hstart := by
    have hstops : E.wp p (Program.call LockRequest.stops) (fun _ _ => True) s :=
      fun _ _ _ _ _ => ⟨trivial, trivial⟩
    cases hstart with
    | attempt _ _ =>
      refine wp_request (fun t => E.Sound t ∧
          (t.candidates p).elector = (s.candidates p).elector) ⟨h, rfl⟩ (fun t ht => ht.1)
        (fun t t' ht haround => ⟨haround.sound, by rw [haround.candidate]; exact ht.2⟩) ?_
      rintro t ⟨ht, helector⟩ o t' rfl
      refine ⟨trivial, fun hsound _ => ?_⟩
      refine Program.wp_seq (P := E.Ended p t.time) (wp_tryAcquireOrRenew hlease hsound ?_ ?_) ?_
      · rw [Election.set_self]
        exact helector
      · rw [Election.set_self]
      · rintro ⟨succeeded, le⟩ u hu u' hrely o u'' ho
        have hended := stable_of_around (fun s hs => hs.sound)
          (fun s s' hs haround => Ended.around hs haround) u u' hu hrely
        exact ⟨⟨hended.memory, fun hs => ⟨_, hended.begun, hended.holds hs⟩⟩, trivial⟩
    | lose _ =>
      unfold lose releaseOnCancel
      rw [hrelease]
      exact hstops
    | shutDown _ =>
      unfold shutDown releaseOnCancel
      rw [hrelease]
      exact Program.wp_seq hstops fun _ _ _ => trivial

end Safety

end Electorate
end FrpProvisioner
