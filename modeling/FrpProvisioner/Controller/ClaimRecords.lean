import FrpProvisioner.Controller.Claiming

/-! What `ClaimOwnedObjects` makes of each of its objects, whatever the answers to its calls:
which objects it writes, which it claims and for which it reports an error. -/
namespace FrpProvisioner
open Effect
namespace RefManager
variable {ω β σ : Type}

def updatesOf (es : List (Program.Event (Request ω β) Response)) :
    List (Object β × Except GoError (Object β)) :=
  es.filterMap fun
    | ⟨.update w, o⟩ => some (w, o)
    | _ => none

/-- One object of the list: the write issued for it with its answer, the object that is claimed
and the error that is reported. -/
structure Handled (β : Type) where
  obj : Object β
  write : Option (Object β × Except GoError (Object β))
  claimed : Option (Object β)
  err : Option GoError

def Claim.result (c : Claim β) : Option (Object β) :=
  if c.err.isNone && c.claimed then some c.obj else none

section Spec
variable (mgr : RefManager ω) (isMatch : Object β → Bool) (fresh : Except GoError (Object ω))

def FreshOwner : Prop :=
  ∃ owner, fresh = .ok owner ∧ owner.uid = mgr.owner.uid ∧ owner.deletionTimestamp = none

/-- What `canAdopt` returns when the owner is read as `fresh`. -/
def recheck : Option GoError :=
  match mgr.schema.objectKinds with
  | .error err => some err
  | .ok _ => mgr.verdict fresh

def Refused (obj : Object β) : Prop :=
  mgr.Adoptable isMatch obj ∧ (mgr.recheck fresh ≠ none ∨
    ∃ err, setControllerReference mgr.owner mgr.schema.objectKinds obj = .error err)

/-- What the reference rules say about one object. -/
structure Follows (h : Handled β) : Prop where
  write : ∀ w, (∃ o, h.write = some (w, o)) ↔
    (mgr.Adopts isMatch h.obj w ∧ mgr.recheck fresh = none) ∨ mgr.Releases isMatch h.obj w
  claimed : ∀ c, h.claimed = some c ↔
    (ControlledBy mgr.owner.uid h.obj ∧ isMatch h.obj = true ∧ c = h.obj) ∨
      ∃ w, mgr.Adopts isMatch h.obj w ∧ h.write = some (w, .ok c)
  err : h.err ≠ none ↔ mgr.Refused isMatch fresh h.obj ∨ ∃ w e, h.write = some (w, .error e)

/-- The records of the objects already passed account for everything the loop has done. -/
structure Accounts (done : List (Object β)) (st : ClaimState β)
    (es : List (Program.Event (Request ω β) Response)) (hs : List (Handled β)) : Prop where
  objs : hs.map Handled.obj = done
  follows : ∀ h ∈ hs, mgr.Follows isMatch fresh h
  claimed : st.claimObjs = hs.filterMap Handled.claimed
  errors : st.errList = hs.filterMap Handled.err
  writes : updatesOf es = hs.filterMap Handled.write
  requests : ∀ e ∈ es, e = ⟨.get ⟨mgr.owner.ns, mgr.owner.name⟩, fresh⟩ ∨ ∃ w o, e = ⟨.update w, o⟩
  unread : st.once = none → (∀ e ∈ es, ∃ w o, e = ⟨.update w, o⟩) ∧
    ∀ x ∈ done, ¬ mgr.Adoptable isMatch x
  read : ∀ v, st.once = some v → v = mgr.recheck fresh ∧ ∀ g, mgr.schema.objectKinds = .ok g →
    ⟨.get ⟨mgr.owner.ns, mgr.owner.name⟩, fresh⟩ ∈ es

end Spec

section Lemmas
variable {mgr : RefManager ω} {isMatch : Object β → Bool} {fresh : Except GoError (Object ω)}
  {done : List (Object β)} {st : ClaimState β} {c : Claim β} {x w : Object β}
  {es : List (Program.Event (Request ω β) Response)} {hs : List (Handled β)} {h : Handled β}

theorem verdict_eq_none : mgr.verdict fresh = none ↔ mgr.FreshOwner fresh := by
  unfold FreshOwner verdict
  cases fresh with
  | error err => simp
  | ok owner =>
    by_cases huid : owner.uid = mgr.owner.uid
    · cases hdel : owner.deletionTimestamp <;> simp [huid, hdel]
    · simp [huid]

theorem recheck_eq_none : mgr.recheck fresh = none ↔
    (∃ g, mgr.schema.objectKinds = .ok g) ∧ mgr.FreshOwner fresh := by
  unfold recheck
  cases mgr.schema.objectKinds with
  | error err => simp
  | ok g => simp [verdict_eq_none]

/-- An adoption presupposes that the kind of the owner is known. -/
theorem Adopts.recheck_eq_none (h : mgr.Adopts isMatch x w) :
    mgr.recheck fresh = none ↔ mgr.FreshOwner fresh := by
  obtain ⟨g, hg, -⟩ := setControllerReference_ok h.write
  rw [RefManager.recheck_eq_none]
  simp [hg]

@[simp] theorem claimObjs_add (st : ClaimState β) (c : Claim β) :
    (st.add c).claimObjs = st.claimObjs ++ (Claim.result c).toList := by
  obtain ⟨obj, claimed, err, once⟩ := c
  cases err <;> cases claimed <;> simp [ClaimState.add, Claim.result]

@[simp] theorem errList_add (st : ClaimState β) (c : Claim β) :
    (st.add c).errList = st.errList ++ c.err.toList := by
  obtain ⟨obj, claimed, err, once⟩ := c
  cases err <;> cases claimed <;> simp [ClaimState.add]

@[simp] theorem once_add (st : ClaimState β) (c : Claim β) : (st.add c).once = c.once := by
  obtain ⟨obj, claimed, err, once⟩ := c
  cases err <;> cases claimed <;> rfl

/-- The owner does not matter for an object that is not up for adoption. -/
theorem Follows.of_not_adoptable (hf : mgr.Follows isMatch fresh h)
    (hno : ¬ mgr.Adoptable isMatch h.obj) (fresh' : Except GoError (Object ω)) :
    mgr.Follows isMatch fresh' h where
  write w := by
    have hw : ¬ mgr.Adopts isMatch h.obj w := fun ha => hno ha.toAdoptable
    have hold := hf.write w
    simpa [hw] using hold
  claimed := hf.claimed
  err := by
    have hold := hf.err
    simpa [Refused, hno] using hold

theorem not_adoptable_of_controlledBy {uid : String} (hc : ControlledBy uid x) :
    ¬ mgr.Adoptable isMatch x := by
  intro had
  simp [ControlledBy, had.orphan] at hc

theorem follows_keep (hc : ControlledBy mgr.owner.uid x) (hm : isMatch x = true) :
    mgr.Follows isMatch fresh ⟨x, none, some x, none⟩ := by
  have hno : ¬ mgr.Adoptable isMatch x := not_adoptable_of_controlledBy hc
  have hadopts : ∀ w, ¬ mgr.Adopts isMatch x w := fun w hw => hno hw.toAdoptable
  have hreleases : ∀ w, ¬ mgr.Releases isMatch x w := fun w hw => by simp [hw.noMatch] at hm
  constructor
  · simp [hadopts, hreleases]
  · simp [hc, hm, eq_comm]
  · simp [Refused, hno]

theorem follows_idle (hk : ¬ (ControlledBy mgr.owner.uid x ∧ isMatch x = true))
    (hno : ¬ mgr.Adoptable isMatch x) (hreleases : ∀ w, ¬ mgr.Releases isMatch x w) :
    mgr.Follows isMatch fresh ⟨x, none, none, none⟩ := by
  have hadopts : ∀ w, ¬ mgr.Adopts isMatch x w := fun w hw => hno hw.toAdoptable
  constructor
  · simp [hadopts, hreleases]
  · intro c
    simpa using fun hc hm _ => hk ⟨hc, hm⟩
  · simp [Refused, hno]

theorem follows_refused (h : mgr.Refused isMatch fresh x) (err : GoError) :
    mgr.Follows isMatch fresh ⟨x, none, none, some err⟩ := by
  have hc : ¬ ControlledBy mgr.owner.uid x := fun hc => not_adoptable_of_controlledBy hc h.1
  have hreleases : ∀ w, ¬ mgr.Releases isMatch x w := fun w hw => hc hw.controlled
  have hadopts : ∀ w, mgr.Adopts isMatch x w → mgr.recheck fresh ≠ none := by
    intro w hw
    rcases h.2 with hv | ⟨e, he⟩
    · exact hv
    · cases he.symm.trans hw.write
  constructor
  · intro w
    simpa [hreleases] using hadopts w
  · simp [hc]
  · simp [h]

/-- An adoption writes one object, and claims what was stored. -/
theorem follows_adopt (h : mgr.Adopts isMatch x w) (hv : mgr.recheck fresh = none)
    (o : Except GoError (Object β)) {claimed : Option (Object β)} {err : Option GoError}
    (hclaimed : ∀ c, claimed = some c ↔ o = .ok c) (herr : err ≠ none ↔ ∃ e, o = .error e) :
    mgr.Follows isMatch fresh ⟨x, some (w, o), claimed, err⟩ := by
  have hc : ¬ ControlledBy mgr.owner.uid x := fun hc =>
    not_adoptable_of_controlledBy hc h.toAdoptable
  have huniq : ∀ w', mgr.Adopts isMatch x w' ↔ w' = w := by
    intro w'
    constructor
    · intro h'
      exact Except.ok.inj (h'.write.symm.trans h.write)
    · rintro rfl
      exact h
  constructor
  · intro w'
    have hreleases : ¬ mgr.Releases isMatch x w' := fun hw => hc hw.controlled
    simp [huniq, hv, hreleases, eq_comm]
  · intro c
    simp [hc, huniq, hclaimed]
  · have hrefused : ¬ mgr.Refused isMatch fresh x := by
      rintro ⟨-, hne | ⟨e, he⟩⟩
      · exact hne hv
      · cases he.symm.trans h.write
    simp [hrefused, herr]

/-- A release writes one object, and claims nothing. -/
theorem follows_release (h : mgr.Releases isMatch x w) (o : Except GoError (Object β))
    {err : Option GoError} (herr : err ≠ none ↔ ∃ e, o = .error e) :
    mgr.Follows isMatch fresh ⟨x, some (w, o), none, err⟩ := by
  have hno : ¬ mgr.Adoptable isMatch x := not_adoptable_of_controlledBy h.controlled
  have hadopts : ∀ w, ¬ mgr.Adopts isMatch x w := fun w hw => hno hw.toAdoptable
  have huniq : ∀ w', mgr.Releases isMatch x w' ↔ w' = w := by
    intro w'
    constructor
    · intro h'
      obtain ⟨idx, hidx, rfl⟩ := h.write
      obtain ⟨idx', hidx', rfl⟩ := h'.write
      cases hidx.symm.trans hidx'
      rfl
    · rintro rfl
      exact h
  constructor
  · intro w'
    simp [hadopts, huniq, eq_comm]
  · intro c
    simp [h.noMatch, hadopts]
  · simp [Refused, hno, herr]

theorem updatesOf_append (es es' : List (Program.Event (Request ω β) Response)) :
    updatesOf (es ++ es') = updatesOf es ++ updatesOf es' := List.filterMap_append

theorem Accounts.init : mgr.Accounts isMatch fresh [] ⟨[], [], none⟩ [] [] := by
  constructor <;> simp [updatesOf]

/-- One more object. The claim has learnt nothing about the owner that was not known. -/
theorem Accounts.snoc (ha : mgr.Accounts isMatch fresh done st es hs)
    {write : Option (Object β × Except GoError (Object β))}
    (hf : mgr.Follows isMatch fresh ⟨x, write, Claim.result c, c.err⟩) (honce : c.once = st.once)
    (hno : c.once = none → ¬ mgr.Adoptable isMatch x) :
    mgr.Accounts isMatch fresh (done ++ [x]) (st.add c)
      (es ++ write.toList.map fun u => ⟨.update u.1, u.2⟩)
      (hs ++ [⟨x, write, Claim.result c, c.err⟩]) := by
  have hwrite : ∀ e ∈ write.toList.map (fun u => (⟨.update u.1, u.2⟩ :
      Program.Event (Request ω β) Response)), ∃ w o, e = ⟨.update w, o⟩ := by
    intro e he
    obtain ⟨u, -, rfl⟩ := List.mem_map.mp he
    exact ⟨u.1, u.2, rfl⟩
  constructor
  · simp [ha.objs]
  · intro h hh
    rcases List.mem_append.mp hh with hh | hh
    · exact ha.follows h hh
    · rw [List.mem_singleton.mp hh]
      exact hf
  · rw [claimObjs_add, ha.claimed, List.filterMap_append]
    cases Claim.result c <;> rfl
  · rw [errList_add, ha.errors, List.filterMap_append]
    cases c.err <;> rfl
  · rw [updatesOf_append, ha.writes, List.filterMap_append]
    cases write <;> rfl
  · intro e he
    rcases List.mem_append.mp he with he | he
    · exact ha.requests e he
    · exact Or.inr (hwrite e he)
  · rw [once_add]
    intro hnone
    obtain ⟨hes, hdone⟩ := ha.unread (honce ▸ hnone)
    constructor
    · intro e he
      rcases List.mem_append.mp he with he | he
      · exact hes e he
      · exact hwrite e he
    · intro y hy
      rcases List.mem_append.mp hy with hy | hy
      · exact hdone y hy
      · rw [List.mem_singleton.mp hy]
        exact hno hnone
  · rw [once_add, honce]
    intro v hv
    refine (ha.read v hv).imp_right fun hget g hg => ?_
    exact List.mem_append_left _ (hget g hg)

/-- The owner is read, or its kind is found to be unknown. -/
theorem Accounts.learn (ha : mgr.Accounts isMatch fresh done st es hs) (hnone : st.once = none)
    (fresh' : Except GoError (Object ω)) (reads : List (Program.Event (Request ω β) Response))
    (hreads : ∀ e ∈ reads, e = ⟨.get ⟨mgr.owner.ns, mgr.owner.name⟩, fresh'⟩)
    (hknown : ∀ g, mgr.schema.objectKinds = .ok g →
      ⟨.get ⟨mgr.owner.ns, mgr.owner.name⟩, fresh'⟩ ∈ reads) :
    mgr.Accounts isMatch fresh' done { st with once := some (mgr.recheck fresh') } (es ++ reads)
      hs := by
  obtain ⟨hes, hdone⟩ := ha.unread hnone
  constructor
  · exact ha.objs
  · intro h hh
    have hmem : h.obj ∈ done := by
      rw [← ha.objs]
      exact List.mem_map_of_mem hh
    exact (ha.follows h hh).of_not_adoptable (hdone h.obj hmem) fresh'
  · exact ha.claimed
  · exact ha.errors
  · have hnil : updatesOf reads = [] := by
      refine List.filterMap_eq_nil_iff.mpr fun e he => ?_
      rw [hreads e he]
    rw [updatesOf_append, hnil, List.append_nil, ha.writes]
  · intro e he
    rcases List.mem_append.mp he with he | he
    · exact Or.inr (hes e he)
    · exact Or.inl (hreads e he)
  · intro h
    cases h
  · intro v hv
    refine ⟨(Option.some.inj hv).symm, fun g hg => ?_⟩
    exact List.mem_append_right _ (hknown g hg)

end Lemmas

theorem claimCases_accounts {mgr : RefManager ω} {isMatch : Object β → Bool}
    {serve : Server (Request ω β) Response σ} {done : List (Object β)} {st : ClaimState β}
    {x : Object β} :
    mgr.ClaimCases isMatch Eq (Program.traced serve) (fun _ _ _ _ => True) st.once x
      (fun s => ∃ fresh hs, mgr.Accounts isMatch fresh done st s.2 hs)
      (fun v s => ∃ fresh hs, v = mgr.recheck fresh ∧
        mgr.Accounts isMatch fresh done { st with once := some v } s.2 hs)
      fun c s => ∃ fresh hs, mgr.Accounts isMatch fresh (done ++ [x]) (st.add c) s.2 hs := by
  constructor
  · exact Program.stable_alone
  · exact fun _ => Program.stable_alone
  · intro v s hv ⟨fresh, hs, ha⟩
    refine ⟨fresh, hs, (ha.read v hv).1, ?_⟩
    rw [← hv]
    exact ha
  · intro err s hnone hk ⟨fresh, hs, ha⟩
    have hrecheck : mgr.recheck fresh = some err := by simp [recheck, hk]
    have h := ha.learn hnone fresh [] (by simp) (by simp [hk])
    rw [List.append_nil, hrecheck] at h
    exact ⟨fresh, hs, hrecheck.symm, h⟩
  · intro g s hnone hk ⟨fresh, hs, ha⟩ o s' ho
    have hrecheck : mgr.recheck o = mgr.verdict o := by simp [recheck, hk]
    have h := ha.learn hnone o [⟨.get ⟨mgr.owner.ns, mgr.owner.name⟩, o⟩] (by simp) (by simp)
    rw [← ho.2, hrecheck] at h
    exact ⟨trivial, o, hs, hrecheck.symm, h⟩
  · intro hc hm s ⟨fresh, hs, ha⟩
    have h := ha.snoc (c := ⟨x, true, none, st.once⟩) (follows_keep hc hm) rfl
      fun _ => not_adoptable_of_controlledBy hc
    exact ⟨fresh, _, by simpa using h⟩
  · intro hk hno hreleases s ⟨fresh, hs, ha⟩
    have h := ha.snoc (c := ⟨x, false, none, st.once⟩) (follows_idle hk hno hreleases) rfl
      fun _ => hno
    exact ⟨fresh, _, by simpa using h⟩
  · intro had err s ⟨fresh, hs, hv, ha⟩
    have hrefused : mgr.Refused isMatch fresh x := ⟨had, Or.inl (by simp [← hv])⟩
    have h := ha.snoc (c := ⟨x, false, some (cannotAdopt x err), some (some err)⟩)
      (follows_refused hrefused _) rfl (by simp)
    exact ⟨fresh, _, by simpa [ClaimState.add] using h⟩
  · intro had err s ⟨fresh, hs, hv, ha⟩ herr
    have h := ha.snoc (c := ⟨x, false, some (cannotSet x err), some none⟩)
      (follows_refused ⟨had, Or.inr ⟨err, herr⟩⟩ _) rfl (by simp)
    exact ⟨fresh, _, by simpa [ClaimState.add] using h⟩
  · intro w hw s ⟨fresh, hs, hv, ha⟩ o s' ho
    refine ⟨trivial, ?_, ?_⟩
    · rintro stored rfl
      have h := ha.snoc (c := ⟨stored, true, none, some none⟩)
        (follows_adopt hw hv.symm (.ok stored) (by simp [Claim.result]) (by simp)) rfl (by simp)
      rw [ho.2]
      exact ⟨fresh, _, h⟩
    · rintro err rfl
      have h := ha.snoc (c := ⟨w, false, some (cannotUpdate x err), some none⟩)
        (follows_adopt hw hv.symm (.error err) (by simp [Claim.result]) (by simp)) rfl (by simp)
      rw [ho.2]
      exact ⟨fresh, _, h⟩
  · intro w hw s ⟨fresh, hs, ha⟩ o s' ho
    have hno : ¬ mgr.Adoptable isMatch x := not_adoptable_of_controlledBy hw.controlled
    refine ⟨trivial, ?_, ?_⟩
    · rintro stored rfl
      have h := ha.snoc (c := ⟨x, false, none, st.once⟩)
        (follows_release hw (.ok stored) (by simp)) rfl fun _ => hno
      rw [ho.2]
      exact ⟨fresh, _, h⟩
    · rintro err rfl
      have h := ha.snoc (c := ⟨x, false, some (mgr.cannotRemove x err), st.once⟩)
        (follows_release hw (.error err) (by simp)) rfl fun _ => hno
      rw [ho.2]
      exact ⟨fresh, _, h⟩

/-- The records account for a whole run: what it requested and what it returned. -/
structure Account (mgr : RefManager ω) (filters : List (Object β → Bool)) (objs : List (Object β))
    (es : List (Program.Event (Request ω β) Response)) (claimed : List (Object β))
    (err : Option GoError) (fresh : Except GoError (Object ω)) (hs : List (Handled β)) : Prop where
  listed : hs.map Handled.obj = objs
  follows : ∀ h ∈ hs, mgr.Follows (mgr.matching filters) fresh h
  returned : claimed = hs.filterMap Handled.claimed
  errors : err = newAggregate (hs.map Handled.err)
  writes : updatesOf es = hs.filterMap Handled.write
  requests : ∀ e ∈ es, e = ⟨.get ⟨mgr.owner.ns, mgr.owner.name⟩, fresh⟩ ∨ ∃ w o, e = ⟨.update w, o⟩
  reread : ∀ x ∈ objs, mgr.Adoptable (mgr.matching filters) x →
    ∀ g, mgr.schema.objectKinds = .ok g → ⟨.get ⟨mgr.owner.ns, mgr.owner.name⟩, fresh⟩ ∈ es

theorem Accounts.account {mgr : RefManager ω} {filters : List (Object β → Bool)}
    {objs : List (Object β)} {st : ClaimState β} {fresh : Except GoError (Object ω)}
    {es : List (Program.Event (Request ω β) Response)} {hs : List (Handled β)}
    (ha : mgr.Accounts (mgr.matching filters) fresh objs st es hs) :
    mgr.Account filters objs es st.claimObjs (newAggregate (st.errList.map some)) fresh hs := by
  constructor
  · exact ha.objs
  · exact ha.follows
  · exact ha.claimed
  · have herrs : (st.errList.map some).reduceOption = (hs.map Handled.err).reduceOption := by
      rw [ha.errors]
      simp [List.reduceOption, List.filterMap_map]
    simp only [newAggregate, herrs]
  · exact ha.writes
  · exact ha.requests
  · intro x hx had g hg
    cases honce : st.once with
    | none => exact absurd had ((ha.unread honce).2 x hx)
    | some v => exact (ha.read v honce).2 g hg

theorem exec_account {mgr : RefManager ω} {objs : List (Object β)}
    {filters : List (Object β → Bool)} {serve : Server (Request ω β) Response σ} {s t : σ}
    {es : List (Program.Event (Request ω β) Response)} {claimed : List (Object β)}
    {err : Option GoError}
    (h : Program.Exec serve (mgr.claimOwnedObjects objs filters) s es (claimed, err) t) :
    ∃ fresh hs, mgr.Account filters objs es claimed err fresh hs := by
  have hwp : (mgr.claimOwnedObjects objs filters).wp Eq (Program.traced serve)
      (fun _ _ _ _ => True) (fun r s' => ∃ st,
        (∃ fresh hs, mgr.Accounts (mgr.matching filters) fresh objs st s'.2 hs) ∧
          r = (st.claimObjs, newAggregate (st.errList.map some))) (s, []) := by
    refine wp_claimOwnedObjects_cases (fun done st (s' : σ × _) => ∃ fresh hs,
      mgr.Accounts (mgr.matching filters) fresh done st s'.2 hs)
      ⟨.error (.text ""), [], .init⟩ fun done x rest st s' _ hI => ?_
    exact ⟨_, _, hI, claimCases_accounts⟩
  obtain ⟨st, ⟨fresh, hs, ha⟩, hr⟩ := (h.traced []).post hwp
  obtain ⟨rfl, rfl⟩ := Prod.mk.inj hr
  exact ⟨fresh, hs, ha.account⟩

end RefManager
end FrpProvisioner
