import FrpProvisioner.Controller.Fates

/-! The parts of a run on a calm server: the claims of the active pods, the deletes, and the
update of the Service. Each part follows the objects it passes, and no call in it fails. -/
namespace FrpProvisioner
open Effect

abbrev allSucceed : Server (Request ServiceBody PodBody) Response Store := fun _ i o _ =>
  Succeeds i o

variable {allows : NamespacedName → Option Time → Prop} {fresh : String → Store → Prop}
  {serve : Server (Request ServiceBody PodBody) Response Store} {s₀ a : Store} {svc : Service}
  {r : ServiceReconciler} {req : NamespacedName}

section Claims

structure ClaimStage (svc : Service) (done : List Pod) (p : Pod) (o : Option Pod) : Prop where
  untouched : p ∉ done → o = some p
  claimed : p ∈ done → o.map Object.content = some ((claimOf svc p).getD p).content

/-- The claims so far: none has failed, and the claimed pods are those of `claimOf`. -/
structure Claiming (s₀ : Store) (svc : Service) (done : List Pod)
    (st : RefManager.ClaimState PodBody) (a : Store) : Prop where
  services : a.services = s₀.services
  errList : st.errList = []
  once : ∀ v, st.once = some v → v = none
  keys : st.claimObjs.map Object.key = (done.filterMap (claimOf svc)).map Object.key
  pods : s₀.pods.Evolves a.pods (ClaimStage svc done) []

theorem ClaimStage.next {done : List Pod} {x p : Pod} {o : Option Pod}
    (h : ClaimStage svc done p o) (hne : p ≠ x) : ClaimStage svc (done ++ [x]) p o where
  untouched hp := h.untouched fun hm => hp (List.mem_append_left _ hm)
  claimed hp := by
    rcases List.mem_append.mp hp with hp | hp
    · exact h.claimed hp
    · exact absurd (List.mem_singleton.mp hp) hne

theorem ClaimStage.of_claimed {done : List Pod} {x : Pod} {o : Option Pod}
    (h : o.map Object.content = some ((claimOf svc x).getD x).content) :
    ClaimStage svc (done ++ [x]) x o where
  untouched hx := absurd (List.mem_append_right done List.mem_cons_self) hx
  claimed _ := h

variable {done : List Pod} {st : RefManager.ClaimState PodBody} {x : Pod}

/-- The pod still to be claimed is stored as it was listed. -/
theorem Claiming.find? (h : Claiming s₀ svc done st a) (hx : x ∈ s₀.pods) (hnew : x ∉ done) :
    a.pods.find? x.key = some x := (h.pods.find? hx).untouched hnew

theorem Claiming.pass (h : Claiming s₀ svc done st a) (hx : x ∈ s₀.pods) (hnew : x ∉ done)
    (hclaim : (claimOf svc x).getD x = x) {st' : RefManager.ClaimState PodBody}
    (herr : st'.errList = st.errList) (honce : st'.once = st.once)
    (hkeys : st'.claimObjs.map Object.key =
      st.claimObjs.map Object.key ++ ([x].filterMap (claimOf svc)).map Object.key) :
    Claiming s₀ svc (done ++ [x]) st' a where
  services := h.services
  errList := herr.trans h.errList
  once := by
    rw [honce]
    exact h.once
  keys := by
    rw [hkeys, h.keys, List.filterMap_append, List.map_append]
  pods := by
    apply h.pods.skip
    · rw [h.find? hx hnew]
      apply ClaimStage.of_claimed
      rw [hclaim]
      rfl
    · intro p _ hne o ho
      exact ho.next hne

/-- An adoption is written to the pod and to no other. -/
theorem Claiming.adopt (h : Claiming s₀ svc done st a) (hx : x ∈ s₀.pods) (hnew : x ∉ done)
    (hclaim : claimOf svc x = some (adopted svc x)) :
    Claiming s₀ svc (done ++ [x])
      (st.add ⟨(a.updatePod x (adopted svc x)).1, true, none, some none⟩)
      (a.updatePod x (adopted svc x)).2 where
  services := Store.services_updatePod.trans h.services
  errList := h.errList
  once v hv := (Option.some.inj hv).symm
  keys := by
    have hkey : (a.updatePod x (adopted svc x)).1.key = x.key := Store.updatePod_key _ _
    show (st.claimObjs ++ [_]).map Object.key = _
    rw [List.map_append, h.keys, List.filterMap_append, List.map_append]
    simp only [List.map_cons, List.map_nil, hkey, List.filterMap_cons, hclaim, List.filterMap_nil]
    rfl
  pods := by
    have hcur := h.find? hx hnew
    have hgoal : ∀ q : Pod, q.content = (adopted svc x).content →
        ClaimStage svc (done ++ [x]) x (some q) := by
      intro q hq
      apply ClaimStage.of_claimed
      rw [hclaim]
      exact congrArg some hq
    have hrest : ∀ p ∈ s₀.pods, p ≠ x → ∀ o, ClaimStage svc done p o →
        ClaimStage svc (done ++ [x]) p o := fun p _ hne o ho => ho.next hne
    unfold Store.updatePod
    split
    next heq =>
      apply h.pods.skip _ hrest
      rw [hcur]
      exact hgoal x (by rw [heq])
    next =>
      have hthere : (a.pods.find? x.key).isSome := by
        rw [hcur]
        rfl
      exact h.pods.replace (b := a.bump (adopted svc x)) hx hthere rfl (hgoal _ rfl) hrest

/-- The claim of a listed active pod succeeds with the pod of `claimOf`. -/
theorem Calm.claimCases (h : Calm allows fresh serve) (hsvc : s₀.services.find? svc.key = some svc)
    (hx : x ∈ s₀.pods) (hsel : selects svc x = true) (hact : isPodActive x = true)
    (hnew : x ∉ done) :
    (ServiceReconciler.refManager svc).ClaimCases ((ServiceReconciler.refManager svc).matching [])
      Eq serve allSucceed st.once x (Claiming s₀ svc done st)
      (fun v a => Claiming s₀ svc done st a ∧ (svc.deletionTimestamp = none → v = none))
      fun c a => Claiming s₀ svc (done ++ [x]) (st.add c) a := by
  simp only [selects, Bool.and_eq_true, decide_eq_true_eq] at hsel
  have hmatch : (ServiceReconciler.refManager svc).matching [] x = true := by
    simpa [RefManager.matching, ServiceReconciler.refManager] using hsel.2
  have hunmarked : x.deletionTimestamp = none := by
    simp only [isPodActive, Bool.and_eq_true, Option.isNone_iff_eq_none] at hact
    exact hact.2
  constructor
  · exact Program.stable_alone
  · exact fun _ => Program.stable_alone
  · intro v a hv ha
    exact ⟨ha, fun _ => ha.once v hv⟩
  · intro err a _ hkinds
    cases hkinds
  · intro g a _ _ ha o b ho
    have hfind : a.services.find? svc.key = some svc := by
      rw [ha.services]
      exact hsvc
    obtain ⟨rfl, rfl, hok⟩ := h.get hfind ho
    refine ⟨hok, ha, fun hdel => ?_⟩
    simp [RefManager.verdict, ServiceReconciler.refManager, hdel]
  · intro hc _ a ha
    have hclaim : claimOf svc x = some x := claimOf_of_controlledBy hc
    apply ha.pass hx hnew
    · rw [hclaim]
      rfl
    · rfl
    · rfl
    · show (st.claimObjs ++ [x]).map Object.key = _
      simp [hclaim]
  · intro hno had _ a ha
    have hclaim : claimOf svc x = none := by
      apply claimOf_eq_none
      · intro hc
        exact hno ⟨hc, hmatch⟩
      · intro horphan halive
        exact had ⟨horphan, halive, hmatch, hunmarked⟩
    apply ha.pass hx hnew
    · rw [hclaim]
      rfl
    · rfl
    · rfl
    · simp [hclaim, RefManager.ClaimState.add]
  · intro had err a ha
    cases ha.2 had.ownerAlive
  · intro had err a _ herr
    have hok : setControllerReference svc serviceScheme.objectKinds x = .ok _ :=
      setControllerReference_of_orphan hsel.1 had.orphan
    cases hok.symm.trans herr
  · intro w hw a ha o b ho
    have hok : setControllerReference svc serviceScheme.objectKinds x = .ok (adopted svc x) :=
      setControllerReference_of_orphan hsel.1 hw.orphan
    obtain rfl : w = adopted svc x := Except.ok.inj (hw.write.symm.trans hok)
    have hclaim : claimOf svc x = some (adopted svc x) :=
      claimOf_of_orphan hw.orphan hw.ownerAlive
    have hcur : a.pods.find? (adopted svc x).key = some x := ha.1.find? hx hnew
    obtain ⟨rfl, rfl, hsucc⟩ := h.update hcur rfl ho
    refine ⟨hsucc, ?_, fun err he => by cases he⟩
    rintro _ ⟨⟩
    exact ha.1.adopt hx hnew hclaim
  · intro w hw
    rw [hw.noMatch] at hmatch
    cases hmatch

end Claims

section Deletes
variable {rel rel' : Pod → Option Pod → Prop}

/-- One delete removes what has become of its pod, and changes nothing else. -/
theorem Calm.delete_evolves (h : Calm allows fresh serve) {b : Store} {p x : Pod}
    {o : Except GoError Unit} (hev : s₀.pods.Evolves a.pods rel []) (hp : p ∈ s₀.pods)
    (hkey : p.key = x.key) (hthere : ∀ q, rel p q → q.isSome) (ho : serve a (.delete x) o b)
    (hdel : ∀ q q', rel p (some q) → Removed allows q q' → rel' p q')
    (hrest : ∀ c ∈ s₀.pods, c ≠ p → ∀ q, rel c q → rel' c q) :
    o = .ok () ∧ Succeeds (.delete x) o ∧ b.services = a.services ∧
      s₀.pods.Evolves b.pods rel' [] := by
  have hrel := hev.find? hp
  have hsome := hthere _ hrel
  obtain ⟨cur, hcur⟩ := Option.isSome_iff_exists.mp hsome
  rw [hcur] at hrel
  have hcurkey : cur.key = p.key := (Table.find?_eq_some.mp hcur).2
  obtain ⟨rfl, hsucc, hout⟩ := h.delete (hkey ▸ hcur) ho
  refine ⟨rfl, hsucc, ?_⟩
  rcases hout with ⟨hmark, rfl⟩ | ⟨hnone, grace, hgrace, rfl⟩
  · refine ⟨rfl, hev.skip ?_ hrest⟩
    rw [hcur]
    apply hdel cur _ hrel
    obtain ⟨t, ht⟩ := Option.isSome_iff_exists.mp hmark
    simp [Removed, ht]
  · have hremoved : ∀ q : Option Pod, q.map Object.content = grace.map (fun t =>
        ({ cur with deletionTimestamp := some t } : Pod).content) → rel' p q := by
      intro q hq
      apply hdel cur q hrel
      simp only [Removed, hnone]
      exact ⟨grace, hgrace, hq⟩
    cases grace with
    | none =>
      have herase := hev.erase hp hsome (hremoved none rfl) hrest
      rw [← hcurkey] at herase
      exact ⟨rfl, herase⟩
    | some t =>
      exact ⟨rfl, hev.replace (b := a.bump { cur with deletionTimestamp := some t }) hp hsome
        hcurkey (hremoved _ rfl) hrest⟩

/-- In the middle of a loop: the pods passed have the second relation, the others still the
first. -/
structure Passed (rel rel' : Pod → Option Pod → Prop) (done : List Pod) (p : Pod)
    (o : Option Pod) : Prop where
  passed : p.key ∈ done.map Object.key → rel' p o
  ahead : p.key ∉ done.map Object.key → rel p o

theorem Passed.next {done : List Pod} {x p : Pod} {o : Option Pod} (h : Passed rel rel' done p o)
    (hne : p.key ≠ x.key) : Passed rel rel' (done ++ [x]) p o := by
  constructor
  · intro hm
    apply h.passed
    simpa [hne] using hm
  · intro hm
    apply h.ahead
    intro hd
    apply hm
    rw [List.map_append]
    exact List.mem_append_left _ hd

/-- A loop of deletes removes its pods, and no other. -/
theorem Calm.wp_deletes (h : Calm allows fresh serve) {wrapErr : GoError → GoError}
    {l : List Pod} (hev : s₀.pods.Evolves a.pods rel []) (hnodup : (l.map Object.key).Nodup)
    (hl : ∀ x ∈ l, ∃ p ∈ s₀.pods, p.key = x.key ∧ ∀ o, rel p o → o.isSome)
    (hdel : ∀ p ∈ s₀.pods, p.key ∈ l.map Object.key → ∀ q o, rel p (some q) →
      Removed allows q o → rel' p o)
    (hkeep : ∀ p ∈ s₀.pods, p.key ∉ l.map Object.key → ∀ o, rel p o → rel' p o) :
    (deletePods wrapErr l).wp Eq serve allSucceed (fun errs b =>
      errs = [] ∧ b.services = a.services ∧ s₀.pods.Evolves b.pods rel' []) a := by
  refine Program.wp_mono (wp_deletePods (fun done errs b => errs = [] ∧ b.services = a.services ∧
    s₀.pods.Evolves b.pods (Passed rel rel' done) []) ?_ ?_ ?_) ?_
  · refine ⟨rfl, rfl, hev.mono ?_⟩
    intro p _ o ho
    exact ⟨fun hm => absurd hm List.not_mem_nil, fun _ => ho⟩
  · exact fun _ _ => Program.stable_alone
  · rintro done x rest errs b hsplit ⟨rfl, hservices, hb⟩ o b' ho
    have hxl : x ∈ l := by
      rw [hsplit]
      exact List.mem_append_right _ List.mem_cons_self
    have hxdone : x.key ∈ (done ++ [x]).map Object.key :=
      List.mem_map_of_mem (List.mem_append_right _ List.mem_cons_self)
    obtain ⟨p, hp, hkey, hthere⟩ := hl x hxl
    have hnew : p.key ∉ done.map Object.key := by
      rw [hsplit, List.map_append, List.map_cons, List.nodup_append] at hnodup
      intro hm
      exact hnodup.2.2 _ hm _ List.mem_cons_self hkey
    have hstep : o = .ok () ∧ Succeeds (.delete x) o ∧ b'.services = b.services ∧
        s₀.pods.Evolves b'.pods (Passed rel rel' (done ++ [x])) [] := by
      apply h.delete_evolves hb hp hkey _ ho
      · intro q q' hq hremoved
        constructor
        · intro _
          exact hdel p hp (hkey ▸ List.mem_map_of_mem hxl) q q' (hq.ahead hnew) hremoved
        · intro hout
          exact absurd (hkey ▸ hxdone) hout
      · intro c hc hne q hq
        exact hq.next fun e => hne (Table.eq_of_key hc hp (e.trans hkey.symm))
      · intro q hq
        exact hthere q (hq.ahead hnew)
    obtain ⟨rfl, hsucc, hsame, hb'⟩ := hstep
    exact ⟨hsucc, rfl, hsame.trans hservices, hb'⟩
  · rintro errs b ⟨herrs, hservices, hb⟩
    refine ⟨herrs, hservices, hb.mono ?_⟩
    intro p hp o ho
    by_cases hmem : p.key ∈ l.map Object.key
    · exact ho.passed hmem
    · exact hkeep p hp hmem o (ho.ahead hmem)

end Deletes

section Services

/-- A Service whose finalizers are settled is left alone. -/
theorem evolves_settled (hsvc : a.services.find? svc.key = some svc)
    (hfin : settledFinalizers svc = svc.finalizers) :
    a.services.Evolves a.services (ServiceFate svc) [] := by
  obtain ⟨hmem, -⟩ := Table.find?_eq_some.mp hsvc
  apply Table.evolves_refl
  intro x hx
  unfold ServiceFate
  split
  next hkey =>
    rw [Table.eq_of_key hx hmem hkey, settledService, if_pos hfin]
  next => rfl

/-- The update at the end of a run brings the Service to its settled form. -/
theorem evolves_updateService (hsvc : a.services.find? svc.key = some svc) :
    a.services.Evolves (a.updateService svc
      { svc with finalizers := settledFinalizers svc }).2.services (ServiceFate svc) [] := by
  obtain ⟨hmem, -⟩ := Table.find?_eq_some.mp hsvc
  have hself : a.services.Evolves a.services (fun x o => o = some x) [] :=
    Table.evolves_refl fun _ _ => rfl
  have hthere : (a.services.find? svc.key).isSome := by
    rw [hsvc]
    rfl
  have hrest : ∀ c ∈ a.services, c ≠ svc → ∀ o, o = some c → ServiceFate svc c o := by
    intro c hc hne o ho
    have hkey : c.key ≠ svc.key := fun e => hne (Table.eq_of_key hc hmem e)
    rw [ServiceFate, if_neg hkey]
    exact ho
  have hgoal : ∀ o : Option Service, o.map Object.content =
      (settledService svc).map Object.content → ServiceFate svc svc o := by
    intro o ho
    rw [ServiceFate, if_pos rfl]
    exact ho
  unfold Store.updateService
  split
  next heq =>
    have hfin : settledFinalizers svc = svc.finalizers := congrArg (·.finalizers) heq
    exact evolves_settled hsvc hfin
  next hne =>
    have hfin : settledFinalizers svc ≠ svc.finalizers := by
      intro hfin
      apply hne
      rw [hfin]
    unfold Store.replaceService
    split
    next hgone =>
      have hnone : settledService svc = none := by
        rw [settledService, if_neg hfin, if_pos hgone]
      have herase : a.services.Evolves (a.services.erase svc.key) (ServiceFate svc) [] :=
        hself.erase hmem hthere (hgoal none (by rw [hnone])) hrest
      exact herase
    next hstays =>
      refine hself.replace (b := a.bump { svc with finalizers := settledFinalizers svc }) hmem
        hthere rfl (hgoal _ ?_) hrest
      rw [settledService, if_neg hfin, if_neg hstays]
      rfl

theorem pods_updateService {cur w : Service} : (a.updateService cur w).2.pods = a.pods := by
  unfold Store.updateService Store.replaceService
  split
  · rfl
  · split <;> rfl

theorem updateService_version (cur w : Service) :
    ∃ version, (a.updateService cur w).1 = { w with resourceVersion := version } := by
  unfold Store.updateService
  split
  next h =>
    rw [h]
    exact ⟨cur.resourceVersion, rfl⟩
  next => exact ⟨_, rfl⟩

/-- What the update of the Service does in either branch. -/
theorem Calm.settle_service (h : Calm allows fresh serve) {b : Store} {finalizers : List String}
    {o : Except GoError Service} (hsvc : a.services.find? svc.key = some svc)
    (hfin : finalizers = settledFinalizers svc)
    (ho : serve a (.updateOwner { svc with finalizers := finalizers }) o b) :
    Succeeds (.updateOwner { svc with finalizers := finalizers }) o ∧ b.pods = a.pods ∧
      a.services.Evolves b.services (ServiceFate svc) [] ∧
      ∃ version, o = .ok { svc with finalizers := finalizers, resourceVersion := version } := by
  have hcur : a.services.find? ({ svc with finalizers := finalizers } : Service).key = some svc :=
    hsvc
  obtain ⟨rfl, rfl, hsucc⟩ := h.updateOwner hcur rfl ho
  subst hfin
  refine ⟨hsucc, pods_updateService, evolves_updateService hsvc, ?_⟩
  obtain ⟨version, hversion⟩ := updateService_version (a := a) svc
    { svc with finalizers := settledFinalizers svc }
  exact ⟨version, congrArg Except.ok hversion⟩

end Services

end FrpProvisioner
