import FrpProvisioner.Controller.ServiceController
import FrpProvisioner.Runtime.Watching

/-! A run of the Service reconciler during which no change that concerns its key is on its way:
what it read is what is stored. Such a run cannot have written anything, since the write would be
on its way to the caches; so it has found the Service as it is to be, or returns an error. -/
namespace FrpProvisioner
open Effect

/-- What a Service asks for: with its finalizer an active pod that serves it, or neither of
them. Pods of the Service that are no longer active are being deleted. -/
structure Provided (svc : Service) (s : Store) : Prop where
  wanted : Wanted svc → finalizerName ∈ svc.finalizers ∧ ∃ p ∈ s.pods, Serves svc p
  unwanted : ¬ Wanted svc → finalizerName ∉ svc.finalizers ∧ ∀ p ∈ s.pods, ¬ Serves svc p
  inactive : ∀ p ∈ s.pods, p.ns = svc.ns → podSelector svc p.labels = true →
    ControlledBy svc.uid p → isPodActive p = false → p.deletionTimestamp.isSome

/-- The Service with this key, if there is one, has what it asks for. -/
def ServiceSettled (k : NamespacedName) (w : ServiceWorld) : Prop :=
  ∀ svc ∈ w.store.services, svc.key = k → Provided svc w.store

section Quiet
variable {r : ServiceReconciler} {keyOf : String → Option NamespacedName} {own : OwnsPods}
  {k : NamespacedName} {w w' : ServiceWorld} {svc : Service} {items : List Pod}
  {i : Request ServiceBody PodBody} {o : Response i}

open ServiceWorld

abbrev OwnsPods.watching (own : OwnsPods) (keyOf : String → Option NamespacedName) :
    Watching (Object.key : Service → NamespacedName) (Request ServiceBody PodBody) Response
      ServiceWorld where
  serve := ServiceWorld.serve
  Good := Good keyOf
  Owed := Owed own
  Keeps := ServiceWorld.Keeps own
  stored w := w.store.services
  cached w := w.services.indexer
  synced hw hquiet :=
    hw.services.toTracks.synced hw.services.connected fun hs => hquiet (Or.inl hs)
  kept hk hkey := hk.services.indexer _ hkey
  reported hw hs k := hw.owed_serve hs k

theorem pod_iff (h : (own.watching keyOf).Still k w) {p : Pod}
    (hp : own.handler.getOwnerReconcileRequest p = some k) :
    p ∈ w.pods.indexer ↔ p ∈ w.store.pods :=
  h.good.pods.toTracks.synced h.good.pods.connected (fun hs => h.quiet (Or.inr hs)) hp

/-- The pods were listed; those the Service controls are still the cached ones. -/
structure Listed (keyOf : String → Option NamespacedName) (own : OwnsPods) (k : NamespacedName)
    (svc : Service) (items : List Pod) (w : ServiceWorld) : Prop extends
    (own.watching keyOf).Viewed k svc w where
  honest : ∀ p ∈ items, HonestPod keyOf p
  matching : ∀ p ∈ items, p.ns = svc.ns ∧ podSelector svc p.labels = true
  present : ∀ p ∈ items, own.handler.getOwnerReconcileRequest p = some k → p ∈ w.pods.indexer
  complete : ∀ p ∈ w.pods.indexer, own.handler.getOwnerReconcileRequest p = some k →
    p.ns = svc.ns → podSelector svc p.labels = true → p ∈ items
  alone : ∀ x ∈ items, ∀ p ∈ w.pods.indexer, own.handler.getOwnerReconcileRequest p = some k →
    p.key = x.key → p = x

theorem Listed.keep (h : Listed keyOf own k svc items w) (hs : (own.watching keyOf).Still k w')
    (hk : ServiceWorld.Keeps own k w w') : Listed keyOf own k svc items w' where
  toViewed := h.toViewed.keep hs hk
  honest := h.honest
  matching := h.matching
  present p hp hreq := (hk.pods.indexer p hreq).mpr (h.present p hp hreq)
  complete p hp hreq := h.complete p ((hk.pods.indexer p hreq).mp hp) hreq
  alone x hx p hp hreq := h.alone x hx p ((hk.pods.indexer p hreq).mp hp) hreq

theorem Listed.stable (w w' : ServiceWorld) (h : Listed keyOf own k svc items w)
    (hm : (own.watching keyOf).quietly k w w') : Listed keyOf own k svc items w' :=
  Watching.stable_of_keeps (fun _ _ h hs hk => h.keep hs hk) w w' h hm

theorem Listed.serve (h : Listed keyOf own k svc items w)
    (hs : (own.watching keyOf).quietServe k w i o w') : Listed keyOf own k svc items w' :=
  h.keep hs.2.2 (Watching.keeps_of_quietServe hs)

/-- A pod that the Service controls concerns it. -/
theorem request_of_viewed (h : (own.watching keyOf).Viewed k svc w) {p : Pod}
    (hp : HonestPod keyOf p) (hns : p.ns = svc.ns) (hc : ControlledBy svc.uid p) :
    own.handler.getOwnerReconcileRequest p = some k := by
  rw [← h.key]
  exact own.request (h.good.cached_service h.cached) hp hns hc

/-- A listed pod that the Service controls is stored as it was listed. -/
theorem Listed.mem_stored (h : Listed keyOf own k svc items w) {p : Pod} (hp : p ∈ items)
    (hc : ControlledBy svc.uid p) : p ∈ w.store.pods := by
  have hreq := request_of_viewed h.toViewed (h.honest p hp) (h.matching p hp).1 hc
  exact (pod_iff h.toStill hreq).mp (h.present p hp hreq)

/-- A stored pod that the Service controls was listed, if it has the labels. -/
theorem Listed.mem_items (h : Listed keyOf own k svc items w) {p : Pod} (hp : p ∈ w.store.pods)
    (hns : p.ns = svc.ns) (hl : podSelector svc p.labels = true) (hc : ControlledBy svc.uid p) :
    p ∈ items := by
  have hreq := request_of_viewed h.toViewed (h.good.honest.pods p hp) hns hc
  exact h.complete p ((pod_iff h.toStill hreq).mpr hp) hreq hns hl

/-- No pod is adopted: it would be the one that was listed as an orphan. -/
theorem Listed.not_adopted (h : Listed keyOf own k svc items w) {x stored : Pod}
    (hx : x ∈ items) (horphan : getControllerOf x = none) (hmem : stored ∈ w.store.pods)
    (hkey : stored.key = x.key) (hc : ControlledBy svc.uid stored) : False := by
  obtain ⟨hns, -⟩ := NamespacedName.mk.inj hkey
  have hreq := request_of_viewed h.toViewed (h.good.honest.pods stored hmem)
    (hns.trans (h.matching x hx).1) hc
  have hsame := h.alone x hx stored ((pod_iff h.toStill hreq).mpr hmem) hreq hkey
  rw [hsame] at hc
  simp [ControlledBy, horphan] at hc

/-- A listed pod that the Service controls can be deleted only when it is marked already. -/
theorem Listed.marked (h : Listed keyOf own k svc items w) {x : Pod} (hx : x ∈ items)
    (hc : ControlledBy svc.uid x) {o : Except GoError Unit}
    (hs : (own.watching keyOf).quietServe k w (.delete x) o w')
    (hok : ∀ err, o = .error err → err.isNotFound = true) : x.deletionTimestamp.isSome := by
  have hafter := (h.serve hs).mem_stored hx hc
  obtain ⟨-, ⟨s, hserve, hhonest, rfl⟩, -⟩ := hs
  obtain ⟨-, -, ⟨u, -, hmarked⟩ | ⟨err, rfl, -⟩⟩ := Store.serve_delete hserve
  · exact hmarked x hafter rfl
  · have hnone : w.store.pods.find? x.key = none := hhonest (hok err rfl)
    exact absurd rfl (Table.find?_eq_none.mp hnone x (h.mem_stored hx hc))

/-- The Service is not updated: it would be stored with other finalizers than it was read. -/
theorem finalizers_eq_of_viewed (h : (own.watching keyOf).Viewed k svc w) {finalizers : List String}
    {stored : Service}
    (hs : (own.watching keyOf).quietServe k w (.updateOwner { svc with finalizers := finalizers })
      (.ok stored) w') : svc.finalizers = finalizers := by
  have hafter := h.serve hs
  obtain ⟨-, ⟨s, hserve, -, rfl⟩, -⟩ := hs
  obtain ⟨-, -, ⟨stored', cur, -, -, -, hstored, hfind⟩ | ⟨err, heq, -⟩⟩ :=
    Store.serve_updateOwner hserve
  · rcases hfind with hfind | ⟨-, -, hnone⟩
    · obtain ⟨hmem, hkey⟩ := Table.find?_eq_some.mp hfind
      have hsame : stored' = svc := hafter.eq_of_stored hmem (hkey.trans h.key)
      rw [hsame] at hstored
      exact congrArg (fun x : Service => x.finalizers) hstored
    · exact absurd rfl (Table.find?_eq_none.mp hnone svc hafter.stored)
  · cases heq

structure Sorted (svc : Service) (items claimed : List Pod) : Prop where
  claimed : ∀ p, p ∈ claimed ↔ p ∈ items ∧ isPodActive p = true ∧ ControlledBy svc.uid p
  marked : ∀ p ∈ items, isPodActive p = false → ControlledBy svc.uid p → p.deletionTimestamp.isSome

theorem Listed.settled {claimed : List Pod} (h : Listed keyOf own k svc items w)
    (hsorted : Sorted svc items claimed)
    (hwanted : Wanted svc → finalizerName ∈ svc.finalizers ∧ claimed ≠ [])
    (hunwanted : ¬ Wanted svc → finalizerName ∉ svc.finalizers ∧ claimed = []) :
    ServiceSettled k w := by
  intro svc' hmem hk
  obtain rfl := h.toViewed.eq_of_stored hmem hk
  refine ⟨fun hw => ?_, fun hw => ?_, fun p hp hns hl hc hact => ?_⟩
  · obtain ⟨hfin, hne⟩ := hwanted hw
    obtain ⟨p, hp⟩ := List.exists_mem_of_ne_nil _ hne
    obtain ⟨hitem, hact, hc⟩ := (hsorted.claimed p).mp hp
    obtain ⟨hns, hl⟩ := h.matching p hitem
    exact ⟨hfin, p, h.mem_stored hitem hc, hact, hns, hl, hc⟩
  · obtain ⟨hfin, hnil⟩ := hunwanted hw
    refine ⟨hfin, fun p hp hserves => ?_⟩
    have hitem := h.mem_items hp hserves.ns hserves.labels hserves.controlled
    have hclaimed := (hsorted.claimed p).mpr ⟨hitem, hserves.active, hserves.controlled⟩
    rw [hnil] at hclaimed
    cases hclaimed
  · exact hsorted.marked p (h.mem_items hp hns hl hc) hact hc

/-- A pod that was created would have been listed and claimed. -/
theorem wp_createPod_quiet (h : Listed keyOf own k svc items w)
    (hnone : ∀ p ∈ items, isPodActive p = true → ¬ ControlledBy svc.uid p) :
    (r.createPod svc).wp ((own.watching keyOf).quietly k) ((own.watching keyOf).quietServe k)
      (fun _ _ _ _ => True) (Watching.Outcome ServiceSettled k) w := by
  refine ServiceReconciler.wp_createPod (Listed keyOf own k svc items) h Listed.stable
    (fun _ _ _ => Or.inl (by simp)) (fun w h o w' ho => ⟨trivial, h.serve ho⟩) ?_
  intro template name pod _ hpod w h o w' ho
  refine ⟨trivial, fun stored hok => ?_, fun _ _ _ => Or.inl (by simp)⟩
  exfalso
  subst hok
  have hafter := h.serve ho
  obtain ⟨-, ⟨s, hserve, -, rfl⟩, -⟩ := ho
  obtain ⟨-, ⟨uid, -, -, hpods⟩ | ⟨err, heq, -⟩⟩ := Store.serve_create hserve
  · have hserves : Serves svc (w.store.created pod uid) := serves_created hpod
    have hmem : w.store.created pod uid ∈ s.pods := (hpods _).mpr (Or.inl rfl)
    exact hnone _ (hafter.mem_items hmem hserves.ns hserves.labels hserves.controlled)
      hserves.active hserves.controlled
  · cases heq

theorem wp_provide_quiet {claimed : List Pod} {req : NamespacedName}
    (h : Listed keyOf own k svc items w) (hsorted : Sorted svc items claimed)
    (hwanted : Wanted svc) :
    (r.provide req svc claimed).wp ((own.watching keyOf).quietly k)
      ((own.watching keyOf).quietServe k) (fun _ _ _ _ => True)
      (Watching.Outcome ServiceSettled k) w := by
  refine ServiceReconciler.wp_provide (Listed keyOf own k svc items) h Listed.stable ?_ ?_ ?_
  · intro hfin w h o w' ho
    -- an update that succeeds has changed nothing
    have hno : ∀ stored, o ≠ .ok stored := by
      rintro stored rfl
      have hsame := finalizers_eq_of_viewed h.toViewed ho
      rw [hsame] at hfin
      simp at hfin
    exact ⟨trivial, fun stored hok => absurd hok (hno stored),
      fun stored hok => absurd hok (hno stored), fun _ _ _ => Or.inl (by simp)⟩
  · intro _ hnil
    refine wp_createPod_quiet h fun p hp hact hc => ?_
    have hclaimed := (hsorted.claimed p).mpr ⟨hp, hact, hc⟩
    rw [hnil] at hclaimed
    cases hclaimed
  · intro hfin hne
    exact Or.inr (h.settled hsorted (fun _ => ⟨hfin, hne⟩) fun hnot => absurd hwanted hnot)

theorem wp_cleanUp_quiet {claimed : List Pod} {req : NamespacedName}
    (h : Listed keyOf own k svc items w) (hsorted : Sorted svc items claimed)
    (hunwanted : ¬ Wanted svc) :
    (ServiceReconciler.cleanUp req svc claimed).wp ((own.watching keyOf).quietly k)
      ((own.watching keyOf).quietServe k) (fun _ _ _ _ => True)
      (Watching.Outcome ServiceSettled k) w := by
  refine ServiceReconciler.wp_cleanUp
    (fun done errs w => Listed keyOf own k svc items w ∧ (errs = [] → done = [])) ⟨h, fun _ => rfl⟩
    (fun _ _ w w' h hm => ⟨Listed.stable w w' h.1 hm, h.2⟩) ?_ ?_
  · intro wrapErr done x rest errs w hl h o w' ho
    refine ⟨trivial, h.1.serve ho, fun hnil => ?_⟩
    -- the delete of an active pod would have changed it
    obtain ⟨-, hok⟩ := collect_eq_nil hnil
    obtain ⟨hitem, hact, hc⟩ := (hsorted.claimed x).mp (by simp [hl])
    have hmarked := h.1.marked hitem hc ho hok
    rw [isPodActive_of_marked hmarked] at hact
    cases hact
  · intro errs w h o w' ho
    refine ⟨trivial, fun stored hok => ?_, fun _ _ _ => Or.inl (by simp)⟩
    subst hok
    have hsame := finalizers_eq_of_viewed h.1.toViewed ho
    cases errs with
    | cons e es =>
      left
      rw [newAggregate_map_some (by simp)]
      simp
    | nil =>
      right
      have hfin : finalizerName ∉ svc.finalizers := by
        rw [hsame]
        simp [withoutFinalizer]
      exact (h.1.serve ho).settled hsorted (fun hw => absurd hw hunwanted)
        fun _ => ⟨hfin, h.2 rfl⟩

theorem wp_converge_quiet {claimed : List Pod} {req : NamespacedName}
    (h : Listed keyOf own k svc items w)
    (hclaimed : ∀ p, p ∈ claimed ↔ p ∈ items ∧ isPodActive p = true ∧ ControlledBy svc.uid p) :
    (r.converge req svc claimed (items.filter (!isPodActive ·))).wp ((own.watching keyOf).quietly k)
      ((own.watching keyOf).quietServe k) (fun _ _ _ _ => True)
      (Watching.Outcome ServiceSettled k) w := by
  -- so far every pod that the Service controls was marked already
  have hsorted : ∀ {w}, (Listed keyOf own k svc items w ∧ (([] : List GoError) = [] →
      ∀ x ∈ items.filter (!isPodActive ·), ControlledBy svc.uid x →
        x.deletionTimestamp.isSome)) → Sorted svc items claimed := by
    intro w hw
    refine ⟨hclaimed, fun p hp hact => hw.2 rfl p (List.mem_filter.mpr ⟨hp, ?_⟩)⟩
    simp [hact]
  refine ServiceReconciler.wp_converge
    (fun done errs w => Listed keyOf own k svc items w ∧ (errs = [] → ∀ x ∈ done,
      ControlledBy svc.uid x → x.deletionTimestamp.isSome)) ⟨h, by simp⟩
    (fun _ _ w w' h hm => ⟨Listed.stable w w' h.1 hm, h.2⟩) ?_ (fun _ _ _ _ _ => Or.inl (by simp))
    ?_ ?_
  · intro done x rest errs w hl h o w' ho
    refine ⟨trivial, h.1.serve ho, fun hnil y hy hc => ?_⟩
    obtain ⟨herrs, hok⟩ := collect_eq_nil hnil
    rcases List.mem_append.mp hy with hy | hy
    · exact h.2 herrs y hy hc
    · obtain rfl := List.mem_singleton.mp hy
      have hitem : y ∈ items.filter (!isPodActive ·) := by simp [hl]
      exact h.1.marked (List.mem_of_mem_filter hitem) hc ho hok
  · intro w hw hwanted
    exact wp_provide_quiet hw.1 (hsorted hw) ((isWanted_iff svc).mp hwanted)
  · intro w hw hunwanted
    refine wp_cleanUp_quiet hw.1 (hsorted hw) fun hwanted => ?_
    rw [(isWanted_iff svc).mpr hwanted] at hunwanted
    cases hunwanted

/-- How far the claims have got: the claimed pods are those of `done` that the Service
controls. -/
structure Claims (keyOf : String → Option NamespacedName) (own : OwnsPods) (k : NamespacedName)
    (svc : Service) (items done : List Pod) (st : RefManager.ClaimState PodBody)
    (w : ServiceWorld) : Prop where
  listed : Listed keyOf own k svc items w
  found : st.errList = [] → ∀ p, p ∈ st.claimObjs ↔ p ∈ done ∧ ControlledBy svc.uid p

section Claims
variable {done : List Pod} {st : RefManager.ClaimState PodBody} {x : Pod}

theorem Claims.stable (w w' : ServiceWorld) (h : Claims keyOf own k svc items done st w)
    (hm : (own.watching keyOf).quietly k w w') : Claims keyOf own k svc items done st w' :=
  ⟨Listed.stable w w' h.listed hm, h.found⟩

/-- A pod that is not claimed is not controlled, whatever else is reported. -/
theorem Claims.skip (h : Claims keyOf own k svc items done st w)
    (hc : ¬ ControlledBy svc.uid x) (obj : Pod) (err : Option GoError) (once : Once) :
    Claims keyOf own k svc items (done ++ [x]) (st.add ⟨obj, false, err, once⟩) w := by
  refine ⟨h.listed, fun hnil p => ?_⟩
  have herrs : st.errList = [] := by
    cases err <;> simp_all [RefManager.ClaimState.add]
  rw [RefManager.claimObjs_add_unclaimed, h.found herrs, List.mem_append, List.mem_singleton]
  constructor
  · exact fun hp => ⟨Or.inl hp.1, hp.2⟩
  · rintro ⟨hp | rfl, hpc⟩
    · exact ⟨hp, hpc⟩
    · exact absurd hpc hc

theorem Claims.keep (h : Claims keyOf own k svc items done st w) (hc : ControlledBy svc.uid x)
    (once : Once) :
    Claims keyOf own k svc items (done ++ [x]) (st.add ⟨x, true, none, once⟩) w := by
  refine ⟨h.listed, fun hnil p => ?_⟩
  have hadd : (st.add ⟨x, true, none, once⟩).claimObjs = st.claimObjs ++ [x] := rfl
  rw [hadd, List.mem_append, List.mem_singleton, List.mem_append, List.mem_singleton,
    h.found hnil]
  constructor
  · rintro (hp | rfl)
    · exact ⟨Or.inl hp.1, hp.2⟩
    · exact ⟨Or.inr rfl, hc⟩
  · rintro ⟨hp | rfl, hpc⟩
    · exact Or.inl ⟨hp, hpc⟩
    · exact Or.inr rfl

/-- An adoption that succeeded would have changed the pod. -/
theorem Claims.not_adopted (h : Claims keyOf own k svc items done st w) (hx : x ∈ items)
    {isMatch : Pod → Bool} {pod stored : Pod}
    (hadopt : (ServiceReconciler.refManager svc).Adopts isMatch x pod)
    (hs : (own.watching keyOf).quietServe k w (.update pod) (.ok stored) w') : False := by
  have hafter := h.listed.serve hs
  obtain ⟨-, ⟨s, hserve, -, rfl⟩, -⟩ := hs
  have hc : ControlledBy svc.uid pod := controlledBy_setControllerReference hadopt.write
  obtain ⟨-, -, ⟨stored', -, hmem, hstored, -⟩ | ⟨err, heq, -⟩⟩ := Store.serve_update hserve
  · refine hafter.not_adopted hx hadopt.orphan hmem ?_ ?_
    · rw [hstored, ← hadopt.key_eq]
      rfl
    · rw [hstored]
      exact hc
  · cases heq

theorem Claims.spec (hx : x ∈ items) (hmatch : podSelector svc x.labels = true) :
    (ServiceReconciler.refManager svc).ClaimSpec ((ServiceReconciler.refManager svc).matching [])
      ((own.watching keyOf).quietly k) ((own.watching keyOf).quietServe k) (fun _ _ _ _ => True)
      st.once x (Claims keyOf own k svc items done st)
      (fun _ => Claims keyOf own k svc items done st)
      fun c w' => Claims keyOf own k svc items (done ++ [x]) (st.add c) w' := by
  have hmatch : (ServiceReconciler.refManager svc).matching [] x = true := by
    simpa [RefManager.matching, ServiceReconciler.refManager] using hmatch
  refine RefManager.ClaimSpec.of_assertion Claims.stable
    (fun w h o w' ho => ⟨trivial, h.listed.serve ho, h.found⟩) (fun hc _ w h => h.keep hc _)
    ?_ ?_ ?_
  · intro hno w obj err once h
    exact h.skip (fun hc => hno ⟨hc, hmatch⟩) obj err once
  · intro pod hadopt w h o w' ho
    refine ⟨trivial, fun stored hok => ?_, fun _ obj err once _ => ?_⟩
    · subst hok
      exact absurd ho fun ho => h.not_adopted hx hadopt ho
    · have hafter : Claims keyOf own k svc items done st w' := ⟨h.listed.serve ho, h.found⟩
      exact hafter.skip (by simp [ControlledBy, hadopt.orphan]) obj err once
  · intro pod hrelease
    have hno := hrelease.noMatch
    rw [hmatch] at hno
    cases hno

end Claims

theorem wp_settle_quiet {req : NamespacedName} (h : Listed keyOf own k svc items w) :
    (r.settle req svc (items.filter isPodActive) (items.filter (!isPodActive ·))).wp
      ((own.watching keyOf).quietly k) ((own.watching keyOf).quietServe k) (fun _ _ _ _ => True)
      (Watching.Outcome ServiceSettled k) w := by
  refine ServiceReconciler.wp_settle (Claims keyOf own k svc items) ⟨h, by simp⟩ ?_
    (fun _ _ _ _ _ => Or.inl (by simp)) ?_
  · intro done x rest st w hl hst
    have hx : x ∈ items.filter isPodActive := by simp [hl]
    have hitem : x ∈ items := List.mem_of_mem_filter hx
    exact ⟨_, _, hst, Claims.spec hitem (h.matching x hitem).2⟩
  · intro st w hst hnil
    refine wp_converge_quiet hst.listed fun p => ?_
    rw [hst.found hnil, List.mem_filter, and_assoc]

/-- A run that nothing disturbs settles its key, or is made again. -/
theorem wp_reconcile_quiet (h : (own.watching keyOf).Still k w) :
    (r.reconcile k).wp ((own.watching keyOf).quietly k) ((own.watching keyOf).quietServe k)
      (fun _ _ _ _ => True) (Watching.Outcome ServiceSettled k) w := by
  refine ServiceReconciler.wp_reconcile ((own.watching keyOf).Still k)
    ((own.watching keyOf).Viewed k) h (Watching.stable_of_keeps fun _ _ _ hs _ => hs)
    (fun svc => Watching.Viewed.stable) ?_ ?_
  · rintro w - o w' ⟨hstill, ⟨hget, hhonest, rfl⟩, -⟩
    refine ⟨trivial, fun svc hok => ?_, fun err herr => ?_⟩
    · subst hok
      exact Watching.viewed_of_find hstill hget.1
    · subst herr
      by_cases hnf : err.isNotFound = true
      · rw [if_pos hnf]
        right
        intro svc hsvc hkey
        exact absurd hkey (Watching.ne_of_find_none hstill (hhonest hnf) svc hsvc)
      · rw [if_neg hnf]
        exact Or.inl (by simp)
  · rintro svc w h o w' ⟨-, ⟨hlist, rfl⟩, -⟩
    refine ⟨trivial, fun items hok => wp_settle_quiet ?_, fun _ _ => Or.inl (by simp)⟩
    subst hok
    have hmem : ∀ p, p ∈ items ↔ p ∈ w'.pods.indexer ∧ p.ns = svc.ns ∧
        podSelector svc p.labels = true := by
      intro p
      rw [hlist.1.mem_iff]
      simp only [Store.select, List.mem_filter, Bool.and_eq_true, decide_eq_true_eq]
      exact Iff.rfl
    exact ⟨h, fun p hp => h.good.cached_pod ((hmem p).mp hp).1, fun p hp => ((hmem p).mp hp).2,
      fun p hp _ => ((hmem p).mp hp).1, fun p hp _ hns hl => (hmem p).mpr ⟨hp, hns, hl⟩,
      fun x hx p hp _ hk => Table.eq_of_key hp ((hmem x).mp hx).1 hk⟩

/-- What concerns a Service decides whether it has what it asks for. -/
theorem serviceSettled_of_keeps (hw : Good keyOf w) (hw' : Good keyOf w')
    (hk : ServiceWorld.Keeps own k w w') (h : ServiceSettled k w) : ServiceSettled k w' := by
  intro svc hsvc hkey
  have hold : svc ∈ w.store.services := (hk.services.stored svc hkey).mp hsvc
  have hprovided := h svc hold hkey
  have hpods : ∀ p, p.ns = svc.ns → ControlledBy svc.uid p →
      (p ∈ w'.store.pods ↔ p ∈ w.store.pods) := by
    intro p hns hc
    have hrequest : HonestPod keyOf p → own.handler.getOwnerReconcileRequest p = some k := by
      intro hp
      rw [← hkey]
      exact own.request (hw.honest.services svc hold) hp hns hc
    constructor
    · intro hp
      exact (hk.pods.stored p (hrequest (hw'.honest.pods p hp))).mp hp
    · intro hp
      exact (hk.pods.stored p (hrequest (hw.honest.pods p hp))).mpr hp
  refine ⟨fun hwanted => ?_, fun hunwanted => ?_, fun p hp hns hl hc => ?_⟩
  · obtain ⟨hfin, p, hp, hserves⟩ := hprovided.wanted hwanted
    exact ⟨hfin, p, (hpods p hserves.ns hserves.controlled).mpr hp, hserves⟩
  · obtain ⟨hfin, hnone⟩ := hprovided.unwanted hunwanted
    exact ⟨hfin, fun p hp hserves =>
      hnone p ((hpods p hserves.ns hserves.controlled).mp hp) hserves⟩
  · exact hprovided.inactive p ((hpods p hns hc).mp hp) hns hl hc

end Quiet

end FrpProvisioner
