import FrpProvisioner.Controller.Serving

/-! What holds after a run of the Service reconciler that returned no error. The run has the
API server for itself and reads what is stored; every call may fail. -/
namespace FrpProvisioner
open Effect

/-- The API server, with NotFound only for objects that are not there. -/
def freshServe : Server (Request ServiceBody PodBody) Response Store :=
  fun s i o s' => s.serve i o s' ∧ s.Honest i o

theorem freshServe_handle (draw : Store → String) (s : Store) (i : Request ServiceBody PodBody) :
    freshServe s i (Store.handle draw s i).1 (Store.handle draw s i).2 :=
  ⟨Store.serve_handle draw s i, Store.honest_handle draw s i⟩

structure Converged (svc : Service) (t : Store) : Prop where
  same : ∀ svc', t.services.find? svc.key = some svc' → ∃ finalizers version,
    svc' = { svc with finalizers := finalizers, resourceVersion := version }
  wanted : Wanted svc → (∃ svc', t.services.find? svc.key = some svc' ∧
    finalizerName ∈ svc'.finalizers) ∧ ∃ p ∈ t.pods, Serves svc p
  unwanted : ¬ Wanted svc → ∀ svc', t.services.find? svc.key = some svc' →
    finalizerName ∉ svc'.finalizers
  noPods : ¬ Wanted svc → ∀ p ∈ t.pods, ¬ Serves svc p

section
variable {s₀ s : Store} {svc : Service} {claimed : List Pod}
  {r : ServiceReconciler} {req : NamespacedName}

/-- The postcondition of a run: nothing is promised with an error. -/
def Settled (svc : Service) (err : Option GoError) (t : Store) : Prop :=
  err = none → Converged svc t

private theorem settled_error {err : GoError} {t : Store} : Settled svc (some err) t :=
  fun h => by cases h

structure Tracked (svc owner : Service) (s : Store) : Prop where
  stored : s.services.find? svc.key = some owner
  same : ∃ finalizers version,
    owner = { svc with finalizers := finalizers, resourceVersion := version }
  finalizer : finalizerName ∈ owner.finalizers

theorem Tracked.settled {owner : Service} (h : Tracked svc owner s) (hw : Wanted svc)
    (hp : ∃ p ∈ s.pods, Serves svc p) : Settled svc none s := by
  intro _
  refine ⟨fun svc' h' => ?_, fun _ => ⟨⟨owner, h.stored, h.finalizer⟩, hp⟩,
    fun h' => absurd hw h', fun h' => absurd hw h'⟩
  cases h.stored.symm.trans h'
  exact h.same

private theorem wp_createPod_fresh {owner : Service} (h : Tracked svc owner s) (hw : Wanted svc) :
    (r.createPod owner).wp Eq freshServe (fun _ _ _ _ => True) (Settled svc) s := by
  refine ServiceReconciler.wp_createPod (Tracked svc owner) h Program.stable_alone
    (fun _ _ _ => settled_error) ?_ ?_
  · intro s h o s' ho
    obtain rfl : s' = s := ho.1
    exact ⟨trivial, h⟩
  · intro template name pod _ hpod s h o s' ho
    refine ⟨trivial, ?_, fun _ _ _ => settled_error⟩
    rintro stored rfl
    obtain ⟨hservices, ⟨uid, -, -, hmem⟩ | ⟨err, he, -⟩⟩ := Store.serve_create ho.1
    · have h' : Tracked svc owner s' := ⟨by rw [hservices]; exact h.stored, h.same, h.finalizer⟩
      have hsv : Serves owner (s.created pod uid) := serves_created hpod
      obtain ⟨_, _, rfl⟩ := h.same
      exact h'.settled hw ⟨_, (hmem _).mpr (Or.inl rfl), hsv.of_same rfl rfl rfl⟩
    · cases he

private theorem wp_provide_fresh (hsvc : s₀.services.find? svc.key = some svc)
    (hw : Wanted svc) (hs : s.services = s₀.services) (h : AllClaimed svc claimed s.pods) :
    (r.provide req svc claimed).wp Eq freshServe (fun _ _ _ _ => True) (Settled svc) s := by
  have hheld : claimed ≠ [] → ∃ p ∈ s.pods, Serves svc p := by
    intro hne
    obtain ⟨c, hc⟩ := List.exists_mem_of_ne_nil claimed hne
    exact ⟨c, h.held c hc⟩
  have htracked : finalizerName ∈ svc.finalizers → Tracked svc svc s := fun hfin =>
    ⟨by rw [hs, hsvc], ⟨_, _, rfl⟩, hfin⟩
  refine ServiceReconciler.wp_provide (· = s) rfl Program.stable_alone ?_
    (fun hfin _ => wp_createPod_fresh (htracked hfin) hw)
    fun hfin hne => (htracked hfin).settled hw (hheld hne)
  rintro - _ rfl o s' ho
  refine ⟨trivial, ?_⟩
  obtain ⟨hpods, -, ⟨stored, cur, rfl, -, -, hst, hres⟩ | ⟨err, rfl, -⟩⟩ :=
    Store.serve_updateOwner ho.1
  · have h' : Tracked svc stored s' := by
      refine ⟨?_, ⟨_, _, hst⟩, by rw [hst]; simp⟩
      rcases hres with hres | ⟨hdel, -⟩
      · exact hres
      · simp [hw.2.2] at hdel
    refine ⟨?_, ?_, fun _ _ he => by cases he⟩
    · rintro _ ⟨⟩ -
      exact wp_createPod_fresh h' hw
    · rintro _ ⟨⟩ hne
      exact h'.settled hw (hpods ▸ hheld hne)
  · exact ⟨fun _ he => (by cases he), fun _ he => (by cases he), fun _ _ _ => settled_error⟩

private theorem wp_cleanUp_fresh (hw : ¬ Wanted svc) (h : AllClaimed svc claimed s.pods) :
    (ServiceReconciler.cleanUp req svc claimed).wp Eq freshServe (fun _ _ _ _ => True)
      (Settled svc) s := by
  -- as long as no delete has failed, the pods passed are not active any more
  refine ServiceReconciler.wp_cleanUp
    (fun done errs s => errs = [] → Clearing svc claimed done s.pods) (fun _ => .init h)
    (fun _ _ => Program.stable_alone) ?_ ?_
  · intro wrapErr done x rest errs s _ hI o s' ho
    refine ⟨trivial, fun herrs => ?_⟩
    obtain ⟨herrs, hnf⟩ := collect_eq_nil herrs
    refine (hI herrs).delete ho.1 fun y hy hk => ?_
    refine Store.inactive_of_serve_delete ho.1 (fun err he => ?_) hy hk
    have hhonest := ho.2
    rw [he] at hhonest
    exact hhonest (hnf err he)
  · intro errs s hI o s' ho
    refine ⟨trivial, ?_, fun _ _ _ => settled_error⟩
    rintro stored rfl hnone
    have herrs : errs = [] := by
      cases errs with
      | nil => rfl
      | cons e es => cases (newAggregate_map_some (List.cons_ne_nil e es)).symm.trans hnone
    obtain ⟨hpods, -, ⟨_, cur, ⟨⟩, hcur, -, hst, hres⟩ | ⟨err, he, -⟩⟩ :=
      Store.serve_updateOwner ho.1
    · have hfind : ∀ svc', s'.services.find? svc.key = some svc' → svc' = stored := by
        intro svc' h'
        rcases hres with hres | ⟨-, -, hres⟩
        · exact Option.some.inj (h'.symm.trans hres)
        · cases h'.symm.trans hres
      refine ⟨fun svc' h' => ⟨_, _, (hfind svc' h').trans hst⟩, fun h' => absurd h' hw,
        fun _ svc' h' => ?_, fun _ p hp => (hI herrs).not_serves (hpods ▸ hp)⟩
      rw [hfind svc' h', hst]
      simp [withoutFinalizer]
    · cases he

theorem wp_reconcile_fresh : (r.reconcile req).wp Eq freshServe (fun _ _ _ _ => True)
    (fun err t => err = none → (s.services.find? req = none ∧ t = s) ∨
      ∃ svc, s.services.find? req = some svc ∧ Converged svc t) s := by
  refine ServiceReconciler.wp_reconcile (· = s)
    (fun svc s' => s' = s ∧ s.services.find? req = some svc) rfl Program.stable_alone
    (fun _ => Program.stable_alone) ?_ ?_
  · rintro _ rfl o s' ho
    refine ⟨trivial, ?_, ?_⟩
    · rintro svc rfl
      exact ⟨ho.1.2, ho.1.1⟩
    · rintro err rfl hnone
      have hnf : err.isNotFound = true := by
        by_contra hnf
        simp [hnf] at hnone
      exact Or.inl ⟨ho.2 hnf, ho.1⟩
  · rintro svc _ ⟨rfl, hsvc⟩ o s' ho
    refine ⟨trivial, ?_, fun _ _ he => by cases he⟩
    rintro items rfl
    obtain ⟨hperm, rfl⟩ := ho.1
    have hkey : svc.key = req := (Table.find?_eq_some.mp hsvc).2
    subst hkey
    have hembeds : Embeds id Eq freshServe fun a : Store => a.services = s'.services :=
      ⟨fun _ _ _ _ ho => ho.1, fun _ _ e => e ▸ rfl, Program.stable_alone⟩
    refine Program.wp_mono (wp_settle_serving hembeds hperm rfl ?_ ?_ ?_
      (fun _ _ _ => settled_error) ?_ ?_) fun err t ht hnone => Or.inr ⟨svc, hsvc, ht hnone⟩
    · intro a ha key o b ho
      obtain rfl : b = a := Store.serve_get ho.1
      exact ⟨trivial, ha⟩
    · exact fun a w x ha _ _ _ _ o b ho => ⟨trivial, (Store.serve_update ho.1).1.trans ha⟩
    · exact fun a x ha o b ho => ⟨trivial, (Store.serve_delete ho.1).1.trans ha⟩
    · exact fun claimed a ha h hw => wp_provide_fresh hsvc ((isWanted_iff svc).mp hw) ha h
    · exact fun claimed a _ h hw =>
        wp_cleanUp_fresh (fun hw' => by simp [(isWanted_iff svc).mpr hw'] at hw) h

/-- A run that returns no error has converged: a Service that is wanted carries the finalizer
and has an active pod, any other does not carry the finalizer any more, or is gone, and no
active pod of it is left. -/
theorem reconcile_converged (r : ServiceReconciler) (req : NamespacedName) (s t : Store)
    (es : List (Program.Event (Request ServiceBody PodBody) Response))
    (h : Program.Exec freshServe (r.reconcile req) s es none t) :
    (s.services.find? req = none ∧ t.services.find? req = none) ∨
      ∃ svc, s.services.find? req = some svc ∧
        (∀ svc', t.services.find? req = some svc' → ∃ finalizers version,
          svc' = { svc with finalizers := finalizers, resourceVersion := version }) ∧
        (Wanted svc → (∃ svc', t.services.find? req = some svc' ∧
          finalizerName ∈ svc'.finalizers) ∧ ∃ p ∈ t.pods, Serves svc p) ∧
        (¬ Wanted svc → (∀ svc', t.services.find? req = some svc' →
          finalizerName ∉ svc'.finalizers) ∧ ∀ p ∈ t.pods, ¬ Serves svc p) := by
  rcases h.post wp_reconcile_fresh rfl with ⟨hnone, rfl⟩ | ⟨svc, hsvc, hc⟩
  · exact Or.inl ⟨hnone, hnone⟩
  · obtain rfl : svc.key = req := (Table.find?_eq_some.mp hsvc).2
    exact Or.inr ⟨svc, hsvc, hc.same, hc.wanted, fun hw => ⟨hc.unwanted hw, hc.noPods hw⟩⟩

theorem reconcile_converged_newStore :
    ∃ es t, Program.Exec freshServe (emptyTemplate.reconcile newService.key) newStore es none t ∧
      ∃ p ∈ t.pods, Serves newService p := by
  have hrun := Program.exec_run (freshServe_handle fun _ => "abcde")
    (emptyTemplate.reconcile newService.key) newStore
  have hnone : (Program.run (Store.handle fun _ => "abcde")
    (emptyTemplate.reconcile newService.key) newStore).2.1 = none := rfl
  rw [hnone] at hrun
  refine ⟨_, _, hrun, ?_⟩
  have hfind : newStore.services.find? newService.key = some newService := rfl
  rcases reconcile_converged emptyTemplate newService.key newStore _ _ hrun with h | ⟨svc, hsvc, h⟩
  · cases hfind.symm.trans h.1
  · cases hfind.symm.trans hsvc
    exact (h.2.1 ⟨rfl, by decide, rfl⟩).2

end
end FrpProvisioner
