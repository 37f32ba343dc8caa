import FrpProvisioner.Controller.Ownership

/-! When a run of the Service reconciler writes the Service. A finalizer is only added when it
is missing, but the clean-up removes it without a look at the list, so that every Service that
is not wanted is written by every run. The copy a run reads may be stale. -/
namespace FrpProvisioner
open Effect
variable {view : Store} {req : NamespacedName} {svc : Service} {r : ServiceReconciler}

def WritesService (es : List ServiceEvent) : Prop :=
  ∃ w o, (⟨.updateOwner w, o⟩ : ServiceEvent) ∈ es

/-- The Service has been read, and no call about pods has failed. -/
def CallsSucceed (es : List ServiceEvent) : Prop :=
  ∀ e ∈ es, match e with
    | ⟨.get _, o⟩ => ∃ svc, o = .ok svc
    | ⟨.list _ _, o⟩ => ∃ items, o = .ok items
    | ⟨.create _, o⟩ => ∃ stored, o = .ok stored
    | ⟨.update _, o⟩ => ∃ stored, o = .ok stored
    | ⟨.delete _, o⟩ => ∃ u, o = .ok u
    | _ => True

/-- The runs that read `svc` write it only when its finalizers change, and leave it alone when
it is not wanted and does not carry the finalizer. -/
structure WritesWhenNeeded (r : ServiceReconciler) (req : NamespacedName) (view : Store)
    (svc : Service) : Prop where
  changes : ∀ store es err t, Program.Exec viewServe (r.reconcile req) (view, store) es err t →
    ∀ w o, (⟨.updateOwner w, o⟩ : ServiceEvent) ∈ es → w.finalizers ≠ svc.finalizers
  quiet : isWanted svc = false → finalizerName ∉ svc.finalizers → ∀ store es err t,
    Program.Exec viewServe (r.reconcile req) (view, store) es err t →
    ¬ WritesService es ∧ (CallsSucceed es → err = none)

theorem withoutFinalizer_eq_self {finalizers : List String} :
    withoutFinalizer finalizers = finalizers ↔ finalizerName ∉ finalizers := by
  unfold withoutFinalizer
  rw [List.filter_eq_self]
  constructor
  · intro h hmem
    simpa using h finalizerName hmem
  · intro h f hf
    simp only [ne_eq, decide_eq_true_eq]
    intro hfin
    exact h (hfin ▸ hf)

def changesFinalizers (svc : Service) :
    Server (Request ServiceBody PodBody) Response (Store × Store) := fun _ i _ _ =>
  ∀ w, i = .updateOwner w → w.finalizers ≠ svc.finalizers

/-- Only updates of the Service are restricted. -/
theorem changes_of_ne {i : Request ServiceBody PodBody} {o : Response i} {s s' : Store × Store}
    (h : ∀ w, i ≠ .updateOwner w) : changesFinalizers svc s i o s' :=
  fun w hi => absurd hi (h w)

private theorem wp_createPod_changes {owner : Service} {s : Store × Store} :
    (r.createPod owner).wp Eq viewServe (changesFinalizers svc) (fun _ _ => True) s :=
  ServiceReconciler.wp_createPod (fun _ => True) trivial (fun _ _ _ _ => trivial)
    (fun _ _ _ => trivial) (fun _ _ _ _ _ => ⟨changes_of_ne nofun, trivial⟩)
    fun _ _ _ _ _ _ _ _ _ _ =>
      ⟨changes_of_ne nofun, fun _ _ => trivial, fun _ _ _ => trivial⟩

private theorem wp_converge_changes {claimed inactive : List Pod} {s : Store × Store}
    (hneed : isWanted svc = true ∨ finalizerName ∈ svc.finalizers) :
    (r.converge req svc claimed inactive).wp Eq viewServe (changesFinalizers svc)
      (fun _ _ => True) s := by
  apply ServiceReconciler.wp_converge (fun _ _ _ => True) trivial
  · exact fun _ _ _ _ _ _ => trivial
  · exact fun _ _ _ _ _ _ _ _ _ _ => ⟨changes_of_ne nofun, trivial⟩
  · exact fun _ _ _ _ _ => trivial
  · intro b _ hw
    apply ServiceReconciler.wp_provide (fun _ => True) trivial
    · exact fun _ _ _ _ => trivial
    · intro hfin c _ o c' _
      refine ⟨?_, fun _ _ _ => wp_createPod_changes, fun _ _ _ => trivial,
        fun _ _ _ => trivial⟩
      rintro _ ⟨⟩ hsame
      apply hfin
      rw [← hsame]
      exact List.mem_append_right _ List.mem_cons_self
    · exact fun _ _ => wp_createPod_changes
    · exact fun _ _ => trivial
  · intro b _ hw
    have hfin : finalizerName ∈ svc.finalizers := by
      rcases hneed with hw' | hfin
      · rw [hw] at hw'
        cases hw'
      · exact hfin
    apply ServiceReconciler.wp_cleanUp (fun _ _ _ => True) trivial
    · exact fun _ _ _ _ _ _ => trivial
    · exact fun _ _ _ _ _ _ _ _ _ _ _ => ⟨changes_of_ne nofun, trivial⟩
    · intro errs c _ o c' _
      refine ⟨?_, fun _ _ => trivial, fun _ _ _ => trivial⟩
      rintro _ ⟨⟩ hsame
      exact withoutFinalizer_eq_self.mp hsame hfin

private theorem wp_reconcile_changes {store : Store} (hsvc : view.services.find? req = some svc)
    (hneed : isWanted svc = true ∨ finalizerName ∈ svc.finalizers) :
    (r.reconcile req).wp Eq viewServe (changesFinalizers svc) (fun _ _ => True) (view, store) := by
  apply ServiceReconciler.wp_reconcile (fun s => s.1 = view) (fun svc' s => svc = svc' ∧ s.1 = view)
    rfl
  · exact Program.stable_alone
  · exact fun _ => Program.stable_alone
  · intro s hs o s' ho
    refine ⟨changes_of_ne nofun, ?_, fun _ _ => trivial⟩
    rintro svc' rfl
    have hfind : s.1.services.find? req = some svc' := ho.1.1
    rw [hs] at hfind
    exact ⟨Option.some.inj (hsvc.symm.trans hfind), (viewServe_view ho).trans hs⟩
  · rintro _ s ⟨rfl, hs⟩ o s' ho
    refine ⟨changes_of_ne nofun, ?_, fun _ _ => trivial⟩
    rintro items rfl
    apply ServiceReconciler.wp_settle (fun _ _ _ => True) trivial
    · intro done x rest st a _ _
      refine ⟨fun _ => True, fun _ _ => True, trivial, ?_⟩
      apply RefManager.ClaimSpec.of_assertion
      · exact fun _ _ _ _ => trivial
      · exact fun _ _ _ _ _ => ⟨changes_of_ne nofun, trivial⟩
      · exact fun _ _ _ _ => trivial
      · exact fun _ _ _ _ _ _ => trivial
      · exact fun _ _ _ _ _ _ _ => ⟨changes_of_ne nofun, fun _ _ => trivial,
          fun _ _ _ _ _ => trivial⟩
      · exact fun _ _ _ _ _ _ _ => ⟨changes_of_ne nofun, fun _ _ _ => trivial⟩
    · exact fun _ _ _ _ _ => trivial
    · exact fun _ _ _ _ => wp_converge_changes hneed

/-- A delete on the handling server fails at most with NotFound. -/
theorem collect_viewHandle (wrapErr : GoError → GoError) (errs : List GoError)
    (s : Store × Store) (x : Pod) : collect wrapErr errs (viewHandle s (.delete x)).1 = errs := by
  cases hcur : s.2.pods.find? x.key with
  | none =>
    have hnf : (Store.notFoundError "pods" x.key).isNotFound = true := by
      simp [Store.notFoundError, GoError.isNotFound, GoError.asStatus]
    simp [viewHandle, Store.handle, hcur, collect, hnf]
  | some cur => simp [viewHandle, Store.handle, hcur, collect]

/-- On the handling server a run for a Service that is not wanted ends with an update of it. -/
private theorem wp_reconcile_writes (hsvc : view.services.find? req = some svc)
    (hw : isWanted svc = false) :
    (r.reconcile req).wp Eq (Program.traced (Program.served viewHandle)) (fun _ _ _ _ => True)
      (fun _ s => ∃ o, (⟨.updateOwner { svc with finalizers := withoutFinalizer svc.finalizers },
        o⟩ : ServiceEvent) ∈ s.2) ((view, view), []) := by
  apply wp_reconcile_handled hsvc
  intro claimed s
  apply ServiceReconciler.wp_converge (fun _ errs _ => errs = []) rfl
  · exact fun _ _ _ _ h _ => h
  · rintro done x rest errs s _ rfl o s' ⟨ho, -⟩
    refine ⟨trivial, ?_⟩
    have hcollect := collect_viewHandle id [] s.1 x
    rw [ho] at hcollect
    exact hcollect
  · exact fun errs s err h hne => absurd h hne
  · intro s _ hw'
    rw [hw] at hw'
    cases hw'
  · intro s _ _
    apply ServiceReconciler.wp_cleanUp (fun _ _ _ => True) trivial
    · exact fun _ _ _ _ _ _ => trivial
    · exact fun _ _ _ _ _ _ _ _ _ _ _ => ⟨trivial, trivial⟩
    · rintro errs s _ o s' ⟨-, htrace⟩
      have hmem : ∃ o, (⟨.updateOwner { svc with finalizers := withoutFinalizer svc.finalizers },
          o⟩ : ServiceEvent) ∈ s'.2 := by
        rw [htrace]
        exact ⟨o, List.mem_append_right _ List.mem_cons_self⟩
      exact ⟨trivial, fun _ _ => hmem, fun _ _ _ => hmem⟩

/-- A Service is written only when needed exactly if it is wanted or carries the finalizer: for
any other Service the clean-up writes back the finalizers it has read. -/
theorem writesWhenNeeded_iff (r : ServiceReconciler) (req : NamespacedName) (view : Store)
    (svc : Service) (hsvc : view.services.find? req = some svc) :
    WritesWhenNeeded r req view svc ↔ isWanted svc = true ∨ finalizerName ∈ svc.finalizers := by
  constructor
  · intro h
    by_contra hno
    rw [not_or, Bool.not_eq_true] at hno
    obtain ⟨hw, hfin⟩ := hno
    obtain ⟨es, err, t, hexec, o, hmem⟩ :=
      Program.exists_exec viewServe_viewHandle (wp_reconcile_writes (r := r) hsvc hw)
    exact h.changes view es err t hexec _ o hmem (withoutFinalizer_eq_self.mpr hfin)
  · intro hneed
    constructor
    · intro store es err t hexec w o hmem
      obtain ⟨s₁, s₂, hG⟩ := hexec.guarantee (wp_reconcile_changes hsvc hneed) hmem
      exact hG w rfl
    · intro hw hfin
      rcases hneed with hw' | hfin'
      · rw [hw] at hw'
        cases hw'
      · exact absurd hfin' hfin

theorem writesWhenNeeded_iff_newStore :
    WritesWhenNeeded emptyTemplate newService.key newStore newService :=
  (writesWhenNeeded_iff emptyTemplate newService.key newStore newService rfl).mpr
    (Or.inl (by decide))

/-- A Service of another type, as a cache has it and as it is stored after an edit. -/
def idleService : Service := { newService with body := ⟨.clusterIP, ""⟩ }

def idleView : Store := ⟨Table.empty.upsert idleService, Table.empty, 1⟩

def editedStore : Store :=
  ⟨Table.empty.upsert { idleService with resourceVersion := 2 }, Table.empty, 2⟩

/-- A run that reads the stale copy writes it back unchanged, and fails for it. -/
theorem idleService_is_written : ∃ es err t,
    Program.Exec viewServe (emptyTemplate.reconcile idleService.key) (idleView, editedStore) es
      (some err) t ∧ CallsSucceed es ∧
      ∃ o, (⟨.updateOwner idleService, o⟩ : ServiceEvent) ∈ es := by
  have hrun := Program.exec_run viewServe_viewHandle (emptyTemplate.reconcile idleService.key)
    (idleView, editedStore)
  have hes : ∃ err o, (Program.run viewHandle (emptyTemplate.reconcile idleService.key)
      (idleView, editedStore)).2.1 = some err ∧ (Program.run viewHandle
        (emptyTemplate.reconcile idleService.key) (idleView, editedStore)).1 =
          [⟨.get idleService.key, .ok idleService⟩,
            ⟨.list idleService.ns (podSelector idleService), .ok []⟩,
            ⟨.updateOwner idleService, o⟩] := ⟨_, _, rfl, rfl⟩
  obtain ⟨err, o, herr, hes⟩ := hes
  rw [herr, hes] at hrun
  refine ⟨_, err, _, hrun, ?_, o, by simp⟩
  intro e he
  simp only [List.mem_cons, List.not_mem_nil, or_false] at he
  rcases he with rfl | rfl | rfl
  · exact ⟨idleService, rfl⟩
  · exact ⟨[], rfl⟩
  · trivial

end FrpProvisioner
