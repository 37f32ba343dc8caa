import FrpProvisioner.Controller.Serving
import FrpProvisioner.Effect.Interleaving

/-! The finalizer of a Service as the guard of its pods: runs of the reconciler on the stored
objects, one after the other, while users edit the Service and request its deletion. -/
namespace FrpProvisioner
open Effect

/-- The store and, for the statements only, the keys of the pods that runs have created. -/
structure World where
  store : Store
  created : List NamespacedName

def createdBy : (i : Request ServiceBody PodBody) → Response i → List NamespacedName
  | .create _, .ok stored => [stored.key]
  | _, _ => []

def World.serve : Server (Request ServiceBody PodBody) Response World := fun a i o b =>
  a.store.serve i o b.store ∧ a.store.Honest i o ∧ b.created = createdBy i o ++ a.created

def guardSystem (r : ServiceReconciler) (key : NamespacedName) :
    System Unit (Request ServiceBody PodBody) Response World (Option GoError) where
  start _ _ prog := prog = r.reconcile key
  serve _ := World.serve
  env a b := UserStep key a.store b.store ∧ b.created = a.created

/-- No active pod that a run has created is without the finalizer. -/
def Guarded (key : NamespacedName) (a : World) : Prop :=
  ∀ p ∈ a.store.pods, p.key ∈ a.created → isPodActive p = true → Finalized key a.store

instance (key : NamespacedName) (a : World) : Decidable (Guarded key a) :=
  inferInstanceAs (Decidable (∀ p ∈ a.store.pods.entries, _ → _ → _))

def NoFailedDelete (a : World) : (i : Request ServiceBody PodBody) → Response i → Prop
  | .delete x, .error err => err.isNotFound = true ∨
      ∀ y ∈ a.store.pods, y.key = x.key → isPodActive y = false
  | _, _ => True

section
variable {svc₀ svc : Service} {a b : World} {r : ServiceReconciler}

/-- The invariant behind the guard: the created pods are found by every run. -/
structure GuardInv (svc₀ : Service) (a : World) : Prop where
  same : ∀ svc, a.store.services.find? svc₀.key = some svc → svc.uid = svc₀.uid
  serves : ∀ p ∈ a.store.pods, p.key ∈ a.created → isPodActive p = true → Serves svc₀ p
  guarded : Guarded svc₀.key a

def guardGuarantee (svc₀ : Service) : Server (Request ServiceBody PodBody) Response World
  | a, .update w, _, _ => ∃ x ∈ a.store.pods, x.key = w.key ∧ isPodActive x = true ∧
      getControllerOf x = none
  | a, .create pod, _, _ => Finalized svc₀.key a.store ∧
      ∀ uid, Serves svc₀ (a.store.created pod uid)
  | a, .updateOwner w, _, _ => w.key = svc₀.key ∧ w.uid = svc₀.uid ∧
      (finalizerName ∉ w.finalizers → ∀ p ∈ a.store.pods, ¬ Serves svc₀ p)
  | _, _, _, _ => True

theorem GuardInv.of_pods (h : GuardInv svc₀ a) (hs : b.store.services = a.store.services)
    (hpods : ∀ p ∈ b.store.pods, p.key ∈ b.created → isPodActive p = true →
      p ∈ a.store.pods ∧ p.key ∈ a.created) : GuardInv svc₀ b where
  same := by rw [hs]; exact h.same
  serves p hp hc hact := h.serves p (hpods p hp hc hact).1 (hpods p hp hc hact).2 hact
  guarded p hp hc hact := by
    unfold Finalized
    rw [hs]
    exact h.guarded p (hpods p hp hc hact).1 (hpods p hp hc hact).2 hact

/-- A created pod is never an orphan, so it is not among the pods a manager writes. -/
theorem GuardInv.update {w : Pod} {o : Except GoError Pod} (h : GuardInv svc₀ a)
    (ho : World.serve a (.update w) o b) (hG : guardGuarantee svc₀ a (.update w) o b) :
    GuardInv svc₀ b := by
  obtain ⟨hserve, -, hcreated⟩ := ho
  obtain ⟨x, hx, hkey, hact, horphan⟩ := hG
  obtain ⟨hs, hframe, -⟩ := Store.serve_update hserve
  refine h.of_pods hs fun p hp hc _ => ?_
  rw [hcreated] at hc
  refine ⟨(hframe p fun hk => ?_).mp hp, hc⟩
  have hsv := h.serves x hx (by rw [hkey, ← hk]; exact hc) hact
  simpa [ControlledBy, horphan] using hsv.controlled

theorem GuardInv.create {pod : Pod} {o : Except GoError Pod} (h : GuardInv svc₀ a)
    (ho : World.serve a (.create pod) o b) (hG : guardGuarantee svc₀ a (.create pod) o b) :
    GuardInv svc₀ b := by
  obtain ⟨hserve, -, hcreated⟩ := ho
  obtain ⟨hfin, hpod⟩ := hG
  obtain ⟨hs, ⟨uid, rfl, hfree, hmem⟩ | ⟨err, rfl, hsame⟩⟩ := Store.serve_create hserve
  · have hold : ∀ p, p ∈ a.store.pods → p.key ∈ b.created → p.key ∈ a.created := by
      intro p hp hc
      rw [hcreated] at hc
      exact (List.mem_cons.mp hc).resolve_left fun hk => hfree p hp hk
    refine ⟨by rw [hs]; exact h.same, fun p hp hc hact => ?_, fun p hp hc hact => ?_⟩
    · rcases (hmem p).mp hp with rfl | hp
      · exact hpod uid
      · exact h.serves p hp (hold p hp hc) hact
    · unfold Finalized
      rw [hs]
      exact hfin
  · refine h.of_pods hs fun p hp hc _ => ?_
    rw [hcreated] at hc
    exact ⟨hsame ▸ hp, hc⟩

theorem GuardInv.updateOwner {w : Service} {o : Except GoError Service} (h : GuardInv svc₀ a)
    (ho : World.serve a (.updateOwner w) o b)
    (hG : guardGuarantee svc₀ a (.updateOwner w) o b) : GuardInv svc₀ b := by
  obtain ⟨hserve, -, hcreated⟩ := ho
  obtain ⟨hkey, huid, hgone⟩ := hG
  have hcreated : b.created = a.created := hcreated
  obtain ⟨hpods, -, ⟨stored, cur, -, -, -, hst, hres⟩ | ⟨err, rfl, hsame⟩⟩ :=
    Store.serve_updateOwner hserve
  · rw [hkey] at hres
    refine ⟨fun svc hfind => ?_, ?_, fun p hp hc hact => ?_⟩
    · rcases hres with hres | ⟨-, -, hres⟩
      · cases hfind.symm.trans hres
        rw [hst]
        exact huid
      · cases hfind.symm.trans hres
    · rw [hpods, hcreated]
      exact h.serves
    · rw [hpods] at hp
      rw [hcreated] at hc
      have hfin : finalizerName ∈ w.finalizers := by
        by_contra hno
        exact hgone hno p hp (h.serves p hp hc hact)
      rcases hres with hres | ⟨-, hnil, -⟩
      · exact ⟨stored, hres, by rw [hst]; exact hfin⟩
      · simp [hnil] at hfin
  · refine h.of_pods (by rw [hsame]) fun p hp hc _ => ?_
    rw [hcreated] at hc
    exact ⟨hpods ▸ hp, hc⟩

theorem GuardInv.next {i : Request ServiceBody PodBody} {o : Response i} (h : GuardInv svc₀ a)
    (ho : World.serve a i o b) (hG : guardGuarantee svc₀ a i o b) : GuardInv svc₀ b := by
  have unchanged : b.store = a.store → b.created = a.created → GuardInv svc₀ b := by
    intro hs hc
    exact h.of_pods (by rw [hs]) fun p hp hpc _ => ⟨hs ▸ hp, hc ▸ hpc⟩
  obtain ⟨hserve, -, hcreated⟩ := id ho
  cases i with
  | get key => exact unchanged (Store.serve_get hserve) hcreated
  | list ns selector => exact unchanged (Store.serve_list hserve) hcreated
  | create pod => exact h.create ho hG
  | update w => exact h.update ho hG
  | delete x =>
    have hcreated : b.created = a.created := hcreated
    refine h.of_pods (Store.serve_delete hserve).1 fun p hp hc hact => ?_
    exact ⟨Store.mem_of_serve_delete hserve hp hact, hcreated ▸ hc⟩
  | updateOwner w => exact h.updateOwner ho hG
  | rand n => exact unchanged hserve hcreated

theorem GuardInv.env (h : GuardInv svc₀ a) (hs : (guardSystem r svc₀.key).env a b) :
    GuardInv svc₀ b := by
  obtain ⟨hpods, hfin, hsame⟩ := hs.1.frame
  refine ⟨fun svc hfind => ?_, ?_, fun p hp hc hact => ?_⟩
  · obtain ⟨svc', hfind', huid⟩ := hsame svc hfind
    exact huid.trans (h.same svc' hfind')
  · rw [hpods, hs.2]
    exact h.serves
  · rw [hpods] at hp
    rw [hs.2] at hc
    exact hfin (h.guarded p hp hc hact)

abbrev guardedSystem (r : ServiceReconciler) (key : NamespacedName) :
    System Unit (Request ServiceBody PodBody) Response World (Option GoError) :=
  (guardSystem r key).restrict NoFailedDelete

/-- What may happen between two requests of a run, and the answers a run sees. -/
abbrev guardRely (r : ServiceReconciler) (svc₀ : Service) : World → World → Prop :=
  Relation.ReflTransGen
    ((guardedSystem r svc₀.key).Rely (GuardInv svc₀) (fun _ => guardGuarantee svc₀) ())

abbrev guardServe (r : ServiceReconciler) (svc₀ : Service) :
    Server (Request ServiceBody PodBody) Response World :=
  (guardedSystem r svc₀.key).serveIn (GuardInv svc₀) ()

theorem guardRely_frame (h : guardRely r svc₀ a b) : b.store.pods = a.store.pods ∧
    (Finalized svc₀.key a.store → Finalized svc₀.key b.store) := by
  induction h with
  | refl => exact ⟨rfl, id⟩
  | tail _ hstep ih =>
    obtain ⟨-, henv | ⟨q, hq, -⟩⟩ := hstep
    · obtain ⟨hpods, hfin, -⟩ := henv.1.frame
      exact ⟨hpods.trans ih.1, hfin ∘ ih.2⟩
    · exact absurd rfl hq

def StillFinalized (svc₀ svc : Service) (a : World) : Prop :=
  finalizerName ∈ svc.finalizers → Finalized svc₀.key a.store

theorem guardEmbeds : Embeds World.store (guardRely r svc₀) (guardServe r svc₀)
    (StillFinalized svc₀ svc) where
  serve _ _ _ _ ho := ho.2.1.1
  pods _ _ hab := (guardRely_frame hab).1
  stable _ _ h hab hfin := (guardRely_frame hab).2 (h hfin)

private theorem stillFinalized_of_services (h : StillFinalized svc₀ svc a)
    (hs : b.store.services = a.store.services) : StillFinalized svc₀ svc b := by
  intro hfin
  unfold Finalized
  rw [hs]
  exact h hfin

private theorem wp_createPod_guard (hsvc : ReadAs svc₀ svc) (h : Finalized svc₀.key a.store) :
    (r.createPod svc).wp (guardRely r svc₀) (guardServe r svc₀) (guardGuarantee svc₀)
      (fun _ _ => True) a := by
  refine ServiceReconciler.wp_createPod (fun a => Finalized svc₀.key a.store) h
    (fun _ _ h hab => (guardRely_frame hab).2 h) (fun _ _ _ => trivial) ?_ ?_
  · intro a h o b ho
    obtain hs : b.store = a.store := ho.2.1.1
    exact ⟨trivial, hs ▸ h⟩
  · intro template name pod _ hpod a h o b _
    exact ⟨⟨h, fun uid => hsvc.serves.mp (serves_created hpod)⟩, fun _ _ => trivial,
      fun _ _ _ => trivial⟩

private theorem wp_provide_guard {req : NamespacedName} {claimed : List Pod}
    (hsvc : ReadAs svc₀ svc) (h : StillFinalized svc₀ svc a) :
    (r.provide req svc claimed).wp (guardRely r svc₀) (guardServe r svc₀) (guardGuarantee svc₀)
      (fun _ _ => True) a := by
  refine ServiceReconciler.wp_provide (fun _ => True) trivial (fun _ _ _ _ => trivial) ?_
    (fun hfin _ => wp_createPod_guard hsvc (h hfin)) (fun _ _ => trivial)
  intro _ a _ o b ho
  refine ⟨⟨hsvc.key, hsvc.uid, fun hno => by simp at hno⟩, ?_, fun _ _ _ => trivial,
    fun _ _ _ => trivial⟩
  rintro stored rfl -
  obtain ⟨-, -, ⟨_, cur, ⟨⟩, -, -, hst, hres⟩ | ⟨err, he, -⟩⟩ := Store.serve_updateOwner ho.2.1.1
  · have hstored : ReadAs svc₀ stored := by
      rw [hst]
      exact ⟨hsvc.key, hsvc.uid⟩
    refine wp_createPod_guard hstored ?_
    rcases hres with hres | ⟨-, hnil, -⟩
    · have hres : b.store.services.find? svc.key = some stored := hres
      rw [hsvc.key] at hres
      exact ⟨stored, hres, by rw [hst]; simp⟩
    · simp at hnil
  · cases he

private theorem wp_cleanUp_guard {req : NamespacedName} {claimed : List Pod}
    (hsvc : ReadAs svc₀ svc) (h : AllClaimed svc claimed a.store.pods) :
    (ServiceReconciler.cleanUp req svc claimed).wp (guardRely r svc₀) (guardServe r svc₀)
      (guardGuarantee svc₀) (fun _ _ => True) a := by
  refine ServiceReconciler.wp_cleanUp
    (fun done _ a => Clearing svc claimed done a.store.pods) (.init h) ?_ ?_ ?_
  · intro done errs a b h hab
    obtain ⟨hpods, -⟩ := guardRely_frame hab
    rw [hpods]
    exact h
  · intro wrapErr done x rest errs a _ h o b ho
    obtain ⟨-, ⟨hserve, hhonest, -⟩, hcond⟩ := ho
    refine ⟨trivial, h.delete hserve fun y hy hk => ?_⟩
    cases o with
    | ok u => exact Store.inactive_of_serve_delete hserve (fun _ he => by cases he) hy hk
    | error err =>
      by_contra hact
      rw [Bool.not_eq_false] at hact
      have hold := Store.mem_of_serve_delete hserve hy hact
      rcases hcond with hnf | hcond
      · exact Table.find?_eq_none.mp (hhonest hnf) y hold hk
      · simp [hcond y hold hk] at hact
  · intro errs a h o b ho
    refine ⟨⟨hsvc.key, hsvc.uid, fun _ p hp hsv => ?_⟩, fun _ _ => trivial, fun _ _ _ => trivial⟩
    exact h.not_serves hp (hsvc.serves.mpr hsv)

theorem wp_reconcile_guard : (r.reconcile svc₀.key).wp (guardRely r svc₀) (guardServe r svc₀)
    (guardGuarantee svc₀) (fun _ _ => True) a := by
  refine ServiceReconciler.wp_reconcile (fun _ => True)
    (fun svc a => ReadAs svc₀ svc ∧ StillFinalized svc₀ svc a) trivial
    (fun _ _ _ _ => trivial) ?_ ?_ ?_
  · exact fun svc a b h hab => ⟨h.1, guardEmbeds.stable a b h.2 hab⟩
  · intro a _ o b ho
    refine ⟨trivial, ?_, fun _ _ => trivial⟩
    rintro svc rfl
    obtain ⟨hI, ⟨⟨hfind, hs⟩, -⟩, -⟩ := ho
    refine ⟨⟨(Table.find?_eq_some.mp hfind).2, hI.same svc hfind⟩, fun hfin => ?_⟩
    rw [hs]
    exact ⟨svc, hfind, hfin⟩
  · intro svc a ⟨hsvc, hfin⟩ o b ho
    refine ⟨trivial, ?_, fun _ _ => trivial⟩
    rintro items rfl
    obtain ⟨hperm, hs⟩ := ho.2.1.1
    have hembeds : Embeds World.store (guardRely r svc₀) (guardServe r svc₀)
        (StillFinalized svc₀ svc) := guardEmbeds
    refine wp_settle_serving hembeds (hs ▸ hperm)
      (stillFinalized_of_services hfin (by rw [hs])) ?_ ?_ ?_ (fun _ _ _ => trivial)
      (fun claimed a h _ _ => wp_provide_guard hsvc h)
      (fun claimed a _ h _ => wp_cleanUp_guard hsvc h)
    · intro a h key o b ho
      have hs : b.store = a.store := Store.serve_get ho.2.1.1
      exact ⟨trivial, stillFinalized_of_services h (by rw [hs])⟩
    · intro a w x h hx hact horphan hkey o b ho
      exact ⟨⟨x, hx, hkey.symm, hact, horphan⟩,
        stillFinalized_of_services h (Store.serve_update ho.2.1.1).1⟩
    · intro a x h o b ho
      exact ⟨trivial, stillFinalized_of_services h (Store.serve_delete ho.2.1.1).1⟩

theorem guard_compatible : (guardedSystem r svc₀.key).Compatible (GuardInv svc₀)
    (fun _ => guardGuarantee svc₀) (fun _ _ _ => True) where
  env _ _ h hab := h.env (r := r) hab
  guarantee _ _ _ _ _ h ho hG := h.next ho.1 hG
  start _ _ _ _ hprog := hprog ▸ wp_reconcile_guard
  stable _ _ _ _ _ _ := trivial

/-- As long as no delete of an active pod fails, the finalizer stays until the created pods
are gone, in every state a run passes through. Whenever a request that drops the finalizer is
about to be sent, no pod serves the Service any more, created by a run or claimed by it. -/
theorem finalizer_guards_pods (r : ServiceReconciler) (svc₀ : Service) (s₀ : Store)
    (hsvc : s₀.services.find? svc₀.key = some svc₀)
    (ls : List (Label Unit (Request ServiceBody PodBody) Response (Option GoError)))
    (c : Config Unit (Request ServiceBody PodBody) Response World (Option GoError))
    (hrun : System.Run ((guardSystem r svc₀.key).restrict NoFailedDelete)
      (System.idle ⟨s₀, []⟩) ls c) :
    Guarded svc₀.key c.state ∧
      ∀ w k, c.procs () = some (.request (.updateOwner w) k) → finalizerName ∉ w.finalizers →
        ∀ p ∈ c.state.store.pods, ¬ Serves svc₀ p ∧
          (p.key ∈ c.state.created → isPodActive p = false) := by
  have hinit : GuardInv svc₀ ⟨s₀, []⟩ :=
    ⟨fun svc hfind => by cases hsvc.symm.trans hfind; rfl, by simp, by simp [Guarded]⟩
  have hinv := (System.inv_idle hinit).run guard_compatible hrun
  refine ⟨hinv.1.guarded, fun w k hproc hno p hp => ?_⟩
  have hserve : (guardedSystem r svc₀.key).serve () c.state (.updateOwner w)
      (.error (.text "")) c.state := ⟨⟨rfl, by simp [Store.Honest], rfl⟩, trivial⟩
  have hgone : ¬ Serves svc₀ p := (hinv.guarantee hproc hserve).2.2 hno p hp
  refine ⟨hgone, fun hc => ?_⟩
  by_contra hact
  rw [Bool.not_eq_false] at hact
  exact hgone (hinv.1.serves p hp hc hact)

/-- A server on which every call succeeds that can, except that deletes may be refused. -/
def worldHandle (refuse : Bool) (a : World) :
    (i : Request ServiceBody PodBody) → Response i × World
  | .delete x =>
    if refuse then (.error (.status ⟨.internalError, 500, "etcdserver: request timed out"⟩), a)
    else ((Store.handle (fun _ => "abcde") a.store (.delete x)).1,
      ⟨(Store.handle (fun _ => "abcde") a.store (.delete x)).2, a.created⟩)
  | i => ((Store.handle (fun _ => "abcde") a.store i).1,
      ⟨(Store.handle (fun _ => "abcde") a.store i).2,
        createdBy i (Store.handle (fun _ => "abcde") a.store i).1 ++ a.created⟩)

theorem serve_worldHandle (refuse : Bool) (a : World) (i : Request ServiceBody PodBody) :
    World.serve a i (worldHandle refuse a i).1 (worldHandle refuse a i).2 := by
  have h := Store.serve_handle (fun _ => "abcde") a.store i
  have h' := Store.honest_handle (fun _ => "abcde") a.store i
  cases i with
  | delete x =>
    cases refuse with
    | false => exact ⟨h, h', rfl⟩
    | true => exact ⟨rfl, fun hnf => (by cases hnf), rfl⟩
  | get key => exact ⟨h, h', rfl⟩
  | list ns selector => exact ⟨h, h', rfl⟩
  | create pod => exact ⟨h, h', rfl⟩
  | update w => exact ⟨h, h', rfl⟩
  | updateOwner w => exact ⟨h, h', rfl⟩
  | rand n => exact ⟨h, h', rfl⟩

theorem noFailedDelete_worldHandle (a : World) (i : Request ServiceBody PodBody) :
    NoFailedDelete a i (worldHandle false a i).1 := by
  cases i with
  | delete x =>
    cases h : a.store.pods.find? x.key with
    | none => simp [worldHandle, Store.handle, h, NoFailedDelete, Store.notFoundError,
        GoError.isNotFound, GoError.asStatus]
    | some cur => simp [worldHandle, Store.handle, h, NoFailedDelete]
  | get key => trivial
  | list ns selector => trivial
  | create pod => trivial
  | update w => trivial
  | updateOwner w => trivial
  | rand n => trivial

def worldAfter (refuse : Bool) (a : World) : World :=
  (Program.run (worldHandle refuse) (emptyTemplate.reconcile newService.key) a).2.2

private theorem run_worldAfter (refuse : Bool) (a : World) : ∃ ls,
    System.Run (guardSystem emptyTemplate newService.key) (System.idle a) ls
      (System.idle (worldAfter refuse a)) :=
  ⟨_, System.run_program (p := ()) rfl rfl (Program.exec_run (serve_worldHandle refuse) _ a)⟩

/-- The first run for a new Service: there is a pod then, and the finalizer with it. -/
theorem finalizer_guards_pods_newStore :
    (worldAfter false ⟨newStore, []⟩).store.pods.entries.map Object.key =
      [⟨"default", "frp-client-webabcde"⟩] ∧
    Guarded newService.key (worldAfter false ⟨newStore, []⟩) := by
  have hserve : ∀ a i, (guardedSystem emptyTemplate newService.key).serve () a i
      (worldHandle false a i).1 (worldHandle false a i).2 := fun a i =>
    ⟨serve_worldHandle false a i, noFailedDelete_worldHandle a i⟩
  have hexec := Program.exec_run hserve (emptyTemplate.reconcile newService.key) ⟨newStore, []⟩
  exact ⟨by decide, (finalizer_guards_pods emptyTemplate newService newStore rfl _ _
    (System.run_program rfl rfl hexec)).1⟩

def trackedService : Service := { webService with resourceVersion := 2 }

/-- The user makes the Service one that needs no frp client. -/
def unwantedWorld : World where
  store := (worldAfter false ⟨newStore, []⟩).store.putService
    { trackedService with body := { trackedService.body with type := .clusterIP } }
  created := (worldAfter false ⟨newStore, []⟩).created

/-- The delete of the claimed pod fails in the next run, and the finalizer goes all the same. -/
theorem finalizer_lost_after_failed_delete :
    ∃ ls c, System.Run (guardSystem emptyTemplate newService.key)
      (System.idle ⟨newStore, []⟩) ls c ∧ ¬ Guarded newService.key c.state := by
  obtain ⟨ls₁, hrun₁⟩ := run_worldAfter false ⟨newStore, []⟩
  have hfind : (worldAfter false ⟨newStore, []⟩).store.services.find? newService.key =
      some trackedService := by decide
  have henv : (guardSystem emptyTemplate newService.key).env
      (worldAfter false ⟨newStore, []⟩) unwantedWorld :=
    ⟨@UserStep.edit _ _ trackedService .clusterIP trackedService.annotations hfind, rfl⟩
  obtain ⟨ls₂, hrun₂⟩ := run_worldAfter true unwantedWorld
  exact ⟨_, _, hrun₁.append (.cons (.env henv) hrun₂), by decide⟩

end
end FrpProvisioner
