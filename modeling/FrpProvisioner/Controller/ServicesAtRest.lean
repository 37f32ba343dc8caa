import FrpProvisioner.Controller.QuietRuns

/-! What the Service controller has achieved when it is at rest. Any number of workers run, any
call may fail, the caches lag behind and everyone writes to the store; once no change is on its
way and no key is queued, every Service has what it asks for. The argument is about the last run
for a key: a run that wrote anything that concerns its key would have caused another one. -/
namespace FrpProvisioner
open Effect

/-- The controller of `SetupWithManager`; its reconciler returns an empty result, and no error
is a terminal one. -/
def serviceController (r : ServiceReconciler) (keyOf : String → Option NamespacedName)
    (own : OwnsPods) :
    Controller NamespacedName (Request ServiceBody PodBody) Response ServiceWorld GoError where
  reconcile key := do
    let err ← r.reconcile key
    return { requeue := false, requeueAfter := 0, err := err }
  serve := ServiceWorld.serve
  env := ServiceWorld.Env keyOf own
  terminal _ := false

section Guarantee
variable {r : ServiceReconciler} {keyOf : String → Option NamespacedName}
  {R : ServiceWorld → ServiceWorld → Prop} {w : ServiceWorld} {svc : Service}
  {req : NamespacedName}

/-- The server in good states, and what the reconciler asks of it. -/
abbrev goodServe (keyOf : String → Option NamespacedName) :
    Server (Request ServiceBody PodBody) Response ServiceWorld :=
  fun w i o w' => ServiceWorld.Good keyOf w ∧ ServiceWorld.serve w i o w'

abbrev honestly (keyOf : String → Option NamespacedName) :
    Server (Request ServiceBody PodBody) Response ServiceWorld :=
  fun _ i _ _ => HonestRequest keyOf i

open ServiceWorld

private theorem wp_createPod_honest (hR : ∀ w w', Good keyOf w → R w w' → Good keyOf w')
    (hsvc : HonestService keyOf svc) (hw : Good keyOf w) :
    (r.createPod svc).wp R (goodServe keyOf) (honestly keyOf) (fun _ _ => True) w := by
  refine ServiceReconciler.wp_createPod (Good keyOf) hw hR (fun _ _ _ => trivial) ?_ ?_
  · intro w _ o w' ho
    exact ⟨trivial, ho.1.serve ho.2 trivial⟩
  · intro template name pod _ hpod w _ o w' ho
    exact ⟨honest_templatePod hsvc hpod, fun _ _ => trivial, fun _ _ _ => trivial⟩

private theorem wp_settle_honest (hR : ∀ w w', Good keyOf w → R w w' → Good keyOf w')
    (hsvc : HonestService keyOf svc) {activePods inactivePods : List Pod}
    (hactive : ∀ p ∈ activePods, podSelector svc p.labels = true) (hw : Good keyOf w) :
    (r.settle req svc activePods inactivePods).wp R (goodServe keyOf) (honestly keyOf)
      (fun _ _ => True) w := by
  have hdelete : ∀ x w, Good keyOf w → ∀ o w', goodServe keyOf w (.delete x) o w' →
      HonestRequest keyOf (.delete x) ∧ Good keyOf w' := by
    intro x w _ o w' ho
    exact ⟨trivial, ho.1.serve ho.2 trivial⟩
  refine ServiceReconciler.wp_settle (fun _ _ => Good keyOf) hw ?_ (fun _ _ _ _ _ => trivial) ?_
  · intro done x rest st w hl hw
    have hx : podSelector svc x.labels = true := hactive x (by simp [hl])
    refine ⟨Good keyOf, fun _ => Good keyOf, hw, RefManager.ClaimSpec.of_assertion hR ?_
      (fun _ _ _ hw => hw) (fun _ _ _ _ _ hw => hw) ?_ ?_⟩
    · intro w _ o w' ho
      exact ⟨trivial, ho.1.serve ho.2 trivial⟩
    · intro pod hadopt w _ o w' ho
      have hpod : HonestPod keyOf pod := honest_setControllerReference hsvc hadopt.write
      have hw' := ho.1.serve ho.2 hpod
      exact ⟨hpod, fun _ _ => hw', fun _ _ _ _ _ => hw'⟩
    · intro pod hrelease
      have hno := hrelease.noMatch
      simp [RefManager.matching, ServiceReconciler.refManager, hx] at hno
  · intro st w hw _
    refine ServiceReconciler.wp_converge (fun _ _ => Good keyOf) hw (fun _ _ => hR)
      (fun _ x _ _ w _ hw => hdelete x w hw) (fun _ _ _ _ _ => trivial) ?_ ?_
    · intro w hw _
      refine ServiceReconciler.wp_provide (Good keyOf) hw hR ?_
        (fun _ _ => wp_createPod_honest hR hsvc hw) (fun _ _ => trivial)
      intro _ w _ o w' ho
      have hreq : HonestRequest keyOf
        (.updateOwner { svc with finalizers := svc.finalizers ++ [finalizerName] }) := hsvc
      have hw' := ho.1.serve ho.2 hreq
      refine ⟨hreq, fun stored hok _ => wp_createPod_honest hR ?_ hw', fun _ _ _ => trivial,
        fun _ _ _ => trivial⟩
      -- what comes back is what was sent, with a new version
      obtain ⟨s, hserve, -, -⟩ := ho.2
      obtain ⟨-, -, ⟨stored', cur, heq, -, -, hstored, -⟩ | ⟨err, heq, -⟩⟩ :=
        Store.serve_updateOwner hserve
      · obtain rfl := Except.ok.inj (hok.symm.trans heq)
        rw [hstored]
        exact hsvc
      · cases hok.symm.trans heq
    · intro w hw _
      refine ServiceReconciler.wp_cleanUp (fun _ _ => Good keyOf) hw (fun _ _ => hR)
        (fun _ _ x _ _ w _ hw => hdelete x w hw) ?_
      intro _ w _ o w' ho
      exact ⟨hsvc, fun _ _ => trivial, fun _ _ _ => trivial⟩

/-- Whatever happens in between, a run writes honest references. -/
theorem wp_reconcile_honest (hR : ∀ w w', Good keyOf w → R w w' → Good keyOf w')
    (hw : Good keyOf w) :
    (r.reconcile req).wp R (goodServe keyOf) (honestly keyOf) (fun _ _ => True) w := by
  refine ServiceReconciler.wp_reconcile (Good keyOf)
    (fun svc w => Good keyOf w ∧ HonestService keyOf svc) hw hR
    (fun svc w w' hw h => ⟨hR w w' hw.1 h, hw.2⟩) ?_ ?_
  · rintro w - o w' ⟨hw, hget, -, rfl⟩
    refine ⟨trivial, fun svc hok => ⟨hw, ?_⟩, fun _ _ => trivial⟩
    subst hok
    exact hw.cached_service (Table.find?_eq_some.mp hget.1).1
  · rintro svc w ⟨-, hsvc⟩ o w' ⟨hw, hlist, rfl⟩
    refine ⟨trivial, fun items hok => wp_settle_honest hR hsvc (fun p hp => ?_) hw,
      fun _ _ => trivial⟩
    subst hok
    have hp := hlist.1.mem_iff.mp (List.mem_of_mem_filter hp)
    simp only [Store.select, List.mem_filter, Bool.and_eq_true] at hp
    exact hp.2.2

end Guarantee

/-- The processes of the Services keep the references honest, whatever they do to each other. -/
theorem serviceController_compatible (r : ServiceReconciler)
    (keyOf : String → Option NamespacedName) (own : OwnsPods) :
    (serviceController r keyOf own).system.Compatible (ServiceWorld.Good keyOf)
      (fun _ => honestly keyOf) (fun _ _ _ => True) where
  env := by
    rintro w w' hw ⟨added, henv⟩
    exact hw.env henv
  guarantee _ _ _ _ _ hw hs hi := hw.serve hs hi
  start := by
    rintro k w prog hw rfl
    refine Program.wp_seq (P := fun _ _ => True) (wp_reconcile_honest ?_ hw)
      (fun _ _ _ => trivial)
    intro w w' hw h
    induction h with
    | refl => exact hw
    | tail _ last _ => exact last.1
  stable _ _ _ _ _ _ := trivial

/-- Changes reach the reconciler, and a run that sees the last of them settles the Service. -/
theorem serviceController_levelTriggered (r : ServiceReconciler)
    (keyOf : String → Option NamespacedName) (own : OwnsPods) :
    Controller.LevelTriggered (serviceController r keyOf own) (ServiceWorld.Good keyOf)
      (ServiceWorld.Owed own) (ServiceWorld.Keeps own) ServiceSettled
      (fun _ => honestly keyOf) :=
  Watching.levelTriggered (W := own.watching keyOf) rfl (fun _ => rfl) (fun _ => rfl)
    (fun _ _ _ hw he k => hw.owed_env he k) (fun _ _ h => wp_reconcile_quiet h)
    fun _ _ _ hw hw' hk h => serviceSettled_of_keeps hw hw' hk h

namespace ServiceWorld

/-- Both informers have listed what is stored. -/
def start (s : Store) : ServiceWorld :=
  ⟨s, Informer.new.relist s.services, Informer.new.relist s.pods⟩

theorem good_start {keyOf : String → Option NamespacedName} {s : Store}
    (hs : HonestStore keyOf s) (hservices : ∀ svc ∈ s.services, svc.resourceVersion ≤ s.revision)
    (hpods : ∀ p ∈ s.pods, p.resourceVersion ≤ s.revision) : Good keyOf (start s) :=
  ⟨Informer.live_relist fun svc hsvc => ⟨hs.services svc hsvc, hservices svc hsvc⟩,
    Informer.live_relist fun p hp => ⟨hs.pods p hp, hpods p hp⟩⟩

structure Drained (w : ServiceWorld) : Prop where
  services : w.services.Drained
  pods : w.pods.Drained

theorem Good.not_owed {keyOf : String → Option NamespacedName} {w : ServiceWorld}
    (h : Good keyOf w) (hd : w.Drained) (own : OwnsPods) (k : NamespacedName) :
    ¬ Owed own k w := by
  rintro (hs | hp)
  · exact h.services.toTracks.not_owed hd.services hs
  · exact h.pods.toTracks.not_owed hd.pods hp

end ServiceWorld

/-- However the workers, the informers and everyone else take turns: when the controller is at
rest and its informers have caught up, every Service has what it asks for. -/
theorem services_provided_at_rest (r : ServiceReconciler)
    (keyOf : String → Option NamespacedName) (own : OwnsPods) {ω : Type} [DecidableEq ω]
    {s : Store} (hs : HonestStore keyOf s)
    (hservices : ∀ svc ∈ s.services, svc.resourceVersion ≤ s.revision)
    (hpods : ∀ p ∈ s.pods, p.resourceVersion ≤ s.revision)
    {ls : List (Controller.Label ω NamespacedName (Request ServiceBody PodBody) Response GoError)}
    {c : Controller.State ω NamespacedName (Request ServiceBody PodBody) Response ServiceWorld
      GoError}
    (h : Controller.Runs (serviceController r keyOf own) (ServiceWorld.start s) ls c)
    (hrest : Controller.AtRest c) (hdrained : c.world.Drained) {svc : Service}
    (hsvc : svc ∈ c.world.store.services) : Provided svc c.world.store := by
  have hgood := ServiceWorld.good_start hs hservices hpods
  have hcompatible := serviceController_compatible r keyOf own
  -- at first every Service is owed a run
  have hfirst : ∀ k, ServiceWorld.Owed own k (ServiceWorld.start s) ∨
      ServiceSettled k (ServiceWorld.start s) := by
    intro k
    by_cases hk : ∃ svc ∈ s.services, svc.key = k
    · obtain ⟨svc, hsvc, hk⟩ := hk
      exact Or.inl (Or.inl (Informer.owed_relist hsvc hk))
    · exact Or.inr fun svc hsvc hkey => absurd ⟨svc, hsvc, hkey⟩ hk
  have hquiet := (h.world_inv hcompatible hgood).not_owed hdrained own svc.key
  exact h.settled_at_rest hcompatible (serviceController_levelTriggered r keyOf own) hgood hfirst
    hrest hquiet svc hsvc rfl

section Sample

def onlyWeb (uid : String) : Option NamespacedName :=
  if uid = webService.uid then some webService.key else none

def coreOnly : OwnsPods := ⟨fun _ => some .namespaced, rfl⟩

theorem honest_newStore : HonestStore onlyWeb newStore := by
  refine ⟨fun svc hsvc => ?_, fun p hp => ?_⟩
  · rcases Table.mem_upsert.mp hsvc with rfl | ⟨hsvc, -⟩
    · rfl
    · cases hsvc
  · cases hp

/-- A new Service and one worker: the first run adds the finalizer and creates a pod, and the
second one, for the changes the first has made, finds nothing to do. -/
theorem exists_run_web :
    ∃ (ls : List (Controller.Label Unit NamespacedName (Request ServiceBody PodBody) Response
          GoError))
      (c : Controller.State Unit NamespacedName (Request ServiceBody PodBody) Response
        ServiceWorld GoError),
      Controller.Runs (serviceController emptyTemplate onlyWeb coreOnly)
          (ServiceWorld.start newStore) ls c ∧
        Controller.AtRest c ∧ c.world.Drained ∧
        { webService with resourceVersion := 2 } ∈ c.world.store.services ∧
        c.world.store.pods.entries.map (fun p => (p.ns, p.ownerReferences.map OwnerReference.uid)) =
          [("default", [webService.uid])] ∧
        (c.world.cached.select "default" (podSelector webService)).length = 1 := by
  have h : Controller.Runs (serviceController emptyTemplate onlyWeb coreOnly)
      (ServiceWorld.start newStore) [] (Controller.start _ : Controller.State Unit _ _ _ _ _) :=
    .nil
  have h := Trace.snoc h (.env (.services (.pop false)))
  have h := Trace.snoc h (.env (.services (.deliver (show _ = [_] from rfl))))
  obtain ⟨_, h⟩ := Controller.Runs.turn (ServiceWorld.serve_handle fun _ => "abcde") h () rfl
    newService.key [] rfl
  have h := Trace.snoc h (.env (.services .event))
  have h := Trace.snoc h (.env (.pods .event))
  have h := Trace.snoc h (.env (.services (.pop false)))
  have h := Trace.snoc h (.env (.pods (.pop false)))
  have h := Trace.snoc h (.env (.services (.deliver (show _ = [_] from rfl))))
  have h := Trace.snoc h (.env (.pods (.deliver (show _ = [_] from rfl))))
  obtain ⟨_, h⟩ := Controller.Runs.turn (ServiceWorld.serve_handle fun _ => "abcde") h () rfl
    newService.key [] rfl
  exact ⟨_, _, h, ⟨rfl, rfl, rfl, rfl, fun _ => rfl⟩, ⟨⟨rfl, rfl, rfl⟩, ⟨rfl, rfl, rfl⟩⟩,
    by decide, by decide, by decide⟩

theorem services_provided_at_rest_web :
    ∃ (ls : List (Controller.Label Unit NamespacedName (Request ServiceBody PodBody) Response
          GoError))
      (c : Controller.State Unit NamespacedName (Request ServiceBody PodBody) Response
        ServiceWorld GoError),
      Controller.Runs (serviceController emptyTemplate onlyWeb coreOnly)
          (ServiceWorld.start newStore) ls c ∧
        ∃ svc ∈ c.world.store.services, Wanted svc ∧ Provided svc c.world.store := by
  obtain ⟨ls, c, h, hrest, hdrained, hsvc, -⟩ := exists_run_web
  exact ⟨ls, c, h, _, hsvc, (isWanted_iff _).mp rfl, services_provided_at_rest emptyTemplate
    onlyWeb coreOnly honest_newStore (by decide) (by decide) h hrest hdrained hsvc⟩

end Sample

end FrpProvisioner
