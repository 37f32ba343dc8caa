import FrpProvisioner.Controller.Serving
import FrpProvisioner.Runtime.AtRest
import FrpProvisioner.Runtime.Handlers

/-! The Service controller as `SetupWithManager` builds it, `For` Services and `Owns` Pods. The
reconciler reads from the caches of two informers and writes to the API server, where others
write as well. -/
namespace FrpProvisioner
open Effect

namespace Store

/-- Whoever writes, the versions of what is written are new. -/
structure Advances (s s' : Store) : Prop where
  services : Informer.Advances Object.version s.services s.revision s'.services s'.revision
  pods : Informer.Advances Object.version s.pods s.revision s'.pods s'.revision

variable {s s' : Store}

theorem Advances.refl (s : Store) : s.Advances s :=
  ⟨⟨le_rfl, fun _ hy => Or.inl hy⟩, ⟨le_rfl, fun _ hy => Or.inl hy⟩⟩

theorem advances_replacePod (w : Pod) : s.Advances (s.replacePod w) where
  services := ⟨Nat.le_succ _, fun _ hy => Or.inl hy⟩
  pods := by
    refine ⟨Nat.le_succ _, fun y hy => ?_⟩
    rcases mem_replacePod.mp hy with ⟨rfl, -⟩ | ⟨hy, -⟩
    · exact Or.inr ⟨Nat.lt_succ_self _, le_rfl⟩
    · exact Or.inl hy

theorem advances_updateService (cur w : Service) : s.Advances (s.updateService cur w).2 := by
  unfold updateService replaceService
  split_ifs
  · exact .refl s
  · refine ⟨⟨Nat.le_succ _, fun y hy => ?_⟩, ⟨Nat.le_succ _, fun _ hy => Or.inl hy⟩⟩
    exact Or.inl (Table.mem_erase.mp hy).1
  · refine ⟨⟨Nat.le_succ _, fun y hy => ?_⟩, ⟨Nat.le_succ _, fun _ hy => Or.inl hy⟩⟩
    rcases Table.mem_replace.mp hy with ⟨rfl, -⟩ | ⟨hy, -⟩
    · exact Or.inr ⟨Nat.lt_succ_self _, le_rfl⟩
    · exact Or.inl hy

theorem advances_serve {i : Request ServiceBody PodBody} {o : Response i}
    (h : s.serve i o s') : s.Advances s' := by
  cases i with
  | get key => exact serve_get h ▸ .refl s
  | list ns selector => exact serve_list h ▸ .refl s
  | rand n =>
    have hsame : s' = s := h
    exact hsame ▸ .refl s
  | create pod =>
    cases o with
    | error err =>
      have hsame : s' = s := h
      exact hsame ▸ .refl s
    | ok stored =>
      obtain ⟨-, uid, rfl, rfl⟩ := h
      refine ⟨⟨Nat.le_succ _, fun _ hy => Or.inl hy⟩, ⟨Nat.le_succ _, fun y hy => ?_⟩⟩
      rcases Table.mem_upsert.mp hy with rfl | ⟨hy, -⟩
      · exact Or.inr ⟨Nat.lt_succ_self _, le_rfl⟩
      · exact Or.inl hy
  | update w =>
    cases o with
    | error err =>
      have hsame : s' = s := h
      exact hsame ▸ .refl s
    | ok stored =>
      obtain ⟨cur, -, -, heq⟩ := h
      obtain rfl : s' = (s.updatePod cur w).2 := congrArg Prod.snd heq
      unfold updatePod
      split_ifs
      · exact .refl s
      · exact advances_replacePod w
  | delete pod =>
    cases o with
    | error err =>
      have hsame : s' = s := h
      exact hsame ▸ .refl s
    | ok u =>
      obtain ⟨cur, -, ⟨-, rfl⟩ | ⟨-, rfl | ⟨t, rfl⟩⟩⟩ := h
      · exact .refl s'
      · refine ⟨⟨Nat.le_succ _, fun _ hy => Or.inl hy⟩, ⟨Nat.le_succ _, fun y hy => ?_⟩⟩
        exact Or.inl (Table.mem_erase.mp hy).1
      · exact advances_replacePod _
  | updateOwner w =>
    cases o with
    | error err =>
      have hsame : s' = s := h
      exact hsame ▸ .refl s
    | ok stored =>
      obtain ⟨cur, -, -, heq⟩ := h
      obtain rfl : s' = (s.updateService cur w).2 := congrArg Prod.snd heq
      exact advances_updateService cur w

end Store

structure ServiceWorld where
  store : Store
  services : Informer (Object.key : Service → NamespacedName)
  pods : Informer (Object.key : Pod → NamespacedName)

namespace ServiceWorld

/-- What the cached client of the manager reads. -/
def cached (w : ServiceWorld) : Store := ⟨w.services.indexer, w.pods.indexer, w.store.revision⟩

/-- The watches of both kinds report what a write has changed. -/
def write (w : ServiceWorld) (s : Store) : ServiceWorld :=
  ⟨s, w.services.record w.store.services s.services, w.pods.record w.store.pods s.pods⟩

/-- Reads are answered from the caches, everything else by the store. -/
def serve : Server (Request ServiceBody PodBody) Response ServiceWorld
  | w, .get key, o, w' =>
      w.cached.serve (.get key) o w.cached ∧ w.cached.Honest (.get key) o ∧ w' = w
  | w, .list ns selector, o, w' => w.cached.serve (.list ns selector) o w.cached ∧ w' = w
  | w, i, o, w' => ∃ s, w.store.serve i o s ∧ w.store.Honest i o ∧ w' = w.write s

def handle (draw : Store → String) (w : ServiceWorld) :
    (i : Request ServiceBody PodBody) → Response i × ServiceWorld
  | .get key => ((Store.handle draw w.cached (.get key)).1, w)
  | .list ns selector => ((Store.handle draw w.cached (.list ns selector)).1, w)
  | i => ((Store.handle draw w.store i).1, w.write (Store.handle draw w.store i).2)

theorem serve_handle (draw : Store → String) (w : ServiceWorld)
    (i : Request ServiceBody PodBody) : serve w i (handle draw w i).1 (handle draw w i).2 := by
  have hread := Store.serve_handle draw w.cached i
  have hwrite := Store.serve_handle draw w.store i
  have hhonest := Store.honest_handle draw w.store i
  cases i with
  | get key =>
    refine ⟨?_, Store.honest_handle draw w.cached (.get key), rfl⟩
    rw [Store.serve_get hread] at hread
    exact hread
  | list ns selector => exact ⟨hread, rfl⟩
  | create pod => exact ⟨_, hwrite, hhonest, rfl⟩
  | update pod => exact ⟨_, hwrite, hhonest, rfl⟩
  | delete pod => exact ⟨_, hwrite, hhonest, rfl⟩
  | updateOwner svc => exact ⟨_, hwrite, hhonest, rfl⟩
  | rand n => exact ⟨_, hwrite, hhonest, rfl⟩

end ServiceWorld

section Honesty
variable (keyOf : String → Option NamespacedName)

/-- The UID of a Service is not used for a Service with another key, at any time. -/
def HonestService (svc : Service) : Prop := keyOf svc.uid = some svc.key

/-- A controller reference with the UID of a Service names that Service. -/
def HonestPod (p : Pod) : Prop := ∀ ref key, getControllerOf p = some ref →
  keyOf ref.uid = some key → ref.apiVersion = "v1" ∧ ref.kind = "Service" ∧ ref.name = key.name

structure HonestStore (s : Store) : Prop where
  services : ∀ svc ∈ s.services, HonestService keyOf svc
  pods : ∀ p ∈ s.pods, HonestPod keyOf p

end Honesty

/-- The handler of `Owns(&v1.Pod{})`, whose mapper knows Services of the core group. -/
structure OwnsPods where
  mapper : String → Option RestScope
  services : mapper "v1" = some .namespaced

def OwnsPods.handler (own : OwnsPods) : EnqueueRequestForOwner := ⟨"", "Service", own.mapper⟩

/-- A pod that a Service controls is a reason to reconcile that Service. -/
theorem OwnsPods.request (own : OwnsPods) {keyOf : String → Option NamespacedName}
    {svc : Service} {p : Pod} (hsvc : HonestService keyOf svc) (hp : HonestPod keyOf p)
    (hns : p.ns = svc.ns) (hc : ControlledBy svc.uid p) :
    own.handler.getOwnerReconcileRequest p = some svc.key := by
  obtain ⟨ref, href, huid⟩ := Option.map_eq_some_iff.mp hc
  obtain ⟨hversion, hkind, hname⟩ := hp ref svc.key href (by rw [huid]; exact hsvc)
  have hparse : parseGroupVersion "v1" = some ("", "v1") := by decide
  simp only [EnqueueRequestForOwner.getOwnerReconcileRequest, href, Option.bind_some,
    EnqueueRequestForOwner.requestFor, hversion, hparse, handler, hkind, and_self, ↓reduceIte,
    own.services, hname, hns]
  rfl

namespace ServiceWorld
variable (keyOf : String → Option NamespacedName) (own : OwnsPods)

/-- What happens beside the workers: anyone writes to the store, and the informers go on. -/
inductive Env : ServiceWorld → List NamespacedName → ServiceWorld → Prop where
  | write {w : ServiceWorld} {s : Store} : w.store.Advances s → HonestStore keyOf s →
      Env w [] (w.write s)
  | services {w : ServiceWorld} {added : List NamespacedName}
      {inf : Informer (Object.key : Service → NamespacedName)} :
      Informer.Moves Object.version enqueueRequestForObject w.services added inf →
      Env w added { w with services := inf }
  | pods {w : ServiceWorld} {added : List NamespacedName}
      {inf : Informer (Object.key : Pod → NamespacedName)} :
      Informer.Moves Object.version own.handler.enqueue w.pods added inf →
      Env w added { w with pods := inf }

structure Good (w : ServiceWorld) : Prop where
  services : w.services.Live Object.version (HonestService keyOf) w.store.services
    w.store.revision
  pods : w.pods.Live Object.version (HonestPod keyOf) w.store.pods w.store.revision

/-- A change of the Service or of a pod it controls is on its way to the handlers. -/
def Owed (k : NamespacedName) (w : ServiceWorld) : Prop :=
  w.services.Owed (fun svc => svc.key = k) ∨
    w.pods.Owed (fun p => own.handler.getOwnerReconcileRequest p = some k)

/-- Neither the Service nor the pods it controls change, in the store and in the caches. -/
structure Keeps (k : NamespacedName) (w w' : ServiceWorld) : Prop where
  services : Informer.Keeps (fun svc : Service => svc.key = k) w.store.services w.services
    w'.store.services w'.services
  pods : Informer.Keeps (fun p : Pod => own.handler.getOwnerReconcileRequest p = some k)
    w.store.pods w.pods w'.store.pods w'.pods

variable {keyOf own} {w w' : ServiceWorld} {s : Store} {k : NamespacedName}
  {added : List NamespacedName}

theorem Good.honest (h : Good keyOf w) : HonestStore keyOf w.store :=
  ⟨fun svc hsvc => (h.services.sound svc hsvc).1, fun p hp => (h.pods.sound p hp).1⟩

/-- What is cached was stored once. -/
theorem Good.cached_service (h : Good keyOf w) {svc : Service} (hsvc : svc ∈ w.services.indexer) :
    HonestService keyOf svc := by
  refine (h.services.seen svc.key svc ?_).1
  simp [Informer.states, Table.find?_of_mem hsvc]

theorem Good.cached_pod (h : Good keyOf w) {p : Pod} (hp : p ∈ w.pods.indexer) :
    HonestPod keyOf p := by
  refine (h.pods.seen p.key p ?_).1
  simp [Informer.states, Table.find?_of_mem hp]

theorem Good.write (h : Good keyOf w) (ha : w.store.Advances s) (hs : HonestStore keyOf s) :
    Good keyOf (w.write s) :=
  ⟨h.services.record ha.services hs.services, h.pods.record ha.pods hs.pods⟩

theorem Good.env (h : Good keyOf w) (he : Env keyOf own w added w') : Good keyOf w' := by
  cases he with
  | write ha hs => exact h.write ha hs
  | services hm => exact ⟨h.services.moves hm, h.pods⟩
  | pods hm => exact ⟨h.services, h.pods.moves hm⟩

theorem owed_or_keeps
    (hs : w'.services.Owed (fun svc => svc.key = k) ∨ k ∈ added ∨
      ¬ w.services.Owed (fun svc => svc.key = k) ∧
        Informer.Keeps (fun svc : Service => svc.key = k) w.store.services w.services
          w'.store.services w'.services)
    (hp : w'.pods.Owed (fun p => own.handler.getOwnerReconcileRequest p = some k) ∨ k ∈ added ∨
      ¬ w.pods.Owed (fun p => own.handler.getOwnerReconcileRequest p = some k) ∧
        Informer.Keeps (fun p : Pod => own.handler.getOwnerReconcileRequest p = some k)
          w.store.pods w.pods w'.store.pods w'.pods) :
    Owed own k w' ∨ k ∈ added ∨ (¬ Owed own k w ∧ Keeps own k w w') := by
  rcases hs with hs | hs | hs
  · exact Or.inl (Or.inl hs)
  · exact Or.inr (Or.inl hs)
  rcases hp with hp | hp | hp
  · exact Or.inl (Or.inr hp)
  · exact Or.inr (Or.inl hp)
  exact Or.inr (Or.inr ⟨not_or.mpr ⟨hs.1, hp.1⟩, hs.2, hp.2⟩)

theorem Good.owed_write (h : Good keyOf w) (s : Store) (k : NamespacedName) :
    Owed own k (w.write s) ∨ (¬ Owed own k w ∧ Keeps own k w (w.write s)) := by
  have hboth : Owed own k (w.write s) ∨ k ∈ ([] : List NamespacedName) ∨
      (¬ Owed own k w ∧ Keeps own k w (w.write s)) :=
    owed_or_keeps ((h.services.owed_record h.services.connected).imp_right Or.inr)
      ((h.pods.owed_record h.pods.connected).imp_right Or.inr)
  simpa using hboth

/-- An informer that stays owes what it owed. -/
theorem owed_stay {α K : Type} [DecidableEq K] {key : α → K} (stored : Table key)
    (inf : Informer key) (c : α → Prop) :
    inf.Owed c ∨ k ∈ added ∨ ¬ inf.Owed c ∧ Informer.Keeps c stored inf stored inf :=
  (em (inf.Owed c)).imp_right fun hn => Or.inr ⟨hn, fun _ _ => Iff.rfl, fun _ _ => Iff.rfl⟩

theorem Good.owed_env (h : Good keyOf w) (he : Env keyOf own w added w') (k : NamespacedName) :
    Owed own k w' ∨ k ∈ added ∨ (¬ Owed own k w ∧ Keeps own k w w') := by
  cases he with
  | write ha hs => exact (h.owed_write _ k).imp_right Or.inr
  | services hm =>
    refine owed_or_keeps (h.services.owed_moves hm fun n hn o ho hk => ?_) (owed_stay _ _ _)
    exact hk ▸ mem_enqueueRequestForObject hn ho
  | pods hm =>
    refine owed_or_keeps (owed_stay _ _ _) (h.pods.owed_moves hm fun n _ o ho hk => ?_)
    exact own.handler.mem_enqueue.mpr ⟨o, ho, hk⟩

theorem write_self (w : ServiceWorld) : w.write w.store = w := by
  unfold write
  rw [Informer.record_self, Informer.record_self]

section Serve
variable {i : Request ServiceBody PodBody} {o : Response i}

/-- Every answer goes with a write, if only one that changes nothing. -/
theorem exists_write (h : serve w i o w') : ∃ s, w.store.Advances s ∧ w' = w.write s ∧
    (s = w.store ∨ w.store.serve i o s) := by
  cases i with
  | get key => exact ⟨w.store, .refl _, h.2.2.trans w.write_self.symm, Or.inl rfl⟩
  | list ns selector => exact ⟨w.store, .refl _, h.2.trans w.write_self.symm, Or.inl rfl⟩
  | create pod =>
    obtain ⟨s, hs, -, rfl⟩ := h
    exact ⟨s, Store.advances_serve hs, rfl, Or.inr hs⟩
  | update pod =>
    obtain ⟨s, hs, -, rfl⟩ := h
    exact ⟨s, Store.advances_serve hs, rfl, Or.inr hs⟩
  | delete pod =>
    obtain ⟨s, hs, -, rfl⟩ := h
    exact ⟨s, Store.advances_serve hs, rfl, Or.inr hs⟩
  | updateOwner svc =>
    obtain ⟨s, hs, -, rfl⟩ := h
    exact ⟨s, Store.advances_serve hs, rfl, Or.inr hs⟩
  | rand n =>
    obtain ⟨s, hs, -, rfl⟩ := h
    exact ⟨s, Store.advances_serve hs, rfl, Or.inr hs⟩

theorem Good.owed_serve (h : Good keyOf w) (hs : serve w i o w') (k : NamespacedName) :
    Owed own k w' ∨ (¬ Owed own k w ∧ Keeps own k w w') := by
  obtain ⟨s, -, rfl, -⟩ := exists_write hs
  exact h.owed_write s k

end Serve
end ServiceWorld

section Guarantee
variable (keyOf : String → Option NamespacedName)

def HonestRequest : Request ServiceBody PodBody → Prop
  | .create pod => HonestPod keyOf pod
  | .update pod => HonestPod keyOf pod
  | .updateOwner svc => HonestService keyOf svc
  | _ => True

variable {keyOf}

/-- Only the references of a pod matter. -/
theorem HonestPod.of_refs {p q : Pod} (h : HonestPod keyOf p)
    (hrefs : q.ownerReferences = p.ownerReferences) : HonestPod keyOf q := by
  unfold HonestPod getControllerOf at h ⊢
  rw [hrefs]
  exact h

/-- The reference that is set names the Service it is set for. -/
theorem honest_setControllerReference {svc : Service} {pod result : Pod}
    (hsvc : HonestService keyOf svc)
    (h : setControllerReference svc serviceScheme.objectKinds pod = .ok result) :
    HonestPod keyOf result := by
  obtain ⟨g, hg, he, rfl⟩ := setControllerReference_ok h
  obtain rfl : g = ⟨"", "v1", "Service"⟩ := (Except.ok.inj hg).symm
  intro ref key href hkey
  unfold getControllerOf at href
  rw [find?_upsertOwnerRef rfl he] at href
  obtain rfl := Option.some.inj href
  have hkey : keyOf svc.uid = some key := hkey
  rw [hsvc, Option.some.injEq] at hkey
  rw [← hkey]
  exact ⟨rfl, rfl, rfl⟩

theorem honest_templatePod {svc : Service} {template pod : Pod} {name : String}
    (hsvc : HonestService keyOf svc)
    (h : ServiceReconciler.templatePod svc template name = .ok pod) : HonestPod keyOf pod := by
  unfold ServiceReconciler.templatePod at h
  dsimp only at h
  split at h
  · cases h
  next result hset =>
    cases h
    exact (honest_setControllerReference hsvc hset).of_refs rfl

theorem HonestStore.serve {s s' : Store} {i : Request ServiceBody PodBody} {o : Response i}
    (h : HonestStore keyOf s) (hs : s.serve i o s') (hi : HonestRequest keyOf i) :
    HonestStore keyOf s' := by
  cases i with
  | get key => exact Store.serve_get hs ▸ h
  | list ns selector => exact Store.serve_list hs ▸ h
  | rand n =>
    have hsame : s' = s := hs
    exact hsame ▸ h
  | create pod =>
    obtain ⟨hservices, ⟨uid, -, -, hpods⟩ | ⟨err, -, rfl⟩⟩ := Store.serve_create hs
    · refine ⟨hservices ▸ h.services, fun y hy => ?_⟩
      rcases (hpods y).mp hy with rfl | hy
      · exact HonestPod.of_refs hi rfl
      · exact h.pods y hy
    · exact h
  | update w =>
    obtain ⟨hservices, hframe, ⟨stored, -, hmem, hstored, -⟩ | ⟨err, -, rfl⟩⟩ :=
      Store.serve_update hs
    · refine ⟨hservices ▸ h.services, fun y hy => ?_⟩
      by_cases hk : y.key = w.key
      · have hkey : stored.key = w.key := by rw [hstored]; rfl
        rw [Table.eq_of_key hy hmem (hk.trans hkey.symm), hstored]
        exact HonestPod.of_refs hi rfl
      · exact h.pods y ((hframe y hk).mp hy)
    · exact h
  | delete pod =>
    refine ⟨(Store.serve_delete hs).1 ▸ h.services, fun y hy => ?_⟩
    obtain ⟨cur, hcur, t, v, rfl, -⟩ := Store.mem_serve_delete hs hy
    exact (h.pods cur hcur).of_refs rfl
  | updateOwner w =>
    obtain ⟨hpods, hframe, ⟨stored, cur, -, -, -, hstored, hfind⟩ | ⟨err, -, rfl⟩⟩ :=
      Store.serve_updateOwner hs
    · refine ⟨fun y hy => ?_, hpods ▸ h.pods⟩
      by_cases hk : y.key = w.key
      · have hy' : s'.services.find? w.key = some y := Table.find?_eq_some.mpr ⟨hy, hk⟩
        rcases hfind with hfind | ⟨-, -, hnone⟩
        · obtain rfl := Option.some.inj (hy'.symm.trans hfind)
          rw [hstored]
          exact hi
        · rw [hy'] at hnone
          cases hnone
      · exact h.services y ((hframe y hk).mp hy)
    · exact h

theorem ServiceWorld.Good.serve {w w' : ServiceWorld} {i : Request ServiceBody PodBody}
    {o : Response i} (h : Good keyOf w) (hs : ServiceWorld.serve w i o w')
    (hi : HonestRequest keyOf i) : Good keyOf w' := by
  obtain ⟨s, ha, rfl, rfl | hserve⟩ := exists_write hs
  · exact h.write ha h.honest
  · exact h.write ha (h.honest.serve hserve hi)

end Guarantee
end FrpProvisioner
