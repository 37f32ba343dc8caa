import FrpProvisioner.Controller.FrpServersAtRest
import FrpProvisioner.Controller.ServicesAtRest
import FrpProvisioner.Runtime.CacheReader
import FrpProvisioner.Server.ManagerServer

/-! The caches that the manager reads from, with the field indexes that are registered in them.
In every run of the controllers the reads of their reconcilers are answered from the stores that
the informers have filled. Once an informer has caught up, a list by an indexed field gives the
stored objects with that value. -/
namespace FrpProvisioner
open Effect
variable {β : Type}

def ownerIndexFunc (obj : Object β) : List String := obj.ownerReferences.map OwnerReference.uid

def FrpServerPhase.text : FrpServerPhase → String
  | .unset => ""
  | .pending => "Pending"
  | .healthy => "Healthy"
  | .unhealthy => "Unhealthy"
  | .unknown => "Unknown"
  | .other phase => phase

def phaseIndexFunc (srv : FrpServer) : List String :=
  if srv.body.status.phase.text = "" then [] else [srv.body.status.phase.text]

def fieldIndexer (field : String) (extractValue : Object β → List String) : ObjectStore β :=
  (indexByField newIndexer field extractValue).toOption.getD newIndexer

/-- The stores of the kinds, after `RegisterFieldIndexes`. -/
def podIndexer : ObjectStore PodBody := fieldIndexer indexNameForOwnerRefUID ownerIndexFunc

def frpServerIndexer : ObjectStore FrpServerBody :=
  fieldIndexer indexNameForFrpServerPhase phaseIndexFunc

section Indexers
variable {field : String} {extractValue : Object β → List String}

theorem fieldIndexName_ne (field : String) : fieldIndexName field ≠ namespaceIndex := by
  intro h
  have hlist := congrArg String.toList h
  simp [fieldIndexName, namespaceIndex] at hlist

theorem indexByField_newIndexer :
    indexByField newIndexer field extractValue = .ok (fieldIndexer field extractValue) ∧
      (fieldIndexer field extractValue).index.indexers =
        (Assoc.set .empty namespaceIndex metaNamespaceIndexFunc).set (fieldIndexName field)
          (fieldIndexFunc extractValue) := by
  have hnone : (Assoc.set .empty namespaceIndex metaNamespaceIndexFunc :
      Assoc String (IndexFunc (Object β))).get? (fieldIndexName field) = none := by
    rw [Assoc.get?_set, if_neg (fieldIndexName_ne field)]
    rfl
  have hadd : indexByField newIndexer field extractValue = .ok ⟨Table.empty,
      (Assoc.set .empty namespaceIndex metaNamespaceIndexFunc).set (fieldIndexName field)
        (fieldIndexFunc extractValue), Table.empty⟩ := by
    have hentries : (Assoc.set .empty (fieldIndexName field) (fieldIndexFunc extractValue) :
        Assoc String (IndexFunc (Object β))).entries =
          [(fieldIndexName field, fieldIndexFunc extractValue)] := rfl
    have hempty : (Table.empty : Assoc NamespacedName (Object β)).entries = [] := rfl
    simp [indexByField, ThreadSafeMap.addIndexers, StoreIndex.addIndexers, newIndexer,
      ThreadSafeMap.newThreadSafeStore, hentries, hnone, hempty, Except.map]
  unfold fieldIndexer
  rw [hadd]
  exact ⟨rfl, rfl⟩

theorem holds_fieldIndexer : (fieldIndexer field extractValue).Holds
    (Table.empty : Table (Object.key : Object β → NamespacedName)) :=
  ThreadSafeMap.holds_new.addIndexers indexByField_newIndexer.1

theorem serves_fieldIndexer :
    CacheReader.Serves (fieldIndexer field extractValue) (fun _ => extractValue) [field] := by
  constructor
  · rw [indexByField_newIndexer.2, Assoc.get?_set, if_neg (fieldIndexName_ne field).symm]
    rfl
  · intro other hother
    obtain rfl := List.mem_singleton.mp hother
    rw [indexByField_newIndexer.2, Assoc.get?_set, if_pos rfl]

end Indexers

def byField (field ns val : String) : ListOptions where
  labelSelector := none
  fieldSelector := some [⟨.equals, field, val⟩]
  ns := ns
  limit := 0
  continueToken := ""

theorem answerable_byField {field ns val : String}
    {t : Table (Object.key : Object β → NamespacedName)} (hplain : ∀ obj ∈ t, Plain obj.ns)
    (hns : Plain ns) (hall : ns ≠ allNamespacesNamespace) :
    CacheReader.Answerable (byField field ns val) [field] t := by
  refine ⟨rfl, fun sel hsel => ?_, fun _ => ⟨hns, hall⟩, fun _ => hplain⟩
  obtain rfl := Option.some.inj hsel
  exact ⟨field, val, rfl, List.mem_singleton.mpr rfl⟩

/-- A list by a field gives the stored objects with the value, once the informer has caught
up. -/
theorem list_byField [DecidableEq β] {field : String} {extractValue : Object β → List String}
    {P : Object β → Prop} {c : ObjectStore β}
    {inf : Informer (Object.key : Object β → NamespacedName)}
    {stored : Table (Object.key : Object β → NamespacedName)} {revision : ℕ}
    (h : inf.Fills Object.version (fieldIndexer field extractValue) c)
    (hlive : inf.Live Object.version P stored revision) (hdrained : inf.Drained)
    (hplain : ∀ obj ∈ stored, Plain obj.ns) (ns val : String) (hns : Plain ns)
    (hall : ns ≠ allNamespacesNamespace) :
    ∃ items, CacheReader.list c (byField field ns val) = .ok items ∧
      items.Perm (stored.entries.filter fun obj =>
        (ns = "" ∨ obj.ns = ns) ∧ val ∈ extractValue obj) := by
  obtain ⟨items, hperm, hlist⟩ := CacheReader.list_drained h holds_fieldIndexer
    serves_fieldIndexer hlive hdrained (answerable_byField hplain hns hall)
  refine ⟨items, hlist, hperm.trans (.of_eq (List.filter_congr fun obj _ => ?_))⟩
  simp [ListOptions.Describes, byField, CacheReader.labelsMatch]

/-! ### The reads of the Service reconciler -/

structure ServiceStores where
  services : ObjectStore ServiceBody
  pods : ObjectStore PodBody

structure ServiceStores.Behind (st : ServiceStores) (w : ServiceWorld) : Prop where
  services : w.services.Fills Object.version newIndexer st.services
  pods : w.pods.Fills Object.version podIndexer st.pods

namespace ServiceStores
variable {st : ServiceStores} {w w' : ServiceWorld} {r : ServiceReconciler}
  {keyOf : String → Option NamespacedName} {own : OwnsPods}

theorem Behind.write (h : st.Behind w) (s : Store) : st.Behind (w.write s) :=
  ⟨h.services.record _ _, h.pods.record _ _⟩

theorem Behind.env {added : List NamespacedName} (h : st.Behind w)
    (he : ServiceWorld.Env keyOf own w added w') : ∃ st' : ServiceStores, st'.Behind w' := by
  cases he with
  | write _ _ => exact ⟨st, h.write _⟩
  | services hm =>
    obtain ⟨services, hs⟩ := h.services.moves hm
    exact ⟨⟨services, st.pods⟩, hs, h.pods⟩
  | pods hm =>
    obtain ⟨pods, hp⟩ := h.pods.moves hm
    exact ⟨⟨st.services, pods⟩, h.services, hp⟩

theorem Behind.serve {i : Request ServiceBody PodBody} {o : Response i} (h : st.Behind w)
    (hs : ServiceWorld.serve w i o w') : st.Behind w' := by
  cases i with
  | get key =>
    obtain ⟨-, -, rfl⟩ := hs
    exact h
  | list ns selector =>
    obtain ⟨-, rfl⟩ := hs
    exact h
  | create _ | update _ | delete _ | updateOwner _ | rand _ =>
    obtain ⟨s, -, -, rfl⟩ := hs
    exact h.write s

theorem compatible : (serviceController r keyOf own).system.Compatible
    (fun w => ∃ st : ServiceStores, st.Behind w) (fun _ _ _ _ _ => True)
    (fun _ _ _ => True) where
  env := by
    rintro w w' ⟨st, h⟩ ⟨added, he⟩
    exact h.env he
  guarantee := by
    rintro _ w i o w' ⟨st, h⟩ hs -
    exact ⟨st, h.serve hs⟩
  start _ _ _ _ _ := Program.wp_trivial _
  stable _ _ _ _ _ _ := trivial

theorem exists_behind {ω : Type} [DecidableEq ω] {s : Store}
    {ls : List (Controller.Label ω NamespacedName (Request ServiceBody PodBody) Response GoError)}
    {c : Controller.State ω NamespacedName (Request ServiceBody PodBody) Response ServiceWorld
      GoError}
    (h : Controller.Runs (serviceController r keyOf own) (ServiceWorld.start s) ls c) :
    ∃ st : ServiceStores, st.Behind c.world :=
  h.world_inv compatible ⟨⟨newIndexer, podIndexer⟩, .relist _ .new, .relist _ .new⟩

/-- `Get` of a Service gives what is cached, and NotFound for what is not. -/
theorem Behind.get (h : st.Behind w) (key : NamespacedName) :
    w.serve (.get key) (CacheReader.get st.services .namespaced "Service" key) w := by
  have hitems := (h.services.holds ThreadSafeMap.holds_new).items key
  unfold CacheReader.get
  rw [if_neg (by decide), hitems]
  cases hfind : w.services.indexer.find? key with
  | some svc => exact ⟨⟨hfind, rfl⟩, trivial, rfl⟩
  | none => exact ⟨rfl, fun _ => hfind, rfl⟩

/-- The list of `getOwnedPods`. -/
def ownedPods (ns : String) (selector : Selector) : ListOptions where
  labelSelector := some selector
  fieldSelector := none
  ns := ns
  limit := 0
  continueToken := ""

theorem Behind.list (h : st.Behind w) {ns : String} (hns : ns ≠ "") (selector : Selector) :
    ∃ items, CacheReader.list st.pods (ownedPods ns selector) = .ok items ∧
      w.serve (.list ns selector) (.ok items) w := by
  have hserves : CacheReader.Serves st.pods (fun _ => ownerIndexFunc) [] := by
    refine ⟨?_, by simp⟩
    rw [h.pods.indexers]
    exact serves_fieldIndexer.byNamespace
  have hopts : CacheReader.Answerable (ownedPods ns selector) [] w.pods.indexer :=
    ⟨rfl, by simp [ownedPods], by simp [ownedPods], by simp [ownedPods]⟩
  obtain ⟨items, hperm, hlist⟩ :=
    CacheReader.list_eq_ok (h.pods.holds holds_fieldIndexer) hserves hopts
  refine ⟨items, hlist, ⟨hperm.trans (.of_eq (List.filter_congr fun p _ => ?_)), rfl⟩, rfl⟩
  simp [ListOptions.Describes, ownedPods, CacheReader.labelsMatch, hns]

end ServiceStores

section Services
variable {ω : Type} [DecidableEq ω] {s : Store}
  {ls : List (Controller.Label ω NamespacedName (Request ServiceBody PodBody) Response GoError)}
  {c : Controller.State ω NamespacedName (Request ServiceBody PodBody) Response ServiceWorld
    GoError}

/-- In every state of every run, what the cache reader makes of the stores that the informers
have filled is an answer that the reconciler can get; so what holds of all answers holds of
these. -/
theorem service_reads_answered (r : ServiceReconciler)
    (keyOf : String → Option NamespacedName) (own : OwnsPods)
    (h : Controller.Runs (serviceController r keyOf own) (ServiceWorld.start s) ls c) :
    (∃ st : ServiceStores, st.Behind c.world) ∧
      ∀ st : ServiceStores, st.Behind c.world →
        (∀ key, c.world.serve (.get key)
          (CacheReader.get st.services .namespaced "Service" key) c.world) ∧
        ∀ ns selector, ns ≠ "" → ∃ items,
          CacheReader.list st.pods (ServiceStores.ownedPods ns selector) = .ok items ∧
            c.world.serve (.list ns selector) (.ok items) c.world :=
  ⟨ServiceStores.exists_behind h, fun _ hst =>
    ⟨hst.get, fun _ selector hns => hst.list hns selector⟩⟩

/-- Once the pod informer has caught up, a list by the UID of an owner gives the stored pods
that have a reference to it, in the namespace or, without one, in all. -/
theorem pods_listed_by_owner (r : ServiceReconciler)
    (keyOf : String → Option NamespacedName) (own : OwnsPods) (hs : HonestStore keyOf s)
    (hservices : ∀ svc ∈ s.services, svc.resourceVersion ≤ s.revision)
    (hpods : ∀ p ∈ s.pods, p.resourceVersion ≤ s.revision)
    (h : Controller.Runs (serviceController r keyOf own) (ServiceWorld.start s) ls c)
    (hdrained : c.world.pods.Drained) {st : ServiceStores} (hst : st.Behind c.world)
    (hplain : ∀ p ∈ c.world.store.pods, Plain p.ns) (ns uid : String) (hns : Plain ns)
    (hall : ns ≠ allNamespacesNamespace) :
    ∃ items, CacheReader.list st.pods (byField indexNameForOwnerRefUID ns uid) = .ok items ∧
      items.Perm (c.world.store.pods.entries.filter fun p =>
        (ns = "" ∨ p.ns = ns) ∧ ∃ ref ∈ p.ownerReferences, ref.uid = uid) := by
  have hnow := h.world_inv (serviceController_compatible r keyOf own)
    (ServiceWorld.good_start hs hservices hpods)
  obtain ⟨items, hlist, hperm⟩ := list_byField hst.pods hnow.pods hdrained hplain ns uid hns hall
  refine ⟨items, hlist, hperm.trans (.of_eq (List.filter_congr fun p _ => ?_))⟩
  simp [ownerIndexFunc]

end Services

section Sample

/-- The pod that the first run has created is listed for the Service. -/
theorem service_reads_answered_web :
    ∃ (st : ServiceStores) (items : List Pod),
      CacheReader.list st.pods (ServiceStores.ownedPods "default" (podSelector webService)) =
        .ok items ∧ items.length = 1 := by
  obtain ⟨ls, c, h, -, -, -, -, hselect⟩ := exists_run_web
  obtain ⟨⟨st, hst⟩, hreads⟩ := service_reads_answered emptyTemplate onlyWeb coreOnly h
  obtain ⟨items, hlist, ⟨hperm, -⟩, -⟩ :=
    (hreads st hst).2 "default" (podSelector webService) (by decide)
  exact ⟨st, items, hlist, hperm.length_eq.trans hselect⟩

theorem pods_listed_by_owner_web :
    ∃ (st : ServiceStores) (items : List Pod),
      CacheReader.list st.pods (byField indexNameForOwnerRefUID "default" webService.uid) =
        .ok items ∧ items.length = 1 := by
  obtain ⟨ls, c, h, -, hdrained, -, hpods, -⟩ := exists_run_web
  obtain ⟨st, hst⟩ := ServiceStores.exists_behind h
  obtain ⟨pod, hentries, hpod⟩ := List.map_eq_singleton_iff.mp hpods
  obtain ⟨hns, huids⟩ := Prod.mk.inj hpod
  have hplain : ∀ p ∈ c.world.store.pods, Plain p.ns := by
    intro p hp
    rw [Table.mem_def, hentries, List.mem_singleton] at hp
    rw [hp, hns]
    decide
  obtain ⟨items, hlist, hperm⟩ := pods_listed_by_owner emptyTemplate onlyWeb coreOnly
    honest_newStore (by decide) (by decide) h hdrained.pods hst hplain "default" webService.uid
    (by decide) (by decide)
  refine ⟨st, items, hlist, hperm.length_eq.trans ?_⟩
  have hown : ∃ ref ∈ pod.ownerReferences, ref.uid = webService.uid := by
    rw [← List.mem_map, huids]
    exact List.mem_singleton.mpr rfl
  rw [hentries, List.filter_cons_of_pos (by simpa [hns] using hown)]
  rfl

end Sample

/-! ### The reads of the FrpServer reconciler -/

section FrpServers
variable {ω : Type} [DecidableEq ω] {w w' : FrpServerWorld} {st : ObjectStore FrpServerBody}
  {servers : Table (Object.key : FrpServer → NamespacedName)} {revision : ℕ}
  {ls : List (Controller.Label ω NamespacedName ServerRequest ServerResponse GoError)}
  {c : Controller.State ω NamespacedName ServerRequest ServerResponse FrpServerWorld GoError}

abbrev FrpServerWorld.FilledFrom (w : FrpServerWorld) (st : ObjectStore FrpServerBody) : Prop :=
  w.informer.Fills Object.version frpServerIndexer st

theorem frpServerStores_compatible : frpServerController.system.Compatible
    (fun w => ∃ st, w.FilledFrom st) (fun _ _ _ _ _ => True) (fun _ _ _ => True) where
  env := by
    rintro w w' ⟨st, h⟩ ⟨added, he⟩
    cases he with
    | write _ => exact ⟨st, h.record _ _⟩
    | informer hm => exact h.moves hm
  guarantee := by
    rintro _ w i o w' ⟨st, h⟩ hs -
    refine ⟨st, ?_⟩
    rcases FrpServerWorld.serve_cases hs with ⟨s, -, rfl⟩ | ⟨-, hinformer, -⟩
    · exact h.record _ _
    · unfold FrpServerWorld.FilledFrom
      rw [hinformer]
      exact h
  start _ _ _ _ _ := Program.wp_trivial _
  stable _ _ _ _ _ _ := trivial

/-- The same for the FrpServer controller, whose kind has no namespaces. Once the informer has
caught up, a list by phase gives the stored servers in that phase. -/
theorem frpServers_listed_by_phase (hversions : ∀ obj ∈ servers, obj.resourceVersion ≤ revision)
    (h : Controller.Runs frpServerController (FrpServerWorld.start servers revision) ls c) :
    (∃ st, c.world.FilledFrom st) ∧ ∀ st, c.world.FilledFrom st →
      (∀ key, key.ns = "" → c.world.serve (.get key)
        (CacheReader.get st .root "FrpServer.frp.gofrp.io" key) c.world) ∧
      (c.world.informer.Drained → (∀ obj ∈ c.world.store.servers, obj.ns = "") →
        ∀ phase : FrpServerPhase, phase.text ≠ "" → ∃ items,
          CacheReader.list st (byField indexNameForFrpServerPhase "" phase.text) = .ok items ∧
            items.Perm (c.world.store.servers.entries.filter fun obj =>
              obj.body.status.phase.text = phase.text)) := by
  refine ⟨h.world_inv frpServerStores_compatible ⟨frpServerIndexer, .relist _ .new⟩,
    fun st hst => ⟨fun key hkey => ?_, fun hdrained hcluster phase hphase => ?_⟩⟩
  · have hitems := (hst.holds holds_fieldIndexer).items key
    obtain ⟨ns, name⟩ := key
    obtain rfl : ns = "" := hkey
    unfold CacheReader.get
    rw [if_pos rfl, hitems]
    cases hfind : c.world.informer.indexer.find? ⟨"", name⟩ with
    | some obj => exact ⟨hfind, rfl⟩
    | none => exact ⟨hfind, rfl, rfl⟩
  · have hnow := h.world_inv frpServerController_compatible
      (FrpServerWorld.good_start hversions)
    have hplain : ∀ obj ∈ c.world.store.servers, Plain obj.ns := by
      intro obj hobj
      rw [hcluster obj hobj]
      decide
    obtain ⟨items, hlist, hperm⟩ := list_byField hst hnow hdrained hplain "" phase.text
      (by decide) (by decide)
    refine ⟨items, hlist, hperm.trans (.of_eq (List.filter_congr fun obj _ => ?_))⟩
    rw [decide_eq_decide]
    unfold phaseIndexFunc
    split_ifs with hempty
    · simp [hempty, Ne.symm hphase]
    · simp only [true_or, true_and, List.mem_singleton]
      exact eq_comm

theorem frpServers_listed_by_phase_tcpServer :
    ∃ (st : ObjectStore FrpServerBody) (items : List FrpServer),
      CacheReader.list st (byField indexNameForFrpServerPhase "" "Healthy") = .ok items ∧
        items.map Object.key = [tcpServer.key] := by
  obtain ⟨ls, c, h, -, hdrained, hentries⟩ := exists_run_tcpServer
  obtain ⟨⟨st, hst⟩, hlists⟩ := frpServers_listed_by_phase (by decide) h
  have hcluster : ∀ obj ∈ c.world.store.servers, obj.ns = "" := by
    intro obj hobj
    rw [Table.mem_def, hentries, List.mem_singleton] at hobj
    rw [hobj]
    rfl
  obtain ⟨items, hlist, hperm⟩ := (hlists st hst).2 hdrained hcluster .healthy (by decide)
  rw [hentries] at hperm
  refine ⟨st, items, hlist, ?_⟩
  rw [List.perm_singleton.mp hperm]
  rfl

end FrpServers

end FrpProvisioner
