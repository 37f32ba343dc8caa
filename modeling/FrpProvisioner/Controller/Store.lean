import FrpProvisioner.Controller.ServiceReconciler

/-! The API server as the controllers see it: a versioned store of Services and Pods.
Every write that changes an object gives it a new resource version. -/
namespace FrpProvisioner
open Effect

structure Store where
  services : Table (Object.key : Service → NamespacedName)
  pods : Table (Object.key : Pod → NamespacedName)
  revision : ℕ
  deriving DecidableEq

namespace Store
variable (s : Store)

def select (ns : String) (selector : Selector) : List Pod :=
  s.pods.entries.filter fun p => p.ns = ns && selector p.labels

theorem select_nodup {ns : String} {selector : Selector} : (s.select ns selector).Nodup :=
  (List.Nodup.of_map _ s.pods.nodup).filter _

/-- A pod as it is first stored: status and deletion timestamp are the server's. -/
def created (pod : Pod) (uid : String) : Pod :=
  { pod with
    uid := uid
    resourceVersion := s.revision + 1
    deletionTimestamp := none
    body := { pod.body with phase := .pending, statusRest := "" } }

def insertPod (pod : Pod) : Store :=
  { s with pods := s.pods.upsert pod, revision := s.revision + 1 }

def bump {β : Type} (w : Object β) : Object β := { w with resourceVersion := s.revision + 1 }

def replacePod (w : Pod) : Store :=
  { s with pods := s.pods.replace (s.bump w), revision := s.revision + 1 }

def erasePod (key : NamespacedName) : Store :=
  { s with pods := s.pods.erase key, revision := s.revision + 1 }

def markPod (cur : Pod) (t : Time) : Store := s.replacePod { cur with deletionTimestamp := some t }

/-- An update with the content already stored changes nothing. -/
def updatePod (cur w : Pod) : Pod × Store :=
  if w = cur then (cur, s) else (s.bump w, s.replacePod w)

/-- An object being deleted goes with its last finalizer. -/
def replaceService (w : Service) : Store :=
  if w.deletionTimestamp.isSome ∧ w.finalizers = [] then
    { s with services := s.services.erase w.key, revision := s.revision + 1 }
  else { s with services := s.services.replace (s.bump w), revision := s.revision + 1 }

def updateService (cur w : Service) : Service × Store :=
  if w = cur then (cur, s) else (s.bump w, s.replaceService w)

/-- The answers of the API server. Every call may fail with any error, which changes nothing;
an update has to carry the stored resource version. -/
def serve : Server (Request ServiceBody PodBody) Response Store
  | s, .get key, .ok svc, s' => s.services.find? key = some svc ∧ s' = s
  | s, .list ns selector, .ok items, s' => items.Perm (s.select ns selector) ∧ s' = s
  | s, .create pod, .ok stored, s' => s.pods.find? pod.key = none ∧
      ∃ uid, stored = s.created pod uid ∧ s' = s.insertPod stored
  | s, .update w, .ok stored, s' => ∃ cur, s.pods.find? w.key = some cur ∧
      cur.resourceVersion = w.resourceVersion ∧ (stored, s') = s.updatePod cur w
  | s, .delete pod, .ok _, s' => ∃ cur, s.pods.find? pod.key = some cur ∧
      (cur.deletionTimestamp.isSome ∧ s' = s ∨ cur.deletionTimestamp = none ∧
        (s' = s.erasePod pod.key ∨ ∃ t, s' = s.markPod cur t))
  | s, .updateOwner w, .ok stored, s' => ∃ cur, s.services.find? w.key = some cur ∧
      cur.resourceVersion = w.resourceVersion ∧ (stored, s') = s.updateService cur w
  | s, .rand _, _, s' => s' = s
  | s, .get _, .error _, s' => s' = s
  | s, .list _ _, .error _, s' => s' = s
  | s, .create _, .error _, s' => s' = s
  | s, .update _, .error _, s' => s' = s
  | s, .delete _, .error _, s' => s' = s
  | s, .updateOwner _, .error _, s' => s' = s

/-- NotFound is answered only for an object that is not there. -/
def Honest : (i : Request ServiceBody PodBody) → Response i → Prop
  | .get key, .error err => err.isNotFound = true → s.services.find? key = none
  | .update w, .error err => err.isNotFound = true → s.pods.find? w.key = none
  | .delete pod, .error err => err.isNotFound = true → s.pods.find? pod.key = none
  | .updateOwner w, .error err => err.isNotFound = true → s.services.find? w.key = none
  | _, _ => True

section Frames
variable {s s' : Store}

theorem mem_replacePod {w y : Pod} : y ∈ (s.replacePod w).pods ↔
    (y = s.bump w ∧ ∃ c ∈ s.pods, c.key = w.key) ∨ (y ∈ s.pods ∧ y.key ≠ w.key) :=
  Table.mem_replace

theorem updatePod_key (cur w : Pod) : (s.updatePod cur w).1.key = w.key := by
  unfold updatePod
  split
  next h => rw [h]
  next => rfl

/-- The stored pod is the written one but for its version. -/
theorem updatePod_eq {cur w : Pod} : (s.updatePod cur w).1 =
    { w with resourceVersion := (s.updatePod cur w).1.resourceVersion } := by
  unfold updatePod
  split
  next h => rw [h]
  next => rfl

theorem controlledBy_updatePod {cur w : Pod} {uid : String} (h : ControlledBy uid w) :
    ControlledBy uid (s.updatePod cur w).1 := by
  rw [updatePod_eq]
  exact h

theorem find?_updatePod_of_ne {cur w : Pod} {key : NamespacedName} (h : key ≠ w.key) :
    (s.updatePod cur w).2.pods.find? key = s.pods.find? key := by
  unfold updatePod
  split
  next => rfl
  next => exact Table.find?_replace_of_ne h

theorem mem_updatePod {cur w : Pod} (hcur : s.pods.find? w.key = some cur) {y : Pod} :
    y ∈ (s.updatePod cur w).2.pods ↔
      y = (s.updatePod cur w).1 ∨ (y ∈ s.pods ∧ y.key ≠ w.key) := by
  obtain ⟨hmem, hkey⟩ := Table.find?_eq_some.mp hcur
  unfold updatePod
  split
  next h =>
    subst h
    refine ⟨fun hy => ?_, ?_⟩
    · by_cases hk : y.key = w.key
      · exact Or.inl (Table.eq_of_key hy hmem hk)
      · exact Or.inr ⟨hy, hk⟩
    · rintro (rfl | hy)
      · exact hmem
      · exact hy.1
  next =>
    rw [mem_replacePod]
    exact ⟨fun h => h.imp_left And.left, fun h => h.imp_left fun hy => ⟨hy, cur, hmem, hkey⟩⟩

theorem services_updatePod {cur w : Pod} : (s.updatePod cur w).2.services = s.services := by
  unfold updatePod
  split <;> rfl

theorem serve_get {key : NamespacedName} {o : Except GoError Service}
    (h : s.serve (.get key) o s') : s' = s := by
  cases o with
  | error err => exact h
  | ok svc => exact h.2

theorem serve_list {ns : String} {selector : Selector} {o : Except GoError (List Pod)}
    (h : s.serve (.list ns selector) o s') : s' = s := by
  cases o with
  | error err => exact h
  | ok items => exact h.2

theorem serve_update {w : Pod} {o : Except GoError Pod} (h : s.serve (.update w) o s') :
    s'.services = s.services ∧ (∀ y, y.key ≠ w.key → (y ∈ s'.pods ↔ y ∈ s.pods)) ∧
      ((∃ stored, o = .ok stored ∧ stored ∈ s'.pods ∧
        stored = { w with resourceVersion := stored.resourceVersion } ∧
        ∃ cur ∈ s.pods, cur.key = w.key ∧ cur.resourceVersion = w.resourceVersion) ∨
      ∃ err, o = .error err ∧ s' = s) := by
  cases o with
  | error err =>
    cases h
    exact ⟨rfl, fun _ _ => Iff.rfl, Or.inr ⟨err, rfl, rfl⟩⟩
  | ok stored =>
    obtain ⟨cur, hcur, hrv, heq⟩ := h
    obtain rfl : stored = (s.updatePod cur w).1 := congrArg Prod.fst heq
    obtain rfl : s' = (s.updatePod cur w).2 := congrArg Prod.snd heq
    refine ⟨services_updatePod, fun y hy => ?_, Or.inl ⟨_, rfl, ?_, updatePod_eq, cur, ?_⟩⟩
    · rw [mem_updatePod hcur]
      refine ⟨?_, fun h => Or.inr ⟨h, hy⟩⟩
      rintro (rfl | h)
      · exact absurd (updatePod_key cur w) hy
      · exact h.1
    · exact (mem_updatePod hcur).mpr (Or.inl rfl)
    · obtain ⟨hmem, hkey⟩ := Table.find?_eq_some.mp hcur
      exact ⟨hmem, hkey, hrv⟩

theorem serve_delete {x : Pod} {o : Except GoError Unit} (h : s.serve (.delete x) o s') :
    s'.services = s.services ∧ (∀ y, y.key ≠ x.key → (y ∈ s'.pods ↔ y ∈ s.pods)) ∧
      ((∃ u, o = .ok u ∧ ∀ y ∈ s'.pods, y.key = x.key → y.deletionTimestamp.isSome) ∨
      ∃ err, o = .error err ∧ s' = s) := by
  cases o with
  | error err =>
    cases h
    exact ⟨rfl, fun _ _ => Iff.rfl, Or.inr ⟨err, rfl, rfl⟩⟩
  | ok u =>
    obtain ⟨cur, hcur, h⟩ := h
    obtain ⟨hmem, hkey⟩ := Table.find?_eq_some.mp hcur
    rcases h with ⟨hdel, rfl⟩ | ⟨-, rfl | ⟨t, rfl⟩⟩
    · refine ⟨rfl, fun _ _ => Iff.rfl, Or.inl ⟨u, rfl, fun y hy hk => ?_⟩⟩
      rw [Table.eq_of_key hy hmem (hk.trans hkey.symm)]
      exact hdel
    · refine ⟨rfl, fun y hy => ?_, Or.inl ⟨u, rfl, fun y hy hk => ?_⟩⟩
      · exact Table.mem_erase.trans (and_iff_left hy)
      · exact absurd hk (Table.mem_erase.mp hy).2
    · have hk' : ({ cur with deletionTimestamp := some t } : Pod).key = x.key := hkey
      refine ⟨rfl, fun y hy => ?_, Or.inl ⟨u, rfl, fun y hy hk => ?_⟩⟩
      · rw [markPod, mem_replacePod, hk']
        refine ⟨?_, fun h => Or.inr ⟨h, hy⟩⟩
        rintro (⟨rfl, -⟩ | h)
        · exact absurd hkey hy
        · exact h.1
      · rcases mem_replacePod.mp hy with ⟨rfl, -⟩ | ⟨-, hne⟩
        · rfl
        · exact absurd (hk.trans hk'.symm) hne

/-- A delete changes no more of a pod than its version, and its mark if it had none. -/
theorem mem_serve_delete {x y : Pod} {o : Except GoError Unit} (h : s.serve (.delete x) o s')
    (hy : y ∈ s'.pods) : ∃ cur ∈ s.pods, ∃ t v,
      y = { cur with deletionTimestamp := t, resourceVersion := v } ∧
        (t = none → cur.deletionTimestamp = none) := by
  cases o with
  | error err =>
    cases h
    exact ⟨y, hy, _, _, rfl, id⟩
  | ok u =>
    obtain ⟨cur, hcur, h⟩ := h
    obtain ⟨hmem, -⟩ := Table.find?_eq_some.mp hcur
    rcases h with ⟨-, rfl⟩ | ⟨-, rfl | ⟨t, rfl⟩⟩
    · exact ⟨y, hy, _, _, rfl, id⟩
    · exact ⟨y, (Table.mem_erase.mp hy).1, _, _, rfl, id⟩
    · rcases mem_replacePod.mp hy with ⟨rfl, -⟩ | ⟨hy, -⟩
      · exact ⟨cur, hmem, some t, _, rfl, fun h => by cases h⟩
      · exact ⟨y, hy, _, _, rfl, id⟩

/-- A delete makes no pod active. -/
theorem mem_of_serve_delete {x y : Pod} {o : Except GoError Unit} (h : s.serve (.delete x) o s')
    (hy : y ∈ s'.pods) (hact : isPodActive y = true) : y ∈ s.pods := by
  obtain ⟨-, hframe, ⟨u, -, hmarked⟩ | ⟨err, -, rfl⟩⟩ := serve_delete h
  · refine (hframe y fun hk => ?_).mp hy
    simp [isPodActive_of_marked (hmarked y hy hk)] at hact
  · exact hy

/-- After a delete that succeeded, or did not find the pod, no active pod has its key. -/
theorem inactive_of_serve_delete {x y : Pod} {o : Except GoError Unit}
    (h : s.serve (.delete x) o s') (hok : ∀ err, o = .error err → s.pods.find? x.key = none)
    (hy : y ∈ s'.pods) (hk : y.key = x.key) : isPodActive y = false := by
  obtain ⟨-, -, ⟨u, -, hmarked⟩ | ⟨err, rfl, rfl⟩⟩ := serve_delete h
  · exact isPodActive_of_marked (hmarked y hy hk)
  · exact absurd hk (Table.find?_eq_none.mp (hok err rfl) y hy)

theorem serve_create {pod : Pod} {o : Except GoError Pod} (h : s.serve (.create pod) o s') :
    s'.services = s.services ∧
      ((∃ uid, o = .ok (s.created pod uid) ∧ (∀ y ∈ s.pods, y.key ≠ pod.key) ∧
        ∀ y, y ∈ s'.pods ↔ y = s.created pod uid ∨ y ∈ s.pods) ∨
      ∃ err, o = .error err ∧ s' = s) := by
  cases o with
  | error err =>
    cases h
    exact ⟨rfl, Or.inr ⟨err, rfl, rfl⟩⟩
  | ok stored =>
    obtain ⟨hnone, uid, rfl, rfl⟩ := h
    have hfree := Table.find?_eq_none.mp hnone
    refine ⟨rfl, Or.inl ⟨uid, rfl, hfree, fun y => Table.mem_upsert.trans ?_⟩⟩
    exact ⟨fun h => h.imp_right And.left, fun h => h.imp_right fun hy => ⟨hy, hfree y hy⟩⟩

theorem serve_updateOwner {w : Service} {o : Except GoError Service}
    (h : s.serve (.updateOwner w) o s') :
    s'.pods = s.pods ∧ (∀ y, y.key ≠ w.key → (y ∈ s'.services ↔ y ∈ s.services)) ∧
      ((∃ stored cur, o = .ok stored ∧ s.services.find? w.key = some cur ∧
        cur.resourceVersion = w.resourceVersion ∧
        stored = { w with resourceVersion := stored.resourceVersion } ∧
        (s'.services.find? w.key = some stored ∨
          w.deletionTimestamp.isSome ∧ w.finalizers = [] ∧ s'.services.find? w.key = none)) ∨
      ∃ err, o = .error err ∧ s' = s) := by
  cases o with
  | error err =>
    cases h
    exact ⟨rfl, fun _ _ => Iff.rfl, Or.inr ⟨err, rfl, rfl⟩⟩
  | ok stored =>
    obtain ⟨cur, hcur, hrv, heq⟩ := h
    obtain ⟨hmem, hkey⟩ := Table.find?_eq_some.mp hcur
    unfold updateService replaceService at heq
    split at heq
    next hw =>
      obtain ⟨rfl, rfl⟩ := Prod.mk.inj heq
      subst hw
      exact ⟨rfl, fun _ _ => Iff.rfl, Or.inl ⟨_, _, rfl, hcur, rfl, rfl, Or.inl hcur⟩⟩
    next =>
      split at heq
      next hgone =>
        obtain ⟨rfl, rfl⟩ := Prod.mk.inj heq
        refine ⟨rfl, fun y hy => Table.mem_erase.trans (and_iff_left hy),
          Or.inl ⟨_, cur, rfl, hcur, hrv, rfl, Or.inr ⟨hgone.1, hgone.2, ?_⟩⟩⟩
        exact Table.find?_eq_none.mpr fun y hy => (Table.mem_erase.mp hy).2
      next =>
        obtain ⟨rfl, rfl⟩ := Prod.mk.inj heq
        refine ⟨rfl, fun y hy => ?_, Or.inl ⟨_, cur, rfl, hcur, hrv, rfl, Or.inl ?_⟩⟩
        · refine Table.mem_replace.trans ⟨?_, fun h => Or.inr ⟨h, hy⟩⟩
          rintro (⟨rfl, -⟩ | h)
          · exact absurd rfl hy
          · exact h.1
        · exact Table.find?_eq_some.mpr
            ⟨Table.mem_replace.mpr (Or.inl ⟨rfl, cur, hmem, hkey⟩), rfl⟩

end Frames

def notFoundError (resource : String) (key : NamespacedName) : GoError :=
  .status ⟨.notFound, 404, resource ++ " \"" ++ key.name ++ "\" not found"⟩

def conflictError (resource : String) (key : NamespacedName) : GoError :=
  .status ⟨.conflict, 409, "Operation cannot be fulfilled on " ++ resource ++ " \"" ++ key.name ++
    "\": the object has been modified"⟩

@[simp] theorem isNotFound_conflictError (resource : String) (key : NamespacedName) :
    (conflictError resource key).isNotFound = false := by
  simp [conflictError, GoError.isNotFound, GoError.asStatus, StatusReason.known]

def alreadyExistsError (resource : String) (key : NamespacedName) : GoError :=
  .status ⟨.alreadyExists, 409, resource ++ " \"" ++ key.name ++ "\" already exists"⟩

/-- A server on which no call fails without reason: pods vanish when they are deleted, and
`draw` is the random text of the next name. -/
def handle (draw : Store → String) (s : Store) :
    (i : Request ServiceBody PodBody) → Response i × Store
  | .get key =>
    match s.services.find? key with
    | some svc => (.ok svc, s)
    | none => (.error (notFoundError "services" key), s)
  | .list ns selector => (.ok (s.select ns selector), s)
  | .create pod =>
    match s.pods.find? pod.key with
    | none => (.ok (s.created pod pod.uid), s.insertPod (s.created pod pod.uid))
    | some _ => (.error (alreadyExistsError "pods" pod.key), s)
  | .update w =>
    match s.pods.find? w.key with
    | none => (.error (notFoundError "pods" w.key), s)
    | some cur =>
      if cur.resourceVersion = w.resourceVersion then
        (.ok (s.updatePod cur w).1, (s.updatePod cur w).2)
      else (.error (conflictError "pods" w.key), s)
  | .delete pod =>
    match s.pods.find? pod.key with
    | none => (.error (notFoundError "pods" pod.key), s)
    | some cur => (.ok (), if cur.deletionTimestamp.isSome then s else s.erasePod pod.key)
  | .updateOwner w =>
    match s.services.find? w.key with
    | none => (.error (notFoundError "services" w.key), s)
    | some cur =>
      if cur.resourceVersion = w.resourceVersion then
        (.ok (s.updateService cur w).1, (s.updateService cur w).2)
      else (.error (conflictError "services" w.key), s)
  | .rand _ => (draw s, s)

theorem serve_handle (draw : Store → String) (s : Store) (i : Request ServiceBody PodBody) :
    s.serve i (handle draw s i).1 (handle draw s i).2 := by
  cases i with
  | get key =>
    cases h : s.services.find? key with
    | none => simp [handle, h, serve]
    | some svc => simp [handle, h, serve]
  | list ns selector => exact ⟨.refl _, rfl⟩
  | create pod =>
    cases h : s.pods.find? pod.key with
    | none =>
      simp only [handle, h, serve, and_true, true_and]
      exact ⟨pod.uid, rfl⟩
    | some cur => simp [handle, h, serve]
  | update w =>
    cases h : s.pods.find? w.key with
    | none => simp [handle, h, serve]
    | some cur =>
      by_cases hv : cur.resourceVersion = w.resourceVersion
      · simp [handle, h, hv, serve]
      · simp [handle, h, hv, serve]
  | delete pod =>
    cases h : s.pods.find? pod.key with
    | none => simp [handle, h, serve]
    | some cur =>
      cases hd : cur.deletionTimestamp with
      | none => simp [handle, h, hd, serve]
      | some t => simp [handle, h, hd, serve]
  | updateOwner w =>
    cases h : s.services.find? w.key with
    | none => simp [handle, h, serve]
    | some cur =>
      by_cases hv : cur.resourceVersion = w.resourceVersion
      · simp [handle, h, hv, serve]
      · simp [handle, h, hv, serve]
  | rand n => rfl

theorem honest_handle (draw : Store → String) (s : Store) (i : Request ServiceBody PodBody) :
    s.Honest i (handle draw s i).1 := by
  cases i with
  | get key => cases h : s.services.find? key <;> simp [handle, h, Honest]
  | list ns selector => trivial
  | create pod => trivial
  | update w =>
    cases h : s.pods.find? w.key with
    | none => simp [handle, h, Honest]
    | some cur =>
      by_cases hv : cur.resourceVersion = w.resourceVersion
      · simp [handle, h, hv, Honest]
      · simp [handle, h, hv, Honest]
  | delete pod => cases h : s.pods.find? pod.key <;> simp [handle, h, Honest]
  | updateOwner w =>
    cases h : s.services.find? w.key with
    | none => simp [handle, h, Honest]
    | some cur =>
      by_cases hv : cur.resourceVersion = w.resourceVersion
      · simp [handle, h, hv, Honest]
      · simp [handle, h, hv, Honest]
  | rand n => trivial

end Store

section Users

def Store.putService (s : Store) (w : Service) : Store :=
  { s with services := s.services.replace (s.bump w), revision := s.revision + 1 }

/-- What users do to the Service: they change its type and annotations and may delete it.
Deletion removes the object when it has no finalizer, and marks it otherwise. -/
inductive UserStep (key : NamespacedName) : Store → Store → Prop where
  | edit {s : Store} {svc : Service} (type : ServiceType) (annotations : StringMap) :
      s.services.find? key = some svc → UserStep key s (s.putService
        { svc with annotations := annotations, body := { svc.body with type := type } })
  | mark {s : Store} {svc : Service} (t : Time) :
      s.services.find? key = some svc → svc.finalizers ≠ [] → svc.deletionTimestamp = none →
      UserStep key s (s.putService { svc with deletionTimestamp := some t })
  | remove {s : Store} {svc : Service} :
      s.services.find? key = some svc → svc.finalizers = [] → UserStep key s
        { s with services := s.services.erase key, revision := s.revision + 1 }

def Finalized (key : NamespacedName) (s : Store) : Prop :=
  ∃ svc, s.services.find? key = some svc ∧ finalizerName ∈ svc.finalizers

instance (key : NamespacedName) (s : Store) : Decidable (Finalized key s) :=
  decidable_of_iff (∃ svc ∈ s.services.find? key, finalizerName ∈ svc.finalizers) Iff.rfl

/-- Users neither touch pods nor finalizers. -/
theorem UserStep.frame {s s' : Store} {key : NamespacedName} (h : UserStep key s s') :
    s'.pods = s.pods ∧ (Finalized key s → Finalized key s') ∧
      ∀ svc', s'.services.find? key = some svc' →
        ∃ svc, s.services.find? key = some svc ∧ svc'.uid = svc.uid := by
  have replaced : ∀ {svc w : Service}, s.services.find? key = some svc → w.key = svc.key →
      (s.services.replace w).find? key = some w := by
    intro svc w hfind hkey
    obtain ⟨hmem, rfl⟩ := Table.find?_eq_some.mp hfind
    exact Table.find?_eq_some.mpr ⟨Table.mem_replace.mpr (Or.inl ⟨rfl, svc, hmem, hkey.symm⟩), hkey⟩
  cases h with
  | @edit svc type annotations hfind =>
    have hnew := replaced (w := s.bump
      { svc with annotations := annotations, body := { svc.body with type := type } }) hfind rfl
    refine ⟨rfl, ?_, fun svc' h' => ⟨svc, hfind, ?_⟩⟩
    · rintro ⟨_, h', hfin⟩
      cases hfind.symm.trans h'
      exact ⟨_, hnew, hfin⟩
    · cases hnew.symm.trans h'
      rfl
  | @mark svc t hfind hne hdel =>
    have hnew := replaced (w := s.bump { svc with deletionTimestamp := some t }) hfind rfl
    refine ⟨rfl, ?_, fun svc' h' => ⟨svc, hfind, ?_⟩⟩
    · rintro ⟨_, h', hfin⟩
      cases hfind.symm.trans h'
      exact ⟨_, hnew, hfin⟩
    · cases hnew.symm.trans h'
      rfl
  | @remove svc hfind hnil =>
    refine ⟨rfl, ?_, fun svc' h' => ?_⟩
    · rintro ⟨_, h', hfin⟩
      cases hfind.symm.trans h'
      simp [hnil] at hfin
    · obtain ⟨hmem, rfl⟩ := Table.find?_eq_some.mp h'
      exact absurd rfl (Table.mem_erase.mp hmem).2

end Users

section Samples

/-- A Service that wants a frp client, for the runs that are followed step by step. -/
def webService : Service where
  name := "web"
  ns := "default"
  uid := "svc-1"
  resourceVersion := 1
  deletionTimestamp := none
  labels := .empty
  annotations := Table.empty.upsert (annotationFrpServerNameKey, "frp")
  ownerReferences := []
  finalizers := [finalizerName]
  body := ⟨.loadBalancer, ""⟩

def newService : Service := { webService with finalizers := [] }

def newStore : Store := ⟨Table.empty.upsert newService, Table.empty, 1⟩

def labelledPod (svc : Service) (name : String) (phase : PodPhase) (ref : OwnerReference) :
    Pod where
  name := name
  ns := svc.ns
  uid := name
  resourceVersion := 1
  deletionTimestamp := none
  labels := StringMap.set (StringMap.set Table.empty labelServiceNameKey svc.name)
    labelControllerUidKey svc.uid
  annotations := .empty
  ownerReferences := [ref]
  finalizers := []
  body := ⟨[], "", phase, ""⟩

def emptyTemplate : ServiceReconciler where
  podTemplate := ""
  unmarshal _ := .ok
    { name := "", ns := "", uid := "", resourceVersion := 0, deletionTimestamp := none
      labels := .empty, annotations := .empty, ownerReferences := [], finalizers := []
      body := ⟨[], "", .unset, ""⟩ }

end Samples
end FrpProvisioner
