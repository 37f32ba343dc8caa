import FrpProvisioner.Effect.Evolution
import FrpProvisioner.Controller.Serving

/-! The exact effect of a run of the Service reconciler in which every call succeeds: what
becomes of each pod and of each Service, which pod is made, and what is returned. Versions
apart, the effect is a function of the store, of the way the server deletes pods and of the
suffix that is drawn. -/
namespace FrpProvisioner
open Effect

/-- An object without its version. -/
def Object.content {β : Type} (o : Object β) : Object β := { o with resourceVersion := 0 }

section Spec
variable (allows : NamespacedName → Option Time → Prop) (svc : Service)

def selects (p : Pod) : Bool := p.ns = svc.ns && podSelector svc p.labels

def adopted (p : Pod) : Pod :=
  { p with ownerReferences :=
      upsertOwnerRef (newControllerRef svc ⟨"", "v1", "Service"⟩) p.ownerReferences }

def claimOf (p : Pod) : Option Pod :=
  match getControllerOf p with
  | some ref => if ref.uid = svc.uid then some p else none
  | none => if svc.deletionTimestamp = none then some (adopted svc p) else none

/-- What a delete makes of a pod. It is removed at once or marked, as the server allows; a pod
that is already marked stays as it is. -/
def Removed (p : Pod) (o : Option Pod) : Prop :=
  match p.deletionTimestamp with
  | some _ => o.map Object.content = some p.content
  | none => ∃ grace, allows p.key grace ∧ o.map Object.content =
      grace.map fun t => ({ p with deletionTimestamp := some t } : Pod).content

def Fate (p : Pod) (o : Option Pod) : Prop :=
  if selects svc p then
    if isPodActive p then
      match claimOf svc p with
      | none => o.map Object.content = some p.content
      | some q =>
        if isWanted svc then o.map Object.content = some q.content else Removed allows q o
    else Removed allows p o
  else o = some p

def settledFinalizers : List String :=
  if isWanted svc then
    if finalizerName ∈ svc.finalizers then svc.finalizers else svc.finalizers ++ [finalizerName]
  else withoutFinalizer svc.finalizers

/-- The Service after its run; one that is being deleted goes with its last finalizer. -/
def settledService : Option Service :=
  if settledFinalizers svc = svc.finalizers then some svc
  else if svc.deletionTimestamp.isSome ∧ settledFinalizers svc = [] then none
  else some { svc with finalizers := settledFinalizers svc }

def ServiceFate (x : Service) (o : Option Service) : Prop :=
  if x.key = svc.key then o.map Object.content = (settledService svc).map Object.content
  else o = some x

def Bare (s : Store) : Prop :=
  ∀ p ∈ s.pods, selects svc p = true → isPodActive p = true → claimOf svc p = none

/-- The result of a run, and the pod it has made. -/
inductive Makes (r : ServiceReconciler) (s : Store) (svc : Service) :
    Option GoError → List Pod → Prop where
  | nothing : ¬ (isWanted svc = true ∧ Bare svc s) → Makes r s svc none []
  | failed {suffix : String} {err : GoError} : isWanted svc = true → Bare svc s →
      r.podFor svc suffix = .error err →
      Makes r s svc (some (ServiceReconciler.generateError err)) []
  | pod {suffix : String} {pod : Pod} (a : Store) (uid : String) : isWanted svc = true →
      Bare svc s → r.podFor svc suffix = .ok pod → Makes r s svc none [a.created pod uid]

structure Effects (r : ServiceReconciler) (s : Store) (err : Option GoError) (t : Store) :
    Prop where
  pods : ∃ new, Makes r s svc err new ∧ s.pods.Evolves t.pods (Fate allows svc) new
  services : s.services.Evolves t.services (ServiceFate svc) []

end Spec

section Content

theorem eq_of_content {β : Type} {p q : Object β} (h : p.content = q.content) :
    p = { q with resourceVersion := p.resourceVersion } := by
  show ({ p.content with resourceVersion := p.resourceVersion } : Object β) = _
  rw [h]
  rfl

theorem Removed.of_content {allows : NamespacedName → Option Time → Prop} {p q : Pod}
    {o : Option Pod} (h : Removed allows p o) (hpq : p.content = q.content) :
    Removed allows q o := by
  rw [eq_of_content hpq] at h
  exact h

theorem claimOf_eq {svc : Service} {p q : Pod} (h : claimOf svc p = some q) :
    q = p ∨ q = adopted svc p := by
  unfold claimOf at h
  split at h
  · split at h
    · cases h
      exact Or.inl rfl
    · cases h
  · split at h
    · cases h
      exact Or.inr rfl
    · cases h

theorem claimOf_key {svc : Service} {p q : Pod} (h : claimOf svc p = some q) : q.key = p.key := by
  rcases claimOf_eq h with rfl | rfl
  · rfl
  · rfl

theorem claimOf_of_controlledBy {svc : Service} {p : Pod} (h : ControlledBy svc.uid p) :
    claimOf svc p = some p := by
  obtain ⟨ref, href, huid⟩ := Option.map_eq_some_iff.mp h
  have href : getControllerOf p = some ref := href
  simp [claimOf, href, huid]

theorem claimOf_of_orphan {svc : Service} {p : Pod} (horphan : getControllerOf p = none)
    (halive : svc.deletionTimestamp = none) : claimOf svc p = some (adopted svc p) := by
  simp [claimOf, horphan, halive]

/-- A pod of another controller is not claimed, nor an orphan for a Service that is being
deleted. -/
theorem claimOf_eq_none {svc : Service} {p : Pod} (hother : ¬ ControlledBy svc.uid p)
    (horphan : getControllerOf p = none → svc.deletionTimestamp ≠ none) : claimOf svc p = none := by
  unfold claimOf
  split
  next ref href =>
    apply if_neg
    intro huid
    apply hother
    simp [ControlledBy, href, huid]
  next hnone => exact if_neg (horphan hnone)

theorem mem_select {s : Store} {svc : Service} {p : Pod} :
    p ∈ s.select svc.ns (podSelector svc) ↔ p ∈ s.pods ∧ selects svc p = true := by
  exact List.mem_filter

end Content

section Frames
variable {allows : NamespacedName → Option Time → Prop} {svc : Service} {r : ServiceReconciler}

theorem claimOf_frame {p q : Pod} (h : claimOf svc p = some q) :
    q.ns = p.ns ∧ q.labels = p.labels := by
  rcases claimOf_eq h with rfl | rfl
  · exact ⟨rfl, rfl⟩
  · exact ⟨rfl, rfl⟩

theorem frame_of_content {p q : Pod} (h : q.content = p.content) :
    q.ns = p.ns ∧ q.labels = p.labels := by
  rw [eq_of_content h]
  exact ⟨rfl, rfl⟩

theorem Removed.frame {p q : Pod} (h : Removed allows p (some q)) :
    q.ns = p.ns ∧ q.labels = p.labels := by
  unfold Removed at h
  split at h
  · exact frame_of_content (Option.some.inj h)
  · obtain ⟨grace, -, h⟩ := h
    obtain ⟨t, -, ht⟩ := Option.map_eq_some_iff.mp h.symm
    obtain ⟨hns, hlabels⟩ := frame_of_content ht
    exact ⟨hns.symm, hlabels.symm⟩

/-- A run moves no pod and changes no label. -/
theorem Fate.frame {p q : Pod} (h : Fate allows svc p (some q)) :
    q.ns = p.ns ∧ q.labels = p.labels := by
  unfold Fate at h
  split at h
  · split at h
    · split at h
      · exact frame_of_content (Option.some.inj h)
      next c hc =>
        obtain ⟨hns, hlabels⟩ := claimOf_frame hc
        have hqc : q.ns = c.ns ∧ q.labels = c.labels := by
          split at h
          · exact frame_of_content (Option.some.inj h)
          · exact h.frame
        exact ⟨hqc.1.trans hns, hqc.2.trans hlabels⟩
    · exact h.frame
  · cases h
    exact ⟨rfl, rfl⟩

/-- A pod that the run does not list is not touched. -/
theorem Fate.of_not_selects {p : Pod} {o : Option Pod} (h : Fate allows svc p o)
    (hsel : selects svc p = false) : o = some p := by
  rw [Fate, if_neg (by simp [hsel])] at h
  exact h

/-- The pod that is made carries the labels of the Service. -/
theorem Makes.selects {err : Option GoError} {new : List Pod} {s : Store}
    (h : Makes r s svc err new) {p : Pod} (hp : p ∈ new) : selects svc p = true := by
  cases h with
  | nothing _ => cases hp
  | failed _ _ _ => cases hp
  | pod a uid _ _ hpod =>
    rw [List.mem_singleton.mp hp]
    obtain ⟨template, name, -, hname⟩ := ServiceReconciler.podFor_ok hpod
    have hserves : Serves svc (a.created _ uid) := serves_created hname
    simp [FrpProvisioner.selects, hserves.ns, hserves.labels]

end Frames

section Server

def Succeeds : (i : Request ServiceBody PodBody) → Response i → Prop
  | .get _, .error _ => False
  | .list _ _, .error _ => False
  | .create _, .error _ => False
  | .update _, .error _ => False
  | .delete _, .error _ => False
  | .updateOwner _, .error _ => False
  | _, _ => True

/-- The call can be answered without an error. `fresh` is what is known of a suffix that was
drawn. -/
def Possible (fresh : String → Store → Prop) (a : Store) : Request ServiceBody PodBody → Prop
  | .get key => ∃ svc, a.services.find? key = some svc
  | .create pod => ∃ base suffix, pod.name = base ++ suffix ∧ fresh suffix a
  | .update w => ∃ cur, a.pods.find? w.key = some cur ∧ cur.resourceVersion = w.resourceVersion
  | .delete pod => ∃ cur, a.pods.find? pod.key = some cur
  | .updateOwner w =>
    ∃ cur, a.services.find? w.key = some cur ∧ cur.resourceVersion = w.resourceVersion
  | .list _ _ => True
  | .rand _ => True

def Store.remove (a : Store) (cur : Pod) : Option Time → Store
  | none => a.erasePod cur.key
  | some t => a.markPod cur t

/-- A server on which no call fails that can succeed, and pods are deleted as `allows` says. -/
structure Calm (allows : NamespacedName → Option Time → Prop) (fresh : String → Store → Prop)
    (serve : Server (Request ServiceBody PodBody) Response Store) : Prop where
  answers : ∀ a i o b, serve a i o b → a.serve i o b
  deletes : ∀ a x o b, serve a (.delete x) o b → ∀ cur, a.pods.find? x.key = some cur →
    cur.deletionTimestamp = none → ∃ grace, allows cur.key grace ∧ b = a.remove cur grace
  draws : ∀ a n suffix b, serve a (.rand n) suffix b → fresh suffix b
  succeeds : ∀ a i o b, serve a i o b → Possible fresh a i → Succeeds i o

/-- The server on which every call succeeds. -/
def smoothServe (allows : NamespacedName → Option Time → Prop) :
    Server (Request ServiceBody PodBody) Response Store := fun s i o s' =>
  s.serve i o s' ∧ Succeeds i o ∧
    ∀ x cur, i = .delete x → s.pods.find? x.key = some cur → cur.deletionTimestamp = none →
      ∃ grace, allows cur.key grace ∧ s' = s.remove cur grace

theorem calm_smoothServe (allows : NamespacedName → Option Time → Prop) :
    Calm allows (fun _ _ => True) (smoothServe allows) where
  answers _ _ _ _ h := h.1
  deletes _ x _ _ h cur hcur hnone := h.2.2 x cur rfl hcur hnone
  draws _ _ _ _ _ := trivial
  succeeds _ _ _ _ h _ := h.2.1

variable {allows : NamespacedName → Option Time → Prop} {fresh : String → Store → Prop}
  {serve : Server (Request ServiceBody PodBody) Response Store} {a b : Store}

theorem Calm.get (h : Calm allows fresh serve) {key : NamespacedName} {svc : Service}
    {o : Except GoError Service} (hsvc : a.services.find? key = some svc)
    (ho : serve a (.get key) o b) : o = .ok svc ∧ b = a ∧ Succeeds (.get key) o := by
  have hok := h.succeeds _ _ _ _ ho ⟨svc, hsvc⟩
  have hans := h.answers _ _ _ _ ho
  cases o with
  | error err => exact hok.elim
  | ok svc' =>
    obtain ⟨hsvc', rfl⟩ := hans
    cases hsvc.symm.trans hsvc'
    exact ⟨rfl, rfl, trivial⟩

theorem Calm.list (h : Calm allows fresh serve) {ns : String} {selector : Selector}
    {o : Except GoError (List Pod)} (ho : serve a (.list ns selector) o b) :
    b = a ∧ Succeeds (.list ns selector) o ∧
      ∀ items, o = .ok items → items.Perm (a.select ns selector) := by
  have hok := h.succeeds _ _ _ _ ho trivial
  have hans := h.answers _ _ _ _ ho
  cases o with
  | error err => exact hok.elim
  | ok items =>
    obtain ⟨hperm, rfl⟩ := hans
    refine ⟨rfl, trivial, ?_⟩
    rintro _ ⟨⟩
    exact hperm

theorem Calm.update (h : Calm allows fresh serve) {w cur : Pod} {o : Except GoError Pod}
    (hcur : a.pods.find? w.key = some cur) (hv : cur.resourceVersion = w.resourceVersion)
    (ho : serve a (.update w) o b) :
    o = .ok (a.updatePod cur w).1 ∧ b = (a.updatePod cur w).2 ∧ Succeeds (.update w) o := by
  have hok := h.succeeds _ _ _ _ ho ⟨cur, hcur, hv⟩
  have hans := h.answers _ _ _ _ ho
  cases o with
  | error err => exact hok.elim
  | ok stored =>
    obtain ⟨cur', hcur', -, heq⟩ := hans
    cases hcur.symm.trans hcur'
    exact ⟨congrArg (fun x => Except.ok x.1) heq, congrArg Prod.snd heq, trivial⟩

theorem Calm.updateOwner (h : Calm allows fresh serve) {w cur : Service}
    {o : Except GoError Service} (hcur : a.services.find? w.key = some cur)
    (hv : cur.resourceVersion = w.resourceVersion) (ho : serve a (.updateOwner w) o b) :
    o = .ok (a.updateService cur w).1 ∧ b = (a.updateService cur w).2 ∧
      Succeeds (.updateOwner w) o := by
  have hok := h.succeeds _ _ _ _ ho ⟨cur, hcur, hv⟩
  have hans := h.answers _ _ _ _ ho
  cases o with
  | error err => exact hok.elim
  | ok stored =>
    obtain ⟨cur', hcur', -, heq⟩ := hans
    cases hcur.symm.trans hcur'
    exact ⟨congrArg (fun x => Except.ok x.1) heq, congrArg Prod.snd heq, trivial⟩

theorem Calm.delete (h : Calm allows fresh serve) {x cur : Pod} {o : Except GoError Unit}
    (hcur : a.pods.find? x.key = some cur) (ho : serve a (.delete x) o b) :
    o = .ok () ∧ Succeeds (.delete x) o ∧
      (cur.deletionTimestamp.isSome ∧ b = a ∨ cur.deletionTimestamp = none ∧
        ∃ grace, allows cur.key grace ∧ b = a.remove cur grace) := by
  have hok := h.succeeds _ _ _ _ ho ⟨cur, hcur⟩
  have hans := h.answers _ _ _ _ ho
  have hdel := h.deletes _ _ _ _ ho cur hcur
  cases o with
  | error err => exact hok.elim
  | ok u =>
    refine ⟨rfl, trivial, ?_⟩
    obtain ⟨cur', hcur', ⟨hmark, rfl⟩ | ⟨hnone, -⟩⟩ := hans
    · cases hcur.symm.trans hcur'
      exact Or.inl ⟨hmark, rfl⟩
    · cases hcur.symm.trans hcur'
      exact Or.inr ⟨hnone, hdel hnone⟩

end Server
end FrpProvisioner
