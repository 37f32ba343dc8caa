import FrpProvisioner.Controller.Reconciling
import FrpProvisioner.Controller.Store
import FrpProvisioner.Effect.Interleaving
import FrpProvisioner.Effect.Versions

/-! What the updates of concurrent runs change. The runs read copies of any age, and other
clients change Services and Pods at will; the API server accepts an update only with the
stored resource version. -/
namespace FrpProvisioner
open Effect

/-- The content moves on: what is new or changed carries the next version. -/
structure Advances (s s' : Store) : Prop where
  revision : s'.revision = s.revision + 1
  services : ∀ a ∈ s'.services, a ∈ s.services ∨ a.resourceVersion = s.revision + 1
  pods : ∀ a ∈ s'.pods, a ∈ s.pods ∨ a.resourceVersion = s.revision + 1

theorem advances_replacePod (s : Store) (w : Pod) : Advances s (s.replacePod w) := by
  refine ⟨rfl, fun a ha => Or.inl ha, fun a ha => ?_⟩
  rcases Store.mem_replacePod.mp ha with ⟨rfl, -⟩ | ⟨ha, -⟩
  · exact Or.inr rfl
  · exact Or.inl ha

theorem advances_insertPod (s : Store) (pod : Pod) (uid : String) :
    Advances s (s.insertPod (s.created pod uid)) := by
  constructor
  · rfl
  · exact fun a ha => Or.inl ha
  · intro a ha
    rcases Table.mem_upsert.mp ha with rfl | ⟨ha, -⟩
    · exact Or.inr rfl
    · exact Or.inl ha

theorem advances_updateService (s : Store) (cur w : Service) :
    (s.updateService cur w).2 = s ∨ Advances s (s.updateService cur w).2 := by
  unfold Store.updateService Store.replaceService
  split
  · exact Or.inl rfl
  split
  · refine Or.inr ⟨rfl, fun a ha => ?_, fun a ha => Or.inl ha⟩
    exact Or.inl (Table.mem_erase.mp ha).1
  · refine Or.inr ⟨rfl, fun a ha => ?_, fun a ha => Or.inl ha⟩
    rcases Table.mem_replace.mp ha with ⟨rfl, -⟩ | ⟨ha, -⟩
    · exact Or.inr rfl
    · exact Or.inl ha

/-- A call either changes nothing or moves the content on. -/
theorem serve_advances {s s' : Store} {i : Request ServiceBody PodBody} {o : Response i}
    (h : s.serve i o s') : s' = s ∨ Advances s s' := by
  cases i with
  | get key => exact Or.inl (Store.serve_get h)
  | list ns selector => exact Or.inl (Store.serve_list h)
  | create pod =>
    cases o with
    | error err => exact Or.inl h
    | ok stored =>
      obtain ⟨-, uid, rfl, rfl⟩ := h
      exact Or.inr (advances_insertPod s pod uid)
  | update w =>
    cases o with
    | error err => exact Or.inl h
    | ok stored =>
      obtain ⟨cur, -, -, h⟩ := h
      unfold Store.updatePod at h
      split at h
      · exact Or.inl (Prod.mk.inj h).2
      · exact Or.inr ((Prod.mk.inj h).2 ▸ advances_replacePod s w)
  | delete x =>
    cases o with
    | error err => exact Or.inl h
    | ok u =>
      obtain ⟨cur, -, ⟨-, rfl⟩ | ⟨-, rfl | ⟨t, rfl⟩⟩⟩ := h
      · exact Or.inl rfl
      · exact Or.inr ⟨rfl, fun a ha => Or.inl ha, fun a ha => Or.inl (Table.mem_erase.mp ha).1⟩
      · exact Or.inr (advances_replacePod s _)
  | updateOwner w =>
    cases o with
    | error err => exact Or.inl h
    | ok stored =>
      obtain ⟨cur, -, -, h⟩ := h
      rw [(Prod.mk.inj h).2]
      exact advances_updateService s cur w
  | rand n => exact Or.inl h

/-- The store with every Service and Pod it has ever held. -/
structure Archive where
  store : Store
  services : List Service
  pods : List Pod

namespace Archive

def record (a : Archive) (s : Store) : Archive :=
  ⟨s, s.services.entries ++ a.services, s.pods.entries ++ a.pods⟩

def ofStore (s : Store) : Archive := ⟨s, s.services.entries, s.pods.entries⟩

/-- Reads are answered with copies of any age, each on its own; writes go to the store. -/
def serve : Server (Request ServiceBody PodBody) Response Archive
  | a, .get key, .ok svc, b => svc ∈ a.services ∧ svc.key = key ∧ b = a
  | a, .get _, .error _, b => b = a
  | a, .list ns selector, .ok items, b =>
      (∀ x ∈ items, x ∈ a.pods ∧ x.ns = ns ∧ selector x.labels = true) ∧ b = a
  | a, .list _ _, .error _, b => b = a
  | a, i, o, b => ∃ s, a.store.serve i o s ∧ b = a.record s

end Archive

def updateSystem (π : Type) (r : ServiceReconciler) (others : Store → Store → Prop) :
    System π (Request ServiceBody PodBody) Response Archive (Option GoError) where
  start _ _ prog := ∃ req, prog = r.reconcile req
  serve _ := Archive.serve
  env a b := ∃ s, Advances a.store s ∧ others a.store s ∧ b = a.record s

/-- The finalizer list `after` has the finalizer appended, where it was missing, or has lost
every occurrence of it. -/
def FinalizersChanged (before after : List String) : Prop :=
  (finalizerName ∉ before ∧ after = before ++ [finalizerName]) ∨
    after = before.filter (· ≠ finalizerName)

def FinalizerOnce (s : Store) : Prop :=
  ∀ svc ∈ s.services, svc.finalizers.count finalizerName ≤ 1

instance (s : Store) : Decidable (FinalizerOnce s) :=
  inferInstanceAs (Decidable (∀ svc ∈ s.services.entries, _))

theorem FinalizersChanged.count_le {before after : List String}
    (h : FinalizersChanged before after) : after.count finalizerName ≤ 1 := by
  rcases h with ⟨hnot, rfl⟩ | rfl
  · rw [List.count_append, List.count_eq_zero.mpr hnot]
    decide
  · rw [List.count_eq_zero.mpr (by simp)]
    decide

section
variable {π : Type} {r : ServiceReconciler} {others : Store → Store → Prop} {a b : Archive}

/-- What the runs write: a copy they have read, with other finalizers or owner references. -/
def updateGuarantee : Server (Request ServiceBody PodBody) Response Archive
  | a, .update w, _, _ => ∃ x ∈ a.pods, ∃ refs, w = { x with ownerReferences := refs }
  | a, .updateOwner w, _, _ => ∃ x ∈ a.services, ∃ finalizers,
      FinalizersChanged x.finalizers finalizers ∧ w = { x with finalizers := finalizers }
  | _, _, _, _ => True

structure UpdateInv (others : Store → Store → Prop) (a : Archive) : Prop where
  services : Recorded (fun svc : Service => svc.resourceVersion) a.store.services a.services
    a.store.revision
  pods : Recorded (fun p : Pod => p.resourceVersion) a.store.pods a.pods a.store.revision
  once : (∀ s s', others s s' → FinalizerOnce s → FinalizerOnce s') → FinalizerOnce a.store

def Keeps (a b : Archive) : Prop := (∀ x ∈ a.services, x ∈ b.services) ∧ ∀ x ∈ a.pods, x ∈ b.pods

theorem keeps_record (a : Archive) (s : Store) : Keeps a (a.record s) :=
  ⟨fun _ hx => List.mem_append_right _ hx, fun _ hx => List.mem_append_right _ hx⟩

theorem UpdateInv.record {s : Store} (h : UpdateInv others a)
    (hs : s = a.store ∨ Advances a.store s)
    (honce : (∀ s s', others s s' → FinalizerOnce s → FinalizerOnce s') → FinalizerOnce s) :
    UpdateInv others (a.record s) := by
  rcases hs with rfl | hs
  · exact ⟨h.services.again, h.pods.again, honce⟩
  · refine ⟨?_, ?_, honce⟩
    · show Recorded _ _ _ s.revision
      rw [hs.revision]
      exact h.services.advance hs.services
    · show Recorded _ _ _ s.revision
      rw [hs.revision]
      exact h.pods.advance hs.pods

/-- Calls on pods leave the Services, and updates of a Service write what was sent. -/
theorem finalizerOnce_serve {s : Store} {i : Request ServiceBody PodBody} {o : Response i}
    (h : FinalizerOnce a.store) (hs : a.store.serve i o s) (hG : updateGuarantee a i o b) :
    FinalizerOnce s := by
  cases i with
  | get key => exact Store.serve_get hs ▸ h
  | list ns selector => exact Store.serve_list hs ▸ h
  | create pod =>
    unfold FinalizerOnce
    rw [(Store.serve_create hs).1]
    exact h
  | update w =>
    unfold FinalizerOnce
    rw [(Store.serve_update hs).1]
    exact h
  | delete x =>
    unfold FinalizerOnce
    rw [(Store.serve_delete hs).1]
    exact h
  | updateOwner w =>
    obtain ⟨x, -, finalizers, hchange, rfl⟩ := hG
    intro svc hsvc
    obtain ⟨-, hframe, ⟨stored, cur, -, -, -, hst, hres⟩ | ⟨err, -, rfl⟩⟩ :=
      Store.serve_updateOwner hs
    · by_cases hk : svc.key = x.key
      · have hfind : s.services.find? x.key = some svc := hk ▸ Table.find?_of_mem hsvc
        rcases hres with hres | ⟨-, -, hres⟩
        · cases hfind.symm.trans hres
          rw [hst]
          exact hchange.count_le
        · cases hfind.symm.trans hres
      · exact h svc ((hframe svc hk).mp hsvc)
    · exact h svc hsvc
  | rand n => exact hs ▸ h

theorem archive_serve {i : Request ServiceBody PodBody} {o : Response i}
    (h : Archive.serve a i o b) : b = a ∨ ∃ s, a.store.serve i o s ∧ b = a.record s := by
  cases i with
  | get key => cases o with
    | error err => exact Or.inl h
    | ok svc => exact Or.inl h.2.2
  | list ns selector => cases o with
    | error err => exact Or.inl h
    | ok items => exact Or.inl h.2
  | create pod => exact Or.inr h
  | update w => exact Or.inr h
  | delete x => exact Or.inr h
  | updateOwner w => exact Or.inr h
  | rand n => exact Or.inr h

theorem UpdateInv.next {i : Request ServiceBody PodBody} {o : Response i}
    (h : UpdateInv others a) (ho : Archive.serve a i o b) (hG : updateGuarantee a i o b) :
    UpdateInv others b := by
  rcases archive_serve ho with rfl | ⟨s, hs, rfl⟩
  · exact h
  · exact h.record (serve_advances hs) fun hothers => finalizerOnce_serve (h.once hothers) hs hG

theorem UpdateInv.env (h : UpdateInv others a) (hs : (updateSystem π r others).env a b) :
    UpdateInv others b := by
  obtain ⟨s, hadv, hoth, rfl⟩ := hs
  exact h.record (Or.inr hadv) fun hothers => hothers _ _ hoth (h.once hothers)

abbrev updateRely (r : ServiceReconciler) (others : Store → Store → Prop) (p : π) :
    Archive → Archive → Prop :=
  Relation.ReflTransGen
    ((updateSystem π r others).Rely (UpdateInv others) (fun _ => updateGuarantee) p)

abbrev updateServe (r : ServiceReconciler) (others : Store → Store → Prop) (p : π) :
    Server (Request ServiceBody PodBody) Response Archive :=
  (updateSystem π r others).serveIn (UpdateInv others) p

theorem keeps_serve {i : Request ServiceBody PodBody} {o : Response i}
    (h : Archive.serve a i o b) : Keeps a b := by
  rcases archive_serve h with rfl | ⟨s, -, rfl⟩
  · exact ⟨fun _ => id, fun _ => id⟩
  · exact keeps_record a s

theorem keeps_rely {p : π} (h : updateRely r others p a b) : Keeps a b := by
  induction h with
  | refl => exact ⟨fun _ => id, fun _ => id⟩
  | @tail c d _ hstep ih =>
    have hkeep : Keeps c d := by
      obtain ⟨-, ⟨s, -, -, rfl⟩ | ⟨q, -, i, o, hserve, -⟩⟩ := hstep
      · exact keeps_record _ s
      · exact keeps_serve hserve
    exact ⟨fun x hx => hkeep.1 x (ih.1 x hx), fun x hx => hkeep.2 x (ih.2 x hx)⟩

theorem keeps_answer {p : π} {i : Request ServiceBody PodBody} {o : Response i}
    (h : updateServe r others p a i o b) : Keeps a b := by
  have hserve : Archive.serve a i o b := h.2
  exact keeps_serve hserve

/-- What a run knows: the copies it works with have been stored. -/
def HasRead (svc : Service) (items : List Pod) (a : Archive) : Prop :=
  svc ∈ a.services ∧ ∀ x ∈ items, x ∈ a.pods

theorem HasRead.keeps {svc : Service} {items : List Pod} (h : HasRead svc items a)
    (hk : Keeps a b) : HasRead svc items b :=
  ⟨hk.1 svc h.1, fun x hx => hk.2 x (h.2 x hx)⟩

private theorem wp_createPod_update {p : π} {svc : Service} :
    (r.createPod svc).wp (updateRely r others p) (updateServe r others p) updateGuarantee
      (fun _ _ => True) a :=
  ServiceReconciler.wp_createPod (fun _ => True) trivial (fun _ _ _ _ => trivial)
    (fun _ _ _ => trivial) (fun _ _ _ _ _ => ⟨trivial, trivial⟩)
    fun _ _ _ _ _ _ _ _ _ _ => ⟨trivial, fun _ _ => trivial, fun _ _ _ => trivial⟩

private theorem claimSpec_update {p : π} {svc : Service} {items : List Pod} {x : Pod}
    {once : Once} (hx : x ∈ items) :
    (ServiceReconciler.refManager svc).ClaimSpec ((ServiceReconciler.refManager svc).matching [])
      (updateRely r others p) (updateServe r others p) updateGuarantee once x
      (HasRead svc items) (fun _ => HasRead svc items) fun _ a => HasRead svc items a := by
  refine RefManager.ClaimSpec.of_assertion (fun _ _ h hab => h.keeps (keeps_rely hab)) ?_
    (fun _ _ _ h => h) (fun _ _ _ _ _ h => h) ?_ ?_
  · exact fun a h o b ho => ⟨trivial, h.keeps (keeps_answer ho)⟩
  · intro w hw a h o b ho
    obtain ⟨g, -, -, hwx⟩ := setControllerReference_ok hw.write
    have hread := h.keeps (keeps_answer ho)
    exact ⟨⟨x, h.2 x hx, _, hwx⟩, fun _ _ => hread, fun _ _ _ _ _ => hread⟩
  · intro w hw a h o b ho
    obtain ⟨idx, -, hwx⟩ := hw.write
    exact ⟨⟨x, h.2 x hx, _, hwx⟩, fun _ _ _ => h.keeps (keeps_answer ho)⟩

private theorem wp_converge_update {p : π} {req : NamespacedName} {svc : Service}
    {items claimed inactive : List Pod} (h : HasRead svc items a) :
    (r.converge req svc claimed inactive).wp (updateRely r others p) (updateServe r others p)
      updateGuarantee (fun _ _ => True) a := by
  refine ServiceReconciler.wp_converge (fun _ _ => HasRead svc items) h
    (fun _ _ _ _ h hab => h.keeps (keeps_rely hab)) ?_ (fun _ _ _ _ _ => trivial) ?_ ?_
  · exact fun _ _ _ _ a _ h o b ho => ⟨trivial, h.keeps (keeps_answer ho)⟩
  · intro a h _
    refine ServiceReconciler.wp_provide (HasRead svc items) h
      (fun _ _ h hab => h.keeps (keeps_rely hab)) ?_ (fun _ _ => wp_createPod_update)
      (fun _ _ => trivial)
    intro hnot a h o b ho
    exact ⟨⟨svc, h.1, _, Or.inl ⟨hnot, rfl⟩, rfl⟩, fun _ _ _ => wp_createPod_update,
      fun _ _ _ => trivial, fun _ _ _ => trivial⟩
  · intro a h _
    refine ServiceReconciler.wp_cleanUp (fun _ _ => HasRead svc items) h
      (fun _ _ _ _ h hab => h.keeps (keeps_rely hab)) ?_ ?_
    · exact fun _ _ _ _ _ a _ h o b ho => ⟨trivial, h.keeps (keeps_answer ho)⟩
    · intro _ a h o b ho
      exact ⟨⟨svc, h.1, _, Or.inr rfl, rfl⟩, fun _ _ => trivial, fun _ _ _ => trivial⟩

theorem wp_reconcile_update {p : π} {req : NamespacedName} :
    (r.reconcile req).wp (updateRely r others p) (updateServe r others p) updateGuarantee
      (fun _ _ => True) a := by
  refine ServiceReconciler.wp_reconcile (fun _ => True) (fun svc => HasRead svc []) trivial
    (fun _ _ _ _ => trivial) (fun _ _ _ h hab => h.keeps (keeps_rely hab)) ?_ ?_
  · intro a _ o b ho
    refine ⟨trivial, ?_, fun _ _ => trivial⟩
    rintro svc rfl
    obtain ⟨-, hmem, -, rfl⟩ := ho
    exact ⟨hmem, by simp⟩
  · intro svc a h o b ho
    refine ⟨trivial, ?_, fun _ _ => trivial⟩
    rintro items rfl
    obtain ⟨-, hitems, rfl⟩ := ho
    have hread : HasRead svc (items.filter isPodActive) b :=
      ⟨h.1, fun x hx => (hitems x (List.mem_of_mem_filter hx)).1⟩
    refine ServiceReconciler.wp_settle (fun _ _ => HasRead svc (items.filter isPodActive)) hread
      ?_ (fun _ _ _ _ _ => trivial) (fun _ _ h _ => wp_converge_update h)
    intro done x rest st a hl h
    exact ⟨_, _, h, claimSpec_update (by simp [hl])⟩

theorem update_compatible : (updateSystem π r others).Compatible (UpdateInv others)
    (fun _ => updateGuarantee) (fun _ _ _ => True) where
  env _ _ h hs := h.env hs
  guarantee _ _ _ _ _ h ho hG := h.next ho hG
  start _ _ _ _ hprog := by
    obtain ⟨req, rfl⟩ := hprog
    exact wp_reconcile_update
  stable _ _ _ _ _ _ := trivial

variable [DecidableEq π]

/-- An accepted update of a Service was made from the stored one. -/
private theorem accepted_updateOwner {w stored : Service} (h : UpdateInv others a)
    (hG : updateGuarantee a (.updateOwner w) (.ok stored) b)
    (ho : Archive.serve a (.updateOwner w) (.ok stored) b) :
    ∃ cur, a.store.services.find? w.key = some cur ∧
      (∃ finalizers version, FinalizersChanged cur.finalizers finalizers ∧
        stored = { cur with finalizers := finalizers, resourceVersion := version }) ∧
      (∀ svc, b.store.services.find? w.key = some svc → svc = stored) ∧
      (∀ y, y.key ≠ w.key → (y ∈ b.store.services ↔ y ∈ a.store.services)) ∧
      b.store.pods = a.store.pods := by
  obtain ⟨x, hx, finalizers, hchange, rfl⟩ := hG
  obtain ⟨s, hs, rfl⟩ := ho
  obtain ⟨hpods, hframe, ⟨_, cur, ⟨⟩, hcur, hrv, hst, hres⟩ | ⟨err, he, -⟩⟩ :=
    Store.serve_updateOwner hs
  · obtain ⟨hmem, hkey⟩ := Table.find?_eq_some.mp hcur
    obtain rfl : x = cur := h.services.eq_stored hx hmem hkey.symm hrv.symm
    refine ⟨x, hcur, ⟨finalizers, _, hchange, hst⟩, fun svc hfind => ?_, hframe, hpods⟩
    rcases hres with hres | ⟨-, -, hres⟩
    · exact Option.some.inj (hfind.symm.trans hres)
    · cases hfind.symm.trans hres
  · cases he

/-- An accepted update of a pod was made from the stored one. -/
private theorem accepted_update {w stored : Pod} (h : UpdateInv others a)
    (hG : updateGuarantee a (.update w) (.ok stored) b)
    (ho : Archive.serve a (.update w) (.ok stored) b) :
    ∃ cur, a.store.pods.find? w.key = some cur ∧
      (∃ refs version, stored = { cur with ownerReferences := refs, resourceVersion := version }) ∧
      b.store.pods.find? w.key = some stored ∧
      (∀ y, y.key ≠ w.key → (y ∈ b.store.pods ↔ y ∈ a.store.pods)) ∧
      b.store.services = a.store.services := by
  obtain ⟨x, hx, refs, rfl⟩ := hG
  obtain ⟨s, hs, rfl⟩ := ho
  obtain ⟨hservices, hframe, ⟨_, ⟨⟩, hmem', hst, cur, hmem, hkey, hrv⟩ | ⟨err, he, -⟩⟩ :=
    Store.serve_update hs
  · obtain rfl : x = cur := h.pods.eq_stored hx hmem hkey.symm hrv.symm
    refine ⟨x, Table.find?_of_mem hmem, ⟨refs, _, hst⟩, ?_, hframe, hservices⟩
    refine Table.find?_eq_some.mpr ⟨hmem', ?_⟩
    rw [hst]
    rfl
  · cases he

/-- No update of a run loses anything: an accepted update changes, of the object stored right
before it, only the finalizers of a Service or the owner references of a pod, and the version.
The finalizer is never there twice unless another client puts it there. -/
theorem updates_lose_nothing (r : ServiceReconciler) (others : Store → Store → Prop) (s₀ : Store)
    (hservices : ∀ svc ∈ s₀.services, svc.resourceVersion ≤ s₀.revision)
    (hpods : ∀ p ∈ s₀.pods, p.resourceVersion ≤ s₀.revision) (honce : FinalizerOnce s₀)
    (ls : List (Label π (Request ServiceBody PodBody) Response (Option GoError)))
    (c : Config π (Request ServiceBody PodBody) Response Archive (Option GoError))
    (hrun : System.Run (updateSystem π r others) (System.idle (Archive.ofStore s₀)) ls c) :
    (∀ p w stored d, System.Step (updateSystem π r others) c
        (.call p (.updateOwner w) (.ok stored)) d →
      ∃ cur, c.state.store.services.find? w.key = some cur ∧
        (∃ finalizers version, FinalizersChanged cur.finalizers finalizers ∧
          stored = { cur with finalizers := finalizers, resourceVersion := version }) ∧
        (∀ svc, d.state.store.services.find? w.key = some svc → svc = stored) ∧
        (∀ y, y.key ≠ w.key → (y ∈ d.state.store.services ↔ y ∈ c.state.store.services)) ∧
        d.state.store.pods = c.state.store.pods) ∧
    (∀ p w stored d, System.Step (updateSystem π r others) c
        (.call p (.update w) (.ok stored)) d →
      ∃ cur, c.state.store.pods.find? w.key = some cur ∧
        (∃ refs version,
          stored = { cur with ownerReferences := refs, resourceVersion := version }) ∧
        d.state.store.pods.find? w.key = some stored ∧
        (∀ y, y.key ≠ w.key → (y ∈ d.state.store.pods ↔ y ∈ c.state.store.pods)) ∧
        d.state.store.services = c.state.store.services) ∧
    ((∀ s s', others s s' → FinalizerOnce s → FinalizerOnce s') →
      FinalizerOnce c.state.store) := by
  have hinit : UpdateInv others (Archive.ofStore s₀) :=
    ⟨.init hservices, .init hpods, fun _ => honce⟩
  have hinv := (System.inv_idle hinit).run update_compatible hrun
  refine ⟨?_, ?_, hinv.1.once⟩
  · intro p w stored d hstep
    cases hstep with
    | call hp hserve => exact accepted_updateOwner hinv.1 (hinv.guarantee hp hserve) hserve
  · intro p w stored d hstep
    cases hstep with
    | call hp hserve => exact accepted_update hinv.1 (hinv.guarantee hp hserve) hserve

/-- The run for a new Service, up to its first update. -/
private theorem run_newStore : ∃ ls c d,
    System.Run (updateSystem Unit emptyTemplate fun _ _ => False)
      (System.idle (Archive.ofStore newStore)) ls c ∧
    System.Step (updateSystem Unit emptyTemplate fun _ _ => False) c
      (.call () (.updateOwner webService) (.ok { webService with resourceVersion := 2 })) d := by
  have hrun : ∃ d, System.Run (updateSystem Unit emptyTemplate fun _ _ => False)
      (System.idle (Archive.ofStore newStore))
      [.start (), .call () (.get newService.key) (.ok newService),
        .call () (.list "default" (podSelector newService)) (.ok [])] d ∧
      ∃ k, d.procs () = some (.request (.updateOwner webService) k) ∧
        d.state = Archive.ofStore newStore :=
    ⟨_, .cons (.start rfl ⟨newService.key, rfl⟩) (.cons (.call rfl ⟨by decide, rfl, rfl⟩)
      (.cons (.call rfl ⟨by simp, rfl⟩) (.nil _))), _, rfl, rfl⟩
  obtain ⟨⟨a, ps⟩, hrun, k, hk, ha⟩ := hrun
  subst ha
  exact ⟨_, _, _, hrun, .call hk ⟨_, ⟨newService, by decide, rfl, rfl⟩, rfl⟩⟩

theorem updates_lose_nothing_newStore :
    ∃ c : Config Unit (Request ServiceBody PodBody) Response Archive (Option GoError),
      ∃ cur, c.state.store.services.find? webService.key = some cur ∧ ∃ finalizers version,
        FinalizersChanged cur.finalizers finalizers ∧
        ({ webService with resourceVersion := 2 } : Service) =
          { cur with finalizers := finalizers, resourceVersion := version } := by
  obtain ⟨ls, c, d, hrun, hstep⟩ := run_newStore
  obtain ⟨hupdate, -⟩ := updates_lose_nothing emptyTemplate (fun _ _ => False) newStore
    (by decide) (by decide) (by decide) ls c hrun
  obtain ⟨cur, hcur, hchange, -⟩ := hupdate () _ _ d hstep
  exact ⟨c, cur, hcur, hchange⟩

end
end FrpProvisioner
