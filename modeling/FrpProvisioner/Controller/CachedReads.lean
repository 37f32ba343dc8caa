import FrpProvisioner.Controller.Serving
import FrpProvisioner.Effect.Interleaving

/-! Runs of the Service reconciler that read from informer caches. The caches hold earlier
contents of the store and catch up in store order; writes go to the store. -/
namespace FrpProvisioner
open Effect

/-- The store with its earlier contents, oldest first, and how far the two caches have come. -/
structure Cluster where
  log : List Store
  store : Store
  servicesAt : ℕ
  podsAt : ℕ

namespace Cluster

/-- The content after the first `n` writes; what is not in the log yet is the store. -/
def seen (c : Cluster) (n : ℕ) : Store := c.log.getD n c.store

def write (c : Cluster) (s : Store) : Cluster :=
  if s = c.store then c else { c with log := c.log ++ [c.store], store := s }

/-- Gets and lists are answered from the caches, everything else by the store. A name that was
generated is one that no pod has had before. -/
def serve : Server (Request ServiceBody PodBody) Response Cluster
  | c, .get key, o, c' => (c.seen c.servicesAt).serve (.get key) o (c.seen c.servicesAt) ∧
      (c.seen c.servicesAt).Honest (.get key) o ∧ c' = c
  | c, .list ns selector, o, c' =>
      (c.seen c.podsAt).serve (.list ns selector) o (c.seen c.podsAt) ∧ c' = c
  | c, .create pod, o, c' => ∃ s, c.store.serve (.create pod) o s ∧ c' = c.write s ∧
      ∀ stored, o = .ok stored → ∀ t ∈ c.log, t.pods.find? pod.key = none
  | c, i, o, c' => ∃ s, c.store.serve i o s ∧ c.store.Honest i o ∧ c' = c.write s

/-- What happens beside the runs: caches catch up, the status of pods changes, marked pods go,
and users edit or delete the Service. -/
inductive Step (key : NamespacedName) : Cluster → Cluster → Prop where
  | servicesCatchUp {c : Cluster} : c.servicesAt < c.log.length →
      Step key c { c with servicesAt := c.servicesAt + 1 }
  | podsCatchUp {c : Cluster} : c.podsAt < c.log.length →
      Step key c { c with podsAt := c.podsAt + 1 }
  | status {c : Cluster} {p : Pod} (phase : PodPhase) (rest : String) : p ∈ c.store.pods →
      Step key c (c.write (c.store.replacePod
        { p with body := { p.body with phase := phase, statusRest := rest } }))
  | gone {c : Cluster} {p : Pod} : p ∈ c.store.pods → p.deletionTimestamp.isSome →
      Step key c (c.write (c.store.erasePod p.key))
  | user {c : Cluster} {s : Store} : UserStep key c.store s → Step key c (c.write s)

def system (r : ServiceReconciler) (key : NamespacedName) :
    System Unit (Request ServiceBody PodBody) Response Cluster (Option GoError) where
  start _ _ prog := prog = r.reconcile key
  serve _ := serve
  env := Step key

def AtMostOne (uid : String) (s : Store) : Prop :=
  ∀ p ∈ s.pods, ∀ q ∈ s.pods, isPodActive p = true → isPodActive q = true →
    ControlledBy uid p → ControlledBy uid q → p = q

instance (uid : String) (s : Store) : Decidable (AtMostOne uid s) :=
  inferInstanceAs (Decidable (∀ p ∈ s.pods.entries, ∀ q ∈ s.pods.entries, _ → _ → _ → _ → _))

/-- A List shows, in some version, every pod of the Service that is in the store and not marked
for deletion. -/
def ListCovers (uid : String) (c : Cluster) : (i : Request ServiceBody PodBody) → Response i → Prop
  | .list _ _, .ok items => ∀ p ∈ c.store.pods, ControlledBy uid p → p.deletionTimestamp = none →
      ∃ x ∈ items, x.key = p.key
  | _, _ => True

section
variable {svc₀ svc : Service} {s s' : Store} {c c' : Cluster} {r : ServiceReconciler}
  {key : NamespacedName} {uid : String}

/-- A pod with this key is controlled by the Service and not marked for deletion. -/
def Live (uid : String) (s : Store) (key : NamespacedName) : Prop :=
  ∃ p ∈ s.pods, p.key = key ∧ ControlledBy uid p ∧ p.deletionTimestamp = none

/-- What every content has: the Service keeps its UID, and the pods with its labels are its
own. -/
structure Sound (svc₀ : Service) (s : Store) : Prop where
  same : ∀ svc, s.services.find? svc₀.key = some svc → svc.uid = svc₀.uid
  controlled : ∀ p ∈ s.pods, p.ns = svc₀.ns → podSelector svc₀ p.labels = true →
    ControlledBy svc₀.uid p

/-- Every pod of `s'` is one of `s`, but for its status, a mark and its version. -/
def PodsFrom (s s' : Store) : Prop :=
  ∀ y ∈ s'.pods, ∃ x ∈ s.pods,
    y.key = x.key ∧ y.labels = x.labels ∧ y.ownerReferences = x.ownerReferences ∧
      (y.deletionTimestamp = none → x.deletionTimestamp = none)

theorem PodsFrom.refl (s : Store) : PodsFrom s s := fun y hy => ⟨y, hy, rfl, rfl, rfl, id⟩

theorem PodsFrom.live (h : PodsFrom s s') {k : NamespacedName} (hk : Live uid s' k) :
    Live uid s k := by
  obtain ⟨y, hy, rfl, hctl, hdel⟩ := hk
  obtain ⟨x, hx, hkey, -, hrefs, hmark⟩ := h y hy
  refine ⟨x, hx, hkey.symm, ?_, hmark hdel⟩
  unfold ControlledBy getControllerOf at hctl ⊢
  rwa [hrefs] at hctl

theorem Sound.of_pods (h : Sound svc₀ s) (hpods : PodsFrom s s')
    (hs : ∀ svc, s'.services.find? svc₀.key = some svc → svc.uid = svc₀.uid) : Sound svc₀ s' := by
  refine ⟨hs, fun y hy hns hlabels => ?_⟩
  obtain ⟨x, hx, hkey, hl, hrefs, -⟩ := hpods y hy
  have hnsx : x.ns = svc₀.ns := (NamespacedName.mk.inj hkey).1 ▸ hns
  have hctl := h.controlled x hx hnsx (hl ▸ hlabels)
  unfold ControlledBy getControllerOf at hctl ⊢
  rwa [hrefs]

theorem podsFrom_delete {x : Pod} {o : Except GoError Unit} (h : s.serve (.delete x) o s') :
    PodsFrom s s' := by
  intro y hy
  obtain ⟨cur, hcur, t, v, rfl, hmark⟩ := Store.mem_serve_delete h hy
  exact ⟨cur, hcur, rfl, rfl, rfl, hmark⟩

/-- After a delete that succeeded, or did not find the pod, no live pod has its key. -/
theorem not_live_delete {x : Pod} {o : Except GoError Unit} (h : s.serve (.delete x) o s')
    (hok : ∀ err, o = .error err → s.pods.find? x.key = none) : ¬ Live uid s' x.key := by
  rintro ⟨y, hy, hk, -, hdel⟩
  obtain ⟨-, -, ⟨u, -, hmarked⟩ | ⟨err, he, rfl⟩⟩ := Store.serve_delete h
  · simpa [hdel] using hmarked y hy hk
  · exact Table.find?_eq_none.mp (hok err he) y hy hk

theorem atMostOne_of_live (h : ∀ k k', Live uid s k → Live uid s k' → k = k') :
    AtMostOne uid s := by
  have live : ∀ p ∈ s.pods, isPodActive p = true → ControlledBy uid p → Live uid s p.key := by
    intro p hp hact hctl
    refine ⟨p, hp, rfl, hctl, ?_⟩
    by_contra hdel
    simp [isPodActive_of_marked (Option.isSome_iff_ne_none.mpr hdel)] at hact
  intro p hp q hq hpa hqa hpc hqc
  exact Table.eq_of_key hp hq (h _ _ (live p hp hpa hpc) (live q hq hqa hqc))

structure CacheInv (svc₀ : Service) (c : Cluster) : Prop where
  sound : ∀ t ∈ c.store :: c.log, Sound svc₀ t
  single : ∀ k k', Live svc₀.uid c.store k → Live svc₀.uid c.store k' → k = k'

theorem seen_mem (c : Cluster) (n : ℕ) : c.seen n ∈ c.store :: c.log := by
  unfold seen
  rw [List.getD_eq_getElem?_getD]
  cases h : c.log[n]? with
  | none => exact List.mem_cons_self
  | some t => exact List.mem_cons_of_mem _ (List.mem_of_getElem? h)

@[simp] theorem write_store (c : Cluster) (s : Store) : (c.write s).store = s := by
  unfold write
  split
  next h => exact h.symm
  next => rfl

theorem CacheInv.write (h : CacheInv svc₀ c) (hs : Sound svc₀ s)
    (hsingle : ∀ k k', Live svc₀.uid s k → Live svc₀.uid s k' → k = k') :
    CacheInv svc₀ (c.write s) := by
  refine ⟨fun t ht => ?_, by simpa using hsingle⟩
  unfold Cluster.write at ht
  split at ht
  · exact h.sound t ht
  · rcases List.mem_cons.mp ht with rfl | ht
    · exact hs
    · rcases List.mem_append.mp ht with ht | ht
      · exact h.sound t (List.mem_cons_of_mem _ ht)
      · exact h.sound t (by simp [List.mem_singleton.mp ht])

/-- A write after which every pod comes from one there was before. -/
theorem CacheInv.write_podsFrom (h : CacheInv svc₀ c) (hpods : PodsFrom c.store s)
    (hs : ∀ svc, s.services.find? svc₀.key = some svc → svc.uid = svc₀.uid) :
    CacheInv svc₀ (c.write s) :=
  h.write ((h.sound _ List.mem_cons_self).of_pods hpods hs)
    fun k k' hk hk' => h.single k k' (hpods.live hk) (hpods.live hk')

theorem Step.podsFrom (h : Step key c c') : PodsFrom c.store c'.store := by
  cases h with
  | servicesCatchUp => exact .refl _
  | podsCatchUp => exact .refl _
  | @status p phase rest hp =>
    intro y hy
    rw [write_store] at hy
    rcases Store.mem_replacePod.mp hy with ⟨rfl, -⟩ | ⟨hy, -⟩
    · exact ⟨p, hp, rfl, rfl, rfl, id⟩
    · exact ⟨y, hy, rfl, rfl, rfl, id⟩
  | @gone p hp hdel =>
    intro y hy
    rw [write_store] at hy
    exact ⟨y, (Table.mem_erase.mp hy).1, rfl, rfl, rfl, id⟩
  | user hu =>
    rw [write_store]
    intro y hy
    rw [hu.frame.1] at hy
    exact ⟨y, hy, rfl, rfl, rfl, id⟩

theorem CacheInv.env (h : CacheInv svc₀ c) (hs : Step svc₀.key c c') : CacheInv svc₀ c' := by
  have hsame := (h.sound _ List.mem_cons_self).same
  have hpods := hs.podsFrom
  cases hs with
  | servicesCatchUp => exact ⟨h.sound, h.single⟩
  | podsCatchUp => exact ⟨h.sound, h.single⟩
  | status phase rest hp =>
    rw [write_store] at hpods
    exact h.write_podsFrom hpods hsame
  | gone hp hdel =>
    rw [write_store] at hpods
    exact h.write_podsFrom hpods hsame
  | user hu =>
    rw [write_store] at hpods
    refine h.write_podsFrom hpods fun svc hfind => ?_
    obtain ⟨svc', hfind', huid⟩ := hu.frame.2.2 svc hfind
    exact huid.trans (hsame svc' hfind')

/-- What the runs guarantee: no pod is updated, and one is created only when none is live. -/
def guarantee (svc₀ : Service) : Server (Request ServiceBody PodBody) Response Cluster
  | _, .update _, _, _ => False
  | c, .create pod, _, _ => (∀ k, ¬ Live svc₀.uid c.store k) ∧
      ∀ uid, ControlledBy svc₀.uid (c.store.created pod uid)
  | _, .updateOwner w, _, _ => w.key = svc₀.key ∧ w.uid = svc₀.uid
  | _, _, _, _ => True

theorem CacheInv.next {i : Request ServiceBody PodBody} {o : Response i} (h : CacheInv svc₀ c)
    (ho : serve c i o c') (hG : guarantee svc₀ c i o c') : CacheInv svc₀ c' := by
  have hsame := (h.sound _ List.mem_cons_self).same
  cases i with
  | get key => exact ho.2.2 ▸ h
  | list ns selector => exact ho.2 ▸ h
  | create pod =>
    obtain ⟨s, hs, rfl, -⟩ := ho
    obtain ⟨hnone, hctl⟩ := hG
    obtain ⟨hservices, ⟨uid, rfl, -, hmem⟩ | ⟨err, rfl, rfl⟩⟩ := Store.serve_create hs
    · refine h.write ⟨by rw [hservices]; exact hsame, fun p hp hns hlabels => ?_⟩ ?_
      · rcases (hmem p).mp hp with rfl | hp
        · exact hctl uid
        · exact (h.sound _ List.mem_cons_self).controlled p hp hns hlabels
      · -- the new pod is the only live one
        have only : ∀ k, Live svc₀.uid s k → k = pod.key := by
          rintro k ⟨p, hp, rfl, hc, hdel⟩
          rcases (hmem p).mp hp with rfl | hp
          · rfl
          · exact absurd ⟨p, hp, rfl, hc, hdel⟩ (hnone p.key)
        exact fun k k' hk hk' => (only k hk).trans (only k' hk').symm
    · exact h.write_podsFrom (.refl _) hsame
  | update w => exact hG.elim
  | delete x =>
    obtain ⟨s, hs, -, rfl⟩ := ho
    exact h.write_podsFrom (podsFrom_delete hs) (by rw [(Store.serve_delete hs).1]; exact hsame)
  | updateOwner w =>
    obtain ⟨s, hs, -, rfl⟩ := ho
    obtain ⟨hkey, huid⟩ := hG
    obtain ⟨hpods, -, ⟨stored, cur, -, -, -, hst, hres⟩ | ⟨err, -, rfl⟩⟩ :=
      Store.serve_updateOwner hs
    · refine h.write_podsFrom (fun y hy => ⟨y, hpods ▸ hy, rfl, rfl, rfl, id⟩) fun svc hfind => ?_
      rw [hkey] at hres
      rcases hres with hres | ⟨-, -, hres⟩
      · cases hfind.symm.trans hres
        rw [hst]
        exact huid
      · cases hfind.symm.trans hres
    · exact h.write_podsFrom (.refl _) hsame
  | rand n =>
    obtain ⟨s, rfl, -, rfl⟩ := ho
    exact h.write_podsFrom (.refl _) hsame

abbrev coveredSystem (r : ServiceReconciler) (svc₀ : Service) :
    System Unit (Request ServiceBody PodBody) Response Cluster (Option GoError) :=
  (system r svc₀.key).restrict (ListCovers svc₀.uid)

abbrev cacheRely (r : ServiceReconciler) (svc₀ : Service) : Cluster → Cluster → Prop :=
  Relation.ReflTransGen
    ((coveredSystem r svc₀).Rely (CacheInv svc₀) (fun _ => guarantee svc₀) ())

abbrev cacheServe (r : ServiceReconciler) (svc₀ : Service) :
    Server (Request ServiceBody PodBody) Response Cluster :=
  (coveredSystem r svc₀).serveIn (CacheInv svc₀) ()

/-- Nothing beside a run makes a pod live. -/
theorem cacheRely_live (h : cacheRely r svc₀ c c') {k : NamespacedName}
    (hk : Live svc₀.uid c'.store k) : Live svc₀.uid c.store k := by
  induction h with
  | refl => exact hk
  | tail _ hstep ih =>
    obtain ⟨-, henv | ⟨q, hq, -⟩⟩ := hstep
    · exact ih (henv.podsFrom.live hk)
    · exact absurd rfl hq

private theorem wp_createPod_cached (hsvc : ReadAs svc₀ svc)
    (h : ∀ k, ¬ Live svc₀.uid c.store k) :
    (r.createPod svc).wp (cacheRely r svc₀) (cacheServe r svc₀) (guarantee svc₀)
      (fun _ _ => True) c := by
  refine ServiceReconciler.wp_createPod (fun c => ∀ k, ¬ Live svc₀.uid c.store k) h
    (fun _ _ h hcd k hk => h k (cacheRely_live hcd hk)) (fun _ _ _ => trivial) ?_ ?_
  · rintro c h o c' ⟨-, ⟨s, rfl, -, rfl⟩, -⟩
    exact ⟨trivial, by simpa using h⟩
  · intro template name pod _ hpod c h o c' _
    exact ⟨⟨h, fun uid => (hsvc.serves.mp (serves_created hpod)).controlled⟩, fun _ _ => trivial,
      fun _ _ _ => trivial⟩

private theorem wp_provide_cached {req : NamespacedName} {claimed : List Pod}
    (hsvc : ReadAs svc₀ svc) (h : claimed = [] → ∀ k, ¬ Live svc₀.uid c.store k) :
    (r.provide req svc claimed).wp (cacheRely r svc₀) (cacheServe r svc₀) (guarantee svc₀)
      (fun _ _ => True) c := by
  refine ServiceReconciler.wp_provide
    (fun c => claimed = [] → ∀ k, ¬ Live svc₀.uid c.store k) h
    (fun _ _ h hcd hnil k hk => h hnil k (cacheRely_live hcd hk)) ?_
    (fun _ hnil => wp_createPod_cached hsvc (h hnil)) (fun _ _ => trivial)
  rintro - c h o c' ⟨-, ⟨s, hs, -, rfl⟩, -⟩
  refine ⟨⟨hsvc.key, hsvc.uid⟩, ?_, fun _ _ _ => trivial, fun _ _ _ => trivial⟩
  rintro stored rfl hnil
  obtain ⟨hpods, -, ⟨_, cur, ⟨⟩, -, -, hst, -⟩ | ⟨err, he, -⟩⟩ := Store.serve_updateOwner hs
  · have hstored : ReadAs svc₀ stored := by
      rw [hst]
      exact ⟨hsvc.key, hsvc.uid⟩
    refine wp_createPod_cached hstored fun k hk => h hnil k ?_
    rw [write_store] at hk
    unfold Live at hk ⊢
    rwa [hpods] at hk
  · cases he

private theorem wp_cleanUp_cached {req : NamespacedName} {claimed : List Pod}
    (hsvc : ReadAs svc₀ svc) :
    (ServiceReconciler.cleanUp req svc claimed).wp (cacheRely r svc₀) (cacheServe r svc₀)
      (guarantee svc₀) (fun _ _ => True) c := by
  refine ServiceReconciler.wp_cleanUp (fun _ _ _ => True) trivial (fun _ _ _ _ _ _ => trivial)
    (fun _ _ _ _ _ _ _ _ _ _ _ => ⟨trivial, trivial⟩) ?_
  exact fun _ _ _ _ _ _ => ⟨⟨hsvc.key, hsvc.uid⟩, fun _ _ => trivial, fun _ _ _ => trivial⟩

/-- The listed pods are the Service's own and include every live one. -/
structure Listed (svc₀ : Service) (items : List Pod) (c : Cluster) : Prop where
  controlled : ∀ x ∈ items, ControlledBy svc₀.uid x ∧ podSelector svc₀ x.labels = true
  covers : ∀ k, Live svc₀.uid c.store k → ∃ x ∈ items, x.key = k

theorem Listed.rely {items : List Pod} (h : Listed svc₀ items c) (hcd : cacheRely r svc₀ c c') :
    Listed svc₀ items c' :=
  ⟨h.controlled, fun k hk => h.covers k (cacheRely_live hcd hk)⟩

/-- Every listed active pod is claimed without a write. -/
private theorem claimSpec_cached {items done : List Pod} {st : RefManager.ClaimState PodBody}
    {x : Pod} (hsvc : ReadAs svc₀ svc) (hx : x ∈ items) :
    (ServiceReconciler.refManager svc).ClaimSpec ((ServiceReconciler.refManager svc).matching [])
      (cacheRely r svc₀) (cacheServe r svc₀) (guarantee svc₀) st.once x
      (fun c => Listed svc₀ items c ∧ st.claimObjs = done)
      (fun _ c => Listed svc₀ items c ∧ st.claimObjs = done)
      fun d c => Listed svc₀ items c ∧ (st.add d).claimObjs = done ++ [x] := by
  have own : ∀ {c}, Listed svc₀ items c → ControlledBy svc.uid x ∧
      (ServiceReconciler.refManager svc).matching [] x = true := by
    intro c h
    obtain ⟨hctl, hlabels⟩ := h.controlled x hx
    rw [← hsvc.selector] at hlabels
    rw [← hsvc.uid] at hctl
    exact ⟨hctl, by simpa [RefManager.matching, ServiceReconciler.refManager] using hlabels⟩
  refine RefManager.ClaimSpec.of_assertion (fun _ _ h hcd => ⟨h.1.rely hcd, h.2⟩) ?_ ?_ ?_ ?_ ?_
  · rintro c h o c' ⟨-, ⟨-, -, rfl⟩, -⟩
    exact ⟨trivial, h⟩
  · exact fun _ _ c h => ⟨h.1, by rw [← h.2]; rfl⟩
  · exact fun hno c _ _ _ h => absurd (own h.1) hno
  · intro w hw c h
    simpa [ControlledBy, hw.orphan] using (own h.1).1
  · intro w hw c h
    simpa [hw.noMatch] using (own h.1).2

private theorem wp_converge_cached {req : NamespacedName} {items : List Pod}
    (hsvc : ReadAs svc₀ svc) (h : Listed svc₀ items c) :
    (r.converge req svc (items.filter isPodActive) (items.filter (!isPodActive ·))).wp
      (cacheRely r svc₀) (cacheServe r svc₀) (guarantee svc₀) (fun _ _ => True) c := by
  -- as long as no delete has failed, the pods passed by the loop are not live
  refine ServiceReconciler.wp_converge (fun done errs c => Listed svc₀ items c ∧
      (errs = [] → ∀ x ∈ done, ¬ Live svc₀.uid c.store x.key)) ⟨h, by simp⟩ ?_ ?_
    (fun _ _ _ _ _ => trivial) ?_ (fun _ _ _ => wp_cleanUp_cached hsvc)
  · exact fun done errs c c' h hcd => ⟨h.1.rely hcd, fun he x hx hk =>
      h.2 he x hx (cacheRely_live hcd hk)⟩
  · rintro done x rest errs c - ⟨h, hdone⟩ o c' ⟨-, ⟨s, hs, hhonest, rfl⟩, -⟩
    have hlive : ∀ {k}, Live svc₀.uid (c.write s).store k → Live svc₀.uid c.store k := by
      intro k hk
      rw [write_store] at hk
      exact (podsFrom_delete hs).live hk
    refine ⟨trivial, ⟨h.controlled, fun k hk => h.covers k (hlive hk)⟩, fun he y hy hk => ?_⟩
    obtain ⟨he, hnf⟩ := collect_eq_nil he
    rcases List.mem_append.mp hy with hy | hy
    · exact hdone he y hy (hlive hk)
    · rw [List.mem_singleton.mp hy, write_store] at hk
      refine not_live_delete hs (fun err hoe => ?_) hk
      rw [hoe] at hhonest
      exact hhonest (hnf err hoe)
  · intro c ⟨h, hdone⟩ _
    refine wp_provide_cached hsvc fun hnil k hk => ?_
    obtain ⟨x, hx, rfl⟩ := h.covers k hk
    refine hdone rfl x (List.mem_filter.mpr ⟨hx, ?_⟩) hk
    by_contra hact
    exact List.not_mem_nil (hnil ▸ List.mem_filter.mpr ⟨hx, by simpa using hact⟩)

theorem wp_reconcile_cached : (r.reconcile svc₀.key).wp (cacheRely r svc₀) (cacheServe r svc₀)
    (guarantee svc₀) (fun _ _ => True) c := by
  refine ServiceReconciler.wp_reconcile (fun _ => True) (fun svc _ => ReadAs svc₀ svc) trivial
    (fun _ _ _ _ => trivial) (fun _ _ _ h _ => h) ?_ ?_
  · rintro c - o c' ⟨hI, ⟨hget, -, rfl⟩, -⟩
    refine ⟨trivial, ?_, fun _ _ => trivial⟩
    rintro svc rfl
    have hfind := hget.1
    exact ⟨(Table.find?_eq_some.mp hfind).2, (hI.sound _ (c'.seen_mem _)).same svc hfind⟩
  · rintro svc c hsvc o c' ⟨hI, ⟨hlist, rfl⟩, hcovers⟩
    refine ⟨trivial, ?_, fun _ _ => trivial⟩
    rintro items rfl
    have hlisted : Listed svc₀ items c' := by
      refine ⟨fun x hx => ?_, fun k ⟨p, hp, hk, hctl, hlive⟩ => hk ▸ hcovers p hp hctl hlive⟩
      obtain ⟨hx, hsel⟩ := List.mem_filter.mp (hlist.1.mem_iff.mp hx)
      simp only [Bool.and_eq_true, decide_eq_true_eq] at hsel
      rw [hsvc.selector] at hsel
      have hns : x.ns = svc₀.ns := hsel.1.trans (NamespacedName.mk.inj hsvc.key).1
      exact ⟨(hI.sound _ (c'.seen_mem _)).controlled x hx hns hsel.2, hsel.2⟩
    refine ServiceReconciler.wp_settle
      (fun done st c => Listed svc₀ items c ∧ st.claimObjs = done) ⟨hlisted, rfl⟩ ?_
      (fun _ _ _ _ _ => trivial) ?_
    · intro done x rest st c hl h
      have hx : x ∈ items.filter isPodActive := by simp [hl]
      exact ⟨_, _, h, claimSpec_cached hsvc (List.mem_of_mem_filter hx)⟩
    · rintro st c ⟨h, hst⟩ -
      rw [hst]
      exact wp_converge_cached hsvc h

theorem cache_compatible : (coveredSystem r svc₀).Compatible (CacheInv svc₀)
    (fun _ => guarantee svc₀) (fun _ _ _ => True) where
  env _ _ h hs := h.env hs
  guarantee _ _ _ _ _ h ho hG := h.next ho.1 hG
  start _ _ _ _ hprog := hprog ▸ wp_reconcile_cached
  stable _ _ _ _ _ _ := trivial

/-- Runs that list every pod of the Service which is in the store never make a second one. -/
theorem at_most_one_pod (r : ServiceReconciler) (svc₀ : Service) (s₀ : Store)
    (hsvc : s₀.services.find? svc₀.key = some svc₀)
    (hlabels : ∀ p ∈ s₀.pods, p.ns = svc₀.ns → podSelector svc₀ p.labels = false)
    (hcontrolled : ∀ p ∈ s₀.pods, ¬ ControlledBy svc₀.uid p)
    (ls : List (Label Unit (Request ServiceBody PodBody) Response (Option GoError)))
    (d : Config Unit (Request ServiceBody PodBody) Response Cluster (Option GoError))
    (hrun : System.Run ((system r svc₀.key).restrict (ListCovers svc₀.uid))
      (System.idle ⟨[], s₀, 0, 0⟩) ls d) :
    AtMostOne svc₀.uid d.state.store := by
  have hinit : CacheInv svc₀ ⟨[], s₀, 0, 0⟩ := by
    refine ⟨fun t ht => ?_, fun k k' ⟨p, hp, _, hctl, _⟩ => absurd hctl (hcontrolled p hp)⟩
    rw [List.mem_singleton.mp ht]
    refine ⟨fun svc hfind => by cases hsvc.symm.trans hfind; rfl, fun p hp hns hl => ?_⟩
    simp [hlabels p hp hns] at hl
  exact atMostOne_of_live ((System.inv_idle hinit).run cache_compatible hrun).1.single

instance (uid : String) (c : Cluster) (ns : String) (selector : Selector) (items : List Pod) :
    Decidable (ListCovers uid c (.list ns selector) (.ok items)) :=
  inferInstanceAs (Decidable (∀ p ∈ c.store.pods.entries, _ → _ → ∃ x ∈ items, _))

/-- The random text of a name: the second pod gets another one. -/
def drawText (s : Store) : String := if s.pods.entries = [] then "aaaaa" else "bbbbb"

/-- A server on which every call succeeds that can. A careful one lists only pods that show
what is in the store. -/
def handle (uid : String) (careful : Bool) (c : Cluster) :
    (i : Request ServiceBody PodBody) → Response i × Cluster
  | .get key => ((Store.handle drawText (c.seen c.servicesAt) (.get key)).1, c)
  | .list ns selector =>
    if careful ∧ ¬ ListCovers uid c (.list ns selector)
        (.ok ((c.seen c.podsAt).select ns selector)) then
      (.error (.text "cache is behind"), c)
    else (.ok ((c.seen c.podsAt).select ns selector), c)
  | .create pod =>
    if ∃ t ∈ c.log, t.pods.find? pod.key ≠ none then
      (.error (Store.alreadyExistsError "pods" pod.key), c)
    else ((Store.handle drawText c.store (.create pod)).1,
      c.write (Store.handle drawText c.store (.create pod)).2)
  | i => ((Store.handle drawText c.store i).1, c.write (Store.handle drawText c.store i).2)

theorem write_self (c : Cluster) : c.write c.store = c := by simp [write]

theorem serve_handle (careful : Bool) (c : Cluster) (i : Request ServiceBody PodBody) :
    serve c i (handle uid careful c i).1 (handle uid careful c i).2 := by
  cases i with
  | get key =>
    refine ⟨?_, Store.honest_handle drawText _ _, rfl⟩
    have h := Store.serve_handle drawText (c.seen c.servicesAt) (.get key)
    cases hf : (c.seen c.servicesAt).services.find? key <;>
      simp_all [handle, Store.handle, Store.serve]
  | list ns selector =>
    unfold handle
    dsimp only
    split
    · exact ⟨rfl, rfl⟩
    · exact ⟨⟨.refl _, rfl⟩, rfl⟩
  | create pod =>
    unfold handle
    dsimp only
    split
    · exact ⟨c.store, rfl, (write_self c).symm, fun _ he => by cases he⟩
    next h =>
      refine ⟨_, Store.serve_handle drawText c.store (.create pod), rfl, fun _ _ t ht => ?_⟩
      by_contra hne
      exact h ⟨t, ht, hne⟩
  | update w => exact ⟨_, Store.serve_handle .., Store.honest_handle .., rfl⟩
  | delete x => exact ⟨_, Store.serve_handle .., Store.honest_handle .., rfl⟩
  | updateOwner w => exact ⟨_, Store.serve_handle .., Store.honest_handle .., rfl⟩
  | rand n => exact ⟨c.store, rfl, trivial, rfl⟩

theorem listCovers_handle (c : Cluster) (i : Request ServiceBody PodBody) :
    ListCovers uid c i (handle uid true c i).1 := by
  cases i with
  | list ns selector =>
    unfold handle
    dsimp only
    split
    · trivial
    next h => exact not_not.mp fun hno => h ⟨rfl, hno⟩
  | get key => trivial
  | create pod => trivial
  | update w => trivial
  | delete x => trivial
  | updateOwner w => trivial
  | rand n => trivial

def trackedCluster : Cluster := ⟨[], ⟨Table.empty.upsert webService, Table.empty, 1⟩, 0, 0⟩

def after (careful : Bool) (c : Cluster) : Cluster :=
  (Program.run (handle webService.uid careful) (emptyTemplate.reconcile webService.key) c).2.2

/-- Two runs with a cache of pods that catches up in between make one pod. -/
theorem at_most_one_pod_trackedCluster : ∃ ls₁ ls₂ d,
    System.Run (coveredSystem emptyTemplate webService) (System.idle trackedCluster)
      (.start () :: ls₁ ++ .env :: .start () :: ls₂) d ∧
    d.state.store.pods.entries.map Object.key = [⟨"default", "frp-client-webaaaaa"⟩] ∧
    AtMostOne webService.uid d.state.store := by
  have hserve : ∀ c i, (coveredSystem emptyTemplate webService).serve () c i
      (handle webService.uid true c i).1 (handle webService.uid true c i).2 := fun c i =>
    ⟨serve_handle true c i, listCovers_handle c i⟩
  have hrun : ∀ c, ∃ ls, System.Run (coveredSystem emptyTemplate webService) (System.idle c)
      (.start () :: ls) (System.idle (after true c)) := fun c =>
    ⟨_, System.run_program (p := ()) rfl rfl
      (Program.exec_run hserve (emptyTemplate.reconcile webService.key) c)⟩
  obtain ⟨ls₁, hrun₁⟩ := hrun trackedCluster
  obtain ⟨ls₂, hrun₂⟩ := hrun { after true trackedCluster with podsAt := 1 }
  have hall := hrun₁.append (.cons (.env (.podsCatchUp (by decide))) hrun₂)
  exact ⟨ls₁, ls₂, _, hall, by decide, at_most_one_pod emptyTemplate webService _ rfl
    (by simp [Table.mem_def, Table.empty]) (by simp [Table.mem_def, Table.empty]) _ _ hall⟩

/-- Two runs while the cache of pods stands still make two pods. -/
theorem two_pods_from_stale_list :
    ∃ ls d, System.Run (system emptyTemplate webService.key) (System.idle trackedCluster) ls d ∧
      ¬ AtMostOne webService.uid d.state.store := by
  have hrun : ∀ c, ∃ ls, System.Run (system emptyTemplate webService.key) (System.idle c) ls
      (System.idle (after false c)) := fun c =>
    ⟨_, System.run_program (p := ()) rfl rfl (Program.exec_run (serve_handle false) _ c)⟩
  obtain ⟨ls₁, hrun₁⟩ := hrun trackedCluster
  obtain ⟨ls₂, hrun₂⟩ := hrun (after false trackedCluster)
  exact ⟨_, _, hrun₁.append hrun₂, by decide⟩

end
end Cluster
end FrpProvisioner
