import FrpProvisioner.Controller.Reconciling
import FrpProvisioner.Controller.Store

/-! The pods that serve a Service, and how a run that lists the stored pods finds all of them:
what the claims and the deletes of inactive pods keep, whatever else the server state holds. -/
namespace FrpProvisioner
open Effect

def Wanted (svc : Service) : Prop :=
  svc.body.type = .loadBalancer ∧ svc.annotations.getD annotationFrpServerNameKey ≠ "" ∧
    svc.deletionTimestamp = none

theorem isWanted_iff (svc : Service) : isWanted svc = true ↔ Wanted svc := by
  have hlen : svc.annotations.getD annotationFrpServerNameKey ≠ "" →
      svc.annotations.entries ≠ [] := by
    intro h hnil
    exact h (by simp [StringMap.getD, StringMap.get, Table.find?, hnil])
  unfold isWanted Wanted
  simp only [Bool.not_eq_true', Bool.or_eq_false_iff, decide_eq_false_iff_not,
    Option.isSome_eq_false_iff, Option.isNone_iff_eq_none, List.length_eq_zero_iff, not_not]
  constructor
  · intro h
    obtain ⟨⟨⟨ht, -⟩, ha⟩, hd⟩ := h
    exact ⟨ht, ha, hd⟩
  · intro h
    obtain ⟨ht, ha, hd⟩ := h
    exact ⟨⟨⟨ht, hlen ha⟩, ha⟩, hd⟩

/-- An active pod in the namespace of the Service that carries both labels and is controlled
by it. -/
structure Serves (svc : Service) (p : Pod) : Prop where
  active : isPodActive p = true
  ns : p.ns = svc.ns
  labels : podSelector svc p.labels = true
  controlled : ControlledBy svc.uid p

theorem Serves.of_version {svc : Service} {p : Pod} (h : Serves svc p) (v : ℕ) :
    Serves svc { p with resourceVersion := v } := ⟨h.active, h.ns, h.labels, h.controlled⟩

/-- The pod a reconciler makes of its template serves the Service once it is stored. -/
theorem serves_created {owner : Service} {template pod : Pod} {name uid : String} {s : Store}
    (h : ServiceReconciler.templatePod owner template name = .ok pod) :
    Serves owner (s.created pod uid) := by
  unfold ServiceReconciler.templatePod at h
  dsimp only at h
  split at h
  · cases h
  next pod' hset =>
    cases h
    have hctl := controlledBy_setControllerReference hset
    obtain ⟨g, -, -, rfl⟩ := setControllerReference_ok hset
    refine ⟨rfl, rfl, ?_, hctl⟩
    have hne : labelServiceNameKey ≠ labelControllerUidKey := by decide
    simp [podSelector, selectorFromSet, Store.created, StringMap.get_set_of_ne _ hne]

theorem Serves.of_same {svc owner : Service} {p : Pod} (h : Serves owner p)
    (hname : owner.name = svc.name) (hns : owner.ns = svc.ns) (huid : owner.uid = svc.uid) :
    Serves svc p where
  active := h.active
  ns := h.ns.trans hns
  labels := by
    have hl := h.labels
    unfold podSelector at hl ⊢
    rwa [hname, huid] at hl
  controlled := huid ▸ h.controlled

/-- The Service a run has read is, up to what may change, the one the statements are about. -/
structure ReadAs (svc₀ svc : Service) : Prop where
  key : svc.key = svc₀.key
  uid : svc.uid = svc₀.uid

theorem ReadAs.selector {svc₀ svc : Service} (h : ReadAs svc₀ svc) :
    podSelector svc = podSelector svc₀ := by
  unfold podSelector
  rw [h.uid, (NamespacedName.mk.inj h.key).2]

theorem ReadAs.serves {svc₀ svc : Service} {p : Pod} (h : ReadAs svc₀ svc) :
    Serves svc p ↔ Serves svc₀ p := by
  obtain ⟨hns, hname⟩ := NamespacedName.mk.inj h.key
  exact ⟨fun hp => hp.of_same hname hns h.uid,
    fun hp => hp.of_same hname.symm hns.symm h.uid.symm⟩

section Progress
variable {svc : Service} {listed pods pods' : Table (Object.key : Pod → NamespacedName)}
  {done claimed : List Pod} {x : Pod}

/-- How far the claims have got: `done` are the listed pods already looked at. -/
structure Progress (svc : Service) (listed : Table (Object.key : Pod → NamespacedName))
    (done claimed : List Pod) (pods : Table (Object.key : Pod → NamespacedName)) : Prop where
  pending : ∀ y ∈ listed, y ∉ done → y ∈ pods
  held : ∀ c ∈ claimed, c ∈ pods ∧ Serves svc c
  found : ∀ y ∈ pods, Serves svc y → (∃ c ∈ claimed, c.key = y.key) ∨ (y ∈ listed ∧ y ∉ done)

theorem Progress.init : Progress svc listed [] [] listed :=
  ⟨fun _ hy _ => hy, by simp, fun _ hy _ => Or.inr ⟨hy, by simp⟩⟩

theorem Progress.skip (h : Progress svc listed done claimed pods) (hx : ¬ Serves svc x) :
    Progress svc listed (done ++ [x]) claimed pods where
  pending y hy hyd := h.pending y hy fun hm => hyd (by simp [hm])
  held := h.held
  found y hy hsv := by
    refine (h.found y hy hsv).imp_right fun ⟨hy₀, hyd⟩ => ⟨hy₀, fun hm => ?_⟩
    rcases List.mem_append.mp hm with hm | hm
    · exact hyd hm
    · exact hx (List.mem_singleton.mp hm ▸ hsv)

theorem Progress.keep (h : Progress svc listed done claimed pods) (hx : x ∈ pods)
    (hsv : Serves svc x) : Progress svc listed (done ++ [x]) (claimed ++ [x]) pods where
  pending y hy hyd := h.pending y hy fun hm => hyd (by simp [hm])
  held c hc := by
    rcases List.mem_append.mp hc with hc | hc
    · exact h.held c hc
    · exact List.mem_singleton.mp hc ▸ ⟨hx, hsv⟩
  found y hy hy' := by
    rcases h.found y hy hy' with ⟨c, hc, hk⟩ | ⟨hy₀, hyd⟩
    · exact Or.inl ⟨c, by simp [hc], hk⟩
    · by_cases hyx : y = x
      · exact Or.inl ⟨x, by simp, by rw [hyx]⟩
      · exact Or.inr ⟨hy₀, by simp [hyd, hyx]⟩

/-- An orphan gets the Service as its controller, and nothing else changes. -/
theorem Progress.adopt (h : Progress svc listed done claimed pods) (hx : x ∈ listed)
    (hnew : x ∉ done) {w stored : Pod} (hkey : w.key = x.key) (horphan : ¬ Serves svc x)
    (hframe : ∀ y, y.key ≠ w.key → (y ∈ pods' ↔ y ∈ pods)) (hstored : stored ∈ pods')
    (hskey : stored.key = w.key) (hsv : Serves svc stored) :
    Progress svc listed (done ++ [x]) (claimed ++ [stored]) pods' where
  pending y hy hyd := by
    have hyx : y ≠ x := fun e => hyd (by simp [e])
    have hne : y.key ≠ w.key := fun e => hyx (Table.eq_of_key hy hx (e.trans hkey))
    exact (hframe y hne).mpr (h.pending y hy fun hm => hyd (by simp [hm]))
  held c hc := by
    rcases List.mem_append.mp hc with hc | hc
    · obtain ⟨hmem, hc'⟩ := h.held c hc
      refine ⟨(hframe c fun e => ?_).mpr hmem, hc'⟩
      -- the pod `x` itself cannot have been claimed before
      rw [Table.eq_of_key hmem (h.pending x hx hnew) (e.trans hkey)] at hc'
      exact horphan hc'
    · exact List.mem_singleton.mp hc ▸ ⟨hstored, hsv⟩
  found y hy hy' := by
    by_cases hk : y.key = w.key
    · exact Or.inl ⟨stored, by simp, hskey.trans hk.symm⟩
    · rcases h.found y ((hframe y hk).mp hy) hy' with ⟨c, hc, hck⟩ | ⟨hy₀, hyd⟩
      · exact Or.inl ⟨c, by simp [hc], hck⟩
      · refine Or.inr ⟨hy₀, fun hm => ?_⟩
        rcases List.mem_append.mp hm with hm | hm
        · exact hyd hm
        · exact hk (by rw [List.mem_singleton.mp hm, hkey])

/-- The claims are over: the claimed pods serve the Service, and no other pod does. -/
structure AllClaimed (svc : Service) (claimed : List Pod)
    (pods : Table (Object.key : Pod → NamespacedName)) : Prop where
  held : ∀ c ∈ claimed, c ∈ pods ∧ Serves svc c
  found : ∀ y ∈ pods, Serves svc y → ∃ c ∈ claimed, c.key = y.key

end Progress

section Rules
variable {σ : Type} {store : σ → Store} {R : σ → σ → Prop} {E : σ → Prop} {s : σ}
  {serve G : Server (Request ServiceBody PodBody) Response σ} {Q : Option GoError → σ → Prop}
  {r : ServiceReconciler} {req : NamespacedName} {svc : Service}

/-- A server state with a store in it: its answers are those of the store, and between two
requests the pods stay as they are. `E` is what else is known. -/
structure Embeds (store : σ → Store) (R : σ → σ → Prop)
    (serve : Server (Request ServiceBody PodBody) Response σ) (E : σ → Prop) : Prop where
  serve : ∀ a i o b, serve a i o b → (store a).serve i o (store b)
  pods : ∀ a b, R a b → (store b).pods = (store a).pods
  stable : ∀ a b, E a → R a b → E b

theorem claimSpec_serving (h : Embeds store R serve E) {listed : Table Object.key}
    {done : List Pod} {st : RefManager.ClaimState PodBody} {x : Pod} (hx : x ∈ listed)
    (hns : x.ns = svc.ns) (hlabels : podSelector svc x.labels = true)
    (hact : isPodActive x = true) (hnew : x ∉ done)
    (hget : ∀ a, E a → ∀ key o b, serve a (.get key) o b → G a (.get key) o b ∧ E b)
    (hupdate : ∀ a w, E a → x ∈ (store a).pods → getControllerOf x = none → w.key = x.key →
      ∀ o b, serve a (.update w) o b → G a (.update w) o b ∧ E b) :
    (ServiceReconciler.refManager svc).ClaimSpec ((ServiceReconciler.refManager svc).matching [])
      R serve G st.once x
      (fun a => E a ∧ Progress svc listed done st.claimObjs (store a).pods)
      (fun _ a => E a ∧ Progress svc listed done st.claimObjs (store a).pods)
      fun c a => E a ∧ Progress svc listed (done ++ [x]) (st.add c).claimObjs (store a).pods := by
  have hmatch : (ServiceReconciler.refManager svc).matching [] x = true := by
    simpa [RefManager.matching, ServiceReconciler.refManager] using hlabels
  refine RefManager.ClaimSpec.of_collected (P := fun claimed a =>
    E a ∧ Progress svc listed (done ++ [x]) claimed (store a).pods) ?_ ?_ ?_ ?_ ?_ ?_
  · exact fun a b ⟨hE, hp⟩ hab => ⟨h.stable a b hE hab, h.pods a b hab ▸ hp⟩
  · intro a ⟨hE, hp⟩ o b ho
    obtain ⟨hG, hE'⟩ := hget a hE _ o b ho
    refine ⟨hG, hE', ?_⟩
    have hsame : store b = store a := Store.serve_get (h.serve _ _ _ _ ho)
    rwa [hsame]
  · exact fun hc _ a ⟨hE, hp⟩ =>
      ⟨hE, hp.keep (hp.pending x hx hnew) ⟨hact, hns, hlabels, hc⟩⟩
  · exact fun hno a ⟨hE, hp⟩ => ⟨hE, hp.skip fun hsv => hno ⟨hsv.controlled, hmatch⟩⟩
  · intro w hw a ⟨hE, hp⟩ o b ho
    have horphan : ¬ Serves svc x := fun hsv => by
      simpa [ControlledBy, hw.orphan] using hsv.controlled
    have hctl := controlledBy_setControllerReference hw.write
    obtain ⟨g, -, -, hwx⟩ := setControllerReference_ok hw.write
    have hkey : w.key = x.key := hw.key_eq
    obtain ⟨hG, hE'⟩ := hupdate a w hE (hp.pending x hx hnew) hw.orphan hkey o b ho
    obtain ⟨-, hframe, ⟨stored, rfl, hmem, hst, -⟩ | ⟨err, rfl, hsame⟩⟩ :=
      Store.serve_update (h.serve _ _ _ _ ho)
    · refine ⟨hG, ?_, fun _ he => by cases he⟩
      rintro _ ⟨⟩
      have hsv : Serves svc w := by
        refine ⟨?_, ?_, ?_, hctl⟩ <;> rw [hwx]
        · exact hact
        · exact hns
        · exact hlabels
      refine ⟨hE', hp.adopt hx hnew hkey horphan hframe hmem ?_ ?_⟩
      · rw [hst]; rfl
      · rw [hst]; exact hsv.of_version _
    · refine ⟨hG, fun _ he => (by cases he), fun _ _ => ⟨hE', ?_⟩⟩
      rw [hsame]
      exact hp.skip horphan
  · exact fun w hw => absurd hmatch (by simp [hw.noMatch])

theorem AllClaimed.delete {t t' : Store} {claimed : List Pod} {x : Pod} {o : Except GoError Unit}
    (h : AllClaimed svc claimed t.pods) (hx : ∀ c ∈ claimed, c.key ≠ x.key)
    (ho : t.serve (.delete x) o t') : AllClaimed svc claimed t'.pods := by
  obtain ⟨-, hframe, -⟩ := Store.serve_delete ho
  refine ⟨fun c hc => ?_, fun y hy hsv => ?_⟩
  · exact ⟨(hframe c (hx c hc)).mpr (h.held c hc).1, (h.held c hc).2⟩
  · exact h.found y (Store.mem_of_serve_delete ho hy hsv.active) hsv

/-- How far the deletes of a clean-up have got: `done` are the claimed pods already passed. -/
structure Clearing (svc : Service) (claimed done : List Pod)
    (pods : Table (Object.key : Pod → NamespacedName)) : Prop where
  found : ∀ y ∈ pods, Serves svc y → ∃ c ∈ claimed, c.key = y.key
  gone : ∀ c ∈ done, ∀ y ∈ pods, y.key = c.key → isPodActive y = false

theorem Clearing.init {claimed : List Pod} {pods : Table (Object.key : Pod → NamespacedName)}
    (h : AllClaimed svc claimed pods) : Clearing svc claimed [] pods :=
  ⟨h.found, by simp⟩

theorem Clearing.delete {t t' : Store} {claimed done : List Pod} {x : Pod}
    {o : Except GoError Unit} (h : Clearing svc claimed done t.pods)
    (ho : t.serve (.delete x) o t')
    (hx : ∀ y ∈ t'.pods, y.key = x.key → isPodActive y = false) :
    Clearing svc claimed (done ++ [x]) t'.pods := by
  constructor
  · intro y hy hsv
    exact h.found y (Store.mem_of_serve_delete ho hy hsv.active) hsv
  · intro c hc y hy hk
    rcases List.mem_append.mp hc with hc | hc
    · by_contra hact
      rw [Bool.not_eq_false] at hact
      have hold := h.gone c hc y (Store.mem_of_serve_delete ho hy hact) hk
      simp [hold] at hact
    · rw [List.mem_singleton.mp hc] at hk
      exact hx y hy hk

theorem Clearing.not_serves {claimed : List Pod}
    {pods : Table (Object.key : Pod → NamespacedName)} (h : Clearing svc claimed claimed pods)
    {y : Pod} (hy : y ∈ pods) : ¬ Serves svc y := by
  intro hsv
  obtain ⟨c, hc, hk⟩ := h.found y hy hsv
  simpa [h.gone c hc y hy hk.symm] using hsv.active

/-- When all listed active pods have been looked at, the claims are over. -/
theorem Progress.allClaimed {items claimed : List Pod}
    {listed pods : Table (Object.key : Pod → NamespacedName)}
    (h : Progress svc listed (items.filter isPodActive) claimed pods)
    (hitems : ∀ x, x ∈ items ↔ x ∈ listed ∧ x.ns = svc.ns ∧ podSelector svc x.labels = true) :
    AllClaimed svc claimed pods := by
  refine ⟨h.held, fun y hy hsv => ?_⟩
  rcases h.found y hy hsv with hclaimed | ⟨hlisted, hnot⟩
  · exact hclaimed
  · have hmem : y ∈ items := (hitems y).mpr ⟨hlisted, hsv.ns, hsv.labels⟩
    exact absurd (List.mem_filter.mpr ⟨hmem, hsv.active⟩) hnot

/-- An inactive pod is still stored as it was listed, so it was not claimed. -/
theorem Progress.not_claimed {items claimed : List Pod}
    {listed pods : Table (Object.key : Pod → NamespacedName)}
    (h : Progress svc listed (items.filter isPodActive) claimed pods) {x : Pod}
    (hx : x ∈ listed) (hact : isPodActive x = false) : ∀ c ∈ claimed, c.key ≠ x.key := by
  intro c hc hk
  have hpending : x ∈ pods := h.pending x hx fun hm => by simp [hact] at hm
  obtain ⟨hcs, hsv⟩ := h.held c hc
  simpa [Table.eq_of_key hcs hpending hk, hact] using hsv.active

/-- What follows a List of the stored pods: the claims and the deletes of inactive pods leave
the pods that serve the Service claimed. -/
theorem wp_settle_serving (h : Embeds store R serve E) {items : List Pod}
    (hitems : items.Perm ((store s).select svc.ns (podSelector svc))) (hE : E s)
    (hget : ∀ a, E a → ∀ key o b, serve a (.get key) o b → G a (.get key) o b ∧ E b)
    (hupdate : ∀ a w x, E a → x ∈ (store a).pods → isPodActive x = true →
      getControllerOf x = none → w.key = x.key →
      ∀ o b, serve a (.update w) o b → G a (.update w) o b ∧ E b)
    (hdelete : ∀ a x, E a → ∀ o b, serve a (.delete x) o b → G a (.delete x) o b ∧ E b)
    (herr : ∀ a err, E a → Q (some err) a)
    (hprovide : ∀ claimed a, E a → AllClaimed svc claimed (store a).pods →
      isWanted svc = true → (r.provide req svc claimed).wp R serve G Q a)
    (hcleanUp : ∀ claimed a, E a → AllClaimed svc claimed (store a).pods →
      isWanted svc = false → (ServiceReconciler.cleanUp req svc claimed).wp R serve G Q a) :
    (r.settle req svc (items.filter isPodActive) (items.filter (!isPodActive ·))).wp
      R serve G Q s := by
  have hmem : ∀ x, x ∈ items ↔ x ∈ (store s).pods ∧ x.ns = svc.ns ∧
      podSelector svc x.labels = true := by
    intro x
    rw [hitems.mem_iff]
    simp [Store.select, Table.mem_def]
  have hnodup : (items.filter isPodActive).Nodup :=
    (hitems.nodup_iff.mpr (Store.select_nodup _)).filter _
  refine ServiceReconciler.wp_settle
    (fun done st a => E a ∧ Progress svc (store s).pods done st.claimObjs (store a).pods)
    ⟨hE, .init⟩ ?_ (fun st a err h _ => herr a err h.1) ?_
  · intro done x rest st a hl hI
    have hnew := Program.not_mem_of_nodup hnodup hl
    have hx : x ∈ items.filter isPodActive := by simp [hl]
    obtain ⟨hx, hact⟩ := List.mem_filter.mp hx
    obtain ⟨hxs, hns, hlabels⟩ := (hmem x).mp hx
    exact ⟨_, _, hI, claimSpec_serving h hxs hns hlabels hact hnew hget
      fun a w hE hx => hupdate a w x hE hx hact⟩
  intro st a ⟨hE, hp⟩ _
  have hne : ∀ x ∈ items.filter (!isPodActive ·), ∀ c ∈ st.claimObjs, c.key ≠ x.key := by
    intro x hx
    obtain ⟨hx, hact⟩ := List.mem_filter.mp hx
    exact hp.not_claimed ((hmem x).mp hx).1 (by simpa using hact)
  refine ServiceReconciler.wp_converge
    (fun _ _ a => E a ∧ AllClaimed svc st.claimObjs (store a).pods) ⟨hE, hp.allClaimed hmem⟩ ?_ ?_
    (fun errs a err h _ => herr a err h.1) (fun a h => hprovide _ a h.1 h.2)
    fun a h => hcleanUp _ a h.1 h.2
  · exact fun _ _ a b ⟨hE, hall⟩ hab => ⟨h.stable a b hE hab, h.pods a b hab ▸ hall⟩
  · intro done x rest errs a hl ⟨hE, hall⟩ o b ho
    obtain ⟨hG, hE'⟩ := hdelete a x hE o b ho
    exact ⟨hG, hE', hall.delete (hne x (by simp [hl])) (h.serve _ _ _ _ ho)⟩

end Rules
end FrpProvisioner
