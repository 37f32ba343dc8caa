import FrpProvisioner.Controller.Reconciling
import FrpProvisioner.Controller.Store

/-! Which pods a run of the Service reconciler writes to. A run reads one content, its view,
and writes to another, so that the view may be the store itself or a cache of it. Pods reach
a Delete on two routes: the claimed pods went through `claimObject`, the inactive ones only
through the label selector of the List. -/
namespace FrpProvisioner
open Effect

/-- Reads are answered from the first store, writes go to the second. -/
def viewServe : Server (Request ServiceBody PodBody) Response (Store × Store)
  | s, .get key, o, s' => s.1.serve (.get key) o s.1 ∧ s' = s
  | s, .list ns selector, o, s' => s.1.serve (.list ns selector) o s.1 ∧ s' = s
  | s, i, o, s' => s.2.serve i o s'.2 ∧ s'.1 = s.1

theorem viewServe_view {s s' : Store × Store} {i : Request ServiceBody PodBody} {o : Response i}
    (h : viewServe s i o s') : s'.1 = s.1 := by
  cases i with
  | get key => exact congrArg Prod.fst h.2
  | list ns selector => exact congrArg Prod.fst h.2
  | create pod => exact h.2
  | update w => exact h.2
  | delete pod => exact h.2
  | updateOwner w => exact h.2
  | rand n => exact h.2

abbrev ServiceEvent := Program.Event (Request ServiceBody PodBody) Response

/-- An earlier write of the run has made `uid` the controller of the pod with this key. -/
def AdoptedIn (past : List ServiceEvent) (uid : String) (key : NamespacedName) : Prop :=
  ∃ w stored, (⟨.update w, .ok stored⟩ : ServiceEvent) ∈ past ∧ w.key = key ∧
    ControlledBy uid stored

theorem AdoptedIn.append {past : List ServiceEvent} {uid : String} {key : NamespacedName}
    (h : AdoptedIn past uid key) (es : List ServiceEvent) : AdoptedIn (past ++ es) uid key := by
  obtain ⟨w, stored, hmem, hw⟩ := h
  exact ⟨w, stored, List.mem_append_left es hmem, hw⟩

def NotForeign (uid : String) (p : Pod) : Prop :=
  ∀ ref, getControllerOf p = some ref → ref.uid = uid

theorem NotForeign.of_controlledBy {uid : String} {p : Pod} (h : ControlledBy uid p) :
    NotForeign uid p := by
  intro ref href
  simpa [ControlledBy, href] using h

/-- What a request may do to pods if the run only destroys what it owns: it deletes pods that
the Service controls in the view or has adopted before, and leaves foreign pods alone. -/
def OwnsTarget (view : Store) (req : NamespacedName) (past : List ServiceEvent) :
    Request ServiceBody PodBody → Prop
  | .delete p => ∃ svc, view.services.find? req = some svc ∧
      ((∃ q ∈ view.pods, q.key = p.key ∧ ControlledBy svc.uid q) ∨ AdoptedIn past svc.uid p.key) ∧
      ∀ q ∈ view.pods, q.key = p.key → NotForeign svc.uid q
  | .update w => ∃ svc, view.services.find? req = some svc ∧
      ∀ q ∈ view.pods, q.key = w.key → NotForeign svc.uid q
  | _ => True

def inactiveOf (view : Store) (svc : Service) : List Pod :=
  (view.select svc.ns (podSelector svc)).filter (!isPodActive ·)

structure ClaimedIn (view : Store) (svc : Service) (past : List ServiceEvent)
    (key : NamespacedName) : Prop where
  notForeign : ∀ q ∈ view.pods, q.key = key → NotForeign svc.uid q
  owned : (∃ q ∈ view.pods, q.key = key ∧ ControlledBy svc.uid q) ∨ AdoptedIn past svc.uid key

theorem ClaimedIn.append {view : Store} {svc : Service} {past : List ServiceEvent}
    {key : NamespacedName} (h : ClaimedIn view svc past key) (es : List ServiceEvent) :
    ClaimedIn view svc (past ++ es) key :=
  ⟨h.notForeign, h.owned.imp_right fun h => h.append es⟩

/-- What every request of every run does to pods, whatever the view: an update goes to an
active pod that no other owner controls, a delete to a claimed pod or to a listed inactive
one. -/
def Touches (view : Store) (req : NamespacedName) (past : List ServiceEvent) :
    Request ServiceBody PodBody → Prop
  | .delete p => ∃ svc, view.services.find? req = some svc ∧
      (p ∈ inactiveOf view svc ∨ ClaimedIn view svc past p.key)
  | .update w => ∃ svc, view.services.find? req = some svc ∧
      ∃ x ∈ view.pods, x.key = w.key ∧ isPodActive x = true ∧ NotForeign svc.uid x
  | _ => True

abbrev Traced := (Store × Store) × List ServiceEvent

def touchGuarantee (view : Store) (req : NamespacedName) :
    Server (Request ServiceBody PodBody) Response Traced :=
  fun s i _ _ => Touches view req s.2 i

section
variable {view : Store} {req : NamespacedName} {svc : Service} {r : ServiceReconciler}

def ClaimInv (view : Store) (svc : Service) (claimed : List Pod) (s : Traced) : Prop :=
  s.1.1 = view ∧ ∀ c ∈ claimed, ClaimedIn view svc s.2 c.key

theorem ClaimInv.next {claimed : List Pod} {s s' : Traced} {i : Request ServiceBody PodBody}
    {o : Response i} (h : ClaimInv view svc claimed s)
    (hs : Program.traced viewServe s i o s') : ClaimInv view svc claimed s' := by
  refine ⟨(viewServe_view hs.1).trans h.1, fun c hc => ?_⟩
  rw [hs.2]
  exact (h.2 c hc).append _

/-- A pod written by a manager is the active one it was given. -/
private theorem touches_update {x w : Pod} (hsvc : view.services.find? req = some svc)
    (hx : x ∈ view.pods) (hact : isPodActive x = true) (hkey : x.key = w.key)
    (hf : NotForeign svc.uid x) (past : List ServiceEvent) :
    Touches view req past (.update w) :=
  ⟨svc, hsvc, x, hx, hkey, hact, hf⟩

private theorem claimSpec_view {st : RefManager.ClaimState PodBody} {x : Pod}
    (hsvc : view.services.find? req = some svc) (hx : x ∈ view.pods)
    (hact : isPodActive x = true) :
    (ServiceReconciler.refManager svc).ClaimSpec ((ServiceReconciler.refManager svc).matching [])
      Eq (Program.traced viewServe) (touchGuarantee view req) st.once x
      (ClaimInv view svc st.claimObjs) (fun _ => ClaimInv view svc st.claimObjs)
      fun c s' => ClaimInv view svc (st.add c).claimObjs s' := by
  have only : ∀ {key}, x.key = key → NotForeign svc.uid x →
      ∀ q ∈ view.pods, q.key = key → NotForeign svc.uid q := by
    intro key hkey hf q hq hqk
    rw [Table.eq_of_key hq hx (hqk.trans hkey.symm)]
    exact hf
  refine RefManager.ClaimSpec.of_collected Program.stable_alone ?_ ?_ (fun _ _ h => h) ?_ ?_
  · intro s h o s' ho
    exact ⟨trivial, h.next ho⟩
  · intro hc _ s h
    refine ⟨h.1, fun c hc' => ?_⟩
    rcases List.mem_append.mp hc' with hc' | hc'
    · exact h.2 c hc'
    · rw [List.mem_singleton.mp hc']
      exact ⟨only rfl (.of_controlledBy hc), Or.inl ⟨x, hx, rfl, hc⟩⟩
  · intro w hw s h o s' ho
    have hf : NotForeign svc.uid x := by simp [NotForeign, hw.orphan]
    have hctl := controlledBy_setControllerReference hw.write
    have hkey : x.key = w.key := hw.key_eq.symm
    refine ⟨touches_update hsvc hx hact hkey hf s.2, ?_, fun _ _ => h.next ho⟩
    rintro stored rfl
    obtain ⟨hview, hall⟩ := h.next ho
    refine ⟨hview, fun c hc => ?_⟩
    rcases List.mem_append.mp hc with hc | hc
    · exact hall c hc
    · obtain ⟨cur, -, -, hst⟩ := ho.1.1
      have hs₁ : stored = (s.1.2.updatePod cur w).1 := congrArg Prod.fst hst
      have hk : stored.key = w.key := by rw [hs₁, Store.updatePod_key]
      have hc₁ : ControlledBy svc.uid stored := by
        rw [hs₁]
        exact Store.controlledBy_updatePod hctl
      rw [List.mem_singleton.mp hc, hk]
      refine ⟨only hkey hf, Or.inr ⟨w, stored, ?_, rfl, hc₁⟩⟩
      rw [ho.2]
      simp
  · intro w hw s h o s' ho
    exact ⟨touches_update hsvc hx hact hw.key_eq.symm (.of_controlledBy hw.controlled) s.2,
      h.next ho⟩

private theorem wp_createPod_view {s : Traced} :
    (r.createPod svc).wp Eq (Program.traced viewServe) (touchGuarantee view req)
      (fun _ _ => True) s :=
  ServiceReconciler.wp_createPod (fun _ => True) trivial (fun _ _ _ _ => trivial)
    (fun _ _ _ => trivial) (fun _ _ _ _ _ => ⟨trivial, trivial⟩)
    fun _ _ _ _ _ _ _ _ _ _ => ⟨trivial, fun _ _ => trivial, fun _ _ _ => trivial⟩

private theorem wp_deletePods_view {wrapErr : GoError → GoError} {pods claimed : List Pod}
    {s : Traced} (hsvc : view.services.find? req = some svc) (h : ClaimInv view svc claimed s)
    (hpods : ∀ p ∈ pods, p ∈ inactiveOf view svc ∨ p ∈ claimed) :
    (deletePods wrapErr pods).wp Eq (Program.traced viewServe) (touchGuarantee view req)
      (fun _ s' => ClaimInv view svc claimed s') s := by
  refine wp_deletePods (fun _ _ s' => ClaimInv view svc claimed s') h
    (fun _ _ => Program.stable_alone) fun done x rest errs s hl h o s' ho => ⟨?_, h.next ho⟩
  have hx : x ∈ pods := by simp [hl]
  exact ⟨svc, hsvc, (hpods x hx).imp_right (h.2 x)⟩

theorem wp_reconcile_touches (store : Store) :
    (r.reconcile req).wp Eq (Program.traced viewServe) (touchGuarantee view req)
      (fun _ _ => True) ((view, store), []) := by
  refine ServiceReconciler.wp_reconcile (fun s => s.1.1 = view)
    (fun svc s => s.1.1 = view ∧ view.services.find? req = some svc) rfl
    Program.stable_alone (fun _ => Program.stable_alone) ?_ ?_
  · intro s hs o s' ho
    refine ⟨trivial, ?_, fun _ _ => trivial⟩
    rintro svc rfl
    exact ⟨(viewServe_view ho.1).trans hs, hs ▸ ho.1.1.1⟩
  intro svc s ⟨hs, hsvc⟩ o s' ho
  refine ⟨trivial, ?_, fun _ _ => trivial⟩
  rintro items rfl
  have hperm : items.Perm (view.select svc.ns (podSelector svc)) := hs ▸ ho.1.1.1
  have hview : s'.1.1 = view := (viewServe_view ho.1).trans hs
  refine ServiceReconciler.wp_settle (fun _ st s => ClaimInv view svc st.claimObjs s)
    ⟨hview, by simp⟩ ?_ (fun _ _ _ _ _ => trivial) ?_
  · intro done x rest st s hl h
    have hx : x ∈ items.filter isPodActive := by simp [hl]
    obtain ⟨hx, hact⟩ := List.mem_filter.mp hx
    exact ⟨_, _, h, claimSpec_view hsvc (List.mem_of_mem_filter (hperm.mem_iff.mp hx)) hact⟩
  · intro st s h _
    have hinactive : ∀ p ∈ items.filter (!isPodActive ·),
        p ∈ inactiveOf view svc ∨ p ∈ st.claimObjs := by
      intro p hp
      obtain ⟨hp, hact⟩ := List.mem_filter.mp hp
      exact Or.inl (List.mem_filter.mpr ⟨hperm.mem_iff.mp hp, hact⟩)
    refine Program.wp_seq (wp_deletePods_view hsvc h hinactive) fun errs s h => ?_
    split
    · trivial
    split
    · -- a wanted Service: only the Service is updated and a pod is created
      refine ServiceReconciler.wp_provide (fun _ => True) trivial (fun _ _ _ _ => trivial) ?_ ?_
        (fun _ _ => trivial)
      · exact fun _ _ _ _ _ _ => ⟨trivial, fun _ _ _ => wp_createPod_view, fun _ _ _ => trivial,
          fun _ _ _ => trivial⟩
      · exact fun _ _ => wp_createPod_view
    · refine Program.wp_seq (wp_deletePods_view hsvc h fun p hp => Or.inr hp) fun errs s h => ?_
      refine Program.wp_call_bind_alone fun o s' _ => ⟨trivial, ?_⟩
      cases o <;> trivial

/-- The server on which every call succeeds that can, with a view of its own. -/
def viewHandle (s : Store × Store) :
    (i : Request ServiceBody PodBody) → Response i × (Store × Store)
  | .get key => ((s.1.handle (fun _ => "") (.get key)).1, s)
  | .list ns selector => ((s.1.handle (fun _ => "") (.list ns selector)).1, s)
  | i => ((s.2.handle (fun _ => "") i).1, s.1, (s.2.handle (fun _ => "") i).2)

theorem viewServe_viewHandle (s : Store × Store) (i : Request ServiceBody PodBody) :
    viewServe s i (viewHandle s i).1 (viewHandle s i).2 := by
  cases i with
  | get key =>
    have h := Store.serve_handle (fun _ => "") s.1 (.get key)
    cases hf : s.1.services.find? key <;>
      simp_all [viewServe, viewHandle, Store.handle, Store.serve]
  | list ns selector => exact ⟨⟨.refl _, rfl⟩, rfl⟩
  | create pod => exact ⟨Store.serve_handle _ _ _, rfl⟩
  | update w => exact ⟨Store.serve_handle _ _ _, rfl⟩
  | delete pod => exact ⟨Store.serve_handle _ _ _, rfl⟩
  | updateOwner w => exact ⟨Store.serve_handle _ _ _, rfl⟩
  | rand n => exact ⟨rfl, rfl⟩

/-- No claim has failed so far, and the pods still to be claimed are as they were listed. -/
structure Unfailed (view : Store) (svc : Service) (done : List Pod)
    (st : RefManager.ClaimState PodBody) (s : Traced) : Prop where
  reads : s.1.1 = view
  errList : st.errList = []
  once : ∀ v, st.once = some v → svc.deletionTimestamp = none → v = none
  pods : ∀ y ∈ view.pods, y ∉ done → s.1.2.pods.find? y.key = some y

/-- A claim that does not fail and writes nothing. -/
private theorem Unfailed.add {done : List Pod} {st : RefManager.ClaimState PodBody} {s : Traced}
    (h : Unfailed view svc done st s) {c : Claim PodBody} (herr : c.err = none)
    (honce : ∀ v, c.once = some v → svc.deletionTimestamp = none → v = none) (x : Pod) :
    Unfailed view svc (done ++ [x]) (st.add c) s := by
  have hst : (st.add c).errList = st.errList ∧ (st.add c).once = c.once := by
    unfold RefManager.ClaimState.add
    rw [herr]
    dsimp only
    split
    · exact ⟨rfl, rfl⟩
    · exact ⟨rfl, rfl⟩
  constructor
  · exact h.reads
  · rw [hst.1]
    exact h.errList
  · rw [hst.2]
    exact honce
  · intro y hy hyd
    exact h.pods y hy fun hm => hyd (List.mem_append_left _ hm)

/-- The copy in the view is the stored one, so that the update of an adoption is accepted and
changes no other pod. -/
private theorem Unfailed.adopted {done : List Pod} {st : RefManager.ClaimState PodBody}
    {s : Traced} (h : Unfailed view svc done st s) {x w : Pod} (hx : x ∈ view.pods)
    (hnew : x ∉ done) (hkey : w.key = x.key) (hversion : w.resourceVersion = x.resourceVersion) :
    viewHandle s.1 (.update w) =
        (.ok (s.1.2.updatePod x w).1, s.1.1, (s.1.2.updatePod x w).2) ∧
      ∀ y ∈ view.pods, y ∉ done ++ [x] →
        (s.1.2.updatePod x w).2.pods.find? y.key = some y := by
  constructor
  · have hcur : s.1.2.pods.find? w.key = some x := hkey ▸ h.pods x hx hnew
    simp [viewHandle, Store.handle, hcur, hversion]
  · intro y hy hyd
    have hyx : y ≠ x := fun e => hyd (by simp [e])
    have hne : y.key ≠ w.key := fun e => hyx (Table.eq_of_key hy hx (e.trans hkey))
    have hsame := h.pods y hy fun hm => hyd (List.mem_append_left _ hm)
    exact (Store.find?_updatePod_of_ne hne).trans hsame

/-- On this server a claim of a listed active pod does not fail. -/
private theorem claimSpec_handled {done : List Pod} {st : RefManager.ClaimState PodBody} {x : Pod}
    (hsvc : view.services.find? req = some svc) (hx : x ∈ view.select svc.ns (podSelector svc))
    (hnew : x ∉ done) :
    (ServiceReconciler.refManager svc).ClaimSpec ((ServiceReconciler.refManager svc).matching [])
      Eq (Program.traced (Program.served viewHandle)) (fun _ _ _ _ => True) st.once x
      (Unfailed view svc done st)
      (fun v s => Unfailed view svc done st s ∧ (svc.deletionTimestamp = none → v = none))
      fun c s' => Unfailed view svc (done ++ [x]) (st.add c) s' := by
  obtain ⟨hxv, hsel⟩ := List.mem_filter.mp hx
  simp only [Bool.and_eq_true, decide_eq_true_eq] at hsel
  have hmatch : (ServiceReconciler.refManager svc).matching [] x = true := by
    simpa [RefManager.matching, ServiceReconciler.refManager] using hsel.2
  refine ⟨?_, fun _ s h => h.add rfl h.once x⟩
  constructor
  · exact Program.stable_alone
  · exact fun _ => Program.stable_alone
  · exact fun v s hv h => ⟨h, h.once v hv⟩
  · intro err s _ hk
    cases hk
  · -- the owner is read from the view
    intro _ s _ _ h o s' ho
    have hkey : (⟨svc.ns, svc.name⟩ : NamespacedName) = req := (Table.find?_eq_some.mp hsvc).2
    obtain ⟨ho, htr⟩ := ho
    have hget : viewHandle s.1 (.get ⟨svc.ns, svc.name⟩) = (.ok svc, s.1) := by
      simp [viewHandle, Store.handle, h.reads, hkey, hsvc]
    obtain ⟨rfl, hs'⟩ := Prod.mk.inj (hget.symm.trans ho)
    refine ⟨trivial, ⟨hs' ▸ h.reads, h.errList, h.once, hs' ▸ h.pods⟩, fun hd => ?_⟩
    simp [RefManager.verdict, ServiceReconciler.refManager, hd]
  · exact fun _ _ s h => h.add rfl h.once x
  · exact fun _ _ _ s h => h.add rfl h.once x
  · exact fun had err s h => absurd (h.2 had.ownerAlive) (by simp)
  · intro had err s _ herr
    have hok : setControllerReference svc serviceScheme.objectKinds x = .ok _ :=
      setControllerReference_of_orphan hsel.1 had.orphan
    exact absurd (hok.symm.trans herr) (by simp)
  · intro w hw s h o s' ho
    obtain ⟨ho, htr⟩ := ho
    obtain ⟨hup, hpods⟩ := h.1.adopted hxv hnew hw.key_eq hw.version_eq
    obtain ⟨rfl, hs'⟩ := Prod.mk.inj (hup.symm.trans ho)
    refine ⟨trivial, fun stored _ => ?_, fun err he => absurd he (by simp)⟩
    constructor
    · rw [← hs']
      exact h.1.reads
    · exact h.1.errList
    · intro v hv _
      exact (Option.some.inj hv).symm
    · rw [← hs']
      exact hpods
  · exact fun w hw => absurd hmatch (by simp [hw.noMatch])

private theorem wp_deletePods_traced {wrapErr : GoError → GoError} {pods : List Pod} {s : Traced}
    {serve : Server (Request ServiceBody PodBody) Response (Store × Store)} :
    (deletePods wrapErr pods).wp Eq (Program.traced serve) (fun _ _ _ _ => True)
      (fun _ s => ∀ x ∈ pods, ∃ o, ⟨.delete x, o⟩ ∈ s.2) s := by
  refine wp_deletePods (fun done _ (s : Traced) => ∀ x ∈ done, ∃ o, ⟨.delete x, o⟩ ∈ s.2)
    (by simp) ?_ ?_
  · intro done errs s s' h e
    exact e ▸ h
  · intro done x rest errs s _ h o s' ho
    refine ⟨trivial, fun y hy => ?_⟩
    rw [ho.2]
    rcases List.mem_append.mp hy with hy | hy
    · obtain ⟨o', ho'⟩ := h y hy
      exact ⟨o', List.mem_append_left _ ho'⟩
    · rw [List.mem_singleton.mp hy]
      exact ⟨o, by simp⟩

/-- On this server no claim fails, so that a run goes on to what follows the claims. -/
theorem wp_reconcile_handled {Q : Option GoError → Traced → Prop}
    (hsvc : view.services.find? req = some svc)
    (hok : ∀ claimed s, (r.converge req svc claimed (inactiveOf view svc)).wp Eq
      (Program.traced (Program.served viewHandle)) (fun _ _ _ _ => True) Q s) :
    (r.reconcile req).wp Eq (Program.traced (Program.served viewHandle)) (fun _ _ _ _ => True)
      Q ((view, view), []) := by
  have hget : viewHandle (view, view) (.get req) = (.ok svc, view, view) := by
    simp [viewHandle, Store.handle, hsvc]
  refine Program.wp_call_bind_alone fun o s' ho => ⟨trivial, ?_⟩
  obtain ⟨ho, -⟩ := ho
  obtain ⟨rfl, hs'⟩ := Prod.mk.inj (hget.symm.trans ho)
  dsimp only
  unfold getOwnedPods
  rw [bind_assoc]
  refine Program.wp_call_bind_alone fun o s₂ ho => ⟨trivial, ?_⟩
  obtain ⟨ho, -⟩ := ho
  have hlist : viewHandle s'.1 (.list svc.ns (podSelector svc)) =
      (.ok (view.select svc.ns (podSelector svc)), view, view) := by
    rw [← hs']
    rfl
  obtain ⟨rfl, hs₂⟩ := Prod.mk.inj (hlist.symm.trans ho)
  have hnodup : ((view.select svc.ns (podSelector svc)).filter isPodActive).Nodup :=
    view.select_nodup.filter _
  refine ServiceReconciler.wp_settle (Unfailed view svc)
    ⟨by rw [← hs₂], rfl, by simp, fun y hy _ => ?_⟩ ?_ ?_ ?_
  · rw [← hs₂]
    exact Table.find?_of_mem hy
  · intro done x rest st s hl h
    have hx : x ∈ (view.select svc.ns (podSelector svc)).filter isPodActive := by simp [hl]
    have hnew := Program.not_mem_of_nodup hnodup hl
    exact ⟨_, _, h, claimSpec_handled hsvc (List.mem_of_mem_filter hx) hnew⟩
  · exact fun st s err h hne => absurd h.errList hne
  · exact fun st s _ _ => hok st.claimObjs s

/-- On this server a run deletes every inactive pod it lists. -/
private theorem wp_reconcile_deletes {p : Pod} (hsvc : view.services.find? req = some svc)
    (hp : p ∈ inactiveOf view svc) :
    (r.reconcile req).wp Eq (Program.traced (Program.served viewHandle)) (fun _ _ _ _ => True)
      (fun _ s => ∃ o, ⟨.delete p, o⟩ ∈ s.2) ((view, view), []) := by
  apply wp_reconcile_handled hsvc
  intro claimed s
  -- the loop over the inactive pods comes first, and what it deletes stays on the trace
  refine Program.wp_seq (P := fun _ s => ∃ o, ⟨.delete p, o⟩ ∈ s.2) ?_ ?_
  · exact Program.wp_mono wp_deletePods_traced fun _ s h => h p hp
  · rintro _ s ⟨o, ho⟩
    exact Program.wp_mono (Program.wp_traced_mem ho) fun _ _ h => ⟨o, h⟩

def OnlyOwned (r : ServiceReconciler) (req : NamespacedName) (view : Store) : Prop :=
  ∀ store es err t, Program.Exec viewServe (r.reconcile req) (view, store) es err t →
    ∀ before e after, es = before ++ e :: after → OwnsTarget view req before e.1

theorem reconcile_touches {store : Store} {es before after : List ServiceEvent}
    {err : Option GoError} {t : Store × Store} {e : ServiceEvent}
    (h : Program.Exec viewServe (r.reconcile req) (view, store) es err t)
    (hes : es = before ++ e :: after) : Touches view req before e.1 := by
  obtain ⟨s₁, s₂, hG⟩ := h.traced_guarantee (wp_reconcile_touches store) hes
  exact hG

/-- An owner that deletes an inactive pod of its view owns it: the run itself has adopted
active pods only. -/
private theorem controlledBy_of_deleted {p : Pod} {store : Store}
    {es before after : List ServiceEvent} {err : Option GoError} {t : Store × Store}
    {o : Except GoError Unit} (hsvc : view.services.find? req = some svc)
    (hp : p ∈ inactiveOf view svc)
    (h : Program.Exec viewServe (r.reconcile req) (view, store) es err t)
    (hes : es = before ++ ⟨.delete p, o⟩ :: after)
    (howns : OwnsTarget view req before (.delete p)) :
    ControlledBy svc.uid p := by
  obtain ⟨hsel, hact⟩ := List.mem_filter.mp hp
  have hpv : p ∈ view.pods := List.mem_of_mem_filter hsel
  obtain ⟨svc', hsvc', hown, -⟩ := howns
  obtain rfl : svc' = svc := Option.some.inj (hsvc'.symm.trans hsvc)
  rcases hown with ⟨q, hq, hkey, hctl⟩ | ⟨w, stored, hmem, hkey, -⟩
  · exact Table.eq_of_key hq hpv hkey ▸ hctl
  · obtain ⟨b, a, rfl⟩ := List.append_of_mem hmem
    obtain ⟨-, -, x, hx, hxkey, hxact, -⟩ := reconcile_touches h (e := ⟨.update w, .ok stored⟩)
      (by rw [hes, List.append_assoc, List.cons_append])
    rw [Table.eq_of_key hx hpv (hxkey.trans hkey)] at hxact
    simp [hxact] at hact

private theorem not_onlyOwned {p : Pod} (hsvc : view.services.find? req = some svc)
    (hp : p ∈ inactiveOf view svc) (hctl : ¬ ControlledBy svc.uid p) : ¬ OnlyOwned r req view := by
  intro h
  obtain ⟨es, err, t, hexec, o, hmem⟩ :=
    Program.exists_exec viewServe_viewHandle (wp_reconcile_deletes (r := r) hsvc hp)
  obtain ⟨before, after, hes⟩ := List.append_of_mem hmem
  exact hctl (controlledBy_of_deleted hsvc hp hexec hes (h view es err t hexec before _ after hes))

/-- Runs on a view only destroy what the Service owns exactly when the Service controls every
inactive pod that carries its labels. -/
theorem onlyOwned_iff (r : ServiceReconciler) (req : NamespacedName) (view : Store) :
    OnlyOwned r req view ↔ ∀ svc, view.services.find? req = some svc →
      ∀ p ∈ inactiveOf view svc, ControlledBy svc.uid p := by
  constructor
  · intro h svc hsvc p hp
    by_contra hctl
    exact not_onlyOwned hsvc hp hctl h
  · intro h store es err t hexec before e after hes
    have htouch := reconcile_touches hexec hes
    obtain ⟨i, o⟩ := e
    cases i with
    | delete p =>
      obtain ⟨svc, hsvc, hp | hp⟩ := htouch
      · have hctl := h svc hsvc p hp
        have hpv : p ∈ view.pods := List.mem_of_mem_filter (List.mem_of_mem_filter hp)
        refine ⟨svc, hsvc, Or.inl ⟨p, hpv, rfl, hctl⟩, fun q hq hkey => ?_⟩
        rw [Table.eq_of_key hq hpv hkey]
        exact .of_controlledBy hctl
      · exact ⟨svc, hsvc, hp.owned, hp.notForeign⟩
    | update w =>
      obtain ⟨svc, hsvc, x, hx, hkey, -, hf⟩ := htouch
      refine ⟨svc, hsvc, fun q hq hqk => ?_⟩
      rw [Table.eq_of_key hq hx (hqk.trans hkey.symm)]
      exact hf
    | get key => trivial
    | list ns selector => trivial
    | create pod => trivial
    | updateOwner w => trivial
    | rand n => trivial

/-- A finished pod of a Job, with the labels of the Service. -/
def jobPod : Pod :=
  labelledPod webService "job-1" .succeeded ⟨"batch/v1", "Job", "job", "job-uid", some true, none⟩

def jobView : Store := ⟨Table.empty.upsert webService, Table.empty.upsert jobPod, 1⟩

/-- The run deletes the pod of the Job. -/
theorem not_onlyOwned_jobView : ¬ OnlyOwned emptyTemplate webService.key jobView := by
  have hsvc : jobView.services.find? webService.key = some webService := by decide
  exact not_onlyOwned hsvc (p := jobPod) (by decide) (by decide)

end
end FrpProvisioner
