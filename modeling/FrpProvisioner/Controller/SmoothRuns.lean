import FrpProvisioner.Controller.FateStages

/-! A run of the Service reconciler on a calm server. Every call it makes succeeds, and it has
exactly the effect of the specification. The pods pass three stages: the active ones are
claimed, the inactive ones deleted, and in a clean-up the claimed ones are deleted too. -/
namespace FrpProvisioner
open Effect

variable {allows : NamespacedName → Option Time → Prop} {fresh : String → Store → Prop}
  {serve : Server (Request ServiceBody PodBody) Response Store} {s₀ a : Store} {svc : Service}
  {r : ServiceReconciler} {req : NamespacedName}

section Run

theorem generatedName_suffix (base suffix : String) :
    ∃ start, generatedName base suffix = start ++ suffix := by
  unfold generatedName
  split
  · exact ⟨_, rfl⟩
  · exact ⟨_, rfl⟩

theorem podFor_name {owner : Service} {suffix : String} {pod : Pod}
    (h : r.podFor owner suffix = .ok pod) : ∃ base, pod.name = base ++ suffix := by
  unfold ServiceReconciler.podFor at h
  split at h
  · cases h
  unfold ServiceReconciler.templatePod at h
  dsimp only at h
  split at h
  · cases h
  next pod' hset =>
    cases h
    obtain ⟨g, -, -, rfl⟩ := setControllerReference_ok hset
    exact generatedName_suffix _ suffix

theorem Calm.wp_createPod (h : Calm allows fresh serve) {finalizers : List String} {version : ℕ}
    (hw : isWanted svc = true) (hbare : Bare svc s₀)
    (hpods : s₀.pods.Evolves a.pods (Fate allows svc) [])
    (hservices : s₀.services.Evolves a.services (ServiceFate svc) []) :
    (r.createPod { svc with finalizers := finalizers, resourceVersion := version }).wp Eq serve
      allSucceed (Effects allows svc r s₀) a := by
  have hfail : ∀ suffix err, r.podFor svc suffix = .error err →
      Effects allows svc r s₀ (some (ServiceReconciler.generateError err)) a :=
    fun suffix err herr => ⟨⟨[], .failed hw hbare herr, hpods⟩, hservices⟩
  apply ServiceReconciler.wp_createPod_drawn (· = a) (fun suffix b => b = a ∧ fresh suffix b) rfl
  · exact Program.stable_alone
  · exact fun _ => Program.stable_alone
  · rintro b rfl suffix b' ho
    have hsame : b' = b := h.answers _ _ _ _ ho
    exact ⟨trivial, hsame, h.draws _ _ _ _ ho⟩
  · intro err hall
    exact hfail "" err (hall "")
  · rintro suffix err b ⟨rfl, -⟩ herr
    exact hfail suffix err herr
  · rintro suffix pod hpod b ⟨rfl, hfresh⟩ o b' ho
    obtain ⟨base, hbase⟩ := podFor_name hpod
    have hok := h.succeeds _ _ _ _ ho ⟨base, suffix, hbase, hfresh⟩
    have hans := h.answers _ _ _ _ ho
    cases o with
    | error err => exact hok.elim
    | ok stored =>
      obtain ⟨hfree, uid, rfl, rfl⟩ := hans
      refine ⟨trivial, ?_, fun err err' he => by cases he⟩
      rintro _ -
      refine ⟨⟨[b.created pod uid], .pod b uid hw hbare hpod, ?_⟩, hservices⟩
      exact hpods.push hfree

theorem Calm.wp_provide (h : Calm allows fresh serve) {claimed : List Pod}
    (hsvc : s₀.services.find? svc.key = some svc) (hw : isWanted svc = true)
    (hclaimed : claimed = [] ↔ Bare svc s₀) (hservices : a.services = s₀.services)
    (hpods : s₀.pods.Evolves a.pods (Fate allows svc) []) :
    (r.provide req svc claimed).wp Eq serve allSucceed (Effects allows svc r s₀) a := by
  have hfind : a.services.find? svc.key = some svc := by
    rw [hservices]
    exact hsvc
  have hdone : claimed ≠ [] → ∀ b : Store, b.pods = a.pods →
      s₀.services.Evolves b.services (ServiceFate svc) [] → Effects allows svc r s₀ none b := by
    intro hne b hb hserv
    refine ⟨⟨[], .nothing ?_, ?_⟩, hserv⟩
    · rintro ⟨-, hbare⟩
      exact hne (hclaimed.mpr hbare)
    · rw [hb]
      exact hpods
  apply ServiceReconciler.wp_provide (· = a) rfl
  · exact Program.stable_alone
  · rintro hfin b rfl o b' ho
    have hsettled : svc.finalizers ++ [finalizerName] = settledFinalizers svc := by
      rw [settledFinalizers, if_pos hw, if_neg hfin]
    obtain ⟨hsucc, hsame, hserv, version, rfl⟩ := h.settle_service hfind hsettled ho
    rw [hservices] at hserv
    refine ⟨hsucc, ?_, ?_, fun err err' he => by cases he⟩
    · rintro _ ⟨⟩ hnil
      rw [← hsame] at hpods
      exact h.wp_createPod hw (hclaimed.mp hnil) hpods hserv
    · rintro _ ⟨⟩ hne
      exact hdone hne b' hsame hserv
  · intro hfin hnil
    have hsettled : settledFinalizers svc = svc.finalizers := by
      rw [settledFinalizers, if_pos hw, if_pos hfin]
    exact h.wp_createPod hw (hclaimed.mp hnil) hpods
      (hservices ▸ evolves_settled hfind hsettled)
  · intro hfin hne
    have hsettled : settledFinalizers svc = svc.finalizers := by
      rw [settledFinalizers, if_pos hw, if_pos hfin]
    exact hdone hne a rfl (hservices ▸ evolves_settled hfind hsettled)

/-- A pod once the claims are over and the inactive pods are deleted. -/
def Cleared (allows : NamespacedName → Option Time → Prop) (svc : Service) (p : Pod)
    (o : Option Pod) : Prop :=
  if selects svc p then
    if isPodActive p then o.map Object.content = some ((claimOf svc p).getD p).content
    else Removed allows p o
  else o = some p

theorem Cleared.fate {p : Pod} {o : Option Pod} (h : Cleared allows svc p o)
    (hstays : selects svc p = true → isPodActive p = true → ∀ q, claimOf svc p = some q →
      isWanted svc = true) : Fate allows svc p o := by
  unfold Cleared at h
  unfold Fate
  split
  next hsel =>
    rw [if_pos hsel] at h
    split
    next hact =>
      rw [if_pos hact] at h
      split
      next hnone =>
        rw [hnone] at h
        exact h
      next q hq =>
        rw [if_pos (hstays hsel hact q hq)]
        rw [hq] at h
        exact h
    next hact =>
      rw [if_neg hact] at h
      exact h
  next hsel =>
    rw [if_neg hsel] at h
    exact h

def claimedKeys (svc : Service) (items : List Pod) : List NamespacedName :=
  ((items.filter isPodActive).filterMap (claimOf svc)).map Object.key

theorem claimedKeys_sublist (items : List Pod) :
    (claimedKeys svc items).Sublist (items.map Object.key) := by
  have hkeys : ∀ l : List Pod, ((l.filterMap (claimOf svc)).map Object.key).Sublist
      (l.map Object.key) := by
    intro l
    induction l with
    | nil => exact .slnil
    | cons p l ih =>
      rw [List.filterMap_cons]
      cases hq : claimOf svc p with
      | none => exact ih.cons _
      | some q =>
        rw [List.map_cons, List.map_cons, claimOf_key hq]
        exact ih.cons_cons _
  exact (hkeys _).trans (List.filter_sublist.map Object.key)

variable {items : List Pod}

theorem mem_claimedKeys {p : Pod} (hitems : ∀ x, x ∈ items ↔ x ∈ s₀.pods ∧ selects svc x = true)
    (hp : p ∈ s₀.pods) : p.key ∈ claimedKeys svc items ↔
      selects svc p = true ∧ isPodActive p = true ∧ ∃ q, claimOf svc p = some q := by
  unfold claimedKeys
  simp only [List.mem_map, List.mem_filterMap, List.mem_filter]
  constructor
  · rintro ⟨q, ⟨x, ⟨hx, hact⟩, hq⟩, hkey⟩
    obtain ⟨hxs, hsel⟩ := (hitems x).mp hx
    have hxp : x = p := Table.eq_of_key hxs hp ((claimOf_key hq).symm.trans hkey)
    subst hxp
    exact ⟨hsel, hact, q, hq⟩
  · rintro ⟨hsel, hact, q, hq⟩
    exact ⟨q, ⟨p, ⟨(hitems p).mpr ⟨hp, hsel⟩, hact⟩, hq⟩, claimOf_key hq⟩

theorem bare_iff (hitems : ∀ x, x ∈ items ↔ x ∈ s₀.pods ∧ selects svc x = true) :
    claimedKeys svc items = [] ↔ Bare svc s₀ := by
  constructor
  · intro hnil p hp hsel hact
    by_contra hne
    obtain ⟨q, hq⟩ := Option.ne_none_iff_exists'.mp hne
    have hmem := (mem_claimedKeys hitems hp).mpr ⟨hsel, hact, q, hq⟩
    rw [hnil] at hmem
    cases hmem
  · intro hall
    unfold claimedKeys
    rw [List.map_eq_nil_iff, List.filterMap_eq_nil_iff]
    intro p hp
    obtain ⟨hpi, hact⟩ := List.mem_filter.mp hp
    obtain ⟨hps, hsel⟩ := (hitems p).mp hpi
    exact hall p hps hsel hact

theorem Calm.wp_clear (h : Calm allows fresh serve) {wrapErr : GoError → GoError}
    (hitems : ∀ x, x ∈ items ↔ x ∈ s₀.pods ∧ selects svc x = true)
    (hnodup : (items.map Object.key).Nodup)
    (hpods : s₀.pods.Evolves a.pods (ClaimStage svc (items.filter isPodActive)) []) :
    (deletePods wrapErr (items.filter (!isPodActive ·))).wp Eq serve allSucceed (fun errs b =>
      errs = [] ∧ b.services = a.services ∧ s₀.pods.Evolves b.pods (Cleared allows svc) []) a := by
  have hinactive : ∀ p, p ∈ items.filter (!isPodActive ·) ↔
      p ∈ s₀.pods ∧ selects svc p = true ∧ isPodActive p = false := by
    intro p
    rw [List.mem_filter, hitems]
    simp [and_assoc]
  have hstage : ∀ p, isPodActive p = false → ∀ o,
      ClaimStage svc (items.filter isPodActive) p o → o = some p := by
    intro p hact o ho
    apply ho.untouched
    intro hm
    rw [(List.mem_filter.mp hm).2] at hact
    cases hact
  apply h.wp_deletes hpods
  · exact hnodup.sublist (List.filter_sublist.map Object.key)
  · intro x hx
    obtain ⟨hxs, -, hact⟩ := (hinactive x).mp hx
    refine ⟨x, hxs, rfl, fun o ho => ?_⟩
    rw [hstage x hact o ho]
    rfl
  · intro p hp hpk q o hq hremoved
    obtain ⟨x, hx, hxk⟩ := List.mem_map.mp hpk
    obtain ⟨hxs, hsel, hact⟩ := (hinactive x).mp hx
    obtain rfl := Table.eq_of_key hxs hp hxk
    obtain rfl := Option.some.inj (hstage x hact _ hq)
    rw [Cleared, if_pos hsel, if_neg (by simp [hact])]
    exact hremoved
  · intro p hp hpk o ho
    unfold Cleared
    split
    next hsel =>
      have hact : isPodActive p = true := by
        by_contra hact
        rw [Bool.not_eq_true] at hact
        exact hpk (List.mem_map_of_mem ((hinactive p).mpr ⟨hp, hsel, hact⟩))
      rw [if_pos hact]
      exact ho.claimed (List.mem_filter.mpr ⟨(hitems p).mpr ⟨hp, hsel⟩, hact⟩)
    next hsel =>
      apply ho.untouched
      intro hm
      exact hsel ((hitems p).mp (List.mem_of_mem_filter hm)).2

theorem Calm.wp_clearClaimed (h : Calm allows fresh serve) {wrapErr : GoError → GoError}
    {claimed : List Pod} (hitems : ∀ x, x ∈ items ↔ x ∈ s₀.pods ∧ selects svc x = true)
    (hnodup : (items.map Object.key).Nodup)
    (hkeys : claimed.map Object.key = claimedKeys svc items) (hw : isWanted svc = false)
    (hpods : s₀.pods.Evolves a.pods (Cleared allows svc) []) :
    (deletePods wrapErr claimed).wp Eq serve allSucceed (fun errs b =>
      errs = [] ∧ b.services = a.services ∧ s₀.pods.Evolves b.pods (Fate allows svc) []) a := by
  apply h.wp_deletes hpods
  · rw [hkeys]
    exact hnodup.sublist (claimedKeys_sublist items)
  · intro x hx
    have hxk : x.key ∈ claimedKeys svc items := by
      rw [← hkeys]
      exact List.mem_map_of_mem hx
    obtain ⟨y, hy, hyk⟩ := List.mem_map.mp ((claimedKeys_sublist items).subset hxk)
    have hyp := ((hitems y).mp hy).1
    obtain ⟨hsel, hact, -⟩ := (mem_claimedKeys hitems hyp).mp (hyk.symm ▸ hxk)
    refine ⟨y, hyp, hyk, fun o ho => ?_⟩
    rw [Cleared, if_pos hsel, if_pos hact] at ho
    obtain ⟨q, rfl, -⟩ := Option.map_eq_some_iff.mp ho
    rfl
  · intro p hp hpk q o hq hremoved
    rw [hkeys] at hpk
    obtain ⟨hsel, hact, c, hc⟩ := (mem_claimedKeys hitems hp).mp hpk
    rw [Cleared, if_pos hsel, if_pos hact, hc] at hq
    rw [Fate, if_pos hsel, if_pos hact, hc]
    simp only [hw, Bool.false_eq_true, ↓reduceIte]
    exact hremoved.of_content (Option.some.inj hq)
  · intro p hp hpk o ho
    apply ho.fate
    intro hsel hact c hc
    rw [hkeys] at hpk
    exact absurd ((mem_claimedKeys hitems hp).mpr ⟨hsel, hact, c, hc⟩) hpk

theorem Calm.wp_cleanUp (h : Calm allows fresh serve) {claimed : List Pod}
    (hitems : ∀ x, x ∈ items ↔ x ∈ s₀.pods ∧ selects svc x = true)
    (hnodup : (items.map Object.key).Nodup)
    (hkeys : claimed.map Object.key = claimedKeys svc items)
    (hsvc : s₀.services.find? svc.key = some svc) (hw : isWanted svc = false)
    (hservices : a.services = s₀.services)
    (hpods : s₀.pods.Evolves a.pods (Cleared allows svc) []) :
    (ServiceReconciler.cleanUp req svc claimed).wp Eq serve allSucceed
      (Effects allows svc r s₀) a := by
  unfold ServiceReconciler.cleanUp
  refine Program.wp_seq (h.wp_clearClaimed hitems hnodup hkeys hw hpods) ?_
  rintro _ b ⟨rfl, hsame, hb⟩
  refine Program.wp_call_bind_alone fun o b' ho => ?_
  have hfind : b.services.find? svc.key = some svc := by
    rw [hsame, hservices]
    exact hsvc
  have hfin : withoutFinalizer svc.finalizers = settledFinalizers svc := by
    simp [settledFinalizers, hw]
  obtain ⟨hsucc, hpods', hserv, version, rfl⟩ := h.settle_service hfind hfin ho
  refine ⟨hsucc, ?_⟩
  rw [hsame, hservices] at hserv
  refine ⟨⟨[], .nothing ?_, ?_⟩, hserv⟩
  · rintro ⟨hw', -⟩
    rw [hw] at hw'
    cases hw'
  · rw [hpods']
    exact hb

theorem Calm.wp_converge (h : Calm allows fresh serve) {st : RefManager.ClaimState PodBody}
    (hitems : ∀ x, x ∈ items ↔ x ∈ s₀.pods ∧ selects svc x = true)
    (hnodup : (items.map Object.key).Nodup) (hsvc : s₀.services.find? svc.key = some svc)
    (hclaim : Claiming s₀ svc (items.filter isPodActive) st a) :
    (r.converge req svc st.claimObjs (items.filter (!isPodActive ·))).wp Eq serve allSucceed
      (Effects allows svc r s₀) a := by
  have hbare : st.claimObjs = [] ↔ Bare svc s₀ := by
    rw [← bare_iff hitems, ← List.map_eq_nil_iff (f := Object.key), hclaim.keys]
    rfl
  unfold ServiceReconciler.converge
  refine Program.wp_seq (h.wp_clear hitems hnodup hclaim.pods) ?_
  rintro _ b ⟨rfl, hsame, hb⟩
  simp only [List.length_nil, ne_eq, not_true_eq_false, ↓reduceIte]
  split
  next hw =>
    apply h.wp_provide hsvc hw hbare (hsame.trans hclaim.services)
    exact hb.mono fun p _ o ho => ho.fate fun _ _ _ _ => hw
  next hw =>
    exact h.wp_cleanUp hitems hnodup hclaim.keys hsvc (Bool.eq_false_iff.mpr hw)
      (hsame.trans hclaim.services) hb

theorem Calm.wp_reconcile (h : Calm allows fresh serve)
    (hsvc : s₀.services.find? svc.key = some svc) :
    (r.reconcile svc.key).wp Eq serve allSucceed (Effects allows svc r s₀) s₀ := by
  apply ServiceReconciler.wp_reconcile (· = s₀) (fun svc' a => svc = svc' ∧ a = s₀) rfl
  · exact Program.stable_alone
  · exact fun _ => Program.stable_alone
  · rintro a rfl o b ho
    obtain ⟨rfl, rfl, hsucc⟩ := h.get hsvc ho
    refine ⟨hsucc, ?_, fun err he => by cases he⟩
    rintro _ ⟨⟩
    exact ⟨rfl, rfl⟩
  · rintro _ a ⟨rfl, rfl⟩ o b ho
    obtain ⟨rfl, hsucc, hitems⟩ := h.list ho
    refine ⟨hsucc, ?_, ?_⟩
    · rintro items rfl
      have hperm := hitems items rfl
      have hmem : ∀ x, x ∈ items ↔ x ∈ b.pods ∧ selects svc x = true := fun x =>
        hperm.mem_iff.trans mem_select
      have hnodup : (items.map Object.key).Nodup :=
        (hperm.map Object.key).nodup_iff.mpr (b.pods.nodup.sublist (List.filter_sublist.map _))
      have hactive : (items.filter isPodActive).Nodup := (List.Nodup.of_map _ hnodup).filter _
      apply ServiceReconciler.wp_settle_cases (Claiming b svc)
      · refine ⟨rfl, rfl, ?_, rfl, Table.evolves_refl ?_⟩
        · intro v hv
          cases hv
        · intro p _
          exact ⟨fun _ => rfl, fun hm => absurd hm List.not_mem_nil⟩
      · intro done x rest st a hl hI
        have hx : x ∈ items.filter isPodActive := by
          rw [hl]
          exact List.mem_append_right _ List.mem_cons_self
        obtain ⟨hxi, hact⟩ := List.mem_filter.mp hx
        obtain ⟨hxs, hsel⟩ := (hmem x).mp hxi
        have hnew := Program.not_mem_of_nodup hactive hl
        exact ⟨_, _, hI, h.claimCases hsvc hxs hsel hact hnew⟩
      · intro st a err hI hne
        exact absurd hI.errList hne
      · intro st a hI _
        exact h.wp_converge hmem hnodup hsvc hI
    · rintro err rfl
      exact hsucc.elim

theorem reconcile_effects {t : Store} {err : Option GoError}
    {es : List (Program.Event (Request ServiceBody PodBody) Response)}
    (h : Program.Exec (smoothServe allows) (r.reconcile svc.key) s₀ es err t)
    (hsvc : s₀.services.find? svc.key = some svc) : Effects allows svc r s₀ err t :=
  h.post ((calm_smoothServe allows).wp_reconcile hsvc)

end Run

section Existence
variable (grace : NamespacedName → Option Time)

def longSuffix (s : Store) : String :=
  String.ofList ('a' :: (s.pods.entries.map fun p => p.name.toList).flatten)

theorem length_lt_longSuffix {s : Store} {p : Pod} (hp : p ∈ s.pods) :
    p.name.length < (longSuffix s).length := by
  have hsub : p.name.toList.Sublist (s.pods.entries.map fun p => p.name.toList).flatten :=
    List.sublist_flatten_of_mem (List.mem_map_of_mem hp)
  have hle := hsub.length_le
  rw [longSuffix, String.length_ofList, List.length_cons, ← String.length_toList]
  omega

/-- The server of `Store.handle`, with pods deleted as `grace` says and names that are free. -/
def smoothHandle (s : Store) : (i : Request ServiceBody PodBody) → Response i × Store
  | .delete pod =>
    match s.pods.find? pod.key with
    | none => (.error (Store.notFoundError "pods" pod.key), s)
    | some cur =>
      (.ok (), if cur.deletionTimestamp.isSome then s else s.remove cur (grace cur.key))
  | i => s.handle longSuffix i

theorem serve_smoothHandle (s : Store) (i : Request ServiceBody PodBody) :
    s.serve i (smoothHandle grace s i).1 (smoothHandle grace s i).2 := by
  cases i with
  | delete pod =>
    cases hcur : s.pods.find? pod.key with
    | none => simp [smoothHandle, hcur, Store.serve]
    | some cur =>
      have hkey : cur.key = pod.key := (Table.find?_eq_some.mp hcur).2
      simp only [smoothHandle, hcur, Store.serve]
      refine ⟨cur, rfl, ?_⟩
      cases hdel : cur.deletionTimestamp with
      | some t => exact Or.inl ⟨rfl, rfl⟩
      | none =>
        refine Or.inr ⟨rfl, ?_⟩
        cases grace cur.key with
        | none => exact Or.inl (congrArg s.erasePod hkey)
        | some t => exact Or.inr ⟨t, rfl⟩
  | get key => exact Store.serve_handle longSuffix s _
  | list ns selector => exact Store.serve_handle longSuffix s _
  | create pod => exact Store.serve_handle longSuffix s _
  | update w => exact Store.serve_handle longSuffix s _
  | updateOwner w => exact Store.serve_handle longSuffix s _
  | rand n => exact Store.serve_handle longSuffix s _

theorem succeeds_smoothHandle {s : Store} {i : Request ServiceBody PodBody}
    (h : Possible (fun suffix b => ∀ p ∈ b.pods, p.name.length < suffix.length) s i) :
    Succeeds i (smoothHandle grace s i).1 := by
  cases i with
  | get key =>
    obtain ⟨svc, hsvc⟩ := h
    simp [smoothHandle, Store.handle, hsvc, Succeeds]
  | list ns selector => trivial
  | create pod =>
    obtain ⟨base, suffix, hname, hlong⟩ := h
    have hfree : s.pods.find? pod.key = none := by
      rw [Table.find?_eq_none]
      intro p hp hkey
      have hlt := hlong p hp
      rw [(NamespacedName.mk.inj hkey).2, hname, String.length_append] at hlt
      omega
    simp [smoothHandle, Store.handle, hfree, Succeeds]
  | update w =>
    obtain ⟨cur, hcur, hv⟩ := h
    simp [smoothHandle, Store.handle, hcur, hv, Succeeds]
  | delete pod =>
    obtain ⟨cur, hcur⟩ := h
    simp [smoothHandle, hcur, Succeeds]
  | updateOwner w =>
    obtain ⟨cur, hcur, hv⟩ := h
    simp [smoothHandle, Store.handle, hcur, hv, Succeeds]
  | rand n => trivial

/-- Deletes are answered as `grace` says. -/
theorem deletes_smoothHandle {s : Store} {x cur : Pod} (hcur : s.pods.find? x.key = some cur)
    (hnone : cur.deletionTimestamp = none) :
    (smoothHandle grace s (.delete x)).2 = s.remove cur (grace cur.key) := by
  simp [smoothHandle, hcur, hnone]

theorem calm_smoothHandle : Calm (fun key g => g = grace key)
    (fun suffix b => ∀ p ∈ b.pods, p.name.length < suffix.length)
    (Program.served (smoothHandle grace)) := by
  constructor
  · intro a i o b ho
    have hserve := serve_smoothHandle grace a i
    rw [ho] at hserve
    exact hserve
  · intro a x o b ho cur hcur hnone
    have hdel := deletes_smoothHandle grace hcur hnone
    rw [ho] at hdel
    exact ⟨_, rfl, hdel⟩
  · intro a n suffix b ho p hp
    cases ho
    exact length_lt_longSuffix hp
  · intro a i o b ho hpossible
    have hsucc := succeeds_smoothHandle grace hpossible
    rw [ho] at hsucc
    exact hsucc

/-- For every stored Service there is a run in which every call succeeds. -/
theorem exists_smooth (r : ServiceReconciler) (hsvc : s₀.services.find? svc.key = some svc) :
    ∃ es err t, Program.Exec (smoothServe fun key g => g = grace key) (r.reconcile svc.key)
      s₀ es err t := by
  have hcalm := calm_smoothHandle grace
  have hexec := Program.exec_served (smoothHandle grace) (r.reconcile svc.key) s₀
  refine ⟨_, _, _, hexec.restrict (hcalm.wp_reconcile hsvc) ?_⟩
  intro a i o b ho hsucc
  refine ⟨hcalm.answers _ _ _ _ ho, hsucc, ?_⟩
  rintro x cur rfl hcur hnone
  exact hcalm.deletes _ _ _ _ ho cur hcur hnone

end Existence

end FrpProvisioner
