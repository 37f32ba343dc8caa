import Mathlib.Data.List.Perm.Basic
import FrpProvisioner.Controller.Sweeps

/-! Services are reconciled independently: one run for each Service of a list has the same
effect in every order of the list. Versions apart, what becomes of a stored object is decided by
one Service only, and new pods differ by what was drawn for them. -/
namespace FrpProvisioner
open Effect

variable {allows : NamespacedName → Option Time → Prop} {grace : NamespacedName → Option Time}
  {r : ServiceReconciler} {svc : Service} {svcs : List Service} {s t : Store}
  {err : Option GoError}

theorem Removed.unique {p : Pod} {o o' : Option Pod}
    (h : Removed (fun key g => g = grace key) p o)
    (h' : Removed (fun key g => g = grace key) p o') :
    o.map Object.content = o'.map Object.content := by
  unfold Removed at h h'
  split at h
  next t hdel =>
    rw [hdel] at h'
    exact h.trans h'.symm
  next hdel =>
    rw [hdel] at h'
    obtain ⟨g, rfl, h⟩ := h
    obtain ⟨g', rfl, h'⟩ := h'
    exact h.trans h'.symm

/-- Versions apart, one thing only can become of a pod. -/
theorem Fate.unique {p : Pod} {o o' : Option Pod} (h : Fate (fun key g => g = grace key) svc p o)
    (h' : Fate (fun key g => g = grace key) svc p o') :
    o.map Object.content = o'.map Object.content := by
  unfold Fate at h h'
  split at h
  next hsel =>
    rw [if_pos hsel] at h'
    split at h
    next hact =>
      rw [if_pos hact] at h'
      split at h
      next hclaim =>
        rw [hclaim] at h'
        exact h.trans h'.symm
      next q hclaim =>
        rw [hclaim] at h'
        dsimp only at h'
        split at h
        next hw =>
          rw [if_pos hw] at h'
          exact h.trans h'.symm
        next hw =>
          rw [if_neg hw] at h'
          exact h.unique h'
    next hact =>
      rw [if_neg hact] at h'
      exact h.unique h'
  next hsel =>
    rw [if_neg hsel] at h'
    rw [h, h']

theorem FateIn.unique {svcs' : List Service} {p : Pod} {o o' : Option Pod}
    (hmem : ∀ x, x ∈ svcs ↔ x ∈ svcs') (h : FateIn (fun key g => g = grace key) svcs p o)
    (h' : FateIn (fun key g => g = grace key) svcs' p o') :
    o.map Object.content = o'.map Object.content := by
  by_cases hsel : ∃ x ∈ svcs, selects x p = true
  · obtain ⟨x, hx, hsel⟩ := hsel
    exact (h.selected x hx hsel).unique (h'.selected x ((hmem x).mp hx) hsel)
  · have hnone : ∀ x ∈ svcs, selects x p = false := by
      intro x hx
      cases hxp : selects x p with
      | false => rfl
      | true => exact absurd ⟨x, hx, hxp⟩ hsel
    rw [h.untouched hnone, h'.untouched fun x hx => hnone x ((hmem x).mpr hx)]

theorem ServiceFateIn.unique {svcs' : List Service} {x : Service} {o o' : Option Service}
    (hmem : ∀ y, y ∈ svcs ↔ y ∈ svcs') (h : ServiceFateIn svcs x o)
    (h' : ServiceFateIn svcs' x o') : o.map Object.content = o'.map Object.content := by
  by_cases hkey : ∃ y ∈ svcs, x.key = y.key
  · obtain ⟨y, hy, hkey⟩ := hkey
    have hfate := h.listed y hy hkey
    have hfate' := h'.listed y ((hmem y).mp hy) hkey
    rw [ServiceFate, if_pos hkey] at hfate hfate'
    exact hfate.trans hfate'.symm
  · have hnone : ∀ y ∈ svcs, x.key ≠ y.key := fun y hy hxy => hkey ⟨y, hy, hxy⟩
    rw [h.untouched hnone, h'.untouched fun y hy => hnone y ((hmem y).mpr hy)]

theorem rel_of_map_content {β : Type} {o o' : Option (Object β)}
    (h : o.map Object.content = o'.map Object.content) :
    Option.Rel (fun x y => x.content = y.content) o o' := by
  cases o with
  | none =>
    cases o' with
    | none => exact .none
    | some y => cases h
  | some x =>
    cases o' with
    | none => cases h
    | some y => exact .some (Option.some.inj h)

/-- Two pods that are the same but for their versions, or that were both made for one of the
Services and differ in what the server gives a new pod and in the drawn suffix. -/
inductive SamePod (r : ServiceReconciler) (svcs : List Service) : Pod → Pod → Prop where
  | stored {p q : Pod} : p.content = q.content → SamePod r svcs p q
  | made {svc : Service} {suffix suffix' : String} {pod pod' : Pod} (a a' : Store)
      (uid uid' : String) : svc ∈ svcs → r.podFor svc suffix = .ok pod →
      r.podFor svc suffix' = .ok pod' → SamePod r svcs (a.created pod uid) (a'.created pod' uid')

/-- The same results, up to the name in the error for a pod that cannot be generated. -/
inductive SameResult (r : ServiceReconciler) (svc : Service) :
    Option GoError → Option GoError → Prop where
  | eq (err : Option GoError) : SameResult r svc err err
  | generate {suffix suffix' : String} {err err' : GoError} :
      r.podFor svc suffix = .error err → r.podFor svc suffix' = .error err' →
      SameResult r svc (some (ServiceReconciler.generateError err))
        (some (ServiceReconciler.generateError err'))

/-- The same stores, up to versions, drawn names and the order in which pods were made. -/
structure SameStore (r : ServiceReconciler) (svcs : List Service) (t t' : Store) : Prop where
  services : List.Forall₂ (fun x y => x.content = y.content) t.services.entries t'.services.entries
  pods : ∃ pods : List Pod, pods.Perm t.pods.entries ∧
    List.Forall₂ (SamePod r svcs) pods t'.pods.entries

/-- Two runs for a Service that read the same return the same and make the same pod. -/
theorem Makes.same {err' : Option GoError} {new new' : List Pod} (h : Makes r s svc err new)
    (h' : Makes r s svc err' new') (hsvc : svc ∈ svcs) :
    SameResult r svc err err' ∧ List.Forall₂ (SamePod r svcs) new new' := by
  cases h with
  | nothing hn =>
    cases h' with
    | nothing _ => exact ⟨.eq none, .nil⟩
    | failed hw hb _ => exact absurd ⟨hw, hb⟩ hn
    | pod _ _ hw hb _ => exact absurd ⟨hw, hb⟩ hn
  | failed hw hb hpod =>
    cases h' with
    | nothing hn => exact absurd ⟨hw, hb⟩ hn
    | failed _ _ hpod' => exact ⟨.generate hpod hpod', .nil⟩
    | pod _ _ _ _ hpod' =>
      obtain ⟨_, hok⟩ := ServiceReconciler.podFor_other hpod' _
      cases hpod.symm.trans hok
  | pod a uid hw hb hpod =>
    cases h' with
    | nothing hn => exact absurd ⟨hw, hb⟩ hn
    | failed _ _ hpod' =>
      obtain ⟨_, hok⟩ := ServiceReconciler.podFor_other hpod _
      cases hpod'.symm.trans hok
    | pod a' uid' _ _ hpod' =>
      exact ⟨.eq none, .cons (.made a a' uid uid' hsvc hpod hpod') .nil⟩

/-- The pods made by one run for each Service are the same in every order. -/
theorem Makes.same_flatten {results results' : List (Service × Option GoError)}
    {made made' : List (List Pod)}
    (hperm : (results.map Prod.fst).Perm (results'.map Prod.fst))
    (h : List.Forall₂ (fun x new => Makes r s x.1 x.2 new) results made)
    (h' : List.Forall₂ (fun x new => Makes r s x.1 x.2 new) results' made')
    (hsvcs : ∀ x ∈ results'.map Prod.fst, x ∈ svcs) :
    ∃ pods : List Pod, pods.Perm made.flatten ∧
      List.Forall₂ (SamePod r svcs) pods made'.flatten := by
  have hmade : List.Forall₂ (fun svc new => ∃ err, Makes r s svc err new)
      (results.map Prod.fst) made :=
    List.forall₂_map_left_iff.mpr (h.imp fun x _ hx => ⟨x.2, hx⟩)
  have hmade' : List.Forall₂ (fun svc new => ∃ err, Makes r s svc err new)
      (results'.map Prod.fst) made' :=
    List.forall₂_map_left_iff.mpr (h'.imp fun x _ hx => ⟨x.2, hx⟩)
  -- the pods of the first order, in the order of the second
  obtain ⟨moved, hmoved, hmovedPerm⟩ := List.perm_comp_forall₂ hperm.symm hmade
  refine ⟨moved.flatten, hmovedPerm.flatten, ?_⟩
  apply List.rel_flatten
  apply forall₂_of_common hmoved hmade'
  intro svc hsvc new new' hnew hnew'
  obtain ⟨err, hnew⟩ := hnew
  obtain ⟨err', hnew'⟩ := hnew'
  exact (hnew.same hnew' (hsvcs svc hsvc)).2

theorem EffectsIn.sameStore {svcs' : List Service} {t' : Store}
    {results results' : List (Service × Option GoError)} (hperm : svcs.Perm svcs')
    (h : EffectsIn (fun key g => g = grace key) r svcs s results t)
    (h' : EffectsIn (fun key g => g = grace key) r svcs' s results' t') :
    SameStore r svcs t t' := by
  have hmem : ∀ x, x ∈ svcs ↔ x ∈ svcs' := fun x => hperm.mem_iff
  constructor
  · obtain ⟨old, old', ht, ht', hold⟩ := h.services.forall₂ h'.services
      fun x _ o o' ho ho' => rel_of_map_content (ho.unique hmem ho')
    rw [ht, ht', List.append_nil, List.append_nil]
    exact hold
  · obtain ⟨made, hmade, hpods⟩ := h.pods
    obtain ⟨made', hmade', hpods'⟩ := h'.pods
    obtain ⟨old, old', ht, ht', hold⟩ := hpods.forall₂ hpods'
      fun p _ o o' ho ho' => rel_of_map_content (ho.unique hmem ho')
    have hlists : (results.map Prod.fst).Perm (results'.map Prod.fst) := by
      rw [h.results_eq, h'.results_eq]
      exact hperm
    have hsub : ∀ x ∈ results'.map Prod.fst, x ∈ svcs := by
      intro x hx
      rw [h'.results_eq] at hx
      exact (hmem x).mpr hx
    obtain ⟨pods, hp, hnew⟩ := Makes.same_flatten hlists hmade hmade' hsub
    refine ⟨old ++ pods, ?_, ?_⟩
    · rw [ht]
      exact hp.append_left old
    · rw [ht']
      exact List.rel_append (hold.imp fun _ _ hpq => .stored hpq) hnew

/-- A result comes with what the run has made. -/
theorem EffectsIn.makes {results : List (Service × Option GoError)}
    (h : EffectsIn allows r svcs s results t) (hmem : (svc, err) ∈ results) :
    ∃ new, Makes r s svc err new := by
  obtain ⟨made, hmade, -⟩ := h.pods
  have hall : List.Forall₂ (fun x (_ : List Pod) => (∃ new, Makes r s x.1 x.2 new) ∧ True)
      results made := hmade.imp fun x new hx => ⟨⟨new, hx⟩, trivial⟩
  exact ((List.forall₂_and_left results made).mp hall).1 (svc, err) hmem

/-- One run for each Service of a list gives the same store and the same results in every
order: what becomes of a pod or of a Service is decided by the run of one Service only, and that
run reads the same wherever it stands. -/
theorem reconciles_in_any_order (r : ServiceReconciler) (grace : NamespacedName → Option Time)
    (svcs svcs' : List Service) (s t t' : Store)
    (results results' : List (Service × Option GoError))
    (hd : Distinct svcs) (hs : Stored svcs s) (hperm : svcs.Perm svcs')
    (h : Reconciles r grace svcs s results t) (h' : Reconciles r grace svcs' s results' t') :
    SameStore r svcs t t' ∧
      (results.map Prod.fst = svcs ∧ results'.map Prod.fst = svcs' ∧
        ∀ svc err err', (svc, err) ∈ results → (svc, err') ∈ results' →
          SameResult r svc err err') ∧
      ∀ svc ∈ svcs, ∀ other ∈ svcs, svc ≠ other → ∀ (allows : NamespacedName → Option Time → Prop)
        (a b : Store) (es : List (Program.Event (Request ServiceBody PodBody) Response))
        (err : Option GoError), a.services.find? svc.key = some svc →
        Program.Exec (smoothServe allows) (r.reconcile svc.key) a es err b →
        SameReads other a b := by
  have hd' : Distinct svcs' := hperm.pairwise hd fun hab => ⟨hab.1.symm, hab.2.symm⟩
  have hs' : Stored svcs' s := fun svc hsvc => hs svc (hperm.mem_iff.mpr hsvc)
  have heffects := h.effects hd hs
  have heffects' := h'.effects hd' hs'
  refine ⟨heffects.sameStore hperm heffects', ⟨heffects.results_eq, heffects'.results_eq, ?_⟩, ?_⟩
  · intro svc err err' hmem hmem'
    obtain ⟨new, hnew⟩ := heffects.makes hmem
    obtain ⟨new', hnew'⟩ := heffects'.makes hmem'
    have hsvc : svc ∈ svcs := heffects.results_eq ▸ List.mem_map_of_mem hmem
    exact (hnew.same hnew' hsvc).1
  · intro svc hsvc other hother hne allows a b es err hstored hexec
    obtain ⟨huid, hkey⟩ := hd.of_ne hsvc hother hne
    exact (reconcile_effects hexec hstored).sameReads huid hkey

def apiService : Service := { newService with name := "api", uid := "svc-2" }

def twoServices : Store :=
  ⟨(Table.empty.upsert newService).upsert apiService, Table.empty, 1⟩

theorem reconciles_in_any_order_twoServices : ∃ results t results' t',
    Reconciles emptyTemplate (fun _ => none) [newService, apiService] twoServices results t ∧
    Reconciles emptyTemplate (fun _ => none) [apiService, newService] twoServices results' t' ∧
    SameStore emptyTemplate [newService, apiService] t t' := by
  have hd : Distinct [newService, apiService] := by
    simp [Distinct, newService, apiService, webService, Object.key]
  have hd' : Distinct [apiService, newService] := by
    simp [Distinct, newService, apiService, webService, Object.key]
  have hs : Stored [newService, apiService] twoServices := by
    unfold Stored
    decide
  have hs' : Stored [apiService, newService] twoServices := by
    unfold Stored
    decide
  obtain ⟨results, t, h⟩ := exists_reconciles emptyTemplate (fun _ => none) hd hs
  obtain ⟨results', t', h'⟩ := exists_reconciles emptyTemplate (fun _ => none) hd' hs'
  have hsame := reconciles_in_any_order emptyTemplate _ _ _ twoServices t t' results results' hd hs
    (List.Perm.swap apiService newService []) h h'
  exact ⟨results, t, results', t', h, h', hsame.1⟩

end FrpProvisioner
