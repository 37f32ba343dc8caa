import FrpProvisioner.Controller.Claiming
import FrpProvisioner.Controller.ServiceReconciler

/-! One rule for each part of the Service reconciler, over any server and any state: which
requests it makes from which assertion, and what is left of it for each answer. -/
namespace FrpProvisioner
open Effect
variable {σ : Type} {R : σ → σ → Prop} {s : σ}
  {serve G : Server (Request ServiceBody PodBody) Response σ} {Q : Option GoError → σ → Prop}

/-- No error is collected as long as every delete succeeds or does not find its pod. -/
theorem collect_eq_nil {wrapErr : GoError → GoError} {errsList : List GoError}
    {o : Except GoError Unit} (h : collect wrapErr errsList o = []) :
    errsList = [] ∧ ∀ err, o = .error err → err.isNotFound = true := by
  cases o with
  | ok u => exact ⟨h, fun _ he => by cases he⟩
  | error err =>
    unfold collect at h
    dsimp only at h
    split at h
    next hnf =>
      refine ⟨h, fun _ he => ?_⟩
      cases he
      exact hnf
    next => simp at h

theorem wp_deletePods {wrapErr : GoError → GoError} {pods : List Pod}
    (I : List Pod → List GoError → σ → Prop) (h0 : I [] [] s)
    (hR : ∀ done errs s s', I done errs s → R s s' → I done errs s')
    (hstep : ∀ done x rest errs s, pods = done ++ x :: rest → I done errs s →
      ∀ o s', serve s (.delete x) o s' →
        G s (.delete x) o s' ∧ I (done ++ [x]) (collect wrapErr errs o) s') :
    (deletePods wrapErr pods).wp R serve G (I pods) s := by
  refine Program.wp_foldlM I h0 fun done x rest errs s hl hI => ?_
  exact Program.wp_call_bind (I done errs) hI (hR done errs) fun s hI o s' ho =>
    hstep done x rest errs s hl hI o s' ho

def generatedName (base suffix : String) : String :=
  if base.utf8ByteSize > maxGeneratedNameLength then
    String.ofList (takeBytes maxGeneratedNameLength base.toList) ++ suffix
  else base ++ suffix

theorem wp_generateName {base : String} {P : String → σ → Prop} (A : σ → Prop)
    (B : String → σ → Prop) (hA : A s) (hR : ∀ s s', A s → R s s' → A s')
    (hrand : ∀ s, A s → ∀ suffix s', serve s (.rand randomLength) suffix s' →
      G s (.rand randomLength) suffix s' ∧ B suffix s')
    (hB : ∀ suffix s, B suffix s → P (generatedName base suffix) s) :
    (generateName base).wp R serve G P s := by
  refine Program.wp_call_bind A hA hR fun s hA suffix s' ho => ?_
  obtain ⟨hG, hs'⟩ := hrand s hA suffix s' ho
  refine ⟨hG, ?_⟩
  have hP := hB suffix s' hs'
  unfold generatedName at hP
  split
  next h =>
    rw [if_pos h] at hP
    exact hP
  next h =>
    rw [if_neg h] at hP
    exact hP

namespace ServiceReconciler
variable {r : ServiceReconciler} {req : NamespacedName} {svc : Service}

def podFor (r : ServiceReconciler) (owner : Service) (suffix : String) : Except GoError Pod :=
  match r.unmarshal r.podTemplate with
  | .error err =>
    .error (.wrap ("unable parse yaml from pod template, err: " ++ err.error) err)
  | .ok template =>
    templatePod owner template (generatedName
      ((if template.name ≠ "" then template.name else defaultBaseName) ++ "-" ++ owner.name) suffix)

theorem podFor_ok {owner : Service} {suffix : String} {pod : Pod}
    (h : r.podFor owner suffix = .ok pod) : ∃ template name,
      r.unmarshal r.podTemplate = .ok template ∧ templatePod owner template name = .ok pod := by
  unfold podFor at h
  split at h
  · cases h
  next template htemplate => exact ⟨template, _, htemplate, h⟩

/-- Whether a pod can be generated does not depend on the suffix. -/
theorem podFor_other {owner : Service} {suffix : String} {pod : Pod}
    (h : r.podFor owner suffix = .ok pod) (other : String) :
    ∃ pod', r.podFor owner other = .ok pod' := by
  unfold podFor at h ⊢
  split at h
  · cases h
  next template _ =>
    unfold templatePod at h ⊢
    dsimp only at h ⊢
    split at h
    · cases h
    next result hset =>
      obtain ⟨result', hset'⟩ := setControllerReference_rename
        (generatedName ((if template.name ≠ "" then template.name else defaultBaseName) ++ "-" ++
          owner.name) other) hset
      rw [hset']
      exact ⟨_, rfl⟩

def generateError (err : GoError) : GoError :=
  .wrap ("unable generate pod from podTemplate, err: " ++ err.error) err

/-- The suffix is drawn when the template can be decoded; `B` holds of it afterwards. -/
theorem wp_createPod_drawn (A : σ → Prop) (B : String → σ → Prop) (hA : A s)
    (hAR : ∀ s s', A s → R s s' → A s') (hBR : ∀ x s s', B x s → R s s' → B x s')
    (hrand : ∀ s, A s → ∀ suffix s', serve s (.rand randomLength) suffix s' →
      G s (.rand randomLength) suffix s' ∧ B suffix s')
    (hdecode : ∀ err, (∀ suffix, r.podFor svc suffix = .error err) →
      Q (some (generateError err)) s)
    (herr : ∀ suffix err s, B suffix s → r.podFor svc suffix = .error err →
      Q (some (generateError err)) s)
    (hcreate : ∀ suffix pod, r.podFor svc suffix = .ok pod → ∀ s, B suffix s → ∀ o s',
      serve s (.create pod) o s' → G s (.create pod) o s' ∧
        (∀ stored, o = .ok stored → Q none s') ∧ ∀ err err', o = .error err → Q (some err') s') :
    (r.createPod svc).wp R serve G Q s := by
  have hgen : (r.generatePod svc).wp R serve G (fun p s =>
      (∃ suffix, B suffix s ∧ p = r.podFor svc suffix) ∨
        ∃ err, p = .error err ∧ Q (some (generateError err)) s) s := by
    unfold generatePod
    split
    next err hdec =>
      refine Or.inr ⟨_, rfl, hdecode _ fun suffix => ?_⟩
      simp only [podFor, hdec]
    next template hdec =>
      refine Program.wp_seq (wp_generateName A B (P := fun name s => ∃ suffix, B suffix s ∧
        name = generatedName _ suffix) hA hAR hrand fun suffix s hB => ⟨suffix, hB, rfl⟩) ?_
      rintro _ s ⟨suffix, hB, rfl⟩
      refine Or.inl ⟨suffix, hB, ?_⟩
      simp only [podFor, hdec]
  refine Program.wp_seq hgen fun p s hp => ?_
  rcases hp with ⟨suffix, hB, rfl⟩ | ⟨err, rfl, hQ⟩
  · cases hpod : r.podFor svc suffix with
    | error err => exact herr suffix err s hB hpod
    | ok pod =>
      refine Program.wp_call_bind (B suffix) hB (hBR suffix) fun s hB o s' ho => ?_
      obtain ⟨hG, hok, hfail⟩ := hcreate suffix pod hpod s hB o s' ho
      refine ⟨hG, ?_⟩
      cases o with
      | error err => exact hfail err _ rfl
      | ok stored => exact hok stored rfl
  · exact hQ

theorem wp_createPod (A : σ → Prop) (hA : A s) (hR : ∀ s s', A s → R s s' → A s')
    (herr : ∀ err s, A s → Q (some err) s)
    (hrand : ∀ s, A s → ∀ o s', serve s (.rand randomLength) o s' →
      G s (.rand randomLength) o s' ∧ A s')
    (hcreate : ∀ template name pod, r.unmarshal r.podTemplate = .ok template →
      templatePod svc template name = .ok pod → ∀ s, A s → ∀ o s', serve s (.create pod) o s' →
      G s (.create pod) o s' ∧ (∀ stored, o = .ok stored → Q none s') ∧
        ∀ err err', o = .error err → Q (some err') s') :
    (r.createPod svc).wp R serve G Q s := by
  refine wp_createPod_drawn A (fun _ => A) hA hR (fun _ => hR) hrand (fun err _ => herr _ s hA)
    (fun _ err s hA _ => herr _ s hA) fun suffix pod hpod s hA o s' ho => ?_
  obtain ⟨template, name, htemplate, hname⟩ := podFor_ok hpod
  exact hcreate template name pod htemplate hname s hA o s' ho

theorem wp_provide {claimedPods : List Pod} (A : σ → Prop) (hA : A s)
    (hR : ∀ s s', A s → R s s' → A s')
    (hadd : finalizerName ∉ svc.finalizers → ∀ s, A s → ∀ o s',
      serve s (.updateOwner { svc with finalizers := svc.finalizers ++ [finalizerName] }) o s' →
      G s (.updateOwner { svc with finalizers := svc.finalizers ++ [finalizerName] }) o s' ∧
        (∀ stored, o = .ok stored → claimedPods = [] → (r.createPod stored).wp R serve G Q s') ∧
        (∀ stored, o = .ok stored → claimedPods ≠ [] → Q none s') ∧
        ∀ err err', o = .error err → Q (some err') s')
    (hcreate : finalizerName ∈ svc.finalizers → claimedPods = [] →
      (r.createPod svc).wp R serve G Q s)
    (hdone : finalizerName ∈ svc.finalizers → claimedPods ≠ [] → Q none s) :
    (r.provide req svc claimedPods).wp R serve G Q s := by
  unfold provide addFinalizer
  by_cases hf : finalizerName ∈ svc.finalizers
  · simp only [hf, ↓reduceIte, pure_bind, List.length_eq_zero_iff]
    split
    · exact hcreate hf ‹_›
    · exact hdone hf ‹_›
  · simp only [hf, ↓reduceIte, bind_assoc]
    refine Program.wp_call_bind A hA hR fun s hA o s' ho => ?_
    obtain ⟨hG, hc, hd, herr⟩ := hadd hf s hA o s' ho
    refine ⟨hG, ?_⟩
    cases o with
    | error err => exact herr err _ rfl
    | ok stored =>
      simp only [pure_bind, List.length_eq_zero_iff]
      split
      · exact hc stored rfl ‹_›
      · exact hd stored rfl ‹_›

/-- The deletes of the claimed pods come first; the finalizer goes in any case. -/
theorem wp_cleanUp {claimedPods : List Pod} (I : List Pod → List GoError → σ → Prop)
    (h0 : I [] [] s) (hR : ∀ done errs s s', I done errs s → R s s' → I done errs s')
    (hdelete : ∀ wrapErr done x rest errs s, claimedPods = done ++ x :: rest → I done errs s →
      ∀ o s', serve s (.delete x) o s' →
        G s (.delete x) o s' ∧ I (done ++ [x]) (collect wrapErr errs o) s')
    (hupdate : ∀ errs s, I claimedPods errs s → ∀ o s',
      serve s (.updateOwner { svc with finalizers := withoutFinalizer svc.finalizers }) o s' →
      G s (.updateOwner { svc with finalizers := withoutFinalizer svc.finalizers }) o s' ∧
        (∀ stored, o = .ok stored → Q (newAggregate (errs.map some)) s') ∧
        ∀ err err', o = .error err → Q (some err') s') :
    (cleanUp req svc claimedPods).wp R serve G Q s := by
  refine Program.wp_seq (wp_deletePods I h0 hR (hdelete _)) fun errs s hI => ?_
  refine Program.wp_call_bind (I claimedPods errs) hI (hR claimedPods errs)
    fun s hI o s' ho => ?_
  obtain ⟨hG, hok, herr⟩ := hupdate errs s hI o s' ho
  refine ⟨hG, ?_⟩
  cases o with
  | error err =>
    dsimp only
    rw [newAggregate_map_some (by simp)]
    exact herr err _ rfl
  | ok stored => exact hok stored rfl

theorem wp_converge {claimedPods inactivePods : List Pod}
    (I : List Pod → List GoError → σ → Prop) (h0 : I [] [] s)
    (hR : ∀ done errs s s', I done errs s → R s s' → I done errs s')
    (hdelete : ∀ done x rest errs s, inactivePods = done ++ x :: rest → I done errs s →
      ∀ o s', serve s (.delete x) o s' →
        G s (.delete x) o s' ∧ I (done ++ [x]) (collect id errs o) s')
    (herr : ∀ errs s err, I inactivePods errs s → errs ≠ [] → Q (some err) s)
    (hprovide : ∀ s, I inactivePods [] s → isWanted svc = true →
      (r.provide req svc claimedPods).wp R serve G Q s)
    (hcleanUp : ∀ s, I inactivePods [] s → isWanted svc = false →
      (cleanUp req svc claimedPods).wp R serve G Q s) :
    (r.converge req svc claimedPods inactivePods).wp R serve G Q s := by
  refine Program.wp_seq (wp_deletePods I h0 hR hdelete) fun errs s hI => ?_
  cases errs with
  | cons e es =>
    rw [newAggregate_map_some (by simp)]
    exact herr _ s _ hI (by simp)
  | nil =>
    simp only [List.length_nil, ne_eq, not_true_eq_false, ↓reduceIte]
    split
    next hw => exact hprovide s hI hw
    next hw => exact hcleanUp s hI (Bool.eq_false_iff.mpr hw)

theorem wp_settle_cases {activePods inactivePods : List Pod}
    (I : List Pod → RefManager.ClaimState PodBody → σ → Prop) (h0 : I [] ⟨[], [], none⟩ s)
    (hstep : ∀ done x rest st s, activePods = done ++ x :: rest → I done st s →
      ∃ A V, A s ∧ (refManager svc).ClaimCases ((refManager svc).matching []) R serve G st.once x
        A V fun c s' => I (done ++ [x]) (st.add c) s')
    (herr : ∀ st s err, I activePods st s → st.errList ≠ [] → Q (some err) s)
    (hok : ∀ st s, I activePods st s → st.errList = [] →
      (r.converge req svc st.claimObjs inactivePods).wp R serve G Q s) :
    (r.settle req svc activePods inactivePods).wp R serve G Q s := by
  unfold settle claimPods
  rw [bind_assoc]
  refine Program.wp_seq (RefManager.wp_claimOwnedObjects_cases I h0 hstep) fun res s hres => ?_
  obtain ⟨st, hI, rfl⟩ := hres
  cases h : newAggregate (st.errList.map some) with
  | some err =>
    refine herr st s err hI fun hnil => ?_
    simp [hnil, newAggregate, List.reduceOption] at h
  | none =>
    refine hok st s hI (not_not.mp fun hne => ?_)
    rw [newAggregate_map_some hne] at h
    cases h

theorem wp_settle {activePods inactivePods : List Pod}
    (I : List Pod → RefManager.ClaimState PodBody → σ → Prop) (h0 : I [] ⟨[], [], none⟩ s)
    (hstep : ∀ done x rest st s, activePods = done ++ x :: rest → I done st s →
      ∃ A V, A s ∧ (refManager svc).ClaimSpec ((refManager svc).matching []) R serve G st.once x
        A V fun c s' => I (done ++ [x]) (st.add c) s')
    (herr : ∀ st s err, I activePods st s → st.errList ≠ [] → Q (some err) s)
    (hok : ∀ st s, I activePods st s → st.errList = [] →
      (r.converge req svc st.claimObjs inactivePods).wp R serve G Q s) :
    (r.settle req svc activePods inactivePods).wp R serve G Q s := by
  refine wp_settle_cases I h0 (fun done x rest st s hl hI => ?_) herr hok
  obtain ⟨A, V, hA, hspec⟩ := hstep done x rest st s hl hI
  exact ⟨A, V, hA, hspec.toClaimCases⟩

theorem wp_reconcile (A : σ → Prop) (B : Service → σ → Prop) (hA : A s)
    (hAR : ∀ s s', A s → R s s' → A s') (hBR : ∀ svc s s', B svc s → R s s' → B svc s')
    (hget : ∀ s, A s → ∀ o s', serve s (.get req) o s' →
      G s (.get req) o s' ∧ (∀ svc, o = .ok svc → B svc s') ∧
        ∀ err, o = .error err → Q (if err.isNotFound then none else some err) s')
    (hlist : ∀ svc s, B svc s → ∀ o s', serve s (.list svc.ns (podSelector svc)) o s' →
      G s (.list svc.ns (podSelector svc)) o s' ∧
        (∀ items, o = .ok items → (r.settle req svc (items.filter isPodActive)
          (items.filter (!isPodActive ·))).wp R serve G Q s') ∧
        ∀ err, o = .error err → Q (some err) s') :
    (r.reconcile req).wp R serve G Q s := by
  refine Program.wp_call_bind A hA hAR fun s hA o s' ho => ?_
  obtain ⟨hG, hok, herr⟩ := hget s hA o s' ho
  refine ⟨hG, ?_⟩
  cases o with
  | error err =>
    have h := herr err rfl
    dsimp only
    split <;> simp_all [Program.wp_pure]
  | ok svc =>
    have hB := hok svc rfl
    dsimp only
    unfold getOwnedPods
    rw [bind_assoc]
    refine Program.wp_call_bind (B svc) hB (hBR svc) fun s hB o s' ho => ?_
    obtain ⟨hG, hok, herr⟩ := hlist svc s hB o s' ho
    refine ⟨hG, ?_⟩
    cases o with
    | error err => exact herr err rfl
    | ok items => exact hok items rfl

end ServiceReconciler
end FrpProvisioner
