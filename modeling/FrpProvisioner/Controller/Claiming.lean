import FrpProvisioner.Controller.RefManager

/-! What a claim can write and return. Every write of a manager is one of two shapes, an
adoption or a release of the copy it was given; the lemmas below are the only place where
the code of `claimObject` is taken apart. -/
namespace FrpProvisioner
open Effect
namespace RefManager
variable {ω β σ : Type} (mgr : RefManager ω) (isMatch : Object β → Bool)

structure Adoptable (obj : Object β) : Prop where
  orphan : getControllerOf obj = none
  ownerAlive : mgr.owner.deletionTimestamp = none
  isMatch : isMatch obj = true
  objAlive : obj.deletionTimestamp = none

structure Adopts (obj w : Object β) : Prop extends mgr.Adoptable isMatch obj where
  write : setControllerReference mgr.owner mgr.schema.objectKinds obj = .ok w

structure Releases (obj w : Object β) : Prop where
  controlled : ControlledBy mgr.owner.uid obj
  noMatch : isMatch obj = false
  ownerAlive : mgr.owner.deletionTimestamp = none
  write : ∃ idx, obj.ownerReferences.findIdx? (·.uid = mgr.owner.uid) = some idx ∧
    w = { obj with ownerReferences := obj.ownerReferences.eraseIdx idx }

section Writes
variable {mgr isMatch} {obj w : Object β}

theorem Adopts.key_eq (h : mgr.Adopts isMatch obj w) : w.key = obj.key := by
  obtain ⟨g, -, -, rfl⟩ := setControllerReference_ok h.write
  rfl

theorem Adopts.version_eq (h : mgr.Adopts isMatch obj w) :
    w.resourceVersion = obj.resourceVersion := by
  obtain ⟨g, -, -, rfl⟩ := setControllerReference_ok h.write
  rfl

theorem Adopts.not_controller (h : mgr.Adopts isMatch obj w) {r : OwnerReference}
    (hr : r ∈ obj.ownerReferences) : r.isController = false := by
  simpa using List.find?_eq_none.mp h.orphan r hr

/-- An orphan has no controller reference, and an adoption adds at most one. -/
theorem Adopts.atMostOne (h : mgr.Adopts isMatch obj w) : AtMostOneController w := by
  obtain ⟨g, -, -, rfl⟩ := setControllerReference_ok h.write
  have hzero : obj.ownerReferences.countP OwnerReference.isController = 0 :=
    List.countP_eq_zero.mpr fun r hr => by simp [h.not_controller hr]
  have hle := @countP_upsertOwnerRef_le (newControllerRef mgr.owner g) obj.ownerReferences
    OwnerReference.isController
  show (upsertOwnerRef _ _).countP _ ≤ 1
  omega

theorem Releases.key_eq (h : mgr.Releases isMatch obj w) : w.key = obj.key := by
  obtain ⟨idx, -, rfl⟩ := h.write
  rfl

theorem Releases.version_eq (h : mgr.Releases isMatch obj w) :
    w.resourceVersion = obj.resourceVersion := by
  obtain ⟨idx, -, rfl⟩ := h.write
  rfl

theorem Releases.atMostOne (h : mgr.Releases isMatch obj w) (hobj : AtMostOneController obj) :
    AtMostOneController w := by
  obtain ⟨idx, -, rfl⟩ := h.write
  have hle := (List.eraseIdx_sublist obj.ownerReferences idx).countP_le
    (p := OwnerReference.isController)
  exact Nat.le_trans hle hobj

/-- A release takes away a reference to the owner and no other. -/
theorem Releases.uid_of_removed (h : mgr.Releases isMatch obj w) {r : OwnerReference}
    (hr : r ∈ obj.ownerReferences) (hw : r ∉ w.ownerReferences) : r.uid = mgr.owner.uid := by
  obtain ⟨idx, hidx, rfl⟩ := h.write
  obtain ⟨i, hi⟩ := List.mem_iff_getElem?.mp hr
  have hii : i = idx := by
    by_contra hne
    exact hw (List.mem_eraseIdx_iff_getElem?.mpr ⟨i, hne, hi⟩)
  obtain ⟨hlt, huid, -⟩ := List.findIdx?_eq_some_iff_getElem.mp hidx
  obtain ⟨hlt', hget⟩ := List.getElem?_eq_some_iff.mp hi
  subst hii
  rw [hget] at huid
  simpa using huid

end Writes

/-- One claim, from the assertion `A` to the postcondition `P`. `V` holds of the verdict on
adoption once it is known; the other fields are the ways a claim can end. -/
structure ClaimCases (R : σ → σ → Prop) (serve G : Server (Request ω β) Response σ)
    (once : Once) (obj : Object β) (A : σ → Prop) (V : Option GoError → σ → Prop)
    (P : Claim β → σ → Prop) : Prop where
  stable : ∀ s s', A s → R s s' → A s'
  stableVerdict : ∀ v s s', V v s → R s s' → V v s'
  known : ∀ v s, once = some v → A s → V v s
  kinds : ∀ err s, once = none → mgr.schema.objectKinds = .error err → A s → V (some err) s
  get : ∀ g s, once = none → mgr.schema.objectKinds = .ok g → A s → ∀ o s',
    serve s (.get ⟨mgr.owner.ns, mgr.owner.name⟩) o s' →
    G s (.get ⟨mgr.owner.ns, mgr.owner.name⟩) o s' ∧ V (mgr.verdict o) s'
  keep : ControlledBy mgr.owner.uid obj → isMatch obj = true → ∀ s, A s →
    P ⟨obj, true, none, once⟩ s
  idle : ¬ (ControlledBy mgr.owner.uid obj ∧ isMatch obj = true) → ¬ mgr.Adoptable isMatch obj →
    (∀ w, ¬ mgr.Releases isMatch obj w) → ∀ s, A s → P ⟨obj, false, none, once⟩ s
  refuse : mgr.Adoptable isMatch obj → ∀ err s, V (some err) s →
    P ⟨obj, false, some (cannotAdopt obj err), some (some err)⟩ s
  unset : mgr.Adoptable isMatch obj → ∀ err s, V none s →
    setControllerReference mgr.owner mgr.schema.objectKinds obj = .error err →
    P ⟨obj, false, some (cannotSet obj err), some none⟩ s
  adopt : ∀ w, mgr.Adopts isMatch obj w → ∀ s, V none s → ∀ o s', serve s (.update w) o s' →
    G s (.update w) o s' ∧
      (∀ stored, o = .ok stored → P ⟨stored, true, none, some none⟩ s') ∧
      (∀ err, o = .error err → P ⟨w, false, some (cannotUpdate obj err), some none⟩ s')
  release : ∀ w, mgr.Releases isMatch obj w → ∀ s, A s → ∀ o s', serve s (.update w) o s' →
    G s (.update w) o s' ∧
      (∀ stored, o = .ok stored → P ⟨obj, false, none, once⟩ s') ∧
      (∀ err, o = .error err → P ⟨obj, false, some (mgr.cannotRemove obj err), once⟩ s')

/-- The cases of a claim for postconditions that hold of every object that is not claimed. -/
structure ClaimSpec (R : σ → σ → Prop) (serve G : Server (Request ω β) Response σ)
    (once : Once) (obj : Object β) (A : σ → Prop) (V : Option GoError → σ → Prop)
    (P : Claim β → σ → Prop) : Prop extends
    mgr.ClaimCases isMatch R serve G once obj A V P where
  skip : ¬ (ControlledBy mgr.owner.uid obj ∧ isMatch obj = true) → ∀ s, A s →
    P ⟨obj, false, none, once⟩ s
  idle := fun hno _ _ => skip hno

variable {mgr isMatch} {R : σ → σ → Prop} {serve G : Server (Request ω β) Response σ} {s : σ}
  {once : Once} {obj : Object β} {A : σ → Prop} {V : Option GoError → σ → Prop}
  {P : Claim β → σ → Prop}

private theorem wp_canAdoptOnce (h : mgr.ClaimCases isMatch R serve G once obj A V P) (hA : A s) :
    (mgr.canAdoptOnce once : Api ω β _).wp R serve G
      (fun r s => V r.1 s ∧ r.2 = some r.1) s := by
  cases once with
  | some v => exact ⟨h.known v s rfl hA, rfl⟩
  | none =>
    refine Program.wp_seq (P := V) ?_ fun v s hV => ⟨hV, rfl⟩
    unfold canAdopt getOwner
    cases hk : mgr.schema.objectKinds with
    | error err => exact h.kinds err s rfl hk hA
    | ok gvk =>
      exact Program.wp_call_bind A hA h.stable fun s hA o s' ho => h.get gvk s rfl hk hA o s' ho

/-- The controller is one of the references, so that there is something to release. -/
theorem exists_findIdx_of_controlledBy {uid : String} (h : ControlledBy uid obj) :
    ∃ idx, obj.ownerReferences.findIdx? (·.uid = uid) = some idx := by
  obtain ⟨r, hr, huid⟩ := Option.map_eq_some_iff.mp h
  have hmem : r ∈ obj.ownerReferences := List.mem_of_find?_eq_some hr
  cases hidx : obj.ownerReferences.findIdx? (·.uid = uid) with
  | some idx => exact ⟨idx, rfl⟩
  | none => simpa [huid] using List.findIdx?_eq_none_iff.mp hidx r hmem

/-- The errors of a release are texts, so that none of them is NotFound. -/
private theorem wp_release (h : mgr.ClaimCases isMatch R serve G once obj A V P)
    (hc : ControlledBy mgr.owner.uid obj) (hm : isMatch obj = false)
    (hdel : mgr.owner.deletionTimestamp = none) (hA : A s) :
    (mgr.release obj : Api ω β _).wp R serve G
      (fun err s => P ⟨obj, false, err, once⟩ s ∧ ∀ e ∈ err, e.isNotFound = false) s := by
  obtain ⟨idx, hidx⟩ := exists_findIdx_of_controlledBy hc
  have hrel : mgr.Releases isMatch obj
      { obj with ownerReferences := obj.ownerReferences.eraseIdx idx } :=
    ⟨hc, hm, hdel, idx, hidx, rfl⟩
  unfold release
  rw [hidx]
  refine Program.wp_call_bind A hA h.stable fun s hA o s' ho => ?_
  obtain ⟨hG, hok, herr⟩ := h.release _ hrel s hA o s' ho
  refine ⟨hG, ?_⟩
  cases o with
  | error e => exact ⟨herr e rfl, by simp [cannotRemove]⟩
  | ok stored => exact ⟨hok stored rfl, by simp⟩

private theorem wp_adopt (h : mgr.ClaimCases isMatch R serve G once obj A V P)
    (had : mgr.Adoptable isMatch obj) (hA : A s) :
    (mgr.adopt once obj : Api ω β _).wp R serve G
      (fun r s => P ⟨r.1, r.2.1.isNone, r.2.1, r.2.2⟩ s ∧ ∀ e ∈ r.2.1, e.isNotFound = false)
      s := by
  unfold adopt
  refine Program.wp_seq (wp_canAdoptOnce h hA) fun v s hV => ?_
  obtain ⟨v, once'⟩ := v
  obtain ⟨hV, rfl⟩ : V v s ∧ once' = some v := hV
  cases v with
  | some err => exact ⟨h.refuse had err s hV, by simp [cannotAdopt]⟩
  | none =>
    dsimp only
    cases hw : setControllerReference mgr.owner mgr.schema.objectKinds obj with
    | error err => exact ⟨h.unset had err s hV hw, by simp [cannotSet]⟩
    | ok w =>
      refine Program.wp_call_bind (V none) hV (h.stableVerdict none) fun s hV o s' ho => ?_
      obtain ⟨hG, hok, herr⟩ := h.adopt w ⟨had, hw⟩ s hV o s' ho
      refine ⟨hG, ?_⟩
      cases o with
      | error e => exact ⟨herr e rfl, by simp [cannotUpdate]⟩
      | ok stored => exact ⟨hok stored rfl, by simp⟩

theorem ClaimCases.wp_claimObject (h : mgr.ClaimCases isMatch R serve G once obj A V P)
    (hA : A s) : (mgr.claimObject isMatch once obj).wp R serve G P s := by
  unfold claimObject
  split
  next r hr =>
    have hno : ¬ mgr.Adoptable isMatch obj := by
      intro had
      cases hr.symm.trans had.orphan
    split
    next hne =>
      -- owned by someone else
      have hc : ¬ ControlledBy mgr.owner.uid obj := by simpa [ControlledBy, hr] using hne
      exact h.idle (fun h => hc h.1) hno (fun w hw => hc hw.controlled) s hA
    next hu =>
      have hc : ControlledBy mgr.owner.uid obj := by simpa [ControlledBy, hr] using hu
      split
      next hm => exact h.keep hc hm s hA
      next hm =>
        split
        next hdel =>
          refine h.idle (fun hc => hm hc.2) hno (fun w hw => ?_) s hA
          simp [hw.ownerAlive] at hdel
        next hdel =>
          have hrel := wp_release h hc (by simpa using hm) (by simpa using hdel) hA
          refine Program.wp_seq hrel fun err s hP => ?_
          cases err with
          | none => exact hP.1
          | some err =>
            have hfound : err.isNotFound = false := hP.2 err rfl
            simp only [hfound, Bool.false_eq_true, ↓reduceIte]
            exact hP.1
  next hr =>
    have hc : ¬ ControlledBy mgr.owner.uid obj := by simp [ControlledBy, hr]
    have hidle : ¬ mgr.Adoptable isMatch obj → P ⟨obj, false, none, once⟩ s := fun hno =>
      h.idle (fun h => hc h.1) hno (fun w hw => hc hw.controlled) s hA
    split
    next hm =>
      refine hidle fun had => ?_
      simp [had.ownerAlive, had.isMatch] at hm
    next hm =>
      simp only [Bool.or_eq_true, Bool.not_eq_true', not_or, Bool.not_eq_false,
        Bool.not_eq_true, Option.isSome_eq_false_iff, Option.isNone_iff_eq_none] at hm
      split
      next hdel =>
        refine hidle fun had => ?_
        simp [had.objAlive] at hdel
      next hdel =>
        have had : mgr.Adoptable isMatch obj := ⟨hr, hm.1, hm.2, by simpa using hdel⟩
        refine Program.wp_seq (wp_adopt h had hA) fun r s hP => ?_
        obtain ⟨adopted, err, once'⟩ := r
        cases err with
        | none => exact hP.1
        | some err =>
          have hfound : err.isNotFound = false := hP.2 err rfl
          simp only [hfound, Bool.false_eq_true, ↓reduceIte]
          exact hP.1

/-- The specification of a claim for assertions that do not look at verdicts and errors. -/
theorem ClaimSpec.of_assertion (stable : ∀ s s', A s → R s s' → A s')
    (get : ∀ s, A s → ∀ o s', serve s (.get ⟨mgr.owner.ns, mgr.owner.name⟩) o s' →
      G s (.get ⟨mgr.owner.ns, mgr.owner.name⟩) o s' ∧ A s')
    (keep : ControlledBy mgr.owner.uid obj → isMatch obj = true → ∀ s, A s →
      P ⟨obj, true, none, once⟩ s)
    (skip : ¬ (ControlledBy mgr.owner.uid obj ∧ isMatch obj = true) → ∀ s obj' err once, A s →
      P ⟨obj', false, err, once⟩ s)
    (adopt : ∀ w, mgr.Adopts isMatch obj w → ∀ s, A s → ∀ o s', serve s (.update w) o s' →
      G s (.update w) o s' ∧ (∀ stored, o = .ok stored → P ⟨stored, true, none, some none⟩ s') ∧
        ∀ e obj' err once, o = .error e → P ⟨obj', false, err, once⟩ s')
    (release : ∀ w, mgr.Releases isMatch obj w → ∀ s, A s → ∀ o s', serve s (.update w) o s' →
      G s (.update w) o s' ∧ ∀ obj' err once, P ⟨obj', false, err, once⟩ s') :
    mgr.ClaimSpec isMatch R serve G once obj A (fun _ => A) P where
  stable := stable
  stableVerdict _ := stable
  known _ _ _ hA := hA
  kinds _ _ _ _ hA := hA
  get _ s _ _ hA := get s hA
  keep := keep
  skip hno s hA := skip hno s _ _ _ hA
  refuse had _ s hA := skip (by simp [ControlledBy, had.orphan]) s _ _ _ hA
  unset had _ s hA _ := skip (by simp [ControlledBy, had.orphan]) s _ _ _ hA
  adopt w hw s hA o s' ho := by
    obtain ⟨hG, hok, herr⟩ := adopt w hw s hA o s' ho
    exact ⟨hG, hok, fun err he => herr err _ _ _ he⟩
  release w hw s hA o s' ho := by
    obtain ⟨hG, hP⟩ := release w hw s hA o s' ho
    exact ⟨hG, fun _ _ => hP _ _ _, fun _ _ => hP _ _ _⟩

@[simp] theorem claimObjs_add_unclaimed (st : ClaimState β) (obj : Object β)
    (err : Option GoError) (once : Once) :
    (st.add ⟨obj, false, err, once⟩).claimObjs = st.claimObjs := by
  cases err <;> rfl

/-- The specification of a claim for assertions about the list of claimed objects. -/
theorem ClaimSpec.of_collected {st : ClaimState β} {P : List (Object β) → σ → Prop}
    (stable : ∀ s s', A s → R s s' → A s')
    (get : ∀ s, A s → ∀ o s', serve s (.get ⟨mgr.owner.ns, mgr.owner.name⟩) o s' →
      G s (.get ⟨mgr.owner.ns, mgr.owner.name⟩) o s' ∧ A s')
    (keep : ControlledBy mgr.owner.uid obj → isMatch obj = true → ∀ s, A s →
      P (st.claimObjs ++ [obj]) s)
    (skip : ¬ (ControlledBy mgr.owner.uid obj ∧ isMatch obj = true) → ∀ s, A s →
      P st.claimObjs s)
    (adopt : ∀ w, mgr.Adopts isMatch obj w → ∀ s, A s → ∀ o s', serve s (.update w) o s' →
      G s (.update w) o s' ∧ (∀ stored, o = .ok stored → P (st.claimObjs ++ [stored]) s') ∧
        ∀ e, o = .error e → P st.claimObjs s')
    (release : ∀ w, mgr.Releases isMatch obj w → ∀ s, A s → ∀ o s', serve s (.update w) o s' →
      G s (.update w) o s' ∧ P st.claimObjs s') :
    mgr.ClaimSpec isMatch R serve G st.once obj A (fun _ => A)
      fun c s' => P (st.add c).claimObjs s' := by
  refine ClaimSpec.of_assertion stable get keep (fun hno s _ _ _ hA => ?_)
    (fun w hw s hA o s' ho => ?_) fun w hw s hA o s' ho => ?_
  · rw [claimObjs_add_unclaimed]
    exact skip hno s hA
  · obtain ⟨hG, hok, herr⟩ := adopt w hw s hA o s' ho
    refine ⟨hG, hok, fun e _ _ _ he => ?_⟩
    rw [claimObjs_add_unclaimed]
    exact herr e he
  · obtain ⟨hG, hP⟩ := release w hw s hA o s' ho
    refine ⟨hG, fun _ _ _ => ?_⟩
    rw [claimObjs_add_unclaimed]
    exact hP

theorem wp_claimOwnedObjects_cases {objs : List (Object β)} {filters : List (Object β → Bool)}
    (I : List (Object β) → ClaimState β → σ → Prop) (h0 : I [] ⟨[], [], none⟩ s)
    (hstep : ∀ done x rest st s, objs = done ++ x :: rest → I done st s →
      ∃ A V, A s ∧ mgr.ClaimCases (mgr.matching filters) R serve G st.once x A V
        fun c s' => I (done ++ [x]) (st.add c) s') :
    (mgr.claimOwnedObjects objs filters).wp R serve G (fun r s' => ∃ st, I objs st s' ∧
      r = (st.claimObjs, newAggregate (st.errList.map some))) s := by
  unfold claimOwnedObjects
  refine Program.wp_seq (Program.wp_foldlM I h0 fun done x rest st s hl hI => ?_)
    fun st s hI => ⟨st, hI, rfl⟩
  obtain ⟨A, V, hA, hcases⟩ := hstep done x rest st s hl hI
  exact Program.wp_seq (hcases.wp_claimObject hA) fun c s hP => hP

theorem wp_claimOwnedObjects {objs : List (Object β)} {filters : List (Object β → Bool)}
    (I : List (Object β) → ClaimState β → σ → Prop) (h0 : I [] ⟨[], [], none⟩ s)
    (hstep : ∀ done x rest st s, objs = done ++ x :: rest → I done st s →
      ∃ A V, A s ∧ mgr.ClaimSpec (mgr.matching filters) R serve G st.once x A V
        fun c s' => I (done ++ [x]) (st.add c) s') :
    (mgr.claimOwnedObjects objs filters).wp R serve G (fun r s' => ∃ st, I objs st s' ∧
      r = (st.claimObjs, newAggregate (st.errList.map some))) s := by
  refine wp_claimOwnedObjects_cases I h0 fun done x rest st s hl hI => ?_
  obtain ⟨A, V, hA, hspec⟩ := hstep done x rest st s hl hI
  exact ⟨A, V, hA, hspec.toClaimCases⟩

end RefManager
end FrpProvisioner
