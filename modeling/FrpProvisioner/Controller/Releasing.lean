import FrpProvisioner.Controller.Selection

/-! What a release leaves of the owner references. The controller is the first reference with
the flag, but the reference that is dropped is the first one with the UID of the owner. -/
namespace FrpProvisioner
open Effect
namespace RefManager
variable {ω β σ : Type}

/-- Dropping the first element that satisfies `p` splits the list there. -/
theorem eraseIdx_findIdx {α : Type} {p : α → Bool} {l : List α} {idx : ℕ}
    (h : l.findIdx? p = some idx) : ∃ before a after, l = before ++ a :: after ∧
      (∀ b ∈ before, p b = false) ∧ p a = true ∧ l.eraseIdx idx = before ++ after := by
  induction l generalizing idx with
  | nil => simp at h
  | cons a l ih =>
    rw [List.findIdx?_cons] at h
    cases ha : p a with
    | true =>
      simp only [ha, ↓reduceIte, Option.some.injEq] at h
      subst h
      exact ⟨[], a, l, rfl, by simp, ha, rfl⟩
    | false =>
      simp only [ha, Bool.false_eq_true, ↓reduceIte, Option.map_eq_some_iff] at h
      obtain ⟨i, hi, rfl⟩ := h
      obtain ⟨before, b, after, hl, hbefore, hb, herase⟩ := ih hi
      refine ⟨a :: before, b, after, by simp [hl], ?_, hb, by simp [herase]⟩
      intro c hc
      rcases List.mem_cons.mp hc with rfl | hc
      · exact ha
      · exact hbefore c hc

/-- What a release of `obj` should have written: no controller reference to the owner is left,
the references to others are as they were, and nothing else has changed. Where the API server
has let only one controller reference in, the object is an orphan afterwards. -/
structure Released (uid : String) (obj w : Object β) : Prop where
  noController : ∀ r ∈ w.ownerReferences, r.uid = uid → r.isController = false
  others : w.ownerReferences.filter (·.uid ≠ uid) = obj.ownerReferences.filter (·.uid ≠ uid)
  rest : w = { obj with ownerReferences := w.ownerReferences }
  orphan : AtMostOneController obj → getControllerOf w = none

def OnlyFirstControls (uid : String) (obj : Object β) : Prop :=
  ∀ r ∈ (obj.ownerReferences.filter (·.uid = uid)).tail, r.isController = false

instance (uid : String) (obj : Object β) : Decidable (OnlyFirstControls uid obj) :=
  inferInstanceAs (Decidable (∀ r ∈ _, _))

section Lemmas
variable {uid : String} {obj w : Object β} {idx : ℕ}

/-- Without a controller reference to the owner an object that had one controller is an
orphan. -/
theorem getControllerOf_eq_none (hc : ControlledBy uid obj) (hone : AtMostOneController obj)
    (hsub : w.ownerReferences.Sublist obj.ownerReferences)
    (hno : ∀ r ∈ w.ownerReferences, r.uid = uid → r.isController = false) :
    getControllerOf w = none := by
  obtain ⟨ctl, hctl, huid⟩ := Option.map_eq_some_iff.mp hc
  refine List.find?_eq_none.mpr fun r hr hrc => ?_
  -- `r` and the controller are the only candidate
  have hmem : ctl ∈ obj.ownerReferences.filter OwnerReference.isController :=
    List.mem_filter.mpr ⟨List.mem_of_find?_eq_some hctl, List.find?_some hctl⟩
  have hmem' : r ∈ obj.ownerReferences.filter OwnerReference.isController :=
    List.mem_filter.mpr ⟨hsub.subset hr, hrc⟩
  have hlen : (obj.ownerReferences.filter OwnerReference.isController).length ≤ 1 := by
    rw [← List.countP_eq_length_filter]
    exact hone
  have heq : r = ctl := by
    match hl : obj.ownerReferences.filter OwnerReference.isController with
    | [] => simp [hl] at hmem
    | [a] => simp_all
    | a :: b :: l => simp [hl] at hlen
  have hfalse := hno r hr (heq ▸ huid)
  simp [hfalse] at hrc

theorem released_iff (hc : ControlledBy uid obj)
    (hidx : obj.ownerReferences.findIdx? (·.uid = uid) = some idx) :
    Released uid obj { obj with ownerReferences := obj.ownerReferences.eraseIdx idx } ↔
      OnlyFirstControls uid obj := by
  obtain ⟨before, a, after, hl, hbefore, ha, herase⟩ := eraseIdx_findIdx hidx
  simp only [decide_eq_true_eq, decide_eq_false_iff_not] at ha hbefore
  have hnone : before.filter (·.uid = uid) = [] := by
    simpa [List.filter_eq_nil_iff] using hbefore
  -- the references to the owner after the first one are in the second part
  have htail : (obj.ownerReferences.filter (·.uid = uid)).tail = after.filter (·.uid = uid) := by
    simp [hl, List.filter_append, hnone, ha]
  unfold OnlyFirstControls
  rw [htail]
  constructor
  · intro h r hr
    obtain ⟨hr, huid⟩ := List.mem_filter.mp hr
    refine h.noController r ?_ (by simpa using huid)
    show r ∈ obj.ownerReferences.eraseIdx idx
    rw [herase]
    exact List.mem_append_right _ hr
  · intro h
    have hno : ∀ r ∈ obj.ownerReferences.eraseIdx idx, r.uid = uid → r.isController = false := by
      intro r hr huid
      rw [herase] at hr
      rcases List.mem_append.mp hr with hr | hr
      · exact absurd huid (hbefore r hr)
      · exact h r (List.mem_filter.mpr ⟨hr, by simpa using huid⟩)
    refine ⟨hno, ?_, rfl, fun hone => ?_⟩
    · show (obj.ownerReferences.eraseIdx idx).filter _ = _
      rw [herase, hl]
      simp [List.filter_append, ha]
    · exact getControllerOf_eq_none hc hone (List.eraseIdx_sublist _ _) hno

end Lemmas

/-- The object in memory stays as it was when the object is the owner's already. -/
theorem claimObject_keeps_obj {mgr : RefManager ω} {obj : Object β} {isMatch : Object β → Bool}
    {once : Once} {serve : Server (Request ω β) Response σ} {s t : σ}
    {es : List (Program.Event (Request ω β) Response)} {c : Claim β}
    (hc : ControlledBy mgr.owner.uid obj)
    (h : Program.Exec serve (mgr.claimObject isMatch once obj) s es c t) : c.obj = obj := by
  have hcases : mgr.ClaimCases isMatch Eq serve (fun _ _ _ _ => True) once obj (fun _ => True)
      (fun _ _ => True) fun c _ => c.obj = obj := by
    refine
      { stable := fun _ _ h _ => h, stableVerdict := fun _ _ _ h _ => h, known := fun _ _ _ h => h
        kinds := fun _ _ _ _ h => h, get := fun _ _ _ _ _ _ _ _ => ⟨trivial, trivial⟩
        keep := fun _ _ _ _ => rfl, idle := fun _ _ _ _ _ => rfl, refuse := fun _ _ _ _ => rfl
        unset := fun _ _ _ _ _ => rfl, adopt := ?_, release := ?_ }
    · intro w hw
      exact absurd hw.toAdoptable (not_adoptable_of_controlledBy hc)
    · intro w _ s _ o s' _
      exact ⟨trivial, fun _ _ => rfl, fun _ _ => rfl⟩
  exact h.post (hcases.wp_claimObject trivial)

/-- A release that returns nil has written one object. It has let go of the owner exactly when
no reference but the first with the owner's UID is a controller reference. -/
theorem release_released_iff (mgr : RefManager ω) (obj : Object β)
    (hc : ControlledBy mgr.owner.uid obj) (serve : Server (Request ω β) Response σ) (s t : σ)
    (es : List (Program.Event (Request ω β) Response))
    (h : Program.Exec serve (mgr.release obj) s es none t) :
    ∃ w stored, es = [⟨.update w, .ok stored⟩] ∧
      w.ownerReferences.filter (·.uid ≠ mgr.owner.uid) =
        obj.ownerReferences.filter (·.uid ≠ mgr.owner.uid) ∧
      (∀ isMatch once es' c t', Program.Exec serve (mgr.claimObject isMatch once obj) s es' c t' →
        c.obj = obj) ∧
      (Released mgr.owner.uid obj w ↔ OnlyFirstControls mgr.owner.uid obj) := by
  obtain ⟨idx, hidx⟩ := exists_findIdx_of_controlledBy hc
  have hwp : (mgr.release obj : Api ω β _).wp Eq (Program.traced serve) (fun _ _ _ _ => True)
      (fun err s' => err = none → ∃ stored, s'.2 =
        [⟨.update { obj with ownerReferences := obj.ownerReferences.eraseIdx idx },
          .ok stored⟩]) (s, []) := by
    unfold release
    rw [hidx]
    refine Program.wp_traced_call_bind fun o s' _ => ⟨trivial, ?_⟩
    cases o with
    | error e => exact fun hnone => by cases hnone
    | ok stored => exact fun _ => ⟨stored, rfl⟩
  obtain ⟨stored, hes⟩ := (h.traced []).post hwp rfl
  obtain ⟨before, a, after, hl, -, ha, herase⟩ := eraseIdx_findIdx hidx
  refine ⟨_, stored, hes, ?_, fun _ _ _ _ _ hclaim => claimObject_keeps_obj hc hclaim,
    released_iff hc hidx⟩
  show (obj.ownerReferences.eraseIdx idx).filter _ = _
  rw [herase, hl]
  simp only [decide_eq_true_eq] at ha
  simp [List.filter_append, ha]

section Samples

/-- The owner is named twice, first without the flag. The API server stores both references, since
they differ. -/
def ownedTwice : Object Unit :=
  { soleOrphan with ownerReferences := [ownerRef none, ownerRef (some true)] }

theorem release_released_ownedOnce : ∃ w : Object Unit, Released "owner-1" ownedOnce w := by
  have hexec := Program.exec_served (answerUpdates .ok) (soleManager.release ownedOnce) ()
  obtain ⟨w, stored, -, -, -, hiff⟩ :=
    release_released_iff soleManager ownedOnce rfl _ _ _ _ hexec
  exact ⟨w, hiff.mpr (by decide)⟩

/-- The release returns nil, and the object is still controlled by the owner. -/
theorem still_owned_after_release : ControlledBy soleManager.owner.uid ownedTwice ∧
    ∃ w, Program.Exec (Program.served (answerUpdates .ok)) (soleManager.release ownedTwice) ()
      [⟨.update w, .ok w⟩] none () ∧ ControlledBy soleManager.owner.uid w ∧
      ¬ Released soleManager.owner.uid ownedTwice w := by
  refine ⟨rfl, { ownedTwice with ownerReferences := [ownerRef (some true)] }, ?_, rfl, ?_⟩
  · exact Program.exec_served (answerUpdates .ok) (soleManager.release ownedTwice) ()
  · intro h
    have hfalse := h.noController (ownerRef (some true)) List.mem_cons_self rfl
    cases hfalse

end Samples
end RefManager
end FrpProvisioner
