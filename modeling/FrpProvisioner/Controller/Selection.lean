import FrpProvisioner.Controller.ClaimRecords

/-! What `ClaimOwnedObjects` returns and writes for every mix of objects, answers and states of
the owner, and what it makes of objects that vanish before they are written. -/
namespace FrpProvisioner
open Effect
namespace RefManager
variable {ω β σ : Type}

section Samples

/-- An owner with a manager whose selector matches everything. -/
def soleOwner : Object Unit where
  name := "web"
  ns := "default"
  uid := "owner-1"
  resourceVersion := 1
  deletionTimestamp := none
  labels := .empty
  annotations := .empty
  ownerReferences := []
  finalizers := []
  body := ()

def soleManager : RefManager Unit := ⟨fun _ => true, soleOwner, ⟨.ok ⟨"", "v1", "Service"⟩⟩⟩

def soleOrphan : Object Unit := { soleOwner with name := "orphan", uid := "orphan-1" }

/-- A server that has the owner, with the answer to updates as a parameter. -/
def answerUpdates (answer : Object Unit → Except GoError (Object Unit)) (s : Unit) :
    (i : Request Unit Unit) → Response i × Unit
  | .get _ => (.ok soleOwner, s)
  | .list _ _ => (.ok [], s)
  | .create w => (.ok w, s)
  | .update w => (answer w, s)
  | .delete _ => (.ok (), s)
  | .updateOwner w => (.ok w, s)
  | .rand _ => ("", s)

def soleRun (answer : Object Unit → Except GoError (Object Unit)) :=
  Program.run (answerUpdates answer) (soleManager.claimOwnedObjects [soleOrphan] []) ()

theorem exec_soleRun (answer : Object Unit → Except GoError (Object Unit)) :
    Program.Exec (Program.served (answerUpdates answer))
      (soleManager.claimOwnedObjects [soleOrphan] []) () (soleRun answer).1
      ((soleRun answer).2.1.1, (soleRun answer).2.1.2) (soleRun answer).2.2 :=
  Program.exec_served _ _ _

def ownerRef (controller : Option Bool) : OwnerReference :=
  ⟨"v1", "Service", "web", "owner-1", controller, none⟩

def ownedOnce : Object Unit := { soleOrphan with ownerReferences := [ownerRef (some true)] }

/-- An orphan, an object of the owner and one that is not to match, one of someone else, and one
that is going. -/
def mixedObjects : List (Object Unit) :=
  [soleOrphan, { ownedOnce with name := "owned" }, { ownedOnce with name := "stray" },
    { soleOrphan with
      name := "foreign", ownerReferences := [{ ownerRef (some true) with uid := "owner-2" }] },
    { soleOrphan with name := "going", deletionTimestamp := some 1 }]

def mixedRun :=
  Program.run (answerUpdates .ok) (soleManager.claimOwnedObjects mixedObjects [(·.name ≠ "stray")])
    ()

end Samples

section Rules
variable {mgr : RefManager ω} {isMatch : Object β → Bool} {fresh : Except GoError (Object ω)}
  {h : Handled β}

/-- An adoption that is written, in the words of the reference rules. -/
theorem adopts_iff {x w : Object β} :
    mgr.Adopts isMatch x w ∧ mgr.recheck fresh = none ↔
      isMatch x = true ∧ getControllerOf x = none ∧ x.deletionTimestamp = none ∧
      mgr.owner.deletionTimestamp = none ∧ mgr.FreshOwner fresh ∧
      setControllerReference mgr.owner mgr.schema.objectKinds x = .ok w := by
  constructor
  · rintro ⟨hw, hv⟩
    exact ⟨hw.isMatch, hw.orphan, hw.objAlive, hw.ownerAlive, hw.recheck_eq_none.mp hv, hw.write⟩
  · rintro ⟨hm, horphan, hobj, howner, hfresh, hset⟩
    have hw : mgr.Adopts isMatch x w := ⟨⟨horphan, howner, hm, hobj⟩, hset⟩
    exact ⟨hw, hw.recheck_eq_none.mpr hfresh⟩

/-- An object that is neither adopted nor released is not written. -/
theorem Follows.write_eq_none (hf : mgr.Follows isMatch fresh h)
    (hadopt : ∀ w, ¬ mgr.Adopts isMatch h.obj w) (hrelease : ∀ w, ¬ mgr.Releases isMatch h.obj w) :
    h.write = none := by
  by_contra hsome
  obtain ⟨⟨w, o⟩, ho⟩ := Option.ne_none_iff_exists'.mp hsome
  rcases (hf.write w).mp ⟨o, ho⟩ with ⟨hw, -⟩ | hr
  · exact hadopt w hw
  · exact hrelease w hr

/-- An adoption has been written only after the owner was read again. -/
theorem Follows.recheck_of_write (hf : mgr.Follows isMatch fresh h) {w : Object β}
    {o : Except GoError (Object β)} (hw : mgr.Adopts isMatch h.obj w)
    (ho : h.write = some (w, o)) : mgr.recheck fresh = none := by
  rcases (hf.write w).mp ⟨o, ho⟩ with ⟨-, hv⟩ | hr
  · exact hv
  · exact absurd hw.toAdoptable (not_adoptable_of_controlledBy hr.controlled)

theorem Follows.claimed_iff (hf : mgr.Follows isMatch fresh h) {c : Object β} :
    h.claimed = some c ↔ isMatch h.obj = true ∧
      ((ControlledBy mgr.owner.uid h.obj ∧ c = h.obj) ∨
        (getControllerOf h.obj = none ∧ h.obj.deletionTimestamp = none ∧
          mgr.owner.deletionTimestamp = none ∧ mgr.FreshOwner fresh ∧
          ∃ w, setControllerReference mgr.owner mgr.schema.objectKinds h.obj = .ok w ∧
            h.write = some (w, .ok c))) := by
  rw [hf.claimed]
  constructor
  · rintro (⟨hc, hm, rfl⟩ | ⟨w, hw, ho⟩)
    · exact ⟨hm, Or.inl ⟨hc, rfl⟩⟩
    · obtain ⟨hm, horphan, hobj, howner, hfresh, hset⟩ :=
        adopts_iff.mp ⟨hw, hf.recheck_of_write hw ho⟩
      exact ⟨hm, Or.inr ⟨horphan, hobj, howner, hfresh, w, hset, ho⟩⟩
  · rintro ⟨hm, ⟨hc, rfl⟩ | ⟨horphan, hobj, howner, -, w, hset, ho⟩⟩
    · exact Or.inl ⟨hc, hm, rfl⟩
    · exact Or.inr ⟨w, ⟨⟨horphan, howner, hm, hobj⟩, hset⟩, ho⟩

end Rules

/-- `ClaimOwnedObjects` claims and writes by the references alone. Each object is handled on its
own: `hs` has one record for each, with the answer to its write, and `fresh` is the owner as it
was read again. -/
theorem claimOwnedObjects_selects (mgr : RefManager ω) (objs : List (Object β))
    (filters : List (Object β → Bool)) (serve : Server (Request ω β) Response σ) (s t : σ)
    (es : List (Program.Event (Request ω β) Response)) (claimed : List (Object β))
    (err : Option GoError)
    (h : Program.Exec serve (mgr.claimOwnedObjects objs filters) s es (claimed, err) t) :
    ∃ (fresh : Except GoError (Object ω)) (hs : List (Handled β)), hs.map Handled.obj = objs ∧
      (∀ e ∈ es, e = ⟨.get ⟨mgr.owner.ns, mgr.owner.name⟩, fresh⟩ ∨ ∃ w o, e = ⟨.update w, o⟩) ∧
      (∀ x ∈ objs, mgr.Adoptable (mgr.matching filters) x → ∀ g, mgr.schema.objectKinds = .ok g →
        ⟨.get ⟨mgr.owner.ns, mgr.owner.name⟩, fresh⟩ ∈ es) ∧
      claimed = hs.filterMap Handled.claimed ∧
      (∀ h ∈ hs, ∀ c, h.claimed = some c ↔ mgr.matching filters h.obj = true ∧
        ((ControlledBy mgr.owner.uid h.obj ∧ c = h.obj) ∨
          (getControllerOf h.obj = none ∧ h.obj.deletionTimestamp = none ∧
            mgr.owner.deletionTimestamp = none ∧ mgr.FreshOwner fresh ∧
            ∃ w, setControllerReference mgr.owner mgr.schema.objectKinds h.obj = .ok w ∧
              h.write = some (w, .ok c)))) ∧
      updatesOf es = hs.filterMap Handled.write ∧
      (∀ h ∈ hs, ∀ w, (∃ o, h.write = some (w, o)) ↔
        (mgr.matching filters h.obj = true ∧ getControllerOf h.obj = none ∧
          h.obj.deletionTimestamp = none ∧ mgr.owner.deletionTimestamp = none ∧
          mgr.FreshOwner fresh ∧
          setControllerReference mgr.owner mgr.schema.objectKinds h.obj = .ok w) ∨
        mgr.Releases (mgr.matching filters) h.obj w) ∧
      (∀ h ∈ hs, ∀ ref, getControllerOf h.obj = some ref → ref.uid ≠ mgr.owner.uid →
        h.write = none) ∧
      (mgr.owner.deletionTimestamp.isSome → updatesOf es = []) := by
  obtain ⟨fresh, hs, ha⟩ := exec_account h
  refine ⟨fresh, hs, ha.listed, ha.requests, ha.reread, ha.returned, ?_, ha.writes, ?_, ?_, ?_⟩
  · intro h hh c
    exact (ha.follows h hh).claimed_iff
  · intro h hh w
    rw [(ha.follows h hh).write, adopts_iff]
  · intro h hh ref href hne
    apply (ha.follows h hh).write_eq_none
    · intro w hw
      cases href.symm.trans hw.orphan
    · intro w hw
      have hc := hw.controlled
      simp [ControlledBy, href, hne] at hc
  · intro hdel
    rw [ha.writes, List.filterMap_eq_nil_iff]
    intro h hh
    apply (ha.follows h hh).write_eq_none
    · intro w hw
      simp [hw.ownerAlive] at hdel
    · intro w hw
      simp [hw.ownerAlive] at hdel

/-- The orphan is adopted, the object that does not match is released, and the two that match are
claimed. -/
theorem claimOwnedObjects_selects_mixedObjects :
    mixedRun.2.1.1.map (·.name) = ["orphan", "owned"] ∧
      (updatesOf mixedRun.1).map (·.1.name) = ["orphan", "stray"] ∧
      ∃ fresh, ∃ hs : List (Handled Unit), hs.map Handled.obj = mixedObjects ∧
        soleManager.FreshOwner fresh ∧ mixedRun.2.1.1 = hs.filterMap Handled.claimed ∧
        updatesOf mixedRun.1 = hs.filterMap Handled.write := by
  refine ⟨rfl, rfl, ?_⟩
  have hexec := Program.exec_served (answerUpdates .ok)
    (soleManager.claimOwnedObjects mixedObjects [(·.name ≠ "stray")]) ()
  obtain ⟨fresh, hs, hobjs, hreqs, -, hclaimed, -, hwritten, -⟩ :=
    claimOwnedObjects_selects soleManager mixedObjects _ _ _ _ _ _ _ hexec
  refine ⟨fresh, hs, hobjs, ?_, hclaimed, hwritten⟩
  rcases hreqs ⟨.get ⟨"default", "web"⟩, .ok soleOwner⟩ List.mem_cons_self with he | ⟨w, o, he⟩
  · cases he
    exact ⟨soleOwner, rfl, rfl, rfl⟩
  · cases he

section Vanished
variable (mgr : RefManager ω) (filters : List (Object β → Bool))

/-- An object whose update is answered by NotFound is not claimed and contributes no error, so
that an error is returned for the other failures alone. -/
def IgnoresVanished (fresh : Except GoError (Object ω)) (hs : List (Handled β))
    (err : Option GoError) : Prop :=
  (∀ h ∈ hs, ∀ w e, h.write = some (w, .error e) → e.isNotFound = true →
    h.claimed = none ∧ h.err = none) ∧
  (err ≠ none ↔ ∃ h ∈ hs, mgr.Refused (mgr.matching filters) fresh h.obj ∨
    ∃ w e, h.write = some (w, .error e) ∧ e.isNotFound = false)

variable {mgr filters} {objs : List (Object β)}
  {es : List (Program.Event (Request ω β) Response)} {claimed : List (Object β)}
  {err : Option GoError} {fresh : Except GoError (Object ω)} {hs : List (Handled β)}

theorem Account.mem_es (ha : mgr.Account filters objs es claimed err fresh hs) {w : Object β}
    {o : Except GoError (Object β)} : ⟨.update w, o⟩ ∈ es ↔ ∃ h ∈ hs, h.write = some (w, o) := by
  have hmem : (w, o) ∈ updatesOf es ↔ ⟨.update w, o⟩ ∈ es := by
    unfold updatesOf
    rw [List.mem_filterMap]
    constructor
    · rintro ⟨⟨i, o'⟩, he, heq⟩
      cases i <;> simp at heq
      obtain ⟨rfl, rfl⟩ := heq
      exact he
    · intro he
      exact ⟨_, he, rfl⟩
  rw [← hmem, ha.writes, List.mem_filterMap]

/-- The errors of adoptions and releases are texts, so that NotFound is not recognised any
more: every failed update is reported. -/
theorem Account.ignoresVanished_iff (ha : mgr.Account filters objs es claimed err fresh hs) :
    mgr.IgnoresVanished filters fresh hs err ↔
      ∀ w e, ⟨.update w, .error e⟩ ∈ es → e.isNotFound = false := by
  have herr : err ≠ none ↔ ∃ h ∈ hs, mgr.Refused (mgr.matching filters) fresh h.obj ∨
      ∃ w e, h.write = some (w, .error e) := by
    rw [ha.errors, ne_eq, newAggregate_eq_none]
    simp only [List.forall_mem_map, not_forall]
    constructor
    · rintro ⟨h, hh, hne⟩
      exact ⟨h, hh, (ha.follows h hh).err.mp hne⟩
    · rintro ⟨h, hh, hne⟩
      exact ⟨h, hh, (ha.follows h hh).err.mpr hne⟩
  constructor
  · intro hignores w e he
    obtain ⟨h, hh, hw⟩ := ha.mem_es.mp he
    by_contra hnf
    have hnone := (hignores.1 h hh w e hw (by simpa using hnf)).2
    exact (ha.follows h hh).err.mpr (Or.inr ⟨w, e, hw⟩) hnone
  · intro hall
    have hfound : ∀ h ∈ hs, ∀ w e, h.write = some (w, .error e) → e.isNotFound = false :=
      fun h hh w e hw => hall w e (ha.mem_es.mpr ⟨h, hh, hw⟩)
    constructor
    · intro h hh w e hw hnf
      simp [hfound h hh w e hw] at hnf
    · rw [herr]
      constructor
      · rintro ⟨h, hh, hr | ⟨w, e, hw⟩⟩
        · exact ⟨h, hh, Or.inl hr⟩
        · exact ⟨h, hh, Or.inr ⟨w, e, hw, hfound h hh w e hw⟩⟩
      · rintro ⟨h, hh, hr | ⟨w, e, hw, -⟩⟩
        · exact ⟨h, hh, Or.inl hr⟩
        · exact ⟨h, hh, Or.inr ⟨w, e, hw⟩⟩

/-- A run ignores objects that have vanished exactly when it has met none. -/
theorem claimOwnedObjects_ignoresVanished_iff (mgr : RefManager ω) (objs : List (Object β))
    (filters : List (Object β → Bool)) (serve : Server (Request ω β) Response σ) (s t : σ)
    (es : List (Program.Event (Request ω β) Response)) (claimed : List (Object β))
    (err : Option GoError)
    (h : Program.Exec serve (mgr.claimOwnedObjects objs filters) s es (claimed, err) t) :
    ∃ fresh hs, mgr.Account filters objs es claimed err fresh hs ∧
      (mgr.IgnoresVanished filters fresh hs err ↔
        ∀ w e, ⟨.update w, .error e⟩ ∈ es → e.isNotFound = false) := by
  obtain ⟨fresh, hs, ha⟩ := exec_account h
  exact ⟨fresh, hs, ha, ha.ignoresVanished_iff⟩

theorem claimOwnedObjects_ignoresVanished_soleOrphan : ∃ fresh hs,
    soleManager.IgnoresVanished [] fresh (hs : List (Handled Unit)) (soleRun .ok).2.1.2 := by
  obtain ⟨fresh, hs, -, hiff⟩ :=
    claimOwnedObjects_ignoresVanished_iff soleManager [soleOrphan] [] _ _ _ _ _ _
      (exec_soleRun .ok)
  refine ⟨fresh, hs, hiff.mpr fun w e he => ?_⟩
  have hes : ∃ u, (soleRun .ok).1 =
      [⟨.get ⟨"default", "web"⟩, .ok soleOwner⟩, ⟨.update u, .ok u⟩] := ⟨_, rfl⟩
  obtain ⟨u, hes⟩ := hes
  rw [hes] at he
  rcases List.mem_cons.mp he with he | he
  · cases he
  · cases List.mem_singleton.mp he

/-- The orphan is deleted before it is adopted. -/
def gone (w : Object Unit) : Except GoError (Object Unit) :=
  .error (.status ⟨.notFound, 404, "pods \"" ++ w.name ++ "\" not found"⟩)

/-- Nothing but an update that does not find its object has failed, and an error is returned. -/
theorem vanished_orphan_is_reported : ∃ w e err, updatesOf (soleRun gone).1 = [(w, .error e)] ∧
    e.isNotFound = true ∧ (soleRun gone).2.1 = ([], some err) ∧
    ∀ fresh hs, soleManager.Account [] [soleOrphan] (soleRun gone).1 (soleRun gone).2.1.1
      (soleRun gone).2.1.2 fresh hs →
      ¬ soleManager.IgnoresVanished [] fresh hs (soleRun gone).2.1.2 := by
  refine ⟨_, _, _, rfl, rfl, rfl, fun fresh hs ha hignores => ?_⟩
  have hfound := ha.ignoresVanished_iff.mp hignores _ _ (List.mem_cons_of_mem _ List.mem_cons_self)
  cases hfound

end Vanished
end RefManager
end FrpProvisioner
