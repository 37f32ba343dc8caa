import FrpProvisioner.Controller.SmoothRuns

/-! Pods whose labels have changed. A claim would release a pod that the Service controls but
does not select any more, yet the run lists its pods with the same selector, so that such a pod
is never offered to a claim. -/
namespace FrpProvisioner
open Effect
variable {allows : NamespacedName → Option Time → Prop} {svc : Service} {r : ServiceReconciler}
  {s t : Store} {err : Option GoError}

/-- Every active pod that the Service controls, in its namespace, carries both of its labels. -/
def LabelsKept (svc : Service) (s : Store) : Prop :=
  ∀ p ∈ s.pods, isPodActive p = true → p.ns = svc.ns → ControlledBy svc.uid p →
    p.labels.get labelServiceNameKey = some svc.name ∧
      p.labels.get labelControllerUidKey = some svc.uid

theorem podSelector_iff {labels : StringMap} : podSelector svc labels = true ↔
    labels.get labelServiceNameKey = some svc.name ∧
      labels.get labelControllerUidKey = some svc.uid := by
  simp [podSelector, selectorFromSet]

/-- A pod without the labels is still there after the run, as it was. -/
theorem Effects.mem_of_unlabelled (h : Effects allows svc r s err t) {p : Pod} (hp : p ∈ s.pods)
    (hlabels : podSelector svc p.labels = false) : p ∈ t.pods := by
  obtain ⟨new, -, hpods⟩ := h.pods
  apply hpods.mem_of_same hp
  intro o ho
  apply ho.of_not_selects
  simp [selects, hlabels]

/-- A pod that was not there before, or has other labels than before, carries those of the
Service. -/
theorem Effects.labelled_or_mem (h : Effects allows svc r s err t) {q : Pod} (hq : q ∈ t.pods) :
    podSelector svc q.labels = true ∨ q ∈ s.pods := by
  obtain ⟨new, hmakes, hpods⟩ := h.pods
  rcases hpods.of_mem hq with ⟨p, hp, hfate, -⟩ | hnew
  · cases hsel : selects svc p with
    | false =>
      cases hfate.of_not_selects hsel
      exact Or.inr hp
    | true =>
      simp only [selects, Bool.and_eq_true] at hsel
      rw [hfate.frame.2]
      exact Or.inl hsel.2
  · have hsel := hmakes.selects hnew
    simp only [selects, Bool.and_eq_true] at hsel
    exact Or.inl hsel.2

/-- After a run without failures the controlled pods carry the labels of the Service exactly
when they did before: a pod that has lost them is not released. -/
theorem labelsKept_iff (r : ServiceReconciler) (allows : NamespacedName → Option Time → Prop)
    (svc : Service) (s t : Store) (es : List (Program.Event (Request ServiceBody PodBody) Response))
    (err : Option GoError) (hsvc : s.services.find? svc.key = some svc)
    (h : Program.Exec (smoothServe allows) (r.reconcile svc.key) s es err t) :
    LabelsKept svc t ↔ LabelsKept svc s := by
  have heffects := reconcile_effects h hsvc
  constructor
  · intro ht p hp hact hns hctl
    by_contra hlabels
    rw [← podSelector_iff, Bool.not_eq_true] at hlabels
    have hkept := ht p (heffects.mem_of_unlabelled hp hlabels) hact hns hctl
    rw [← podSelector_iff, hlabels] at hkept
    cases hkept
  · intro hs q hq hact hns hctl
    rcases heffects.labelled_or_mem hq with hlabels | hmem
    · exact podSelector_iff.mp hlabels
    · exact hs q hmem hact hns hctl

/-- A pod of the Service, and one of someone else that is in its namespace. -/
def keptStore : Store :=
  ⟨Table.empty.upsert webService,
    (Table.empty.upsert (labelledPod webService "web-1" .running
      (newControllerRef webService ⟨"", "v1", "Service"⟩))).upsert
      { labelledPod webService "db-0" .running
          ⟨"apps/v1", "StatefulSet", "db", "db-uid", some true, none⟩ with labels := .empty }, 1⟩

theorem labelsKept_iff_keptStore : ∃ es err t, Program.Exec (smoothServe fun _ g => g = none)
    (emptyTemplate.reconcile webService.key) keptStore es err t ∧ LabelsKept webService t := by
  have hsvc : keptStore.services.find? webService.key = some webService := by decide
  obtain ⟨es, err, t, h⟩ := exists_smooth (fun _ => none) emptyTemplate hsvc
  refine ⟨es, err, t, h, ?_⟩
  rw [labelsKept_iff emptyTemplate _ webService keptStore t es err hsvc h]
  unfold LabelsKept
  decide

/-- A running pod of the Service from which somebody has removed the labels. -/
def unlabelledPod : Pod :=
  { labelledPod webService "web-1" .running
      (newControllerRef webService ⟨"", "v1", "Service"⟩) with labels := .empty }

def driftStore : Store := ⟨Table.empty.upsert webService, Table.empty.upsert unlabelledPod, 1⟩

/-- The run leaves the pod under the control of the Service. -/
theorem unlabelledPod_is_kept : ∃ es err t, Program.Exec (smoothServe fun _ g => g = none)
    (emptyTemplate.reconcile webService.key) driftStore es err t ∧
      unlabelledPod ∈ t.pods ∧ ControlledBy webService.uid unlabelledPod ∧
      ¬ LabelsKept webService t := by
  have hsvc : driftStore.services.find? webService.key = some webService := by decide
  obtain ⟨es, err, t, h⟩ := exists_smooth (fun _ => none) emptyTemplate hsvc
  have hmem : unlabelledPod ∈ t.pods :=
    (reconcile_effects h hsvc).mem_of_unlabelled (by decide) (by decide)
  refine ⟨es, err, t, h, hmem, by decide, ?_⟩
  intro hkept
  obtain ⟨hname, -⟩ := hkept unlabelledPod hmem (by decide) rfl (by decide)
  cases hname

end FrpProvisioner
