import Mathlib.Data.List.Pairwise
import FrpProvisioner.Controller.SmoothRuns

/-! Runs for several Services, one after the other. Two Services with different UIDs select
different pods, so that a run for one of them leaves what a run for the other reads. The effect
of all the runs is then told from the store before the first. -/
namespace FrpProvisioner
open Effect

variable {allows : NamespacedName → Option Time → Prop} {r : ServiceReconciler}
  {svc other : Service} {rest svcs : List Service} {s t : Store} {err : Option GoError}

section Frame

theorem not_selects_of_uid_ne {p : Pod} (huid : other.uid ≠ svc.uid)
    (h : selects svc p = true) : selects other p = false := by
  cases h' : selects other p with
  | false => rfl
  | true =>
    simp only [selects, podSelector, selectorFromSet, List.all_cons, Bool.and_eq_true,
      beq_iff_eq] at h h'
    have hsame : some other.uid = some svc.uid := h'.2.2.1.symm.trans h.2.2.1
    exact absurd (Option.some.inj hsame) huid

theorem Fate.selects_eq {p q : Pod} (h : Fate allows svc p (some q)) :
    selects other q = selects other p := by
  obtain ⟨hns, hlabels⟩ := h.frame
  simp only [selects, hns, hlabels]

/-- A run for the Service reads the same in both stores. -/
structure SameReads (svc : Service) (s t : Store) : Prop where
  service : t.services.find? svc.key = s.services.find? svc.key
  pods : t.select svc.ns (podSelector svc) = s.select svc.ns (podSelector svc)

/-- A run leaves what a run for another Service reads. -/
theorem Effects.sameReads (h : Effects allows svc r s err t) (huid : other.uid ≠ svc.uid)
    (hkey : other.key ≠ svc.key) : SameReads other s t := by
  obtain ⟨new, hmakes, hpods⟩ := h.pods
  constructor
  · have hstay : ∀ x : Service, x.key = other.key → ∀ o, ServiceFate svc x o → o = some x := by
      intro x hx o ho
      rw [ServiceFate, if_neg (hx ▸ hkey)] at ho
      exact ho
    apply Option.ext
    intro x
    rw [Table.find?_eq_some, Table.find?_eq_some]
    constructor
    · intro hx
      rcases h.services.of_mem hx.1 with ⟨y, hy, hfate, hxy⟩ | hnew
      · cases hstay y (hxy.symm.trans hx.2) _ hfate
        exact ⟨hy, hx.2⟩
      · cases hnew
    · intro hx
      exact ⟨h.services.mem_of_same hx.1 (hstay x hx.2), hx.2⟩
  · apply hpods.filter_eq (q := selects other)
    · intro p _ hsel o ho
      exact ho.of_not_selects (not_selects_of_uid_ne huid.symm hsel)
    · intro p _ hsel q hq
      rw [hq.selects_eq]
      exact hsel
    · intro p hp
      exact not_selects_of_uid_ne huid (hmakes.selects hp)

theorem SameReads.bare_iff (h : SameReads svc s t) : Bare svc t ↔ Bare svc s := by
  have hmem : ∀ p, p ∈ t.pods ∧ selects svc p = true ↔ p ∈ s.pods ∧ selects svc p = true := by
    intro p
    rw [← mem_select, ← mem_select, h.pods]
  constructor
  · intro ht p hp hsel
    obtain ⟨hpt, -⟩ := (hmem p).mpr ⟨hp, hsel⟩
    exact ht p hpt hsel
  · intro hs p hp hsel
    obtain ⟨hps, -⟩ := (hmem p).mp ⟨hp, hsel⟩
    exact hs p hps hsel

theorem SameReads.makes (h : SameReads svc s t) {new : List Pod} (hm : Makes r t svc err new) :
    Makes r s svc err new := by
  cases hm with
  | nothing hn =>
    apply Makes.nothing
    rw [← h.bare_iff]
    exact hn
  | failed hw hb hpod => exact .failed hw (h.bare_iff.mp hb) hpod
  | pod a uid hw hb hpod => exact .pod a uid hw (h.bare_iff.mp hb) hpod

end Frame

section Sweep

def Distinct (svcs : List Service) : Prop :=
  svcs.Pairwise fun a b => a.uid ≠ b.uid ∧ a.key ≠ b.key

def Stored (svcs : List Service) (s : Store) : Prop :=
  ∀ svc ∈ svcs, s.services.find? svc.key = some svc

/-- One run for each of the Services, in the order of the list, and what each of them has
returned. Every call succeeds. A server may remove a deleted pod or only mark it; `grace` says
which it does, for each pod, so that the orders can be compared on one server. -/
inductive Reconciles (r : ServiceReconciler) (grace : NamespacedName → Option Time) :
    List Service → Store → List (Service × Option GoError) → Store → Prop where
  | nil (s : Store) : Reconciles r grace [] s [] s
  | cons {svc : Service} {rest : List Service} {s a t : Store} {err : Option GoError}
      {es : List (Program.Event (Request ServiceBody PodBody) Response)}
      {results : List (Service × Option GoError)} :
      Program.Exec (smoothServe fun key g => g = grace key) (r.reconcile svc.key) s es err a →
      Reconciles r grace rest a results t →
      Reconciles r grace (svc :: rest) s ((svc, err) :: results) t

structure FateIn (allows : NamespacedName → Option Time → Prop) (svcs : List Service) (p : Pod)
    (o : Option Pod) : Prop where
  selected : ∀ svc ∈ svcs, selects svc p = true → Fate allows svc p o
  untouched : (∀ svc ∈ svcs, selects svc p = false) → o = some p

structure ServiceFateIn (svcs : List Service) (x : Service) (o : Option Service) : Prop where
  listed : ∀ svc ∈ svcs, x.key = svc.key → ServiceFate svc x o
  untouched : (∀ svc ∈ svcs, x.key ≠ svc.key) → o = some x

structure EffectsIn (allows : NamespacedName → Option Time → Prop) (r : ServiceReconciler)
    (svcs : List Service) (s : Store) (results : List (Service × Option GoError)) (t : Store) :
    Prop where
  results_eq : results.map Prod.fst = svcs
  pods : ∃ made, List.Forall₂ (fun x new => Makes r s x.1 x.2 new) results made ∧
    s.pods.Evolves t.pods (FateIn allows svcs) made.flatten
  services : s.services.Evolves t.services (ServiceFateIn svcs) []

theorem Distinct.head (h : Distinct (svc :: rest)) :
    ∀ y ∈ rest, y.uid ≠ svc.uid ∧ y.key ≠ svc.key := by
  intro y hy
  obtain ⟨huid, hkey⟩ := (List.pairwise_cons.mp h).1 y hy
  exact ⟨huid.symm, hkey.symm⟩

theorem Distinct.tail (h : Distinct (svc :: rest)) : Distinct rest :=
  (List.pairwise_cons.mp h).2

theorem Distinct.of_ne (h : Distinct svcs) (hsvc : svc ∈ svcs) (hother : other ∈ svcs)
    (hne : svc ≠ other) : other.uid ≠ svc.uid ∧ other.key ≠ svc.key := by
  have hsymm : Std.Symm fun a b : Service => a.uid ≠ b.uid ∧ a.key ≠ b.key :=
    ⟨fun _ _ hab => ⟨hab.1.symm, hab.2.symm⟩⟩
  exact List.Pairwise.forall h hother hsvc hne.symm

theorem fateIn_cons_of_selects {p : Pod} {o : Option Pod}
    (hrest : ∀ y ∈ rest, y.uid ≠ svc.uid ∧ y.key ≠ svc.key) (hsel : selects svc p = true)
    (h : Fate allows svc p o) : FateIn allows (svc :: rest) p o := by
  constructor
  · intro y hy hsel'
    rcases List.mem_cons.mp hy with rfl | hy
    · exact h
    · rw [not_selects_of_uid_ne (hrest y hy).1 hsel] at hsel'
      cases hsel'
  · intro hnone
    rw [hnone svc List.mem_cons_self] at hsel
    cases hsel

theorem fateIn_cons_of_not_selects {p : Pod} {o : Option Pod} (hsel : selects svc p = false)
    (h : FateIn allows rest p o) : FateIn allows (svc :: rest) p o := by
  constructor
  · intro y hy hsel'
    rcases List.mem_cons.mp hy with rfl | hy
    · rw [hsel] at hsel'
      cases hsel'
    · exact h.selected y hy hsel'
  · intro hnone
    exact h.untouched fun y hy => hnone y (List.mem_cons_of_mem _ hy)

/-- A pod that a Service selects is not touched by runs for others. -/
theorem FateIn.of_selects {p : Pod} {o : Option Pod} (h : FateIn allows rest p o)
    (hrest : ∀ y ∈ rest, y.uid ≠ svc.uid ∧ y.key ≠ svc.key) (hsel : selects svc p = true) :
    o = some p :=
  h.untouched fun y hy => not_selects_of_uid_ne (hrest y hy).1 hsel

theorem serviceFateIn_cons_of_key {x : Service} {o : Option Service}
    (hrest : ∀ y ∈ rest, y.uid ≠ svc.uid ∧ y.key ≠ svc.key) (hkey : x.key = svc.key)
    (h : ServiceFate svc x o) : ServiceFateIn (svc :: rest) x o := by
  constructor
  · intro y hy hxy
    rcases List.mem_cons.mp hy with rfl | hy
    · exact h
    · exact absurd (hxy.symm.trans hkey) (hrest y hy).2
  · intro hnone
    exact absurd hkey (hnone svc List.mem_cons_self)

theorem serviceFateIn_cons_of_key_ne {x : Service} {o : Option Service} (hkey : x.key ≠ svc.key)
    (h : ServiceFateIn rest x o) : ServiceFateIn (svc :: rest) x o := by
  constructor
  · intro y hy hxy
    rcases List.mem_cons.mp hy with rfl | hy
    · exact absurd hxy hkey
    · exact h.listed y hy hxy
  · intro hnone
    exact h.untouched fun y hy => hnone y (List.mem_cons_of_mem _ hy)

theorem Effects.stored (h : Effects allows svc r s err t)
    (hrest : ∀ y ∈ rest, y.uid ≠ svc.uid ∧ y.key ≠ svc.key) (hs : Stored rest s) :
    Stored rest t := by
  intro y hy
  rw [(h.sameReads (hrest y hy).1 (hrest y hy).2).service]
  exact hs y hy

theorem Effects.pods_cons {a : Store} {results : List (Service × Option GoError)}
    (h : Effects allows svc r s err a) (hi : EffectsIn allows r rest a results t)
    (hrest : ∀ y ∈ rest, y.uid ≠ svc.uid ∧ y.key ≠ svc.key) :
    ∃ made, List.Forall₂ (fun x new => Makes r s x.1 x.2 new) ((svc, err) :: results) made ∧
      s.pods.Evolves t.pods (FateIn allows (svc :: rest)) made.flatten := by
  obtain ⟨new, hmakes, hpods⟩ := h.pods
  obtain ⟨made, hmade, hpods'⟩ := hi.pods
  refine ⟨new :: made, ?_, ?_⟩
  · -- the later runs read what was there before the first
    have hreads : ∀ x ∈ results, SameReads x.1 s a := by
      intro x hx
      have hx' : x.1 ∈ rest := hi.results_eq ▸ List.mem_map_of_mem hx
      exact h.sameReads (hrest _ hx').1 (hrest _ hx').2
    have hboth := (List.forall₂_and_left results made).mpr ⟨hreads, hmade⟩
    rw [List.forall₂_cons]
    exact ⟨hmakes, hboth.imp fun x new hx => hx.1.makes hx.2⟩
  · rw [List.flatten_cons]
    apply hpods.comp hpods'
    · intro p _ hfate
      cases hsel : selects svc p with
      | true => exact fateIn_cons_of_selects hrest hsel hfate
      | false => cases hfate.of_not_selects hsel
    · intro p _ q _ hfate o ho
      cases hsel : selects svc p with
      | true =>
        rw [ho.of_selects hrest (hfate.selects_eq.trans hsel)]
        exact fateIn_cons_of_selects hrest hsel hfate
      | false =>
        cases hfate.of_not_selects hsel
        exact fateIn_cons_of_not_selects hsel ho
    · intro p hp o ho
      exact ho.of_selects hrest (hmakes.selects hp)

theorem Effects.services_cons {a : Store} {results : List (Service × Option GoError)}
    (h : Effects allows svc r s err a) (hi : EffectsIn allows r rest a results t)
    (hrest : ∀ y ∈ rest, y.uid ≠ svc.uid ∧ y.key ≠ svc.key) :
    s.services.Evolves t.services (ServiceFateIn (svc :: rest)) [] := by
  apply h.services.comp hi.services
  · intro x _ hfate
    by_cases hkey : x.key = svc.key
    · exact serviceFateIn_cons_of_key hrest hkey hfate
    · rw [ServiceFate, if_neg hkey] at hfate
      cases hfate
  · intro x _ y hyx hfate o ho
    by_cases hkey : x.key = svc.key
    · have hsame : o = some y := ho.untouched fun z hz hyz =>
        (hrest z hz).2 (hyz.symm.trans (hyx.trans hkey))
      rw [hsame]
      exact serviceFateIn_cons_of_key hrest hkey hfate
    · rw [ServiceFate, if_neg hkey] at hfate
      cases hfate
      exact serviceFateIn_cons_of_key_ne hkey ho
  · intro x hx
    cases hx

/-- The effect of the runs, by induction over the list. -/
theorem Reconciles.effects {grace : NamespacedName → Option Time}
    {results : List (Service × Option GoError)} (h : Reconciles r grace svcs s results t)
    (hd : Distinct svcs) (hs : Stored svcs s) :
    EffectsIn (fun key g => g = grace key) r svcs s results t := by
  induction h with
  | nil s =>
    refine ⟨rfl, ⟨[], .nil, Table.evolves_refl ?_⟩, Table.evolves_refl ?_⟩
    · intro p _
      exact ⟨fun y hy => absurd hy List.not_mem_nil, fun _ => rfl⟩
    · intro x _
      exact ⟨fun y hy => absurd hy List.not_mem_nil, fun _ => rfl⟩
  | cons hexec _ ih =>
    have heffects := reconcile_effects hexec (hs _ List.mem_cons_self)
    have hrest := heffects.stored hd.head fun y hy => hs y (List.mem_cons_of_mem _ hy)
    have hlater := ih hd.tail hrest
    constructor
    · rw [List.map_cons, hlater.results_eq]
    · exact heffects.pods_cons hlater hd.head
    · exact heffects.services_cons hlater hd.head

/-- There is a run for each of the Services, in every order. -/
theorem exists_reconciles (r : ServiceReconciler) (grace : NamespacedName → Option Time)
    (hd : Distinct svcs) (hs : Stored svcs s) :
    ∃ results t, Reconciles r grace svcs s results t := by
  induction svcs generalizing s with
  | nil => exact ⟨_, _, .nil s⟩
  | cons svc rest ih =>
    have hsvc := hs svc List.mem_cons_self
    obtain ⟨es, err, a, hexec⟩ := exists_smooth grace r hsvc
    have hrest := (reconcile_effects hexec hsvc).stored hd.head
      fun y hy => hs y (List.mem_cons_of_mem _ hy)
    obtain ⟨results, t, hrun⟩ := ih hd.tail hrest
    exact ⟨_, _, .cons hexec hrun⟩

end Sweep

end FrpProvisioner
