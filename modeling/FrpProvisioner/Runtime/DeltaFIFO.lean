import FrpProvisioner.Effect.Feed
import FrpProvisioner.Effect.Table
import Mathlib.Algebra.Order.Group.Nat
import Mathlib.Data.List.Induction
import Mathlib.Logic.Function.Basic

/-! `client-go/tools/cache/delta_fifo.go`: the queue between the watch of a kind and its cache.
What happens to one object is collected under its key and handed on together, in order. -/
namespace FrpProvisioner
open Effect
variable {α K : Type}

inductive DeltaType where
  | added | updated | deleted | replaced | sync
  deriving DecidableEq, Repr

/-- A `Delta`; `unknown` says that its object is wrapped in `DeletedFinalStateUnknown`, as the
deletion was not seen. -/
structure Delta (α : Type) where
  type : DeltaType
  object : α
  unknown : Bool
  deriving DecidableEq

namespace Delta

/-- The object as it is after the delta. -/
def result (d : Delta α) : Option α := if d.type = .deleted then none else some d.object

@[simp] theorem result_deleted (x : α) (unknown : Bool) :
    (⟨.deleted, x, unknown⟩ : Delta α).result = none := rfl

theorem result_of_ne {d : Delta α} (h : d.type ≠ .deleted) : d.result = some d.object := if_neg h

/-- The delta can come next: what is deleted was there, and an object that has kept its version
is the same. -/
structure Possible (version : α → ℕ) (p : Option α) (d : Delta α) : Prop where
  deleted : d.type = .deleted → p = some d.object
  version : d.type ≠ .deleted → ∀ o, p = some o → version o = version d.object → o = d.object

end Delta

/-- `isDup`, of the newest delta and the one before: two deletions in a row are one. -/
def isDup (a b : Delta α) : Option (Delta α) :=
  if b.type ≠ .deleted || a.type ≠ .deleted then none
  else if b.unknown then some a
  else some b

def dedupDeltas (deltas : List (Delta α)) : List (Delta α) :=
  match deltas.reverse with
  | a :: b :: rest =>
    match isDup a b with
    | some out => (out :: rest).reverse
    | none => deltas
  | _ => deltas

section Dedup
variable {a b d : Delta α} {ds : List (Delta α)}

theorem isDup_eq_some {out : Delta α} (h : isDup a b = some out) :
    a.type = .deleted ∧ b.type = .deleted ∧ (out = a ∨ out = b) := by
  unfold isDup at h
  split_ifs at h with htype hunknown
  all_goals
    simp only [Bool.or_eq_true, decide_eq_true_eq, not_or, not_not] at htype
    simp only [Option.some.injEq] at h
  · exact ⟨htype.2, htype.1, Or.inl h.symm⟩
  · exact ⟨htype.2, htype.1, Or.inr h.symm⟩

theorem dedupDeltas_singleton : dedupDeltas [d] = [d] := rfl

theorem dedupDeltas_snoc_snoc : dedupDeltas (ds ++ [b] ++ [a]) =
    match isDup a b with
    | some out => ds ++ [out]
    | none => ds ++ [b] ++ [a] := by
  have hrev : (ds ++ [b] ++ [a]).reverse = a :: b :: ds.reverse := by simp
  unfold dedupDeltas
  rw [hrev]
  cases h : isDup a b <;> simp [h]

/-- Either the new delta is kept, or it repeats the deletion before it. -/
theorem dedupDeltas_snoc (ds : List (Delta α)) (d : Delta α) :
    dedupDeltas (ds ++ [d]) = ds ++ [d] ∨ ∃ es b out, ds = es ++ [b] ∧ d.type = .deleted ∧
      b.type = .deleted ∧ (out = d ∨ out = b) ∧ dedupDeltas (ds ++ [d]) = es ++ [out] := by
  induction ds using List.reverseRecOn with
  | nil => exact Or.inl dedupDeltas_singleton
  | append_singleton es b _ =>
    rw [dedupDeltas_snoc_snoc]
    cases h : isDup d b with
    | none => exact Or.inl rfl
    | some out =>
      obtain ⟨hd, hb, hout⟩ := isDup_eq_some h
      exact Or.inr ⟨es, b, out, rfl, hd, hb, hout, rfl⟩

theorem dedupDeltas_snoc_ne_nil : dedupDeltas (ds ++ [d]) ≠ [] := by
  rcases dedupDeltas_snoc ds d with h | ⟨es, b, out, -, -, -, -, h⟩ <;> simp [h]

theorem mem_dedupDeltas_snoc {e : Delta α} (h : e ∈ dedupDeltas (ds ++ [d])) :
    e ∈ ds ∨ e = d := by
  rcases dedupDeltas_snoc ds d with hd | ⟨es, b, out, rfl, -, -, hout, hd⟩
  · simpa [hd] using h
  · rw [hd, List.mem_append, List.mem_singleton] at h
    rcases h with h | rfl
    · exact Or.inl (List.mem_append_left _ h)
    · rcases hout with rfl | rfl
      · exact Or.inr rfl
      · exact Or.inl (by simp)

theorem dedupDeltas_snoc_of_ne (h : d.type ≠ .deleted) : dedupDeltas (ds ++ [d]) = ds ++ [d] := by
  rcases dedupDeltas_snoc ds d with hd | ⟨_, _, _, _, hdel, _⟩
  · exact hd
  · exact absurd hdel h

/-- A deletion is not dropped while the object is there. -/
theorem dedupDeltas_snoc_of_latest {p : Option α} {x : α}
    (h : Feed.latest Delta.result p ds = some x) : dedupDeltas (ds ++ [d]) = ds ++ [d] := by
  rcases dedupDeltas_snoc ds d with hd | ⟨es, b, out, rfl, -, hb, -, -⟩
  · exact hd
  · simp [Delta.result, hb] at h

end Dedup

/-- The queue. A key without deltas is one that `items` has no entry for. -/
structure DeltaFIFO (α K : Type) where
  items : K → List (Delta α)
  queue : List K
  populated : Bool
  initialPopulationCount : ℕ

namespace DeltaFIFO

def new : DeltaFIFO α K := ⟨fun _ => [], [], false, 0⟩

def hasSynced (f : DeltaFIFO α K) : Bool := f.populated && f.initialPopulationCount = 0

variable [DecidableEq K]

/-- `id` is the key of the object or of its tombstone. -/
def queueActionLocked (f : DeltaFIFO α K) (id : K) (d : Delta α) : DeltaFIFO α K :=
  { f with
    items := Function.update f.items id (dedupDeltas (f.items id ++ [d]))
    queue := if f.items id = [] then f.queue ++ [id] else f.queue }

def queueAbsent (f : DeltaFIFO α K) (id : K) (d : Delta α) : DeltaFIFO α K :=
  if f.items id = [] then f.queueActionLocked id d else f

variable (key : α → K)

def add (f : DeltaFIFO α K) (obj : α) : DeltaFIFO α K :=
  { f with populated := true }.queueActionLocked (key obj) ⟨.added, obj, false⟩

def update (f : DeltaFIFO α K) (obj : α) : DeltaFIFO α K :=
  { f with populated := true }.queueActionLocked (key obj) ⟨.updated, obj, false⟩

/-- A deletion of what nobody knows is skipped. -/
def delete (f : DeltaFIFO α K) (knownObjects : Table key) (obj : α) : DeltaFIFO α K :=
  if knownObjects.find? (key obj) = none ∧ f.items (key obj) = [] then { f with populated := true }
  else { f with populated := true }.queueActionLocked (key obj) ⟨.deleted, obj, false⟩

section Replace
variable (f : DeltaFIFO α K) (keys : List K)

/-- The first loop of `Replace`. -/
def replaceListed (list : List α) : DeltaFIFO α K :=
  list.foldl (fun f item => f.queueActionLocked (key item) ⟨.replaced, item, false⟩) f

/-- Deletes what is queued for a key that is not listed; its last known object is that of the
newest delta. -/
def deleteQueued (f : DeltaFIFO α K) (k : K) : DeltaFIFO α K :=
  match (f.items k).getLast? with
  | some newest => f.queueActionLocked k ⟨.deleted, newest.object, true⟩
  | none => f

/-- Deletes a known object that nothing is queued for. -/
def deleteKnown (f : DeltaFIFO α K) (obj : α) : DeltaFIFO α K :=
  f.queueAbsent (key obj) ⟨.deleted, obj, true⟩

def replace (knownObjects : Table key) (list : List α) : DeltaFIFO α K :=
  let keys := list.map key
  let listed := f.replaceListed key list
  let queued := listed.queue.filter (· ∉ keys)
  let swept := queued.foldl deleteQueued listed
  let known := knownObjects.entries.filter (key · ∉ keys)
  let result := known.foldl (deleteKnown key) swept
  if f.populated then result
  else
    { result with
      populated := true
      initialPopulationCount := keys.dedup.length +
        (queued.length + (known.filter fun obj => swept.items (key obj) = []).length) }

end Replace

def syncKeyLocked (f : DeltaFIFO α K) (obj : α) : DeltaFIFO α K :=
  f.queueAbsent (key obj) ⟨.sync, obj, false⟩

def resync (f : DeltaFIFO α K) (knownObjects : Table key) : DeltaFIFO α K :=
  knownObjects.entries.foldl (syncKeyLocked key) f

def pop (f : DeltaFIFO α K) : Option (K × List (Delta α) × DeltaFIFO α K) :=
  match f.queue with
  | [] => none
  | id :: rest => some (id, f.items id,
      { f with
        items := Function.update f.items id []
        queue := rest
        initialPopulationCount := f.initialPopulationCount - 1 })

/-- Every key with deltas is queued once, and they are about the object with that key. -/
structure Valid (f : DeltaFIFO α K) : Prop where
  nodup : f.queue.Nodup
  queued : ∀ k, k ∈ f.queue ↔ f.items k ≠ []
  keyed : ∀ k, ∀ d ∈ f.items k, key d.object = k

variable {key} {f : DeltaFIFO α K} {j k : K} {d : Delta α}

omit [DecidableEq K] in
theorem valid_new : (new : DeltaFIFO α K).Valid key where
  nodup := List.nodup_nil
  queued := by simp [new]
  keyed := by simp [new]

theorem items_queueActionLocked : (f.queueActionLocked j d).items k =
    if k = j then dedupDeltas (f.items k ++ [d]) else f.items k := by
  unfold queueActionLocked
  dsimp only
  rw [Function.update_apply]
  split_ifs with h
  · rw [h]
  · rfl

theorem Valid.queueActionLocked (h : f.Valid key) (hd : key d.object = j) :
    (f.queueActionLocked j d).Valid key where
  nodup := by
    unfold DeltaFIFO.queueActionLocked
    dsimp only
    split_ifs with hj
    · refine h.nodup.append (List.nodup_singleton j) (List.disjoint_singleton.mpr fun hmem => ?_)
      exact (h.queued j).mp hmem hj
    · exact h.nodup
  queued k := by
    have hqueue : k ∈ (f.queueActionLocked j d).queue ↔ k = j ∨ k ∈ f.queue := by
      unfold DeltaFIFO.queueActionLocked
      dsimp only
      split_ifs with hj
      · rw [List.mem_append, List.mem_singleton, or_comm]
      · refine ⟨Or.inr, ?_⟩
        rintro (rfl | hk)
        · exact (h.queued k).mpr hj
        · exact hk
    rw [hqueue, items_queueActionLocked]
    split_ifs with hk
    · exact iff_of_true (Or.inl hk) dedupDeltas_snoc_ne_nil
    · rw [h.queued]
      exact or_iff_right hk
  keyed k e he := by
    rw [items_queueActionLocked] at he
    split_ifs at he with hk
    · rcases mem_dedupDeltas_snoc he with he | rfl
      · exact h.keyed k e he
      · exact hd.trans hk.symm
    · exact h.keyed k e he

/-- A loop that takes each key once and changes no other entry than the one of its key. -/
theorem items_foldl {γ : Type} {act : DeltaFIFO α K → γ → DeltaFIFO α K} {g : γ → K}
    {c : γ → List (Delta α) → List (Delta α)}
    (hact : ∀ f a k, (act f a).items k = if k = g a then c a (f.items k) else f.items k)
    {l : List γ} (hl : (l.map g).Nodup) (f : DeltaFIFO α K) (k : K) :
    (l.foldl act f).items k =
      match l.find? (fun a => g a = k) with
      | some a => c a (f.items k)
      | none => f.items k := by
  induction l generalizing f with
  | nil => rfl
  | cons a l ih =>
    rw [List.map_cons, List.nodup_cons] at hl
    rw [List.foldl_cons, ih hl.2, hact]
    by_cases h : g a = k
    · have hrest : l.find? (fun b => g b = k) = none := by
        rw [List.find?_eq_none]
        intro b hb hk
        rw [decide_eq_true_eq] at hk
        exact hl.1 (List.mem_map.mpr ⟨b, hb, hk.trans h.symm⟩)
      simp [h, hrest]
    · simp [h, Ne.symm h]

omit [DecidableEq K] in
theorem Valid.foldl {γ : Type} {act : DeltaFIFO α K → γ → DeltaFIFO α K} {l : List γ}
    (hact : ∀ f, f.Valid key → ∀ a ∈ l, (act f a).Valid key) (h : f.Valid key) :
    (l.foldl act f).Valid key := by
  induction l generalizing f with
  | nil => exact h
  | cons a l ih =>
    exact ih (fun f hf b hb => hact f hf b (List.mem_cons_of_mem _ hb))
      (hact f h a List.mem_cons_self)

theorem items_replaceListed (list : Table key) : (f.replaceListed key list.entries).items k =
    match list.find? k with
    | some x => f.items k ++ [⟨.replaced, x, false⟩]
    | none => f.items k := by
  refine items_foldl (g := key) (c := fun x ds => ds ++ [⟨.replaced, x, false⟩])
    (fun f x k => ?_) list.nodup f k
  rw [items_queueActionLocked, dedupDeltas_snoc_of_ne (by simp)]

/-- What `deleteQueued` does to the deltas of its key. -/
def sweepDeltas (ds : List (Delta α)) : List (Delta α) :=
  match ds.getLast? with
  | some newest => dedupDeltas (ds ++ [⟨.deleted, newest.object, true⟩])
  | none => ds

theorem items_deleteQueued : (f.deleteQueued j).items k =
    if k = j then sweepDeltas (f.items k) else f.items k := by
  unfold deleteQueued sweepDeltas
  cases h : (f.items j).getLast? with
  | none =>
    dsimp only
    split_ifs with hk
    · rw [hk, h]
    · rfl
  | some newest =>
    dsimp only
    rw [items_queueActionLocked]
    split_ifs with hk
    · rw [hk, h]
    · rfl

theorem items_queueAbsent : (f.queueAbsent j d).items k =
    if k = j then if f.items k = [] then [d] else f.items k else f.items k := by
  unfold queueAbsent
  by_cases hk : k = j
  · subst hk
    rw [if_pos rfl]
    split_ifs with hnil
    · simp [hnil, items_queueActionLocked, dedupDeltas_singleton]
    · rfl
  · rw [if_neg hk]
    split_ifs
    · rw [items_queueActionLocked, if_neg hk]
    · rfl

theorem Valid.replaceListed (h : f.Valid key) (list : List α) :
    (f.replaceListed key list).Valid key :=
  Valid.foldl (fun _ hf _ _ => hf.queueActionLocked rfl) h

theorem Valid.deleteQueued (h : f.Valid key) (k : K) : (f.deleteQueued k).Valid key := by
  unfold DeltaFIFO.deleteQueued
  split
  next newest hlast =>
    exact h.queueActionLocked (h.keyed k newest (List.mem_of_getLast? hlast))
  next => exact h

theorem Valid.queueAbsent (h : f.Valid key) (hd : key d.object = j) :
    (f.queueAbsent j d).Valid key := by
  unfold DeltaFIFO.queueAbsent
  split_ifs
  · exact h.queueActionLocked hd
  · exact h

omit [DecidableEq K] in
theorem Valid.of_eq {f' : DeltaFIFO α K} (h : f.Valid key) (hitems : f'.items = f.items)
    (hqueue : f'.queue = f.queue) : f'.Valid key where
  nodup := hqueue ▸ h.nodup
  queued k := by
    rw [hqueue, hitems]
    exact h.queued k
  keyed k := by
    rw [hitems]
    exact h.keyed k

theorem Valid.replace (h : f.Valid key) (knownObjects : Table key) (list : List α) :
    (f.replace key knownObjects list).Valid key := by
  have hswept : ∀ l : List K, (l.foldl DeltaFIFO.deleteQueued
      (f.replaceListed key list)).Valid key := fun l =>
    Valid.foldl (fun _ hf k _ => hf.deleteQueued k) (h.replaceListed list)
  have hknown : ∀ f : DeltaFIFO α K, f.Valid key → ∀ l : List α,
      (l.foldl (DeltaFIFO.deleteKnown key) f).Valid key := fun f hf l =>
    Valid.foldl (fun _ hf _ _ => hf.queueAbsent rfl) hf
  unfold DeltaFIFO.replace
  dsimp only
  split_ifs
  · exact hknown _ (hswept _) _
  · exact (hknown _ (hswept _) _).of_eq rfl rfl

@[simp] theorem sweepDeltas_nil : sweepDeltas ([] : List (Delta α)) = [] := rfl

theorem sweepDeltas_snoc (ds : List (Delta α)) (newest : Delta α) :
    sweepDeltas (ds ++ [newest]) =
      dedupDeltas (ds ++ [newest] ++ [⟨.deleted, newest.object, true⟩]) := by
  simp [sweepDeltas]

theorem sweepDeltas_ne_nil {ds : List (Delta α)} (h : ds ≠ []) : sweepDeltas ds ≠ [] := by
  induction ds using List.reverseRecOn with
  | nil => exact absurd rfl h
  | append_singleton ds newest _ =>
    rw [sweepDeltas_snoc]
    exact dedupDeltas_snoc_ne_nil

/-- The second loop of `Replace`. -/
theorem items_foldl_deleteQueued (h : f.Valid key) (keys : List K) (k : K) :
    ((f.queue.filter (· ∉ keys)).foldl deleteQueued f).items k =
      if k ∈ keys then f.items k else sweepDeltas (f.items k) := by
  have hnodup : ((f.queue.filter (· ∉ keys)).map fun k => k).Nodup := by
    rw [List.map_id']
    exact h.nodup.filter _
  rw [items_foldl (g := fun k => k) (c := fun _ ds => sweepDeltas ds)
    (fun f j k => items_deleteQueued) hnodup]
  cases hfind : (f.queue.filter (· ∉ keys)).find? (fun j => j = k) with
  | some j =>
    have hj : j = k := by simpa using List.find?_some hfind
    have hmem := List.mem_of_find?_eq_some hfind
    rw [hj, List.mem_filter, decide_eq_true_eq] at hmem
    rw [if_neg hmem.2]
  | none =>
    rw [List.find?_eq_none] at hfind
    split_ifs with hk
    · rfl
    · have hnil : f.items k = [] := by
        by_contra hne
        refine hfind k (List.mem_filter.mpr ⟨(h.queued k).mpr hne, ?_⟩) ?_
        · exact decide_eq_true hk
        · exact decide_eq_true rfl
      rw [hnil, sweepDeltas_nil]

/-- A loop over the known objects whose keys are not among `keys`. -/
theorem items_foldl_queueAbsent (knownObjects : Table key) (keys : List K) (act : α → Delta α)
    (k : K) :
    ((knownObjects.entries.filter (key · ∉ keys)).foldl
        (fun f x => f.queueAbsent (key x) (act x)) f).items k =
      if k ∉ keys ∧ f.items k = [] then (knownObjects.find? k).toList.map act
      else f.items k := by
  have hnodup : ((knownObjects.entries.filter (key · ∉ keys)).map key).Nodup :=
    knownObjects.nodup.sublist (List.filter_sublist.map key)
  rw [items_foldl (g := key) (c := fun x ds => if ds = [] then [act x] else ds)
    (fun f x k => items_queueAbsent) hnodup]
  have hfind : (knownObjects.entries.filter (key · ∉ keys)).find? (fun x => key x = k) =
      if k ∈ keys then none else knownObjects.find? k := by
    rw [List.find?_filter]
    split_ifs with hk
    · rw [List.find?_eq_none]
      intro x _ hx
      simp only [decide_eq_true_eq] at hx
      exact hx.1 (hx.2 ▸ hk)
    · refine congrArg (List.find? · knownObjects.entries) (funext fun x => ?_)
      by_cases hx : key x = k <;> simp [hx, hk]
  rw [hfind]
  by_cases hk : k ∈ keys
  · simp [hk]
  · cases knownObjects.find? k <;> by_cases hnil : f.items k = [] <;> simp [hk, hnil]

/-- What a list of the kind makes of the deltas of one key: the listed object, or the deletion
of the last one that is known. -/
theorem items_replace (h : f.Valid key) (knownObjects list : Table key) (k : K) :
    (f.replace key knownObjects list.entries).items k =
      match list.find? k with
      | some x => f.items k ++ [⟨.replaced, x, false⟩]
      | none =>
        if f.items k = [] then (knownObjects.find? k).toList.map fun x => ⟨.deleted, x, true⟩
        else sweepDeltas (f.items k) := by
  have hreplace : (f.replace key knownObjects list.entries).items =
      ((knownObjects.entries.filter (key · ∉ list.entries.map key)).foldl (deleteKnown key)
        (((f.replaceListed key list.entries).queue.filter (· ∉ list.entries.map key)).foldl
          deleteQueued (f.replaceListed key list.entries))).items := by
    unfold replace
    dsimp only
    split_ifs <;> rfl
  unfold deleteKnown at hreplace
  rw [hreplace, items_foldl_queueAbsent, items_foldl_deleteQueued (h.replaceListed list.entries),
    items_replaceListed]
  cases hfind : list.find? k with
  | some x =>
    obtain ⟨hx, hk⟩ := Table.find?_eq_some.mp hfind
    have hmem : k ∈ list.entries.map key := List.mem_map.mpr ⟨x, hx, hk⟩
    simp [hmem]
  | none =>
    have hmem : k ∉ list.entries.map key := by
      intro hk
      obtain ⟨x, hx, hk⟩ := List.mem_map.mp hk
      exact Table.find?_eq_none.mp hfind x hx hk
    by_cases hnil : f.items k = []
    · simp [hmem, hnil]
    · simp [hmem, hnil, sweepDeltas_ne_nil hnil]

theorem items_resync (knownObjects : Table key) (k : K) :
    (f.resync key knownObjects).items k =
      if f.items k = [] then (knownObjects.find? k).toList.map fun x => ⟨.sync, x, false⟩
      else f.items k := by
  have h := items_foldl_queueAbsent (f := f) knownObjects [] (fun x => ⟨.sync, x, false⟩) k
  simp only [List.not_mem_nil, not_false_eq_true, decide_true, List.filter_true, true_and] at h
  exact h

theorem Valid.resync (h : f.Valid key) (knownObjects : Table key) :
    (f.resync key knownObjects).Valid key :=
  Valid.foldl (fun _ hf _ _ => hf.queueAbsent rfl) h

theorem pop_eq_some {ds : List (Delta α)} {f' : DeltaFIFO α K} (h : f.pop = some (j, ds, f')) :
    ∃ rest, f.queue = j :: rest ∧ ds = f.items j ∧ f' = { f with
      items := Function.update f.items j []
      queue := rest
      initialPopulationCount := f.initialPopulationCount - 1 } := by
  unfold pop at h
  split at h
  · cases h
  next id rest hqueue =>
    cases h
    exact ⟨rest, hqueue, rfl, rfl⟩

theorem items_pop {ds : List (Delta α)} {f' : DeltaFIFO α K} (h : f.pop = some (j, ds, f')) :
    f'.items k = if k = j then [] else f.items k := by
  obtain ⟨rest, -, -, rfl⟩ := pop_eq_some h
  exact Function.update_apply ..

theorem Valid.pop (hf : f.Valid key) {ds : List (Delta α)} {f' : DeltaFIFO α K}
    (h : f.pop = some (j, ds, f')) : f'.Valid key where
  nodup := by
    obtain ⟨rest, hqueue, -, rfl⟩ := pop_eq_some h
    exact (List.nodup_cons.mp (hqueue ▸ hf.nodup)).2
  queued k := by
    rw [items_pop h]
    obtain ⟨rest, hqueue, -, rfl⟩ := pop_eq_some h
    have hnodup := List.nodup_cons.mp (hqueue ▸ hf.nodup)
    have hk := hf.queued k
    rw [hqueue, List.mem_cons] at hk
    split_ifs with hj
    · exact iff_of_false (hj ▸ hnodup.1) (by simp)
    · rw [← hk]
      exact (or_iff_right hj).symm
  keyed k d hd := by
    rw [items_pop h] at hd
    split_ifs at hd
    · cases hd
    · exact hf.keyed k d hd

/-- Keys are only added at the end of a queue that is in use. -/
structure Appends (f f' : DeltaFIFO α K) : Prop where
  queue : f.queue <+: f'.queue
  populated : f.populated = true → f'.populated = true
  count : f.populated = true → f'.initialPopulationCount = f.initialPopulationCount

omit [DecidableEq K] in
theorem Appends.refl (f : DeltaFIFO α K) : Appends f f := ⟨List.prefix_rfl, id, fun _ => rfl⟩

omit [DecidableEq K] in
theorem Appends.trans {f₁ f₂ f₃ : DeltaFIFO α K} (h : Appends f₁ f₂) (h' : Appends f₂ f₃) :
    Appends f₁ f₃ :=
  ⟨h.queue.trans h'.queue, fun hp => h'.populated (h.populated hp),
    fun hp => (h'.count (h.populated hp)).trans (h.count hp)⟩

omit [DecidableEq K] in
theorem Appends.foldl {γ : Type} {act : DeltaFIFO α K → γ → DeltaFIFO α K}
    (hact : ∀ f a, Appends f (act f a)) (l : List γ) (f : DeltaFIFO α K) :
    Appends f (l.foldl act f) := by
  induction l generalizing f with
  | nil => exact .refl f
  | cons a l ih => exact (hact f a).trans (ih (act f a))

theorem appends_queueActionLocked (f : DeltaFIFO α K) (j : K) (d : Delta α) :
    Appends f (f.queueActionLocked j d) where
  queue := by
    unfold queueActionLocked
    dsimp only
    split_ifs
    · exact List.prefix_append _ _
    · exact List.prefix_rfl
  populated := id
  count _ := rfl

theorem appends_queueAbsent (f : DeltaFIFO α K) (j : K) (d : Delta α) :
    Appends f (f.queueAbsent j d) := by
  unfold queueAbsent
  split_ifs
  · exact appends_queueActionLocked f j d
  · exact .refl f

theorem appends_deleteQueued (f : DeltaFIFO α K) (j : K) : Appends f (f.deleteQueued j) := by
  unfold deleteQueued
  split
  · exact appends_queueActionLocked f j _
  · exact .refl f

omit [DecidableEq K] in
theorem appends_populate (f : DeltaFIFO α K) : Appends f { f with populated := true } :=
  ⟨List.prefix_rfl, fun _ => rfl, fun _ => rfl⟩

theorem appends_delete (f : DeltaFIFO α K) (knownObjects : Table key) (obj : α) :
    Appends f (f.delete key knownObjects obj) := by
  unfold delete
  split_ifs
  · exact appends_populate f
  · exact (appends_populate f).trans (appends_queueActionLocked _ _ _)

theorem appends_replace (hf : f.populated = true) (knownObjects : Table key) (list : List α) :
    Appends f (f.replace key knownObjects list) := by
  unfold replace
  simp only [hf, ↓reduceIte]
  exact ((Appends.foldl (fun f _ => appends_queueActionLocked f _ _) list f).trans
    (Appends.foldl appends_deleteQueued _ _)).trans
    (Appends.foldl (fun f _ => appends_queueAbsent f _ _) _ _)

/-- The first list is queued whole, and its length is what has to be popped. -/
theorem replace_new (list : Table key) :
    ((new : DeltaFIFO α K).replace key Table.empty list.entries).queue = list.entries.map key ∧
      ((new : DeltaFIFO α K).replace key Table.empty list.entries).populated = true ∧
      ((new : DeltaFIFO α K).replace key Table.empty list.entries).initialPopulationCount =
        list.entries.length := by
  have hqueue : ∀ (l : List α) (f : DeltaFIFO α K), (l.map key).Nodup →
      (∀ x ∈ l, f.items (key x) = []) →
      (f.replaceListed key l).queue = f.queue ++ l.map key := by
    intro l
    induction l with
    | nil => simp [replaceListed]
    | cons x l ih =>
      intro f hl hitems
      rw [List.map_cons, List.nodup_cons] at hl
      have hx := hitems x List.mem_cons_self
      have hrest : ∀ y ∈ l,
          (f.queueActionLocked (key x) ⟨.replaced, x, false⟩).items (key y) = [] := by
        intro y hy
        rw [items_queueActionLocked, if_neg]
        · exact hitems y (List.mem_cons_of_mem _ hy)
        · exact fun hk => hl.1 (hk ▸ List.mem_map.mpr ⟨y, hy, rfl⟩)
      have hcons : f.replaceListed key (x :: l) =
          (f.queueActionLocked (key x) ⟨.replaced, x, false⟩).replaceListed key l := rfl
      rw [hcons, ih _ hl.2 hrest]
      simp [queueActionLocked, hx]
  have hlisted := hqueue list.entries new list.nodup fun _ _ => rfl
  have hsweep : ((new : DeltaFIFO α K).replaceListed key list.entries).queue.filter
      (· ∉ list.entries.map key) = [] := by
    rw [hlisted, List.filter_eq_nil_iff]
    intro k hk
    simpa [new] using hk
  unfold replace
  dsimp only
  rw [hsweep, if_neg (by simp [new])]
  refine ⟨hlisted, rfl, ?_⟩
  simp [Table.empty, list.nodup.dedup]

end DeltaFIFO
end FrpProvisioner
