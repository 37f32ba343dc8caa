import FrpProvisioner.Effect.Table
import Mathlib.Data.List.Perm.Basic

/-! The store behind an informer. Next to the objects it keeps indices, which are brought up
to date with each write instead of being computed when they are asked for. Over every sequence
of writes, an index gives the objects that have the value, each of them once. -/
namespace FrpProvisioner
open Effect

/-- A set of keys as an index keeps it: without doubles, and not for long once it is empty. -/
structure KeySet (κ : Type) where
  keys : List κ
  nodup : keys.Nodup
  nonempty : keys ≠ []

abbrev Index (κ : Type) := Assoc String (KeySet κ)

abbrev IndexFunc (α : Type) := α → List String

structure StoreIndex (κ α : Type) where
  indexers : Assoc String (IndexFunc α)
  indices : Assoc String (Index κ)

structure ThreadSafeMap (κ α : Type) where
  items : Assoc κ α
  index : StoreIndex κ α

section Operations
variable {κ α : Type} [DecidableEq κ]

namespace Index

def keys (index : Index κ) (value : String) : List κ := (index.get? value).elim [] KeySet.keys

def addKeyToIndex (key : κ) (index : Index κ) (indexValue : String) : Index κ :=
  index.set indexValue <|
    match index.get? indexValue with
    | none => ⟨[key], List.nodup_singleton key, List.cons_ne_nil key []⟩
    | some set => ⟨set.keys.insert key, set.nodup.insert, List.ne_nil_of_mem List.mem_insert_self⟩

def deleteKeyFromIndex (key : κ) (index : Index κ) (indexValue : String) : Index κ :=
  match index.get? indexValue with
  | none => index
  | some set =>
    if h : set.keys.erase key = [] then index.erase indexValue
    else index.set indexValue ⟨set.keys.erase key, set.nodup.erase key, h⟩

/-- The part of `updateIndices` for one index. -/
def update (f : IndexFunc α) (oldObj newObj : Option α) (key : κ) (index : Index κ) : Index κ :=
  let oldIndexValues := oldObj.elim [] f
  let indexValues := newObj.elim [] f
  if indexValues.length = 1 ∧ oldIndexValues.length = 1 ∧ indexValues = oldIndexValues then index
  else indexValues.foldl (addKeyToIndex key) (oldIndexValues.foldl (deleteKeyFromIndex key) index)

end Index

namespace StoreIndex

def reset (i : StoreIndex κ α) : StoreIndex κ α := { i with indices := Table.empty }

/-- One turn of the loop of `updateIndices`; an index that is not there yet is made. -/
def updateIndex (oldObj newObj : Option α) (key : κ) (indices : Assoc String (Index κ))
    (indexer : String × IndexFunc α) : Assoc String (Index κ) :=
  indices.set indexer.1 <|
    ((indices.get? indexer.1).getD Table.empty).update indexer.2 oldObj newObj key

def updateIndices (oldObj newObj : Option α) (key : κ) (i : StoreIndex κ α) : StoreIndex κ α :=
  { i with indices := i.indexers.entries.foldl (updateIndex oldObj newObj key) i.indices }

/-- `i.indices[indexName][indexedValue]`, which is nil for what is not there. -/
def keys (i : StoreIndex κ α) (indexName indexedValue : String) : List κ :=
  (i.indices.get? indexName).elim [] fun index => index.keys indexedValue

def getKeysByIndex (i : StoreIndex κ α) (indexName indexedValue : String) :
    Except String (List κ) :=
  match i.indexers.get? indexName with
  | none => .error ("Index with name " ++ indexName ++ " does not exist")
  | some _ => .ok (i.keys indexName indexedValue)

def addIndexers (newIndexers : Assoc String (IndexFunc α)) (i : StoreIndex κ α) :
    Except String (StoreIndex κ α) :=
  let conflict := newIndexers.entries.filter fun indexer => (i.indexers.get? indexer.1).isSome
  if conflict ≠ [] then
    .error ("indexer conflict: map[" ++ " ".intercalate
      ((conflict.map fun indexer => indexer.1 ++ ":\x7b\x7d").mergeSort) ++ "]")
  else
    .ok { i with indexers := newIndexers.entries.foldl (fun indexers indexer =>
      indexers.set indexer.1 indexer.2) i.indexers }

end StoreIndex

namespace ThreadSafeMap

def newThreadSafeStore (indexers : Assoc String (IndexFunc α)) : ThreadSafeMap κ α :=
  ⟨Table.empty, indexers, Table.empty⟩

/-- `Add` does the same. -/
def update (key : κ) (obj : α) (c : ThreadSafeMap κ α) : ThreadSafeMap κ α :=
  ⟨c.items.set key obj, c.index.updateIndices (c.items.get? key) (some obj) key⟩

def delete (key : κ) (c : ThreadSafeMap κ α) : ThreadSafeMap κ α :=
  match c.items.get? key with
  | none => c
  | some obj => ⟨c.items.erase key, c.index.updateIndices (some obj) none key⟩

def replace (items : Assoc κ α) (c : ThreadSafeMap κ α) : ThreadSafeMap κ α :=
  ⟨items, items.entries.foldl (fun index item => index.updateIndices none (some item.2) item.1)
    c.index.reset⟩

def addIndexers (newIndexers : Assoc String (IndexFunc α)) (c : ThreadSafeMap κ α) :
    Except String (ThreadSafeMap κ α) :=
  if c.items.entries ≠ [] then .error "cannot add indexers to running index"
  else (c.index.addIndexers newIndexers).map fun index => ⟨c.items, index⟩

def list (c : ThreadSafeMap κ α) : List α := c.items.entries.map Prod.snd

/-- An object that is not there would be nil. -/
def byIndex (c : ThreadSafeMap κ α) (indexName indexedValue : String) :
    Except String (List (Option α)) :=
  (c.index.getKeysByIndex indexName indexedValue).map fun set => set.map c.items.get?

/-- One write; indexers that are refused leave the store as it is. -/
inductive Write : ThreadSafeMap κ α → ThreadSafeMap κ α → Prop where
  | update (key : κ) (obj : α) {c : ThreadSafeMap κ α} : Write c (c.update key obj)
  | delete (key : κ) {c : ThreadSafeMap κ α} : Write c (c.delete key)
  | replace (items : Assoc κ α) {c : ThreadSafeMap κ α} : Write c (c.replace items)
  | addIndexers {newIndexers : Assoc String (IndexFunc α)} {c c' : ThreadSafeMap κ α} :
      c.addIndexers newIndexers = .ok c' → Write c c'

end ThreadSafeMap
end Operations

/-! ### One index -/

section Proofs
variable {κ α : Type} [DecidableEq κ]

namespace Index
variable {index : Index κ} {key k : κ} {v w : String}

omit [DecidableEq κ] in
theorem nodup_keys : (index.keys v).Nodup := by
  unfold keys
  cases index.get? v with
  | none => exact List.nodup_nil
  | some set => exact set.nodup

theorem keys_addKeyToIndex : (addKeyToIndex key index v).keys w =
    if w = v then (index.keys v).insert key else index.keys w := by
  unfold addKeyToIndex
  rw [keys, Assoc.get?_set]
  split_ifs with h
  · unfold keys
    cases index.get? v <;> rfl
  · rfl

theorem keys_deleteKeyFromIndex : (deleteKeyFromIndex key index v).keys w =
    if w = v then (index.keys v).erase key else index.keys w := by
  have hkeys : index.keys v = (index.get? v).elim [] KeySet.keys := rfl
  unfold deleteKeyFromIndex
  cases hv : index.get? v with
  | none =>
    rw [hv] at hkeys
    split_ifs with h
    · rw [h, hkeys]
      rfl
    · rfl
  | some set =>
    rw [hv] at hkeys
    dsimp only
    split_ifs with hempty h h
    · rw [keys, Assoc.get?_erase, if_pos h, hkeys]
      exact hempty.symm
    · rw [keys, Assoc.get?_erase, if_neg h]
      rfl
    · rw [keys, Assoc.get?_set, if_pos h, hkeys]
      rfl
    · rw [keys, Assoc.get?_set, if_neg h]
      rfl

theorem mem_foldl_addKeyToIndex (values : List String) :
    k ∈ (values.foldl (addKeyToIndex key) index).keys w ↔
      (k = key ∧ w ∈ values) ∨ k ∈ index.keys w := by
  induction values generalizing index with
  | nil => simp
  | cons v values ih =>
    rw [List.foldl_cons, ih, keys_addKeyToIndex]
    split_ifs with h
    · subst h
      simp only [List.mem_insert_iff, List.mem_cons, true_or, and_true]
      tauto
    · simp [h]

theorem mem_foldl_deleteKeyFromIndex (values : List String) :
    k ∈ (values.foldl (deleteKeyFromIndex key) index).keys w ↔
      k ∈ index.keys w ∧ ¬ (k = key ∧ w ∈ values) := by
  induction values generalizing index with
  | nil => simp
  | cons v values ih =>
    rw [List.foldl_cons, ih, keys_deleteKeyFromIndex]
    split_ifs with h
    · subst h
      simp only [nodup_keys.mem_erase_iff, List.mem_cons, true_or, and_true]
      tauto
    · simp [h]

/-- After an update the key is where the new object has it, and elsewhere nothing changes. -/
theorem mem_update {f : IndexFunc α} {oldObj newObj : Option α}
    (hold : ∀ w, key ∈ index.keys w ↔ w ∈ oldObj.elim [] f) :
    k ∈ (index.update f oldObj newObj key).keys w ↔
      if k = key then w ∈ newObj.elim [] f else k ∈ index.keys w := by
  unfold update
  dsimp only
  split_ifs with hsame hk hk
  · rw [hk, hold, hsame.2.2]
  · rfl
  · rw [mem_foldl_addKeyToIndex, mem_foldl_deleteKeyFromIndex]
    subst hk
    simp only [true_and, hold]
    tauto
  · rw [mem_foldl_addKeyToIndex, mem_foldl_deleteKeyFromIndex]
    simp [hk]

end Index

/-! ### All indices -/

namespace StoreIndex
variable {i : StoreIndex κ α} {content : κ → Option α} {key k : κ} {name v : String}

/-- The indices say of each object what the index functions do. -/
structure Reflects (i : StoreIndex κ α) (content : κ → Option α) : Prop where
  known : ∀ name, i.indexers.get? name = none → i.indices.get? name = none
  mem : ∀ name f, i.indexers.get? name = some f → ∀ v k,
    k ∈ i.keys name v ↔ ∃ obj, content k = some obj ∧ v ∈ f obj

omit [DecidableEq κ] in
theorem nodup_keys : (i.keys name v).Nodup := by
  unfold keys
  cases i.indices.get? name with
  | none => exact List.nodup_nil
  | some index => exact index.nodup_keys

/-- Each index is brought up to date on its own. -/
theorem get?_foldl_updateIndex (oldObj newObj : Option α) (key : κ)
    (indexers : List (String × IndexFunc α)) (hnodup : (indexers.map Prod.fst).Nodup)
    (indices : Assoc String (Index κ)) :
    (∀ f, (name, f) ∈ indexers →
      (indexers.foldl (updateIndex oldObj newObj key) indices).get? name =
        some (((indices.get? name).getD Table.empty).update f oldObj newObj key)) ∧
    (name ∉ indexers.map Prod.fst →
      (indexers.foldl (updateIndex oldObj newObj key) indices).get? name =
        indices.get? name) := by
  induction indexers generalizing indices with
  | nil => simp
  | cons indexer rest ih =>
    rw [List.map_cons, List.nodup_cons] at hnodup
    obtain ⟨hmem, hnot⟩ := ih hnodup.2 (updateIndex oldObj newObj key indices indexer)
    rw [List.foldl_cons]
    constructor
    · intro f hf
      rcases List.mem_cons.mp hf with rfl | hrest
      · rw [hnot hnodup.1, updateIndex, Assoc.get?_set, if_pos rfl]
      · have hne : name ≠ indexer.1 := by
          rintro rfl
          exact hnodup.1 (List.mem_map.mpr ⟨(indexer.1, f), hrest, rfl⟩)
        rw [hmem f hrest, updateIndex, Assoc.get?_set, if_neg hne]
    · intro hname
      rw [List.map_cons, List.mem_cons, not_or] at hname
      rw [hnot hname.2, updateIndex, Assoc.get?_set, if_neg hname.1]

theorem Reflects.updateIndices (h : i.Reflects content) (key : κ) (newObj : Option α) :
    (i.updateIndices (content key) newObj key).Reflects (Function.update content key newObj) := by
  constructor
  · intro name hname
    have hnone : i.indexers.get? name = none := hname
    have hnot : name ∉ i.indexers.entries.map Prod.fst := by
      intro hmem
      obtain ⟨⟨name', f⟩, hf, rfl⟩ := List.mem_map.mp hmem
      rw [Assoc.get?_eq_some.mpr hf] at hnone
      cases hnone
    exact ((get?_foldl_updateIndex _ newObj key _ i.indexers.nodup _).2 hnot).trans
      (h.known name hname)
  · intro name f hf v k
    have hget := (get?_foldl_updateIndex (content key) newObj key i.indexers.entries
      i.indexers.nodup i.indices).1 f (Assoc.get?_eq_some.mp hf)
    have hkeys : ∀ v, i.keys name v = ((i.indices.get? name).getD Table.empty).keys v := by
      intro v
      unfold StoreIndex.keys
      cases i.indices.get? name <;> rfl
    have hold : ∀ w, key ∈ ((i.indices.get? name).getD Table.empty).keys w ↔
        w ∈ (content key).elim [] f := by
      intro w
      rw [← hkeys, h.mem name f hf]
      cases content key <;> simp
    rw [StoreIndex.keys, StoreIndex.updateIndices, hget]
    refine (Index.mem_update hold).trans ?_
    split_ifs with hk
    · subst hk
      rw [Function.update_self]
      cases newObj <;> simp
    · rw [Function.update_of_ne hk, ← hkeys, h.mem name f hf]

/-- Objects with different keys are added one after the other. -/
theorem Reflects.foldl_updateIndices (h : i.Reflects content) {items : List (κ × α)}
    (hnodup : (items.map Prod.fst).Nodup) (hnew : ∀ item ∈ items, content item.1 = none)
    {final : κ → Option α} (hfinal : ∀ k, final k =
      ((items.find? fun item => item.1 = k).map Prod.snd).or (content k)) :
    (items.foldl (fun index item => index.updateIndices none (some item.2) item.1) i).Reflects
      final := by
  induction items generalizing i content with
  | nil =>
    obtain rfl : final = content := funext hfinal
    exact h
  | cons item items ih =>
    rw [List.map_cons, List.nodup_cons] at hnodup
    have hne : ∀ other ∈ items, other.1 ≠ item.1 := fun other hother heq =>
      hnodup.1 (heq ▸ List.mem_map_of_mem hother)
    have hfirst := h.updateIndices item.1 (some item.2)
    rw [hnew item List.mem_cons_self] at hfirst
    refine ih hfirst hnodup.2 (fun other hother => ?_) fun k => ?_
    · rw [Function.update_of_ne (hne other hother)]
      exact hnew other (List.mem_cons_of_mem _ hother)
    · rw [hfinal]
      by_cases hk : item.1 = k
      · subst hk
        have hnone : items.find? (fun other => other.1 = item.1) = none :=
          List.find?_eq_none.mpr fun other hother => by simpa using hne other hother
        simp [hnone]
      · simp [hk, Function.update_of_ne (Ne.symm hk)]

omit [DecidableEq κ] in
/-- New indexers have nothing to index yet. -/
theorem Reflects.addIndexers (h : i.Reflects fun _ => none)
    {newIndexers : Assoc String (IndexFunc α)} {i' : StoreIndex κ α}
    (hadd : i.addIndexers newIndexers = .ok i') : i'.Reflects fun _ => none := by
  unfold StoreIndex.addIndexers at hadd
  dsimp only at hadd
  split_ifs at hadd with hconflict
  obtain rfl := Except.ok.inj hadd
  have hkept : ∀ (l : List (String × IndexFunc α)) (old : Assoc String (IndexFunc α)) (name),
      (l.foldl (fun indexers indexer => indexers.set indexer.1 indexer.2) old).get? name = none →
        old.get? name = none := by
    intro l
    induction l with
    | nil => exact fun old name hnone => hnone
    | cons indexer l ih =>
      intro old name hnone
      have hset := ih _ name hnone
      rw [Assoc.get?_set] at hset
      split_ifs at hset
      exact hset
  refine ⟨fun name hname => h.known name (hkept _ _ name hname), fun name f hf v k => ?_⟩
  have hnil : i.keys name v = [] := by
    cases hold : i.indexers.get? name with
    | none =>
      unfold StoreIndex.keys
      rw [h.known name hold]
      rfl
    | some g =>
      rw [List.eq_nil_iff_forall_not_mem]
      intro k hk
      obtain ⟨obj, hobj, -⟩ := (h.mem name g hold v k).mp hk
      cases hobj
  have hmem : k ∈ i.keys name v ↔ ∃ obj, (none : Option α) = some obj ∧ v ∈ f obj := by
    simp [hnil]
  exact hmem

end StoreIndex

/-! ### The store -/

namespace ThreadSafeMap
variable {c c' : ThreadSafeMap κ α} {indexers : Assoc String (IndexFunc α)}

def Indexed (c : ThreadSafeMap κ α) : Prop := c.index.Reflects c.items.get?

theorem indexed_new : (newThreadSafeStore indexers : ThreadSafeMap κ α).Indexed :=
  ⟨fun _ _ => rfl, fun name f _ v k => by
    simp [newThreadSafeStore, StoreIndex.keys]⟩

theorem Indexed.update (h : c.Indexed) (key : κ) (obj : α) : (c.update key obj).Indexed := by
  have hget : (c.items.set key obj).get? = Function.update c.items.get? key (some obj) := by
    funext k
    rw [Assoc.get?_set, Function.update_apply]
  unfold Indexed ThreadSafeMap.update
  rw [hget]
  exact StoreIndex.Reflects.updateIndices h key (some obj)

theorem Indexed.delete (h : c.Indexed) (key : κ) : (c.delete key).Indexed := by
  unfold ThreadSafeMap.delete
  cases hkey : c.items.get? key with
  | none => exact h
  | some obj =>
    have hget : Assoc.get? (c.items.erase key) = Function.update c.items.get? key none := by
      funext k
      rw [Assoc.get?_erase, Function.update_apply]
    have hnext := StoreIndex.Reflects.updateIndices h key none
    rw [hkey, ← hget] at hnext
    exact hnext

theorem indexed_replace (items : Assoc κ α) : (c.replace items).Indexed := by
  have hreset : c.index.reset.Reflects fun _ => none :=
    ⟨fun _ _ => rfl, fun name f _ v k => by simp [StoreIndex.reset, StoreIndex.keys]⟩
  refine hreset.foldl_updateIndices items.nodup (fun _ _ => rfl) fun k => ?_
  rw [Option.or_none]
  rfl

omit [DecidableEq κ] in
theorem addIndexers_eq_ok (h : c.addIndexers indexers = .ok c') :
    c.items.entries = [] ∧ c'.items = c.items ∧
      c.index.addIndexers indexers = .ok c'.index := by
  unfold ThreadSafeMap.addIndexers at h
  split_ifs at h with hitems
  rw [not_not] at hitems
  cases hindex : c.index.addIndexers indexers with
  | error err => simp [hindex, Except.map] at h
  | ok index =>
    obtain rfl : (⟨c.items, index⟩ : ThreadSafeMap κ α) = c' := by
      simpa [hindex, Except.map] using h
    exact ⟨hitems, rfl, rfl⟩

theorem Indexed.addIndexers (h : c.Indexed) (hadd : c.addIndexers indexers = .ok c') :
    c'.Indexed := by
  obtain ⟨hempty, hitems, hindex⟩ := addIndexers_eq_ok hadd
  have hnone : c.items.get? = fun _ => none := by
    funext k
    simp [Assoc.get?, Table.find?, hempty]
  unfold Indexed at h ⊢
  rw [hitems, hnone]
  rw [hnone] at h
  exact h.addIndexers hindex

theorem Indexed.write (h : c.Indexed) (hw : Write c c') : c'.Indexed := by
  cases hw with
  | update key obj => exact h.update key obj
  | delete key => exact h.delete key
  | replace items => exact indexed_replace items
  | addIndexers hadd => exact h.addIndexers hadd

/-- Over every sequence of writes the indices stay those of the items. -/
theorem indexed_of_writes (h : Relation.ReflTransGen Write (newThreadSafeStore indexers) c) :
    c.Indexed := by
  induction h with
  | refl => exact indexed_new
  | tail _ last ih => exact ih.write last

omit [DecidableEq κ] in
theorem map_some_filterMap {f : κ → Option α} {l : List κ} (h : ∀ k ∈ l, ∃ obj, f k = some obj) :
    (l.filterMap f).map some = l.map f := by
  induction l with
  | nil => rfl
  | cons k l ih =>
    obtain ⟨obj, hobj⟩ := h k List.mem_cons_self
    rw [List.filterMap_cons_some hobj, List.map_cons, List.map_cons, hobj,
      ih fun k hk => h k (List.mem_cons_of_mem _ hk)]

/-- An index gives what would be found by going through all objects: no entry is stale, none
is missing and none is there twice. -/
theorem Indexed.byIndex (h : c.Indexed) {name : String} {f : IndexFunc α}
    (hf : c.index.indexers.get? name = some f) (v : String) :
    ∃ objs : List α, c.byIndex name v = .ok (objs.map some) ∧
      objs.Perm (c.list.filter fun obj => v ∈ f obj) := by
  have hmem := h.mem name f hf v
  -- the keys of the index are those of the items that have the value
  have hkeys : (c.index.keys name v).Perm
      ((c.items.entries.filter fun item => v ∈ f item.2).map Prod.fst) := by
    refine (List.perm_ext_iff_of_nodup StoreIndex.nodup_keys
      (c.items.nodup.sublist (List.filter_sublist.map _))).mpr fun k => ?_
    rw [hmem, List.mem_map]
    constructor
    · rintro ⟨obj, hobj, hv⟩
      exact ⟨(k, obj), List.mem_filter.mpr ⟨Assoc.get?_eq_some.mp hobj, by simpa using hv⟩, rfl⟩
    · rintro ⟨⟨k, obj⟩, hitem, rfl⟩
      obtain ⟨hitem, hv⟩ := List.mem_filter.mp hitem
      exact ⟨obj, Assoc.get?_eq_some.mpr hitem, by simpa using hv⟩
  have hitems : ((c.items.entries.filter fun item => v ∈ f item.2).map Prod.fst).filterMap
      c.items.get? = c.list.filter fun obj => v ∈ f obj := by
    rw [list, List.filter_map, List.filterMap_map, ← List.filterMap_eq_map]
    refine List.filterMap_congr fun item hitem => ?_
    exact Assoc.get?_eq_some.mpr (List.mem_of_mem_filter hitem)
  refine ⟨(c.index.keys name v).filterMap c.items.get?, ?_, hitems ▸ hkeys.filterMap _⟩
  rw [map_some_filterMap fun k hk => ?_]
  · simp [ThreadSafeMap.byIndex, StoreIndex.getKeysByIndex, hf, Except.map]
  · obtain ⟨obj, hobj, -⟩ := (hmem k).mp hk
    exact ⟨obj, hobj⟩

/-- Whatever was written, an index gives the objects that have the value, each of them once. -/
theorem byIndex_of_writes (h : Relation.ReflTransGen Write (newThreadSafeStore indexers) c)
    {name : String} {f : IndexFunc α} (hf : c.index.indexers.get? name = some f) (v : String) :
    ∃ objs : List α, c.byIndex name v = .ok (objs.map some) ∧
      objs.Perm (c.list.filter fun obj => v ∈ f obj) :=
  (indexed_of_writes h).byIndex hf v

section Sample

/-- An index of the namespaces of objects that are pairs of a namespace and a name. -/
private def byNamespace : Assoc String (IndexFunc (String × String)) :=
  Assoc.set .empty "namespace" fun obj => [obj.1]

private def moved : ThreadSafeMap String (String × String) :=
  (((newThreadSafeStore byNamespace).update "a" ("default", "a")).update "b"
    ("default", "b")).update "b" ("frp-system", "b")

/-- An object that is written again elsewhere is no longer found where it was. -/
theorem byIndex_of_writes_moved :
    ∃ objs : List (String × String), moved.byIndex "namespace" "default" = .ok (objs.map some) ∧
      objs.Perm [("default", "a")] := by
  have hwrites : Relation.ReflTransGen Write (newThreadSafeStore byNamespace) moved :=
    .tail (.tail (.tail .refl (.update _ _)) (.update _ _)) (.update _ _)
  obtain ⟨objs, hobjs, hperm⟩ := byIndex_of_writes hwrites
    (show moved.index.indexers.get? "namespace" = some fun obj => [obj.1] from rfl) "default"
  exact ⟨objs, hobjs, hperm.trans (.of_eq (by decide))⟩

end Sample

section Table
variable {key : α → κ} {t : Table key}

/-- The store has the objects of a table, under their keys. -/
structure Holds (c : ThreadSafeMap κ α) (t : Table key) : Prop where
  items : ∀ k, c.items.get? k = t.find? k
  indexed : c.Indexed

theorem holds_new :
    (newThreadSafeStore indexers : ThreadSafeMap κ α).Holds (Table.empty : Table key) :=
  ⟨fun _ => rfl, indexed_new⟩

theorem Holds.addIndexers (h : c.Holds t) (hadd : c.addIndexers indexers = .ok c') :
    c'.Holds t := by
  obtain ⟨-, hitems, -⟩ := addIndexers_eq_ok hadd
  exact ⟨hitems ▸ h.items, h.indexed.addIndexers hadd⟩

theorem Holds.update (h : c.Holds t) (obj : α) : (c.update (key obj) obj).Holds (t.upsert obj) := by
  refine ⟨fun k => ?_, h.indexed.update (key obj) obj⟩
  rw [Table.find?_upsert, ← h.items]
  exact Assoc.get?_set

theorem Holds.delete (h : c.Holds t) (k : κ) : (c.delete k).Holds (t.erase k) := by
  refine ⟨fun l => ?_, h.indexed.delete k⟩
  rw [Table.find?_erase, ← h.items]
  unfold ThreadSafeMap.delete
  cases hk : c.items.get? k with
  | none =>
    split_ifs with hl
    · rw [hl, hk]
    · rfl
  | some obj => exact Assoc.get?_erase

theorem Holds.list_perm (h : c.Holds t) : c.list.Perm t.entries := by
  have hmem : ∀ k obj, (k, obj) ∈ c.items ↔ obj ∈ t ∧ key obj = k := by
    intro k obj
    rw [← Assoc.get?_eq_some, h.items, Table.find?_eq_some]
  have hkeys : c.list.map key = c.items.entries.map Prod.fst := by
    rw [list, List.map_map]
    exact List.map_congr_left fun item hitem => ((hmem item.1 item.2).mp hitem).2
  refine (List.perm_ext_iff_of_nodup (.of_map key ?_) (.of_map key t.nodup)).mpr fun obj => ?_
  · rw [hkeys]
    exact c.items.nodup
  · rw [list, List.mem_map]
    constructor
    · rintro ⟨⟨k, obj⟩, hitem, rfl⟩
      exact ((hmem k obj).mp hitem).1
    · intro hobj
      exact ⟨(key obj, obj), (hmem _ _).mpr ⟨hobj, rfl⟩, rfl⟩

theorem Holds.byIndex (h : c.Holds t) {name : String} {f : IndexFunc α}
    (hf : c.index.indexers.get? name = some f) (v : String) :
    ∃ objs : List α, c.byIndex name v = .ok (objs.map some) ∧
      objs.Perm (t.entries.filter fun obj => v ∈ f obj) := by
  obtain ⟨objs, hobjs, hperm⟩ := h.indexed.byIndex hf v
  exact ⟨objs, hobjs, hperm.trans (h.list_perm.filter _)⟩

end Table

end ThreadSafeMap
end Proofs
end FrpProvisioner
