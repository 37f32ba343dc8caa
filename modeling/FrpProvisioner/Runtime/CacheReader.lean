import FrpProvisioner.Runtime.Handlers
import FrpProvisioner.Runtime.ThreadSafeStore

/-! The reader of a cache, over the store that the informer of a kind has filled. A list goes
through an index where one is asked for, and through all objects otherwise; either way it gives
the objects that the options describe. -/
namespace FrpProvisioner
open Effect
variable {β : Type}

def namespaceIndex : String := "namespace"

def metaNamespaceIndexFunc : IndexFunc (Object β) := fun obj => [obj.ns]

def fieldIndexName (field : String) : String := "field:" ++ field

def allNamespacesNamespace : String := "__all_namespaces"

def keyToNamespacedKey (ns baseKey : String) : String :=
  if ns ≠ "" then ns ++ "/" ++ baseKey else allNamespacesNamespace ++ "/" ++ baseKey

/-- The index function that `indexByField` makes of an extractor; the values of an object with
a namespace are there twice. -/
def fieldIndexFunc (extractValue : Object β → List String) : IndexFunc (Object β) := fun obj =>
  let rawVals := extractValue obj
  rawVals.map (keyToNamespacedKey obj.ns) ++
    if obj.ns = "" then [] else rawVals.map (keyToNamespacedKey "")

abbrev ObjectStore (β : Type) := ThreadSafeMap NamespacedName (Object β)

def newIndexer : ObjectStore β :=
  .newThreadSafeStore (Assoc.set .empty namespaceIndex metaNamespaceIndexFunc)

def indexByField (c : ObjectStore β) (field : String) (extractValue : Object β → List String) :
    Except String (ObjectStore β) :=
  c.addIndexers (Assoc.set .empty (fieldIndexName field) (fieldIndexFunc extractValue))

inductive FieldOperator where
  | equals | doubleEquals | notEquals
  deriving DecidableEq, Repr

structure FieldRequirement where
  operator : FieldOperator
  field : String
  value : String
  deriving DecidableEq, Repr

/-- `selector.RequiresExactMatch` of the requirements of a field selector. -/
def requiresExactMatch : List FieldRequirement → Option (String × String)
  | [req] => if req.operator = .notEquals then none else some (req.field, req.value)
  | _ => none

theorem requiresExactMatch_eq_some {sel : List FieldRequirement} {field val : String}
    (h : requiresExactMatch sel = some (field, val)) :
    ∃ operator, sel = [⟨operator, field, val⟩] := by
  unfold requiresExactMatch at h
  split at h
  next req =>
    split_ifs at h
    obtain ⟨rfl, rfl⟩ := Prod.mk.inj (Option.some.inj h)
    exact ⟨req.operator, rfl⟩
  next => cases h

structure ListOptions where
  labelSelector : Option Selector
  fieldSelector : Option (List FieldRequirement)
  ns : String
  limit : ℤ
  continueToken : String

namespace CacheReader

/-- Without a selector every object matches. -/
def labelsMatch (labelSel : Option Selector) (obj : Object β) : Bool :=
  labelSel.all (· obj.labels)

/-- `Get`, for a kind that is written as `resource`. -/
def get (c : ObjectStore β) (scopeName : RestScope) (resource : String) (key : NamespacedName) :
    Except GoError (Object β) :=
  match c.items.get? (if scopeName = .root then { key with ns := "" } else key) with
  | some obj => .ok obj
  | none => .error (.status ⟨.notFound, 404, resource ++ " \"" ++ key.name ++ "\" not found"⟩)

def candidates (c : ObjectStore β) (opts : ListOptions) :
    Except String (List (Option (Object β))) :=
  match opts.fieldSelector with
  | some sel =>
    match requiresExactMatch sel with
    | none => .error "non-exact field matches are not supported by the cache"
    | some (field, val) => c.byIndex (fieldIndexName field) (keyToNamespacedKey opts.ns val)
  | none =>
    if opts.ns ≠ "" then c.byIndex namespaceIndex opts.ns else .ok (c.list.map some)

def collect (labelSel : Option Selector) (limit : ℤ) :
    List (Object β) → List (Option (Object β)) → Except String (List (Object β))
  | runtimeObjs, [] => .ok runtimeObjs
  | runtimeObjs, item :: objs =>
    if 0 < limit ∧ limit ≤ runtimeObjs.length then .ok runtimeObjs
    else
      match item with
      | none => .error "cache contained <nil>, which is not an Object"
      | some obj =>
        if labelsMatch labelSel obj then collect labelSel limit (runtimeObjs ++ [obj]) objs
        else collect labelSel limit runtimeObjs objs

def list (c : ObjectStore β) (opts : ListOptions) : Except String (List (Object β)) :=
  if opts.continueToken ≠ "" then .error "continue list option is not supported by the cache"
  else do
    let objs ← candidates c opts
    collect opts.labelSelector opts.limit [] objs

end CacheReader

/-! ### Lists -/

namespace ListOptions

/-- What a limit leaves. -/
def cut {α : Type} (opts : ListOptions) (objs : List α) : List α :=
  if 0 < opts.limit then objs.take opts.limit.toNat else objs

/-- What the options say of an object; `values` are those of its fields. -/
def Describes (opts : ListOptions) (values : String → Object β → List String) (obj : Object β) :
    Prop :=
  (opts.ns = "" ∨ obj.ns = opts.ns) ∧ CacheReader.labelsMatch opts.labelSelector obj = true ∧
    ∀ req ∈ opts.fieldSelector.getD [], req.value ∈ values req.field obj

instance (opts : ListOptions) (values : String → Object β → List String) (obj : Object β) :
    Decidable (opts.Describes values obj) := inferInstanceAs (Decidable (_ ∧ _ ∧ _))

end ListOptions

/-- A name without slashes, as those of namespaces are. -/
def Plain (ns : String) : Prop := '/' ∉ ns.toList

instance (ns : String) : Decidable (Plain ns) := inferInstanceAs (Decidable (_ ∉ _))

theorem append_slash_inj {a b x y : String} (ha : Plain a) (hb : Plain b) :
    a ++ "/" ++ x = b ++ "/" ++ y ↔ a = b ∧ x = y := by
  constructor
  · intro h
    have hlist : a.toList ++ '/' :: x.toList = b.toList ++ '/' :: y.toList := by
      simpa using congrArg String.toList h
    have hcut : ∀ {l r : List Char}, '/' ∉ l →
        (l ++ '/' :: r).takeWhile (· ≠ '/') = l ∧
          (l ++ '/' :: r).dropWhile (· ≠ '/') = '/' :: r := by
      intro l r hl
      have hall : ∀ c ∈ l, decide (c ≠ '/') = true := by
        intro c hc
        rw [decide_eq_true_eq]
        rintro rfl
        exact hl hc
      constructor
      · rw [List.takeWhile_append_of_pos hall]
        simp
      · rw [List.dropWhile_append_of_pos hall]
        simp
    have hname : a.toList = b.toList := by
      rw [← (hcut (r := x.toList) ha).1, hlist, (hcut hb).1]
    have hrest : '/' :: x.toList = '/' :: y.toList := by
      rw [← (hcut (r := x.toList) ha).2, hlist, (hcut hb).2]
    exact ⟨String.toList_inj.mp hname, String.toList_inj.mp (List.cons.inj hrest).2⟩
  · rintro ⟨rfl, rfl⟩
    rfl

/-- The name that stands for a namespace in the keys of a field index. -/
def indexedNamespace (ns : String) : String := if ns = "" then allNamespacesNamespace else ns

theorem plain_indexedNamespace {ns : String} (h : Plain ns) : Plain (indexedNamespace ns) := by
  unfold indexedNamespace
  split_ifs
  · decide
  · exact h

theorem keyToNamespacedKey_inj {m ns x y : String} (hm : Plain m) (hns : Plain ns) :
    keyToNamespacedKey m x = keyToNamespacedKey ns y ↔
      indexedNamespace m = indexedNamespace ns ∧ x = y := by
  have heq : ∀ ns x, keyToNamespacedKey ns x = indexedNamespace ns ++ "/" ++ x := by
    intro ns x
    unfold keyToNamespacedKey indexedNamespace
    by_cases hns : ns = "" <;> simp [hns]
  rw [heq, heq, append_slash_inj (plain_indexedNamespace hm) (plain_indexedNamespace hns)]

/-- The key of a field's value in a namespace is a value of the objects that have it there. No
namespace has a slash in its name, and none has the name that stands for all of them. -/
theorem mem_fieldIndexFunc {extractValue : Object β → List String} {obj : Object β}
    {ns val : String} (hns : Plain ns) (hall : ns ≠ allNamespacesNamespace)
    (hobj : Plain obj.ns) :
    keyToNamespacedKey ns val ∈ fieldIndexFunc extractValue obj ↔
      (ns = "" ∨ obj.ns = ns) ∧ val ∈ extractValue obj := by
  have hmem : ∀ {m : String}, Plain m →
      (keyToNamespacedKey ns val ∈ (extractValue obj).map (keyToNamespacedKey m) ↔
        indexedNamespace m = indexedNamespace ns ∧ val ∈ extractValue obj) := by
    intro m hm
    simp only [List.mem_map, keyToNamespacedKey_inj hm hns]
    constructor
    · rintro ⟨v, hv, hname, rfl⟩
      exact ⟨hname, hv⟩
    · rintro ⟨hname, hv⟩
      exact ⟨val, hv, hname, rfl⟩
  unfold fieldIndexFunc
  dsimp only
  rw [List.mem_append, hmem hobj]
  by_cases hempty : obj.ns = ""
  · rw [if_pos hempty, hempty]
    by_cases hsame : ns = ""
    · simp [indexedNamespace, hsame]
    · simp [indexedNamespace, hsame, hall.symm, Ne.symm hsame]
  · rw [if_neg hempty, hmem (by decide)]
    by_cases hsame : ns = "" <;> simp [indexedNamespace, hsame, hempty, hall.symm]

namespace CacheReader
variable {c : ObjectStore β} {t : Table (Object.key : Object β → NamespacedName)}
  {opts : ListOptions}

theorem collect_map_some {labelSel : Option Selector} {limit : ℤ} (objs : List (Object β))
    {out : List (Object β)} (hout : 0 < limit → out.length ≤ limit.toNat) :
    collect labelSel limit out (objs.map some) = .ok (out ++
      if 0 < limit then (objs.filter (labelsMatch labelSel)).take (limit.toNat - out.length)
      else objs.filter (labelsMatch labelSel)) := by
  induction objs generalizing out with
  | nil => simp [collect]
  | cons obj objs ih =>
    rw [List.map_cons, collect]
    by_cases hfull : 0 < limit ∧ limit ≤ out.length
    · have hnone : limit.toNat - out.length = 0 := by omega
      simp [hfull, hnone]
    · rw [if_neg hfull]
      by_cases hobj : labelsMatch labelSel obj = true
      · have hroom : 0 < limit → limit.toNat - out.length = limit.toNat - (out.length + 1) + 1 := by
          omega
        rw [if_pos hobj, ih (by simp; omega), List.filter_cons_of_pos hobj]
        by_cases hlimit : 0 < limit
        · simp [hlimit, hroom hlimit]
        · simp [hlimit]
      · rw [if_neg hobj, ih hout, List.filter_cons_of_neg hobj]

theorem list_of_candidates (hcontinue : opts.continueToken = "") {objs : List (Object β)}
    (h : candidates c opts = .ok (objs.map some)) :
    list c opts = .ok (opts.cut (objs.filter (labelsMatch opts.labelSelector))) := by
  have hcollect : collect opts.labelSelector opts.limit [] (objs.map some) =
      .ok (opts.cut (objs.filter (labelsMatch opts.labelSelector))) := by
    rw [collect_map_some objs (by simp)]
    simp [ListOptions.cut]
  simp [list, hcontinue, h, bind, Except.bind, hcollect]

/-- The indexers of a store: that of the namespaces, and those of the fields. -/
structure Serves (c : ObjectStore β) (values : String → Object β → List String)
    (fields : List String) : Prop where
  byNamespace : c.index.indexers.get? namespaceIndex = some metaNamespaceIndexFunc
  byField : ∀ field ∈ fields,
    c.index.indexers.get? (fieldIndexName field) = some (fieldIndexFunc (values field))

/-- Options that the cache can answer. A field selector needs an index, and names of
namespaces without slashes, none of them the name that stands for all. -/
structure Answerable (opts : ListOptions) (fields : List String)
    (t : Table (Object.key : Object β → NamespacedName)) : Prop where
  noContinue : opts.continueToken = ""
  exact : ∀ sel, opts.fieldSelector = some sel →
    ∃ field val, requiresExactMatch sel = some (field, val) ∧ field ∈ fields
  ns : opts.fieldSelector ≠ none → Plain opts.ns ∧ opts.ns ≠ allNamespacesNamespace
  plain : opts.fieldSelector ≠ none → ∀ obj ∈ t, Plain obj.ns

/-- A list gives the objects that its options describe, each of them once, or as many of them
as the limit allows. -/
theorem list_eq_ok {values : String → Object β → List String} {fields : List String}
    (h : c.Holds t) (hserves : Serves c values fields) (hopts : Answerable opts fields t) :
    ∃ objs : List (Object β), objs.Perm (t.entries.filter fun obj => opts.Describes values obj) ∧
      list c opts = .ok (opts.cut objs) := by
  -- it is enough to know what the candidates are
  suffices hcandidates : ∃ objs : List (Object β), candidates c opts = .ok (objs.map some) ∧
      objs.Perm (t.entries.filter fun obj => (opts.ns = "" ∨ obj.ns = opts.ns) ∧
        ∀ req ∈ opts.fieldSelector.getD [], req.value ∈ values req.field obj) by
    obtain ⟨objs, hobjs, hperm⟩ := hcandidates
    refine ⟨_, (hperm.filter (labelsMatch opts.labelSelector)).trans ?_,
      list_of_candidates hopts.noContinue hobjs⟩
    rw [List.filter_filter]
    refine .of_eq (List.filter_congr fun obj _ => ?_)
    rw [Bool.eq_iff_iff]
    simp only [Bool.and_eq_true, decide_eq_true_eq]
    unfold ListOptions.Describes
    tauto
  unfold candidates
  cases hsel : opts.fieldSelector with
  | none =>
    simp only [Option.getD_none, List.not_mem_nil, false_implies, implies_true, and_true]
    by_cases hempty : opts.ns = ""
    · refine ⟨c.list, by simp [hempty], ?_⟩
      simpa [hempty] using h.list_perm
    · obtain ⟨objs, hobjs, hperm⟩ := h.byIndex hserves.byNamespace opts.ns
      refine ⟨objs, by simpa [hempty] using hobjs, hperm.trans (.of_eq ?_)⟩
      refine List.filter_congr fun obj _ => ?_
      simp [metaNamespaceIndexFunc, hempty, eq_comm]
  | some sel =>
    obtain ⟨field, val, hexact, hmem⟩ := hopts.exact sel hsel
    obtain ⟨hns, hall⟩ := hopts.ns (by simp [hsel])
    have hplain := hopts.plain (by simp [hsel])
    obtain ⟨objs, hobjs, hperm⟩ := h.byIndex (hserves.byField field hmem)
      (keyToNamespacedKey opts.ns val)
    refine ⟨objs, by simpa [hexact] using hobjs, hperm.trans (.of_eq ?_)⟩
    refine List.filter_congr fun obj hobj => ?_
    obtain ⟨operator, rfl⟩ := requiresExactMatch_eq_some hexact
    simp [mem_fieldIndexFunc hns hall (hplain obj hobj)]

end CacheReader

/-! ### The informer that fills the store -/

namespace ThreadSafeMap
variable {α K : Type} [DecidableEq K] {key : α → K}

/-- What one delta of `processDeltas` does to the store; `Add` and `Update` do the same. -/
def applyDelta (key : α → K) (c : ThreadSafeMap K α) (d : Delta α) : ThreadSafeMap K α :=
  match d.type with
  | .deleted => c.delete (key d.object)
  | .sync | .replaced | .added | .updated => c.update (key d.object) d.object

/-- `HandleDeltas` of what is popped from the queue. -/
def handleDeltas (c : ThreadSafeMap K α) (inf : Informer key) : ThreadSafeMap K α :=
  match inf.fifo.pop with
  | none => c
  | some (_, deltas, _) => deltas.foldl (applyDelta key) c

theorem Holds.applyDelta {c : ThreadSafeMap K α} {t : Table key} (h : c.Holds t) (d : Delta α) :
    (c.applyDelta key d).Holds (FrpProvisioner.applyDelta t d).1 := by
  unfold ThreadSafeMap.applyDelta FrpProvisioner.applyDelta
  cases d.type with
  | deleted => exact h.delete _
  | sync | replaced | added | updated =>
    cases t.find? (key d.object) <;> exact h.update d.object

theorem Holds.processDeltas {c : ThreadSafeMap K α} {t : Table key} (h : c.Holds t)
    (version : α → ℕ) (syncing : Bool) (ds : List (Delta α)) :
    (ds.foldl (ThreadSafeMap.applyDelta key) c).Holds (processDeltas version syncing t ds).1 := by
  induction ds generalizing c t with
  | nil => exact h
  | cons d ds ih => exact ih (h.applyDelta d)

theorem indexers_foldl_applyDelta (c : ThreadSafeMap K α) (ds : List (Delta α)) :
    (ds.foldl (ThreadSafeMap.applyDelta key) c).index.indexers = c.index.indexers := by
  have hone : ∀ (c : ThreadSafeMap K α) d,
      (c.applyDelta key d).index.indexers = c.index.indexers := by
    intro c d
    unfold ThreadSafeMap.applyDelta ThreadSafeMap.delete
    cases d.type <;> cases c.items.get? (key d.object) <;> rfl
  induction ds generalizing c with
  | nil => rfl
  | cons d ds ih => exact (ih _).trans (hone c d)

end ThreadSafeMap

namespace Informer
variable {α K : Type} [DecidableEq K] [DecidableEq α] {key : α → K}

/-- The store that an informer has filled: only what it pops from its queue gets there. -/
inductive Fills (version : α → ℕ) (indexer : ThreadSafeMap K α) :
    Informer key → ThreadSafeMap K α → Prop where
  | new : Fills version indexer .new indexer
  | record {inf : Informer key} {c : ThreadSafeMap K α} (old content : Table key) :
      Fills version indexer inf c → Fills version indexer (inf.record old content) c
  | disconnect {inf : Informer key} {c : ThreadSafeMap K α} :
      Fills version indexer inf c → Fills version indexer inf.disconnect c
  | relist {inf : Informer key} {c : ThreadSafeMap K α} (stored : Table key) :
      Fills version indexer inf c → Fills version indexer (inf.relist stored) c
  | event {inf : Informer key} {c : ThreadSafeMap K α} :
      Fills version indexer inf c → Fills version indexer inf.watchHandler c
  | resync {inf : Informer key} {c : ThreadSafeMap K α} :
      Fills version indexer inf c → Fills version indexer inf.resync c
  | pop {inf : Informer key} {c : ThreadSafeMap K α} (syncing : Bool) :
      Fills version indexer inf c →
      Fills version indexer (inf.handleDeltas version syncing) (c.handleDeltas inf)
  | deliver {inf : Informer key} {c : ThreadSafeMap K α} (rest : List (Notification α)) :
      Fills version indexer inf c →
      Fills version indexer { inf with pendingNotifications := rest } c

variable {version : α → ℕ} {indexer c : ThreadSafeMap K α} {inf inf' : Informer key}

/-- The store has what the informer's table has. -/
theorem Fills.holds (h : Fills version indexer inf c)
    (hnew : indexer.Holds (Table.empty : Table key)) : c.Holds inf.indexer := by
  induction h with
  | new => exact hnew
  | record old content _ ih => rwa [record_indexer]
  | disconnect _ ih => exact ih
  | relist stored _ ih => exact ih
  | event _ ih => rwa [watchHandler_indexer]
  | resync _ ih => exact ih
  | deliver rest _ ih => exact ih
  | @pop inf c syncing _ ih =>
    unfold Informer.handleDeltas ThreadSafeMap.handleDeltas
    cases inf.fifo.pop with
    | none => exact ih
    | some popped => exact ih.processDeltas version syncing popped.2.1

theorem Fills.indexers (h : Fills version indexer inf c) :
    c.index.indexers = indexer.index.indexers := by
  induction h with
  | new => rfl
  | record old content _ ih => exact ih
  | disconnect _ ih => exact ih
  | relist stored _ ih => exact ih
  | event _ ih => exact ih
  | resync _ ih => exact ih
  | deliver rest _ ih => exact ih
  | @pop inf c syncing _ ih =>
    unfold ThreadSafeMap.handleDeltas
    cases inf.fifo.pop with
    | none => exact ih
    | some popped => exact (ThreadSafeMap.indexers_foldl_applyDelta c popped.2.1).trans ih

theorem Fills.moves {κ : Type} {handle : Notification α → List κ} {added : List κ}
    (h : Fills version indexer inf c) (hm : Moves version handle inf added inf') :
    ∃ c', Fills version indexer inf' c' := by
  cases hm with
  | event => exact ⟨c, h.event⟩
  | resync => exact ⟨c, h.resync⟩
  | pop syncing => exact ⟨_, h.pop syncing⟩
  | deliver _ => exact ⟨c, h.deliver _⟩

end Informer

/-- An informer that has caught up: its cache lists what is stored. -/
theorem CacheReader.list_drained [DecidableEq β] {version : Object β → ℕ} {P : Object β → Prop}
    {indexer c : ObjectStore β} {inf : Informer (Object.key : Object β → NamespacedName)}
    {stored : Table (Object.key : Object β → NamespacedName)} {revision : ℕ}
    {values : String → Object β → List String} {fields : List String} {opts : ListOptions}
    (h : inf.Fills version indexer c) (hnew : indexer.Holds (Table.empty : Table Object.key))
    (hserves : Serves indexer values fields) (hlive : inf.Live version P stored revision)
    (hdrained : inf.Drained) (hopts : Answerable opts fields stored) :
    ∃ objs : List (Object β),
      objs.Perm (stored.entries.filter fun obj => opts.Describes values obj) ∧
        list c opts = .ok (opts.cut objs) := by
  have hmem : ∀ obj, obj ∈ inf.indexer ↔ obj ∈ stored := fun obj =>
    hlive.toTracks.synced (c := fun _ => True) hlive.connected
      (hlive.toTracks.not_owed hdrained) trivial
  have hserves' : Serves c values fields := by
    constructor
    · rw [h.indexers]
      exact hserves.byNamespace
    · rw [h.indexers]
      exact hserves.byField
  have hopts' : Answerable opts fields inf.indexer :=
    ⟨hopts.noContinue, hopts.exact, hopts.ns, fun hsel obj hobj =>
      hopts.plain hsel obj ((hmem obj).mp hobj)⟩
  obtain ⟨objs, hperm, hlist⟩ := list_eq_ok (h.holds hnew) hserves' hopts'
  refine ⟨objs, hperm.trans (List.Perm.filter _ ?_), hlist⟩
  exact (List.perm_ext_iff_of_nodup (.of_map _ inf.indexer.nodup) (.of_map _ stored.nodup)).mpr hmem

end FrpProvisioner
