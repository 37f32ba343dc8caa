import FrpProvisioner.Runtime.DeltaFIFO

/-! The informer of one kind, from the watch of the API server to the event handlers. The
reflector puts what it lists and watches into the queue; what is popped from the queue goes into
the indexer, which the cached client reads, and is told to the listener. -/
namespace FrpProvisioner
open Effect
variable {α K : Type}

inductive WatchType where
  | added | modified | deleted
  deriving DecidableEq, Repr

/-- A `watch.Event`. A deleted object is as it was last stored. -/
structure WatchEvent (α : Type) where
  type : WatchType
  object : α
  deriving DecidableEq

/-- What `watchHandler` puts into the queue for the event. -/
def WatchEvent.delta (e : WatchEvent α) : Delta α :=
  match e.type with
  | .added => ⟨.added, e.object, false⟩
  | .modified => ⟨.updated, e.object, false⟩
  | .deleted => ⟨.deleted, e.object, false⟩

@[simp] theorem WatchEvent.delta_object (e : WatchEvent α) : e.delta.object = e.object := by
  unfold delta
  split <;> rfl

inductive Notification (α : Type) where
  | add (newObj : α)
  | update (oldObj newObj : α)
  | delete (oldObj : α)
  deriving DecidableEq

def Notification.objects : Notification α → List α
  | .add newObj => [newObj]
  | .update oldObj newObj => [oldObj, newObj]
  | .delete oldObj => [oldObj]

variable [DecidableEq K] {key : α → K}

section Changes
variable [DecidableEq α]

/-- What a watch reports of one object. -/
def changeOf : Option α → Option α → List (WatchEvent α)
  | none, none => []
  | none, some new => [⟨.added, new⟩]
  | some old, none => [⟨.deleted, old⟩]
  | some old, some new => if new = old then [] else [⟨.modified, new⟩]

/-- What a watch reports when the kind goes from one content to another. -/
def changes (old new : Table key) : List (WatchEvent α) :=
  old.entries.flatMap (fun x => changeOf (some x) (new.find? (key x))) ++
    (new.entries.filter fun y => old.find? (key y) = none).map fun y => ⟨.added, y⟩

theorem mem_changeOf {p q : Option α} {e : WatchEvent α} (h : e ∈ changeOf p q) :
    p = some e.object ∨ q = some e.object := by
  revert h
  cases p <;> cases q <;> simp [changeOf]
  · rintro rfl
    rfl
  · rintro rfl
    rfl
  · rintro - rfl
    exact Or.inr rfl

/-- An object that changes is reported once. -/
theorem changeOf_of_ne {p q : Option α} (h : q ≠ p) : ∃ e : WatchEvent α,
    changeOf p q = [e] ∧ e.delta.result = q ∧ ∀ o, q = some o → e.object = o := by
  cases p with
  | none =>
    cases q with
    | none => exact absurd rfl h
    | some y => exact ⟨⟨.added, y⟩, rfl, rfl, fun _ ho => Option.some.inj ho⟩
  | some x =>
    cases q with
    | none => exact ⟨⟨.deleted, x⟩, rfl, rfl, fun _ ho => by cases ho⟩
    | some y =>
      refine ⟨⟨.modified, y⟩, ?_, rfl, fun _ ho => Option.some.inj ho⟩
      simp only [changeOf]
      exact if_neg fun hxy => h (congrArg some hxy)

/-- The reports of one object, among those of all. -/
theorem filter_changes (old new : Table key) (k : K) :
    (changes old new).filter (fun e => key e.object = k) =
      changeOf (old.find? k) (new.find? k) := by
  have hkey : ∀ x, ∀ e ∈ changeOf (some x) (new.find? (key x)), key e.object = key x := by
    intro x e he
    rcases mem_changeOf he with h | h
    · rw [Option.some.inj h]
    · exact (Table.find?_eq_some.mp h).2
  have hflat : ∀ l : List α, (l.flatMap fun x => changeOf (some x) (new.find? (key x))).filter
      (fun e => key e.object = k) =
      (l.filter fun x => key x = k).flatMap fun x => changeOf (some x) (new.find? k) := by
    intro l
    induction l with
    | nil => rfl
    | cons x l ih =>
      rw [List.flatMap_cons, List.filter_append, ih]
      by_cases hx : key x = k
      · rw [List.filter_eq_self.mpr, List.filter_cons_of_pos (by simpa using hx),
          List.flatMap_cons, hx]
        intro e he
        rw [hkey x e he, hx]
        exact decide_eq_true rfl
      · rw [List.filter_eq_nil_iff.mpr, List.filter_cons_of_neg (by simpa using hx),
          List.nil_append]
        intro e he
        rw [hkey x e he]
        simpa using hx
  have hadded : ((new.entries.filter fun y => old.find? (key y) = none).map
      fun y => (⟨.added, y⟩ : WatchEvent α)).filter (fun e => key e.object = k) =
      if old.find? k = none then (new.find? k).toList.map fun y => ⟨.added, y⟩ else [] := by
    rw [List.filter_map, List.filter_filter]
    have hsplit : new.entries.filter (fun y =>
        ((fun e : WatchEvent α => decide (key e.object = k)) ∘ fun y => ⟨.added, y⟩) y &&
          decide (old.find? (key y) = none)) =
        (new.entries.filter fun y => key y = k).filter fun _ => old.find? k = none := by
      rw [List.filter_filter]
      refine List.filter_congr fun y _ => ?_
      by_cases hy : key y = k <;> simp [hy]
    rw [hsplit, Table.filter_key]
    split_ifs with hold <;> simp [hold]
  unfold changes
  rw [List.filter_append, hflat, hadded, Table.filter_key]
  cases old.find? k <;> cases new.find? k <;> simp [changeOf]

theorem changes_self (t : Table key) : changes t t = [] := by
  have hkept : t.entries.flatMap (fun x => changeOf (some x) (t.find? (key x))) = [] := by
    rw [List.flatMap_eq_nil_iff]
    intro x hx
    have hfind : t.find? (key x) = some x := Table.find?_of_mem hx
    simp [hfind, changeOf]
  have hnew : (t.entries.filter fun y => t.find? (key y) = none) = [] := by
    rw [List.filter_eq_nil_iff]
    intro y hy
    have hfind : t.find? (key y) = some y := Table.find?_of_mem hy
    simp [hfind]
  unfold changes
  rw [hkept, hnew]
  rfl

end Changes

/-- The parts of an informer with one listener. While the reflector has no watch, what happens
does not reach it. -/
structure Informer (key : α → K) where
  connected : Bool
  wire : List (WatchEvent α)
  fifo : DeltaFIFO α K
  indexer : Table key
  pendingNotifications : List (Notification α)

def applyDelta (indexer : Table key) (d : Delta α) : Table key × Notification α :=
  match d.type with
  | .deleted => (indexer.erase (key d.object), .delete d.object)
  | .sync | .replaced | .added | .updated =>
    match indexer.find? (key d.object) with
    | some old => (indexer.upsert d.object, .update old d.object)
    | none => (indexer.upsert d.object, .add d.object)

/-- An update that kept the version is a resync, and only told to listeners that resync. -/
def distribute (version : α → ℕ) (syncing : Bool) : Notification α → List (Notification α)
  | .update old new =>
    if version old = version new ∧ syncing = false then [] else [.update old new]
  | n => [n]

theorem eq_of_mem_distribute {version : α → ℕ} {syncing : Bool} {n m : Notification α}
    (h : n ∈ distribute version syncing m) : n = m := by
  cases m with
  | add newObj => exact List.mem_singleton.mp h
  | delete oldObj => exact List.mem_singleton.mp h
  | update oldObj newObj =>
    unfold distribute at h
    dsimp only at h
    split_ifs at h
    · cases h
    · exact List.mem_singleton.mp h

def processDeltas (version : α → ℕ) (syncing : Bool) :
    Table key → List (Delta α) → Table key × List (Notification α)
  | indexer, [] => (indexer, [])
  | indexer, d :: ds =>
    let (next, n) := applyDelta indexer d
    let (last, ns) := processDeltas version syncing next ds
    (last, distribute version syncing n ++ ns)

theorem find?_applyDelta {indexer : Table key} {d : Delta α} {k : K} :
    (applyDelta indexer d).1.find? k =
      if k = key d.object then d.result else indexer.find? k := by
  obtain ⟨type, object, unknown⟩ := d
  unfold applyDelta Delta.result
  cases type <;> dsimp only <;> try cases indexer.find? (key object)
  all_goals simp [Table.find?_upsert, Table.find?_erase]

/-- The deltas of one object make the cache hold it as the last one says. -/
theorem find?_processDeltas {version : α → ℕ} {syncing : Bool} {j : K} {ds : List (Delta α)}
    (hds : ∀ d ∈ ds, key d.object = j) (indexer : Table key) (k : K) :
    (processDeltas version syncing indexer ds).1.find? k =
      if k = j then Feed.latest Delta.result (indexer.find? j) ds else indexer.find? k := by
  induction ds generalizing indexer with
  | nil =>
    split_ifs with hk
    · rw [hk]
      rfl
    · rfl
  | cons d ds ih =>
    have hd : key d.object = j := hds d List.mem_cons_self
    unfold processDeltas
    dsimp only
    rw [ih (fun e he => hds e (List.mem_cons_of_mem _ he)), find?_applyDelta, find?_applyDelta, hd,
      if_pos rfl]
    split_ifs <;> rfl

namespace Informer
variable (inf : Informer key)

def new : Informer key := ⟨false, [], .new, .empty, []⟩

def record [DecidableEq α] (old content : Table key) : Informer key :=
  if inf.connected then { inf with wire := inf.wire ++ changes old content } else inf

/-- The watch ends; what was not read from it is lost. -/
def disconnect : Informer key := { inf with connected := false, wire := [] }

/-- The reflector lists the kind and opens a watch from there. -/
def relist (stored : Table key) : Informer key :=
  { inf with
    connected := true
    wire := []
    fifo := inf.fifo.replace key inf.indexer stored.entries }

def queueEvent (event : WatchEvent α) : DeltaFIFO α K :=
  match event.type with
  | .added => inf.fifo.add key event.object
  | .modified => inf.fifo.update key event.object
  | .deleted => inf.fifo.delete key inf.indexer event.object

/-- One turn of the loop of `watchHandler`. -/
def watchHandler : Informer key :=
  match inf.wire with
  | [] => inf
  | event :: rest => { inf with wire := rest, fifo := inf.queueEvent event }

def resync : Informer key := { inf with fifo := inf.fifo.resync key inf.indexer }

/-- `Pop` with `HandleDeltas`. -/
def handleDeltas (version : α → ℕ) (syncing : Bool) : Informer key :=
  match inf.fifo.pop with
  | none => inf
  | some (_, deltas, fifo) =>
    let (indexer, notifications) := processDeltas version syncing inf.indexer deltas
    { inf with
      fifo := fifo
      indexer := indexer
      pendingNotifications := inf.pendingNotifications ++ notifications }

/-- What is on its way to the indexer for one key, oldest first. -/
def pending (k : K) : List (Delta α) :=
  inf.fifo.items k ++ (inf.wire.filter fun e => key e.object = k).map WatchEvent.delta

/-- The object as the indexer has it and as it was or will be. -/
def states (k : K) : List α :=
  (inf.indexer.find? k).toList ++ (inf.pending k).map Delta.object

section Frames
variable {inf}

@[simp] theorem record_indexer [DecidableEq α] (old content : Table key) :
    (inf.record old content).indexer = inf.indexer := by
  unfold record
  split <;> rfl

theorem record_self [DecidableEq α] (t : Table key) : inf.record t t = inf := by
  unfold record
  rw [changes_self, List.append_nil]
  split <;> rfl

@[simp] theorem record_connected [DecidableEq α] (old content : Table key) :
    (inf.record old content).connected = inf.connected := by
  unfold record
  split <;> rfl

@[simp] theorem record_fifo [DecidableEq α] (old content : Table key) :
    (inf.record old content).fifo = inf.fifo := by
  unfold record
  split <;> rfl

@[simp] theorem record_notifications [DecidableEq α] (old content : Table key) :
    (inf.record old content).pendingNotifications = inf.pendingNotifications := by
  unfold record
  split <;> rfl

@[simp] theorem watchHandler_indexer : inf.watchHandler.indexer = inf.indexer := by
  unfold watchHandler
  split <;> rfl

@[simp] theorem watchHandler_connected : inf.watchHandler.connected = inf.connected := by
  unfold watchHandler
  split <;> rfl

@[simp] theorem handleDeltas_connected (version : α → ℕ) (syncing : Bool) :
    (inf.handleDeltas version syncing).connected = inf.connected := by
  unfold handleDeltas
  split <;> rfl

@[simp] theorem watchHandler_notifications :
    inf.watchHandler.pendingNotifications = inf.pendingNotifications := by
  unfold watchHandler
  split <;> rfl

end Frames

end Informer
end FrpProvisioner
