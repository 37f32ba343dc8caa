import Mathlib.Algebra.Ring.Nat
import Mathlib.Data.Finset.Basic
import Mathlib.Data.List.Sort
import Mathlib.Logic.Function.Basic

/-! The work queue of `client-go/util/workqueue`. A key is queued once however often it is
added, is not handed out while a worker has it, and comes back when it was added meanwhile.
Retries wait for their time beside the queue, each key until the earliest of its times. -/
namespace FrpProvisioner

structure Workqueue (κ : Type) where
  queue : List κ
  dirty : Finset κ
  processing : Finset κ
  shuttingDown : Bool

namespace Workqueue
variable {κ : Type}

def new : Workqueue κ := ⟨[], ∅, ∅, false⟩

def shutDown (q : Workqueue κ) : Workqueue κ := { q with shuttingDown := true }

/-- Queued are, once each, the keys that need processing and are not being processed. -/
structure Valid (q : Workqueue κ) : Prop where
  nodup : q.queue.Nodup
  queued : ∀ k, k ∈ q.queue ↔ k ∈ q.dirty ∧ k ∉ q.processing

theorem valid_new : (new : Workqueue κ).Valid := ⟨List.nodup_nil, by simp [new]⟩

theorem Valid.shutDown {q : Workqueue κ} (h : q.Valid) : q.shutDown.Valid := ⟨h.nodup, h.queued⟩

variable [DecidableEq κ] (q : Workqueue κ) (item k : κ)

def add : Workqueue κ :=
  if q.shuttingDown then q
  else if item ∈ q.dirty then q
  else if item ∈ q.processing then { q with dirty := insert item q.dirty }
  else { q with dirty := insert item q.dirty, queue := q.queue ++ [item] }

/-- `Get`: nothing as long as the caller has to wait, and no item when the queue is shut down
and empty. -/
def get : Option (Option κ × Workqueue κ) :=
  match q.queue with
  | [] => if q.shuttingDown then some (none, q) else none
  | item :: rest => some (some item,
      { q with
        queue := rest
        processing := insert item q.processing
        dirty := q.dirty.erase item })

def done : Workqueue κ :=
  if item ∈ q.dirty then
    { q with processing := q.processing.erase item, queue := q.queue ++ [item] }
  else { q with processing := q.processing.erase item }

section
variable {q item k}

theorem get_eq_some {q' : Workqueue κ} (h : q.get = some (some item, q')) :
    ∃ rest, q.queue = item :: rest ∧ q' = { q with
      queue := rest
      processing := insert item q.processing
      dirty := q.dirty.erase item } := by
  unfold get at h
  split at h
  · split at h <;> simp at h
  next item' rest hq =>
    obtain ⟨rfl, rfl⟩ : item' = item ∧ _ = q' := by simpa using h
    exact ⟨rest, hq, rfl⟩

theorem get_eq_none {q' : Workqueue κ} (h : q.get = some (none, q')) :
    q.queue = [] ∧ q.shuttingDown = true ∧ q' = q := by
  unfold get at h
  split at h
  next hq =>
    split at h
    next hs =>
      simp only [Option.some.injEq, Prod.mk.injEq, true_and] at h
      exact ⟨hq, hs, h.symm⟩
    next => simp at h
  · simp at h

@[simp] theorem add_processing : (q.add item).processing = q.processing := by
  unfold add
  split_ifs <;> rfl

@[simp] theorem add_shuttingDown : (q.add item).shuttingDown = q.shuttingDown := by
  unfold add
  split_ifs <;> rfl

@[simp] theorem done_processing : (q.done item).processing = q.processing.erase item := by
  unfold done
  split_ifs <;> rfl

@[simp] theorem done_dirty : (q.done item).dirty = q.dirty := by
  unfold done
  split_ifs <;> rfl

@[simp] theorem done_shuttingDown : (q.done item).shuttingDown = q.shuttingDown := by
  unfold done
  split_ifs <;> rfl

theorem mem_add_dirty (h : q.shuttingDown = false) :
    k ∈ (q.add item).dirty ↔ k = item ∨ k ∈ q.dirty := by
  unfold add
  simp only [h, Bool.false_eq_true, ↓reduceIte]
  split_ifs with hd
  · constructor
    · exact Or.inr
    · rintro (rfl | hk)
      · exact hd
      · exact hk
  · exact Finset.mem_insert
  · exact Finset.mem_insert

theorem add_of_shuttingDown (h : q.shuttingDown = true) : q.add item = q := by
  simp [add, h]

theorem Valid.add (h : q.Valid) (item : κ) : (q.add item).Valid := by
  unfold Workqueue.add
  split_ifs with hs hd hp
  · exact h
  · exact h
  · refine ⟨h.nodup, fun k => ?_⟩
    rw [h.queued, Finset.mem_insert]
    constructor
    · exact fun hk => ⟨Or.inr hk.1, hk.2⟩
    · rintro ⟨rfl | hk, hnot⟩
      · exact absurd hp hnot
      · exact ⟨hk, hnot⟩
  · have hnew : item ∉ q.queue := fun hm => hd ((h.queued item).mp hm).1
    refine ⟨?_, fun k => ?_⟩
    · simpa [List.nodup_append] using ⟨h.nodup, fun k hk he => hnew (he ▸ hk)⟩
    · rw [List.mem_append, List.mem_singleton, h.queued, Finset.mem_insert]
      constructor
      · rintro (hk | rfl)
        · exact ⟨Or.inr hk.1, hk.2⟩
        · exact ⟨Or.inl rfl, hp⟩
      · rintro ⟨rfl | hk, hnot⟩
        · exact Or.inr rfl
        · exact Or.inl ⟨hk, hnot⟩

theorem Valid.get {q' : Workqueue κ} (h : q.Valid) (hget : q.get = some (some item, q')) :
    q'.Valid ∧ item ∉ q.processing := by
  obtain ⟨rest, hq, rfl⟩ := get_eq_some hget
  have hnodup := h.nodup
  rw [hq, List.nodup_cons] at hnodup
  have hmem : ∀ k, k ∈ rest ↔ (k ∈ q.dirty ∧ k ∉ q.processing) ∧ k ≠ item := by
    intro k
    rw [← h.queued, hq, List.mem_cons]
    constructor
    · exact fun hk => ⟨Or.inr hk, fun he => hnodup.1 (he ▸ hk)⟩
    · rintro ⟨rfl | hk, hne⟩
      · exact absurd rfl hne
      · exact hk
  refine ⟨⟨hnodup.2, fun k => ?_⟩, ((h.queued item).mp (by simp [hq])).2⟩
  rw [hmem, Finset.mem_erase, Finset.mem_insert]
  tauto

theorem Valid.done (h : q.Valid) (hitem : item ∈ q.processing) : (q.done item).Valid := by
  have hnew : item ∉ q.queue := fun hm => ((h.queued item).mp hm).2 hitem
  unfold Workqueue.done
  split_ifs with hd
  · refine ⟨?_, fun k => ?_⟩
    · simpa [List.nodup_append] using ⟨h.nodup, fun k hk he => hnew (he ▸ hk)⟩
    · rw [List.mem_append, List.mem_singleton, h.queued, Finset.mem_erase]
      by_cases hk : k = item
      · simp [hk, hd]
      · simp [hk]
  · refine ⟨h.nodup, fun k => ?_⟩
    rw [h.queued, Finset.mem_erase]
    by_cases hk : k = item
    · simp [hk, hd]
    · simp [hk]

end
end Workqueue

structure WaitFor (κ : Type) where
  data : κ
  readyAt : ℕ

def WaitFor.Before {κ : Type} (a b : WaitFor κ) : Prop := a.readyAt ≤ b.readyAt

namespace WaitFor
variable {κ : Type}

instance : DecidableRel (@Before κ) := fun _ _ => inferInstanceAs (Decidable (_ ≤ _))

instance : Std.Total (@Before κ) := ⟨fun a b => Nat.le_total a.readyAt b.readyAt⟩

instance : IsTrans (WaitFor κ) Before := ⟨fun _ _ _ => Nat.le_trans⟩

end WaitFor

/-- The heap of `waitingLoop` with its map of known entries: the earliest entry comes first,
and a key has one entry. -/
structure WaitForPriorityQueue (κ : Type) where
  entries : List (WaitFor κ)
  sorted : entries.Pairwise WaitFor.Before
  distinct : (entries.map WaitFor.data).Nodup

namespace WaitForPriorityQueue
variable {κ : Type} (pq : WaitForPriorityQueue κ)

def empty : WaitForPriorityQueue κ := ⟨[], .nil, List.nodup_nil⟩

def push (entry : WaitFor κ) (h : ∀ e ∈ pq.entries, e.data ≠ entry.data) :
    WaitForPriorityQueue κ where
  entries := pq.entries.orderedInsert WaitFor.Before entry
  sorted := pq.sorted.orderedInsert entry _
  distinct := by
    rw [((pq.entries.perm_orderedInsert WaitFor.Before entry).map _).nodup_iff, List.map_cons,
      List.nodup_cons]
    refine ⟨fun hm => ?_, pq.distinct⟩
    obtain ⟨e, he, hdata⟩ := List.mem_map.mp hm
    exact h e he hdata

def pop : WaitForPriorityQueue κ where
  entries := pq.entries.tail
  sorted := pq.sorted.tail
  distinct := by
    rw [List.map_tail]
    exact pq.distinct.tail

variable [DecidableEq κ]

def known (item : κ) : Option (WaitFor κ) := pq.entries.find? fun e => e.data = item

def without (item : κ) : WaitForPriorityQueue κ where
  entries := pq.entries.filter fun e => e.data ≠ item
  sorted := pq.sorted.filter _
  distinct := pq.distinct.sublist (List.filter_sublist.map _)

variable {pq}

theorem not_known {item : κ} (h : pq.known item = none) : ∀ e ∈ pq.entries, e.data ≠ item := by
  intro e he
  simpa using List.find?_eq_none.mp h e he

theorem known_eq_some {item : κ} {e : WaitFor κ} :
    pq.known item = some e ↔ e ∈ pq.entries ∧ e.data = item := by
  constructor
  · intro h
    exact ⟨List.mem_of_find?_eq_some h, by simpa using List.find?_some h⟩
  · rintro ⟨he, rfl⟩
    cases hk : pq.known e.data with
    | none => exact absurd rfl (not_known hk e he)
    | some e' =>
      have he' : e' ∈ pq.entries := List.mem_of_find?_eq_some hk
      have hdata : e'.data = e.data := by simpa using List.find?_some hk
      rw [List.inj_on_of_nodup_map pq.distinct he' he hdata]

variable (pq)

/-- The entry of the key, if it has one, gives way. -/
def replace (entry : WaitFor κ) : WaitForPriorityQueue κ :=
  (pq.without entry.data).push entry fun e he => by simpa using (List.mem_filter.mp he).2

/-- `insert`: a key that waits already is moved only to an earlier time. -/
def insert (entry : WaitFor κ) : WaitForPriorityQueue κ :=
  match pq.known entry.data with
  | some existing => if entry.readyAt < existing.readyAt then pq.replace entry else pq
  | none => pq.replace entry

variable {pq}

theorem known_replace (entry : WaitFor κ) (item : κ) : (pq.replace entry).known item =
    if item = entry.data then some entry else pq.known item := by
  apply Option.ext
  intro e
  have hmem : e ∈ (pq.replace entry).entries ↔
      e = entry ∨ (e ∈ pq.entries ∧ e.data ≠ entry.data) := by
    simp [replace, push, without, List.mem_orderedInsert, List.mem_filter]
  split_ifs with hitem
  · subst hitem
    rw [known_eq_some, hmem, Option.some.injEq]
    constructor
    · rintro ⟨rfl | he, hdata⟩
      · rfl
      · exact absurd hdata he.2
    · rintro rfl
      exact ⟨Or.inl rfl, rfl⟩
  · rw [known_eq_some, known_eq_some, hmem]
    constructor
    · rintro ⟨rfl | he, hdata⟩
      · exact absurd hdata.symm hitem
      · exact ⟨he.1, hdata⟩
    · rintro ⟨he, hdata⟩
      exact ⟨Or.inr ⟨he, fun h => hitem (hdata.symm.trans h)⟩, hdata⟩

/-- After an insert the key waits for the earlier of the two times. -/
theorem known_insert (entry : WaitFor κ) (item : κ) :
    (pq.insert entry).known item =
      if item = entry.data then
        some ⟨item, ((pq.known item).map WaitFor.readyAt).elim entry.readyAt (min entry.readyAt)⟩
      else pq.known item := by
  unfold insert
  split
  next existing hex =>
    obtain ⟨-, hdata⟩ := known_eq_some.mp hex
    split_ifs with hlt hitem hitem
    · subst hitem
      simp [known_replace, hex, Nat.min_eq_left (Nat.le_of_lt hlt)]
    · rw [known_replace, if_neg hitem]
    · subst hitem
      rw [hex]
      simp [Nat.min_eq_right (Nat.not_lt.mp hlt), ← hdata]
    · rfl
  next hnone =>
    rw [known_replace]
    split_ifs with hitem
    · subst hitem
      simp [hnone]
    · rfl

theorem known_insert_isSome {entry : WaitFor κ} {item : κ} :
    ((pq.insert entry).known item).isSome = true ↔
      item = entry.data ∨ (pq.known item).isSome = true := by
  rw [known_insert]
  split_ifs with h <;> simp [h]

/-- What is left when the first entry is popped. -/
theorem known_pop {entry : WaitFor κ} {rest : List (WaitFor κ)}
    (h : pq.entries = entry :: rest) (item : κ) :
    pq.pop.known item = if item = entry.data then none else pq.known item := by
  have hdistinct := pq.distinct
  rw [h, List.map_cons, List.nodup_cons] at hdistinct
  unfold pop known
  simp only [h, List.tail_cons, List.find?_cons]
  split_ifs with hitem
  · refine List.find?_eq_none.mpr fun e he => ?_
    simp only [decide_eq_true_eq]
    intro hdata
    exact hdistinct.1 (List.mem_map.mpr ⟨e, he, hdata.trans hitem⟩)
  · rw [decide_eq_false (Ne.symm hitem)]

end WaitForPriorityQueue

/-- `delayingType`: the queue, the channel to the waiting loop and what the loop holds. -/
structure DelayingQueue (κ : Type) where
  inner : Workqueue κ
  clock : ℕ
  waitingForAddCh : List (WaitFor κ)
  waitingForQueue : WaitForPriorityQueue κ

namespace DelayingQueue
variable {κ : Type} [DecidableEq κ] (q : DelayingQueue κ)

def add (item : κ) : DelayingQueue κ := { q with inner := q.inner.add item }

def addAfter (item : κ) (duration : ℕ) : DelayingQueue κ :=
  if q.inner.shuttingDown then q
  else if duration = 0 then q.add item
  else { q with waitingForAddCh := q.waitingForAddCh ++ [⟨item, q.clock + duration⟩] }

def receive : DelayingQueue κ :=
  match q.waitingForAddCh with
  | [] => q
  | entry :: rest =>
    if q.clock < entry.readyAt then
      { q with waitingForAddCh := rest, waitingForQueue := q.waitingForQueue.insert entry }
    else { q.add entry.data with waitingForAddCh := rest }

/-- The waiting loop adds the entry that is ready first. It locks the queue once for each. -/
def addReady : DelayingQueue κ :=
  match q.waitingForQueue.entries with
  | [] => q
  | entry :: _ =>
    if q.clock < entry.readyAt then q
    else { q.add entry.data with waitingForQueue := q.waitingForQueue.pop }

end DelayingQueue

/-- `ItemExponentialFailureRateLimiter`; a key without entry in the map has failed zero times. -/
structure ItemExponentialFailureRateLimiter (κ : Type) where
  failures : κ → ℕ
  baseDelay : ℕ
  maxDelay : ℕ

namespace ItemExponentialFailureRateLimiter
variable {κ : Type} [DecidableEq κ] (r : ItemExponentialFailureRateLimiter κ)

def maxInt64 : ℕ := 2 ^ 63 - 1

/-- The delay after `exp` failures. The product of the base delay with a power of two is exact
in floating point, until it is too large for the first comparison. -/
def delay (exp : ℕ) : ℕ :=
  let backoff := r.baseDelay * 2 ^ exp
  if backoff > maxInt64 then r.maxDelay
  else if backoff > r.maxDelay then r.maxDelay
  else backoff

/-- `When`: the delay, and the limiter after one more failure. -/
def when (item : κ) : ℕ × ItemExponentialFailureRateLimiter κ :=
  (r.delay (r.failures item),
    { r with failures := Function.update r.failures item (r.failures item + 1) })

def forget (item : κ) : ItemExponentialFailureRateLimiter κ :=
  { r with failures := Function.update r.failures item 0 }

end ItemExponentialFailureRateLimiter

/-- `rateLimitingType` over the limiter of `DefaultControllerRateLimiter`, the larger of an
exponential delay per key and that of one token bucket. -/
structure RateLimitingQueue (κ : Type) extends DelayingQueue κ where
  rateLimiter : ItemExponentialFailureRateLimiter κ

namespace RateLimitingQueue
variable {κ : Type} [DecidableEq κ] (q : RateLimitingQueue κ)

/-- Five milliseconds to a thousand seconds, in nanoseconds. -/
def new : RateLimitingQueue κ where
  inner := .new
  clock := 0
  waitingForAddCh := []
  waitingForQueue := .empty
  rateLimiter := ⟨fun _ => 0, 5000000, 1000000000000⟩

def add (item : κ) : RateLimitingQueue κ :=
  { q with toDelayingQueue := q.toDelayingQueue.add item }

def addAfter (item : κ) (duration : ℕ) : RateLimitingQueue κ :=
  { q with toDelayingQueue := q.toDelayingQueue.addAfter item duration }

/-- `bucket` is the delay the token bucket answers. -/
def addRateLimited (item : κ) (bucket : ℕ) : RateLimitingQueue κ :=
  { q with
    toDelayingQueue := q.toDelayingQueue.addAfter item (max (q.rateLimiter.when item).1 bucket)
    rateLimiter := (q.rateLimiter.when item).2 }

def forget (item : κ) : RateLimitingQueue κ := { q with rateLimiter := q.rateLimiter.forget item }

def receive : RateLimitingQueue κ := { q with toDelayingQueue := q.toDelayingQueue.receive }

def addReady : RateLimitingQueue κ := { q with toDelayingQueue := q.toDelayingQueue.addReady }

def done (item : κ) : RateLimitingQueue κ := { q with inner := q.inner.done item }

def shutDown : RateLimitingQueue κ := { q with inner := q.inner.shutDown }

end RateLimitingQueue
end FrpProvisioner
