import FrpProvisioner.Runtime.Retries

/-! The pace of retries and the end of a controller: a key that keeps failing waits twice as long
each time, and after a shutdown each key is run once more at most. -/
namespace FrpProvisioner
open Effect

namespace RateLimitingQueue
variable {κ : Type} [DecidableEq κ] {q : RateLimitingQueue κ} {item k : κ} {ready : ℕ}

/-- The key is not queued and does not become so before its time. -/
structure Waits (k : κ) (ready : ℕ) (q : RateLimitingQueue κ) : Prop where
  dirty : k ∉ q.inner.dirty
  channel : ∀ e ∈ q.waitingForAddCh, e.data = k → ready ≤ e.readyAt
  waiting : ∀ e, q.waitingForQueue.known k = some e → ready ≤ e.readyAt

theorem not_mem_add_dirty {inner : Workqueue κ} (h : k ∉ inner.dirty) (hne : k ≠ item) :
    k ∉ (inner.add item).dirty := by
  unfold Workqueue.add
  split_ifs
  · exact h
  · exact h
  · simpa [hne] using h
  · simpa [hne] using h

theorem Waits.add (h : q.Waits k ready) (hne : k ≠ item) : (q.add item).Waits k ready :=
  ⟨not_mem_add_dirty h.dirty hne, h.channel, h.waiting⟩

theorem Waits.foldl_add (added : List κ) (h : q.Waits k ready) (hk : k ∉ added) :
    (added.foldl RateLimitingQueue.add q).Waits k ready := by
  induction added generalizing q with
  | nil => exact h
  | cons item added ih =>
    rw [List.mem_cons, not_or] at hk
    exact ih (h.add hk.1) hk.2

theorem Waits.addAfter (h : q.Waits k ready) (hne : k ≠ item) (duration : ℕ) :
    (q.addAfter item duration).Waits k ready := by
  unfold RateLimitingQueue.addAfter DelayingQueue.addAfter
  split_ifs
  · exact h
  · exact h.add hne
  · refine ⟨h.dirty, fun e he hk => ?_, h.waiting⟩
    rcases List.mem_append.mp he with he | he
    · exact h.channel e he hk
    · rw [List.mem_singleton.mp he] at hk
      exact absurd hk.symm hne

theorem Waits.addRateLimited (h : q.Waits k ready) (hne : k ≠ item) (bucket : ℕ) :
    (q.addRateLimited item bucket).Waits k ready := by
  have hlater := h.addAfter hne (max (q.rateLimiter.when item).1 bucket)
  exact ⟨hlater.dirty, hlater.channel, hlater.waiting⟩

theorem Waits.receive (h : q.Waits k ready) (hclock : q.clock < ready) :
    q.receive.Waits k ready := by
  unfold RateLimitingQueue.receive DelayingQueue.receive
  split
  · exact h
  next entry rest hch =>
    have hrest : ∀ e ∈ rest, e.data = k → ready ≤ e.readyAt :=
      fun e he => h.channel e (by simp [hch, he])
    have hentry : entry.data = k → ready ≤ entry.readyAt := h.channel entry (by simp [hch])
    split_ifs with hready
    · refine ⟨h.dirty, hrest, fun e he => ?_⟩
      dsimp only at he
      rw [WaitForPriorityQueue.known_insert] at he
      split_ifs at he with hk
      · obtain rfl := Option.some.inj he
        have hnew := hentry hk.symm
        cases hold : q.waitingForQueue.known k with
        | none => exact hnew
        | some e => exact le_min hnew (h.waiting e hold)
      · exact h.waiting e he
    · refine ⟨not_mem_add_dirty h.dirty ?_, hrest, h.waiting⟩
      intro hk
      have hnew := hentry hk.symm
      omega

theorem Waits.addReady (h : q.Waits k ready) (hclock : q.clock < ready) :
    q.addReady.Waits k ready := by
  unfold RateLimitingQueue.addReady DelayingQueue.addReady
  split
  · exact h
  next entry rest hentries =>
    split_ifs with hready
    · exact h
    · refine ⟨not_mem_add_dirty h.dirty ?_, h.channel, fun e he => ?_⟩
      · rintro rfl
        have hnew := h.waiting entry
          (WaitForPriorityQueue.known_eq_some.mpr ⟨by simp [hentries], rfl⟩)
        omega
      · dsimp only at he
        rw [WaitForPriorityQueue.known_pop hentries] at he
        split_ifs at he
        exact h.waiting e he

end RateLimitingQueue

namespace Controller
variable {ω κ ι : Type} {ο : ι → Type} {σ ε : Type} [DecidableEq κ] [DecidableEq ω]
  {C : Controller κ ι ο σ ε} {s : σ} {c c' t t' u u' : State ω κ ι ο σ ε} {l : Label ω κ ι ο ε}
  {ls ls₁ ls₂ : List (Label ω κ ι ο ε)} {k req : κ} {v w : ω} {reply : Reply ε} {ready : ℕ}

section Backoff

/-- How many times in a row the key was put back for its failures, after one more reply. -/
def streakAfter (C : Controller κ ι ο σ ε) (reply : Reply ε) (n : ℕ) : ℕ :=
  match reply.err with
  | some err => if C.terminal err then n else n + 1
  | none =>
    if 0 < reply.requeueAfter then 0
    else if reply.requeue then n + 1
    else 0

/-- How many times in a row the runs of a key have failed by the end of a log. -/
def streak (C : Controller κ ι ο σ ε) (k : κ) (ls : List (Label ω κ ι ο ε)) : ℕ :=
  ls.foldl (fun n l =>
    match l with
    | .finish _ req reply => if req = k then C.streakAfter reply n else n
    | _ => n) 0

/-- The limiter counts what `streak` does. -/
theorem rateLimiter_reconcileHandler (q : RateLimitingQueue κ) (bucket : ℕ) :
    (C.reconcileHandler q req reply bucket).rateLimiter =
      ⟨Function.update q.rateLimiter.failures req
        (C.streakAfter reply (q.rateLimiter.failures req)),
        q.rateLimiter.baseDelay, q.rateLimiter.maxDelay⟩ := by
  cases herr : reply.err with
  | some err =>
    simp only [reconcileHandler, streakAfter, herr]
    split_ifs
    · rw [Function.update_eq_self]
    · rfl
  | none =>
    simp only [reconcileHandler, streakAfter, herr]
    split_ifs <;> rfl

theorem rateLimiter_foldl_add (added : List κ) (q : RateLimitingQueue κ) :
    (added.foldl RateLimitingQueue.add q).rateLimiter = q.rateLimiter := by
  induction added generalizing q with
  | nil => rfl
  | cons item added ih =>
    rw [List.foldl_cons, ih]
    rfl

/-- The limiter of a controller is the default one, with the failures of its log. -/
theorem Runs.rateLimiter_eq (h : Runs C s ls c) :
    c.queue.rateLimiter = ⟨fun k => streak C k ls, 5000000, 1000000000000⟩ := by
  induction h with
  | nil => rfl
  | @snoc ls t u l trace last ih =>
    -- what is no end of a run does not count
    have hother : (∀ w req reply, l ≠ .finish w req reply) →
        u.queue.rateLimiter = t.queue.rateLimiter →
        u.queue.rateLimiter = ⟨fun k => streak C k (ls ++ [l]), 5000000, 1000000000000⟩ := by
      intro hl hq
      have hstreak : ∀ k, streak C k (ls ++ [l]) = streak C k ls := by
        intro k
        unfold streak
        rw [List.foldl_append]
        cases l with
        | finish w req reply => exact absurd rfl (hl w req reply)
        | _ => rfl
      rw [hq, ih]
      simp only [hstreak]
    cases last with
    | env _ => exact hother (by simp) (rateLimiter_foldl_add _ _)
    | tick duration => exact hother (by simp) rfl
    | receive => exact hother (by simp) rfl
    | addReady => exact hother (by simp) rfl
    | get _ _ => exact hother (by simp) rfl
    | stop _ _ => exact hother (by simp) rfl
    | call _ _ => exact hother (by simp) rfl
    | done _ => exact hother (by simp) rfl
    | shutDown => exact hother (by simp) rfl
    | @finish w req reply bucket hw =>
      have hstreak : Function.update (fun k => streak C k ls) req
          (C.streakAfter reply (streak C req ls)) =
            fun k => streak C k (ls ++ [.finish w req reply]) := by
        funext k
        unfold streak
        rw [List.foldl_append]
        by_cases hk : k = req
        · subst hk
          simp
        · simp [Function.update_of_ne hk, Ne.symm hk]
      dsimp only
      rw [rateLimiter_reconcileHandler, ih, hstreak]

omit [DecidableEq κ] in
/-- The default limiter doubles the delay from five milliseconds up to a thousand seconds. -/
theorem delay_default (failures : κ → ℕ) (n : ℕ) :
    (⟨failures, 5000000, 1000000000000⟩ : ItemExponentialFailureRateLimiter κ).delay n =
      min (5000000 * 2 ^ n) 1000000000000 := by
  simp only [ItemExponentialFailureRateLimiter.delay,
    ItemExponentialFailureRateLimiter.maxInt64]
  generalize 5000000 * 2 ^ n = backoff
  split_ifs <;> omega

theorem Step.clock_le (hs : Step C c l c') : c.queue.clock ≤ c'.queue.clock := by
  have hadd : ∀ (added : List κ) (q : RateLimitingQueue κ),
      (added.foldl RateLimitingQueue.add q).clock = q.clock := by
    intro added
    induction added with
    | nil => exact fun q => rfl
    | cons item added ih =>
      intro q
      rw [List.foldl_cons, ih]
      rfl
  have hafter : ∀ (q : RateLimitingQueue κ) (item : κ) (duration : ℕ),
      (q.addAfter item duration).clock = q.clock := by
    intro q item duration
    unfold RateLimitingQueue.addAfter DelayingQueue.addAfter
    split_ifs <;> rfl
  cases hs with
  | env _ => exact (hadd _ _).ge
  | tick duration => exact Nat.le_add_right _ _
  | receive =>
    dsimp only
    unfold RateLimitingQueue.receive DelayingQueue.receive
    split
    · exact le_rfl
    · split_ifs <;> exact le_rfl
  | addReady =>
    dsimp only
    unfold RateLimitingQueue.addReady DelayingQueue.addReady
    split
    · exact le_rfl
    · split_ifs <;> exact le_rfl
  | get _ _ => exact le_rfl
  | stop _ _ => exact le_rfl
  | call _ _ => exact le_rfl
  | finish bucket _ =>
    dsimp only
    unfold reconcileHandler
    split
    · split_ifs
      · exact le_rfl
      · exact (hafter _ _ _).ge
    · split_ifs
      · exact (hafter _ _ _).ge
      · exact (hafter _ _ _).ge
      · exact le_rfl
  | done _ => exact le_rfl
  | shutDown => exact le_rfl

/-- Before its time the key neither is queued nor has a run. -/
def Pausing (k : κ) (ready : ℕ) (c : State ω κ ι ο σ ε) : Prop :=
  c.queue.clock < ready → c.queue.Waits k ready ∧ ∀ w prog, c.workers w ≠ .reconciling k prog

omit [DecidableEq ω] in
/-- A key that waits cannot be handed out. -/
theorem not_get_of_waits (hinv : Inv c) (h : c.queue.Waits k ready) {inner : Workqueue κ} :
    c.queue.inner.get ≠ some (some k, inner) := by
  intro hget
  obtain ⟨rest, hqueue, -⟩ := Workqueue.get_eq_some hget
  exact h.dirty ((hinv.valid.queued k).mp (by simp [hqueue])).1

theorem waits_reconcileHandler {q : RateLimitingQueue κ} {bucket : ℕ} (h : q.Waits k ready)
    (hne : k ≠ req) : (C.reconcileHandler q req reply bucket).Waits k ready := by
  have hforget : (q.forget req).Waits k ready := ⟨h.dirty, h.channel, h.waiting⟩
  unfold reconcileHandler
  split
  · split_ifs
    · exact h
    · exact h.addRateLimited hne bucket
  · split_ifs
    · exact hforget.addAfter hne _
    · exact h.addRateLimited hne bucket
    · exact hforget

theorem Pausing.step (h : Pausing k ready c) (hinv : Inv c) (hs : Step C c l c')
    (hl : ∀ added, l = .env added → k ∉ added) : Pausing k ready c' := by
  intro hclock'
  have hclock := lt_of_le_of_lt hs.clock_le hclock'
  obtain ⟨hwaits, hidle⟩ := h hclock
  cases hs with
  | env _ => exact ⟨hwaits.foldl_add _ (hl _ rfl), hidle⟩
  | tick duration => exact ⟨⟨hwaits.dirty, hwaits.channel, hwaits.waiting⟩, hidle⟩
  | receive => exact ⟨hwaits.receive hclock, hidle⟩
  | addReady => exact ⟨hwaits.addReady hclock, hidle⟩
  | @get w req inner hw hget =>
    have hne : k ≠ req := by
      rintro rfl
      exact not_get_of_waits hinv hwaits hget
    obtain ⟨rest, -, rfl⟩ := Workqueue.get_eq_some hget
    refine ⟨⟨?_, hwaits.channel, hwaits.waiting⟩, fun v prog => ?_⟩
    · simp [hwaits.dirty]
    · rw [Ne, reconciling_update_ne (hidle w) (by simp [Ne.symm hne])]
      exact hidle v prog
  | @stop w inner hw hget =>
    obtain ⟨-, -, rfl⟩ := Workqueue.get_eq_none hget
    refine ⟨hwaits, fun v prog => ?_⟩
    rw [Ne, reconciling_update_ne (hidle w) (by simp)]
    exact hidle v prog
  | @call w req i next o world hw hserve =>
    refine ⟨hwaits, fun v prog => ?_⟩
    have hne : req ≠ k := by
      rintro rfl
      exact hidle w _ hw
    rw [Ne, reconciling_update_ne (hidle w) (by simp [hne])]
    exact hidle v prog
  | @finish w req reply bucket hw =>
    have hne : k ≠ req := by
      rintro rfl
      exact hidle w _ hw
    refine ⟨waits_reconcileHandler hwaits hne, fun v prog => ?_⟩
    rw [Ne, reconciling_update_ne (hidle w) (by simp)]
    exact hidle v prog
  | @done w req hw =>
    refine ⟨⟨?_, hwaits.channel, hwaits.waiting⟩, fun v prog => ?_⟩
    · simpa [RateLimitingQueue.done] using hwaits.dirty
    · rw [Ne, reconciling_update_ne (hidle w) (by simp)]
      exact hidle v prog
  | shutDown => exact ⟨⟨hwaits.dirty, hwaits.channel, hwaits.waiting⟩, hidle⟩

/-- A failure that nothing has overtaken makes the key wait. -/
theorem pausing_finish (hinv : Inv t) (hfinish : Step C t (.finish w k reply) t') {err : ε}
    (herr : reply.err = some err) (hnot : ¬ t.queue.Scheduled k) {n : ℕ}
    (hn : t.queue.rateLimiter.delay (t.queue.rateLimiter.failures k) = n) (hpos : 0 < n) :
    Pausing k (t.queue.clock + n) t' := by
  intro _
  cases hfinish with
  | finish bucket hw =>
    constructor
    · have hduration : n ≤ max (t.queue.rateLimiter.when k).1 bucket := by
        rw [← hn]
        exact le_max_left _ _
      have hclosed : t.queue.Waits k (t.queue.clock + n) := by
        refine ⟨fun hd => hnot (Or.inl hd), fun e he hk => ?_, fun e he => ?_⟩
        · exact absurd (Or.inr (Or.inl ⟨e, he, hk⟩)) hnot
        · exact absurd (Or.inr (Or.inr (by rw [he]; rfl))) hnot
      simp only [reconcileHandler, herr]
      unfold RateLimitingQueue.addRateLimited DelayingQueue.addAfter
      split_ifs with hterminal hshut hzero
      -- after a terminal error the key is not put back at all
      · exact hclosed
      · exact ⟨hclosed.dirty, hclosed.channel, hclosed.waiting⟩
      · omega
      · refine ⟨hclosed.dirty, fun e he hk => ?_, hclosed.waiting⟩
        rcases List.mem_append.mp he with he | he
        · exact hclosed.channel e he hk
        · rw [List.mem_singleton.mp he]
          dsimp only
          omega
    · intro v prog hv
      by_cases hvw : v = w
      · rw [hvw] at hv
        simp at hv
      · simp only [Function.update_of_ne hvw] at hv
        exact hvw (hinv.eq_of_reconciling hv hw)

end Backoff

/-- A key whose run has failed, and which nothing else has scheduled, is not handed out again
before its backoff is over, unless a handler adds it: five milliseconds after the first failure
and twice as long after each further one, up to a thousand seconds. -/
theorem Runs.backoff (h : Runs C s ls₁ t) (hfinish : Step C t (.finish w k reply) t') {err : ε}
    (herr : reply.err = some err) (hnot : ¬ t.queue.Scheduled k)
    (hlater : Trace (Step C) t' ls₂ u) (hadded : ∀ added, .env added ∈ ls₂ → k ∉ added)
    (hget : Step C u (.get v k) u') :
    t.queue.clock + min (5000000 * 2 ^ streak C k ls₁) 1000000000000 ≤ u.queue.clock := by
  have hdelay : t.queue.rateLimiter.delay (t.queue.rateLimiter.failures k) =
      min (5000000 * 2 ^ streak C k ls₁) 1000000000000 := by
    rw [h.rateLimiter_eq, delay_default]
  have hpos : 0 < min (5000000 * 2 ^ streak C k ls₁) 1000000000000 := by
    have hpow := Nat.two_pow_pos (streak C k ls₁)
    omega
  have ht' : Inv t' := h.inv.step hfinish
  have hu : Inv u ∧ Pausing k (t.queue.clock +
      min (5000000 * 2 ^ streak C k ls₁) 1000000000000) u := by
    clear hget
    induction hlater with
    | nil => exact ⟨ht', pausing_finish h.inv hfinish herr hnot hdelay hpos⟩
    | @snoc ls a b l trace last ih =>
      obtain ⟨ha, hpausing⟩ := ih fun added hm => hadded added (List.mem_append_left _ hm)
      refine ⟨ha.step last, hpausing.step ha last ?_⟩
      rintro added rfl
      exact hadded added (by simp)
  by_contra hlt
  cases hget with
  | get _ hget => exact not_get_of_waits hu.1 (hu.2 (Nat.not_le.mp hlt)).1 hget

/-- The first failure and what follows until the key is handed out again. -/
theorem Runs.backoff_asking :
    ∃ (ls₁ ls₂ : List (Label Unit ℕ Unit (fun _ => Bool) String))
      (t t' u u' : State Unit _ _ _ _ _), Runs asking () ls₁ t ∧
        Step asking t (.finish () 0 ⟨false, 0, some "down"⟩) t' ∧
        Trace (Step asking) t' ls₂ u ∧ Step asking u (.get () 0) u' ∧
        t.queue.clock + min (5000000 * 2 ^ streak asking 0 ls₁) 1000000000000 ≤ u.queue.clock := by
  have h : Runs asking () [] (start () : State Unit _ _ _ _ _) := .nil
  have h := Trace.snoc h (.env (show asking.env () [0] () from rfl))
  have h := Trace.snoc h (.get (w := ()) rfl rfl)
  have h := Trace.snoc h (.call (o := false) (w := ()) rfl rfl)
  have hnot : ∀ q : RateLimitingQueue ℕ, q.inner.dirty = ∅ → q.waitingForAddCh = [] →
      q.waitingForQueue.entries = [] → ¬ q.Scheduled 0 := by
    rintro q hd hch hw (h | ⟨e, he, -⟩ | h)
    · simp [hd] at h
    · simp [hch] at he
    · simp [WaitForPriorityQueue.known, hw] at h
  obtain ⟨t, t', u, u', h, hnot, hfinish, hlater, hget⟩ : ∃ t t' u u' : State Unit _ _ _ _ _,
      Runs asking () [.env [0], .get () 0, .call () 0 () false] t ∧ ¬ t.queue.Scheduled 0 ∧
        Step asking t (.finish () 0 ⟨false, 0, some "down"⟩) t' ∧
        Trace (Step asking) t' [.done () 0, .receive, .tick, .addReady] u ∧
        Step asking u (.get () 0) u' :=
    ⟨_, _, _, _, h, hnot _ rfl rfl rfl, .finish 0 rfl,
      .snoc (.snoc (.snoc (.snoc .nil (.done rfl)) .receive) (.tick 5000000)) .addReady,
      .get rfl rfl⟩
  exact ⟨_, _, t, t', u, u', h, hfinish, hlater, hget,
    Runs.backoff h hfinish rfl hnot hlater (by simp) hget⟩

section ShutDown

def handedOut (ls : List (Label ω κ ι ο ε)) : List κ :=
  ls.filterMap fun
    | .get _ req => some req
    | _ => none

/-- Once the queue is shut down nothing becomes dirty any more. -/
theorem Step.dirty_of_shuttingDown (hs : Step C c l c')
    (hshut : c.queue.inner.shuttingDown = true) :
    c'.queue.inner.shuttingDown = true ∧ c'.queue.inner.dirty ⊆ c.queue.inner.dirty := by
  have hadd : ∀ (added : List κ), added.foldl RateLimitingQueue.add c.queue = c.queue := by
    intro added
    induction added with
    | nil => rfl
    | cons item added ih =>
      have hsame : c.queue.add item = c.queue := by
        unfold RateLimitingQueue.add DelayingQueue.add
        rw [Workqueue.add_of_shuttingDown hshut]
      rw [List.foldl_cons, hsame, ih]
  have hafter : ∀ (q : RateLimitingQueue κ) (item : κ) (duration : ℕ), q.inner = c.queue.inner →
      (q.addAfter item duration).inner = c.queue.inner := by
    intro q item duration hq
    unfold RateLimitingQueue.addAfter DelayingQueue.addAfter
    rw [hq, if_pos hshut, hq]
  have hsame : c'.queue.inner = c.queue.inner → c'.queue.inner.shuttingDown = true ∧
      c'.queue.inner.dirty ⊆ c.queue.inner.dirty := by
    intro hinner
    rw [hinner]
    exact ⟨hshut, Finset.Subset.refl _⟩
  cases hs with
  | @env added world _ =>
    refine hsame ?_
    dsimp only
    rw [hadd]
  | tick duration => exact hsame rfl
  | receive =>
    refine hsame ?_
    dsimp only
    unfold RateLimitingQueue.receive DelayingQueue.receive
    split
    · rfl
    · split_ifs
      · rfl
      · exact Workqueue.add_of_shuttingDown hshut
  | addReady =>
    refine hsame ?_
    dsimp only
    unfold RateLimitingQueue.addReady DelayingQueue.addReady
    split
    · rfl
    · split_ifs
      · rfl
      · exact Workqueue.add_of_shuttingDown hshut
  | get _ hget =>
    obtain ⟨rest, -, rfl⟩ := Workqueue.get_eq_some hget
    exact ⟨hshut, Finset.erase_subset _ _⟩
  | stop _ hget =>
    obtain ⟨-, -, rfl⟩ := Workqueue.get_eq_none hget
    exact hsame rfl
  | call _ _ => exact hsame rfl
  | @finish w req reply bucket _ =>
    refine hsame ?_
    dsimp only
    unfold reconcileHandler
    split
    · split_ifs
      · rfl
      · exact hafter _ _ _ rfl
    · split_ifs
      · exact hafter _ _ _ rfl
      · exact hafter _ _ _ rfl
      · rfl
  | done _ =>
    refine ⟨?_, ?_⟩
    · simpa [RateLimitingQueue.done] using hshut
    · simp [RateLimitingQueue.done]
  | shutDown => exact ⟨rfl, Finset.Subset.refl _⟩

end ShutDown

/-- After a shutdown each key is handed out once more at most, whatever events still come. -/
theorem Runs.once_after_shutDown (h : Runs C s (ls₁ ++ .shutDown :: ls₂) c) :
    (handedOut ls₂).Nodup := by
  obtain ⟨t, t', ht, hshut, hlater⟩ := Trace.exists_step h
  have ht' : Inv t' := (Runs.inv ht).step hshut
  have hdown : t'.queue.inner.shuttingDown = true := by
    cases hshut
    rfl
  have hall : Inv c ∧ c.queue.inner.shuttingDown = true ∧ (handedOut ls₂).Nodup ∧
      ∀ k ∈ handedOut ls₂, k ∉ c.queue.inner.dirty := by
    clear h
    induction hlater with
    | nil => exact ⟨ht', hdown, by simp [handedOut], by simp [handedOut]⟩
    | @snoc ls a b l trace last ih =>
      obtain ⟨ha, hadown, hnodup, hclean⟩ := ih
      obtain ⟨hbdown, hsub⟩ := last.dirty_of_shuttingDown hadown
      refine ⟨ha.step last, hbdown, ?_⟩
      have hsame : handedOut [l] = [] → (handedOut (ls ++ [l])).Nodup ∧
          ∀ k ∈ handedOut (ls ++ [l]), k ∉ b.queue.inner.dirty := by
        intro hl
        have hls : handedOut (ls ++ [l]) = handedOut ls := by
          unfold handedOut at hl ⊢
          rw [List.filterMap_append, hl, List.append_nil]
        rw [hls]
        exact ⟨hnodup, fun k hk hd => hclean k hk (hsub hd)⟩
      cases last with
      | @get w req inner _ hget =>
        obtain ⟨rest, hqueue, rfl⟩ := Workqueue.get_eq_some hget
        have hdirty := ((ha.valid.queued req).mp (by simp [hqueue])).1
        have hls : handedOut (ls ++ [.get w req]) = handedOut ls ++ [req] := by
          simp [handedOut]
        rw [hls]
        refine ⟨?_, fun k hk => ?_⟩
        · rw [List.nodup_append]
          refine ⟨hnodup, List.nodup_singleton _, fun x hx y hy hxy => ?_⟩
          rw [List.mem_singleton.mp hy] at hxy
          exact hclean x hx (hxy ▸ hdirty)
        · rcases List.mem_append.mp hk with hk | hk
          · exact fun hd => hclean k hk (Finset.mem_of_mem_erase hd)
          · rw [List.mem_singleton.mp hk]
            exact Finset.notMem_erase _ _
      | _ => exact hsame rfl
  exact hall.2.2.1

/-- A key that is queued at the shutdown is run, and what is added then is not. -/
theorem Runs.once_after_shutDown_asking :
    ∃ (ls₁ ls₂ : List (Label Unit ℕ Unit (fun _ => Bool) String)) (c : State Unit _ _ _ _ _),
      Runs asking () (ls₁ ++ .shutDown :: ls₂) c ∧ handedOut ls₂ = [0] ∧
        (handedOut ls₂).Nodup := by
  have h : Runs asking () [] (start () : State Unit _ _ _ _ _) := .nil
  have h := Trace.snoc h (.env (show asking.env () [0] () from rfl))
  have h := Trace.snoc h .shutDown
  have h := Trace.snoc h (.get (w := ()) rfl rfl)
  have h := Trace.snoc h (.env (show asking.env () [0] () from rfl))
  have h := Trace.snoc h (.call (o := true) (w := ()) rfl rfl)
  have h := Trace.snoc h (.finish 0 (w := ()) rfl)
  have h := Trace.snoc h (.done (w := ()) rfl)
  have h := Trace.snoc h (.stop (w := ()) rfl rfl)
  have hsplit : Runs asking () ([.env [0]] ++ .shutDown :: [.get () 0, .env [0],
    .call () 0 () true, .finish () 0 ⟨false, 0, none⟩, .done () 0, .stop ()]) _ := h
  exact ⟨_, _, _, hsplit, rfl, hsplit.once_after_shutDown⟩

end Controller
end FrpProvisioner
