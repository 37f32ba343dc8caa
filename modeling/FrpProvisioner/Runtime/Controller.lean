import FrpProvisioner.Effect.Interleaving
import FrpProvisioner.Effect.Trace
import FrpProvisioner.Runtime.Workqueue

/-! The controller of `controller-runtime/pkg/internal/controller`: any number of workers take
keys from one work queue, run the reconciler for them and put them back as its result says.
Event handlers, the clock and the waiting loop of the queue act at any time in between. -/
namespace FrpProvisioner
open Effect

/-- What a reconciler returns, a `reconcile.Result` and an error. -/
structure Reply (ε : Type) where
  requeue : Bool
  requeueAfter : ℕ
  err : Option ε

/-- What a controller is built of. The requests of its reconciler are answered by a world, which
also moves by itself; `env s added s'` is such a move, on which the handlers add `added`. -/
structure Controller (κ ι : Type) (ο : ι → Type) (σ ε : Type) where
  reconcile : κ → Program ι ο (Reply ε)
  serve : Server ι ο σ
  env : σ → List κ → σ → Prop
  /-- `errors.Is(err, reconcile.TerminalError(nil))`. -/
  terminal : ε → Bool

namespace Controller
variable {ω κ ι : Type} {ο : ι → Type} {σ ε : Type}

/-- Where a worker is in `processNextWorkItem`. -/
inductive Worker (κ ι : Type) (ο : ι → Type) (ε : Type) where
  /-- Before `Queue.Get`. -/
  | idle
  | reconciling (req : κ) (prog : Program ι ο (Reply ε))
  /-- `reconcileHandler` has returned; the deferred `Queue.Done` is left. -/
  | handled (req : κ)
  | stopped

def Worker.item : Worker κ ι ο ε → Option κ
  | .reconciling req _ => some req
  | .handled req => some req
  | .idle => none
  | .stopped => none

structure State (ω κ ι : Type) (ο : ι → Type) (σ ε : Type) where
  world : σ
  queue : RateLimitingQueue κ
  workers : ω → Worker κ ι ο ε

def start (s : σ) : State ω κ ι ο σ ε := ⟨s, .new, fun _ => .idle⟩

inductive Label (ω κ ι : Type) (ο : ι → Type) (ε : Type) where
  | env (added : List κ)
  | tick
  | receive
  | addReady
  | get (w : ω) (req : κ)
  | stop (w : ω)
  | call (w : ω) (req : κ) (i : ι) (o : ο i)
  | finish (w : ω) (req : κ) (reply : Reply ε)
  | done (w : ω) (req : κ)
  | shutDown

variable [DecidableEq κ]

/-- What `reconcileHandler` does to the queue once the reconciler has returned. -/
def reconcileHandler (C : Controller κ ι ο σ ε) (q : RateLimitingQueue κ) (req : κ)
    (reply : Reply ε) (bucket : ℕ) : RateLimitingQueue κ :=
  match reply.err with
  | some err => if C.terminal err then q else q.addRateLimited req bucket
  | none =>
    if 0 < reply.requeueAfter then (q.forget req).addAfter req reply.requeueAfter
    else if reply.requeue then q.addRateLimited req bucket
    else q.forget req

variable [DecidableEq ω]

inductive Step (C : Controller κ ι ο σ ε) :
    State ω κ ι ο σ ε → Label ω κ ι ο ε → State ω κ ι ο σ ε → Prop where
  | env {c : State ω κ ι ο σ ε} {added : List κ} {world : σ} : C.env c.world added world →
      Step C c (.env added)
        { c with world := world, queue := added.foldl RateLimitingQueue.add c.queue }
  | tick {c : State ω κ ι ο σ ε} (duration : ℕ) :
      Step C c .tick { c with queue.clock := c.queue.clock + duration }
  -- the waiting loop of the queue
  | receive {c : State ω κ ι ο σ ε} : Step C c .receive { c with queue := c.queue.receive }
  | addReady {c : State ω κ ι ο σ ε} : Step C c .addReady { c with queue := c.queue.addReady }
  -- the workers
  | get {c : State ω κ ι ο σ ε} {w : ω} {req : κ} {inner : Workqueue κ} :
      c.workers w = .idle → c.queue.inner.get = some (some req, inner) →
      Step C c (.get w req)
        { c with
          queue.inner := inner
          workers := Function.update c.workers w (.reconciling req (C.reconcile req)) }
  | stop {c : State ω κ ι ο σ ε} {w : ω} {inner : Workqueue κ} :
      c.workers w = .idle → c.queue.inner.get = some (none, inner) →
      Step C c (.stop w)
        { c with queue.inner := inner, workers := Function.update c.workers w .stopped }
  | call {c : State ω κ ι ο σ ε} {w : ω} {req : κ} {i : ι} {k : ο i → Program ι ο (Reply ε)}
      {o : ο i} {world : σ} :
      c.workers w = .reconciling req (.request i k) → C.serve c.world i o world →
      Step C c (.call w req i o)
        { c with
          world := world
          workers := Function.update c.workers w (.reconciling req (k o)) }
  | finish {c : State ω κ ι ο σ ε} {w : ω} {req : κ} {reply : Reply ε} (bucket : ℕ) :
      c.workers w = .reconciling req (.pure reply) →
      Step C c (.finish w req reply)
        { c with
          queue := C.reconcileHandler c.queue req reply bucket
          workers := Function.update c.workers w (.handled req) }
  | done {c : State ω κ ι ο σ ε} {w : ω} {req : κ} :
      c.workers w = .handled req →
      Step C c (.done w req)
        { c with
          queue := c.queue.done req
          workers := Function.update c.workers w .idle }
  -- the context is done
  | shutDown {c : State ω κ ι ο σ ε} : Step C c .shutDown { c with queue := c.queue.shutDown }

abbrev Runs (C : Controller κ ι ο σ ε) (s : σ) (ls : List (Label ω κ ι ο ε))
    (c : State ω κ ι ο σ ε) : Prop :=
  Trace (Step C) (start s) ls c

section Queue
variable {q : RateLimitingQueue κ} {item k : κ} {bucket duration : ℕ} {reply : Reply ε}
  {C : Controller κ ι ο σ ε}

/-- What can be done to the queue beside `Get` and `Done`: keys are added. -/
structure Grows (q q' : RateLimitingQueue κ) : Prop where
  processing : q'.inner.processing = q.inner.processing
  shuttingDown : q'.inner.shuttingDown = q.inner.shuttingDown
  valid : q.inner.Valid → q'.inner.Valid

omit [DecidableEq κ] in
theorem Grows.refl (q : RateLimitingQueue κ) : Grows q q := ⟨rfl, rfl, id⟩

omit [DecidableEq κ] in
theorem Grows.trans {q₁ q₂ q₃ : RateLimitingQueue κ} (h : Grows q₁ q₂) (h' : Grows q₂ q₃) :
    Grows q₁ q₃ :=
  ⟨h'.processing.trans h.processing, h'.shuttingDown.trans h.shuttingDown,
    fun hv => h'.valid (h.valid hv)⟩

omit [DecidableEq κ] in
theorem Grows.of_inner {q' : RateLimitingQueue κ} (h : q'.inner = q.inner) : Grows q q' := by
  refine ⟨?_, ?_, ?_⟩ <;> rw [h]
  exact id

/-- Every way to add a key ends in `Add` of the inner queue. -/
theorem Grows.of_add {q' : RateLimitingQueue κ} (h : q'.inner = q.inner.add item) :
    Grows q q' := by
  refine ⟨?_, ?_, fun hv => ?_⟩ <;> rw [h]
  · exact Workqueue.add_processing
  · exact Workqueue.add_shuttingDown
  · exact hv.add item

theorem grows_add (q : RateLimitingQueue κ) (item : κ) : Grows q (q.add item) := .of_add rfl

theorem grows_foldl_add (added : List κ) (q : RateLimitingQueue κ) :
    Grows q (added.foldl RateLimitingQueue.add q) := by
  induction added generalizing q with
  | nil => exact .refl q
  | cons item added ih => exact (grows_add q item).trans (ih (q.add item))

theorem grows_addAfter (q : RateLimitingQueue κ) (item : κ) (duration : ℕ) :
    Grows q (q.addAfter item duration) := by
  unfold RateLimitingQueue.addAfter DelayingQueue.addAfter
  split_ifs
  · exact .of_inner rfl
  · exact .of_add rfl
  · exact .of_inner rfl

theorem grows_addRateLimited (q : RateLimitingQueue κ) (item : κ) (bucket : ℕ) :
    Grows q (q.addRateLimited item bucket) :=
  (grows_addAfter q item _).trans (.of_inner rfl)

theorem grows_receive (q : RateLimitingQueue κ) : Grows q q.receive := by
  unfold RateLimitingQueue.receive DelayingQueue.receive
  split
  · exact .of_inner rfl
  · split_ifs
    · exact .of_inner rfl
    · exact .of_add rfl

theorem grows_addReady (q : RateLimitingQueue κ) : Grows q q.addReady := by
  unfold RateLimitingQueue.addReady DelayingQueue.addReady
  split
  · exact .of_inner rfl
  · split_ifs
    · exact .of_inner rfl
    · exact .of_add rfl

theorem grows_reconcileHandler (q : RateLimitingQueue κ) (req : κ) (reply : Reply ε)
    (bucket : ℕ) : Grows q (C.reconcileHandler q req reply bucket) := by
  unfold reconcileHandler
  split
  · split_ifs
    · exact .refl q
    · exact grows_addRateLimited q req bucket
  · split_ifs
    · have hforget : Grows q (q.forget req) := .of_inner rfl
      exact hforget.trans (grows_addAfter (q.forget req) req reply.requeueAfter)
    · exact grows_addRateLimited q req bucket
    · exact .of_inner rfl

end Queue

/-- The keys that are being processed are those the workers have, and each of them is with one
worker. -/
structure Inv (c : State ω κ ι ο σ ε) : Prop where
  valid : c.queue.inner.Valid
  held : ∀ k, k ∈ c.queue.inner.processing ↔ ∃ w, (c.workers w).item = some k
  exclusive : ∀ v w k, (c.workers v).item = some k → (c.workers w).item = some k → v = w

section Exclusion
variable {C : Controller κ ι ο σ ε} {c c' : State ω κ ι ο σ ε} {l : Label ω κ ι ο ε} {s : σ}
  {ls : List (Label ω κ ι ο ε)}

omit [DecidableEq κ] [DecidableEq ω] in
theorem inv_start (s : σ) : Inv (start s : State ω κ ι ο σ ε) where
  valid := Workqueue.valid_new
  held := by simp [start, RateLimitingQueue.new, Workqueue.new, Worker.item]
  exclusive := by simp [start, Worker.item]

omit [DecidableEq κ] [DecidableEq ω] in
/-- The workers keep their keys and the queue grows. -/
theorem Inv.keep (h : Inv c) (hq : Grows c.queue c'.queue)
    (hw : ∀ w, (c'.workers w).item = (c.workers w).item) : Inv c' where
  valid := hq.valid h.valid
  held k := by
    rw [hq.processing, h.held]
    exact exists_congr fun w => by rw [hw]
  exclusive v w k := by
    rw [hw, hw]
    exact h.exclusive v w k

omit [DecidableEq κ] in
/-- One worker changes without giving its key away or taking one. -/
theorem item_update {workers : ω → Worker κ ι ο ε} {w : ω} {x : Worker κ ι ο ε}
    (h : x.item = (workers w).item) (v : ω) :
    (Function.update workers w x v).item = (workers v).item := by
  by_cases hv : v = w
  · rw [hv, Function.update_self, h]
  · rw [Function.update_of_ne hv]

theorem Inv.get (h : Inv c) {w : ω} {req : κ} {inner : Workqueue κ}
    {prog : Program ι ο (Reply ε)} (hidle : c.workers w = .idle)
    (hget : c.queue.inner.get = some (some req, inner)) :
    Inv { c with
      queue.inner := inner
      workers := Function.update c.workers w (.reconciling req prog) } := by
  obtain ⟨hvalid, hfree⟩ := h.valid.get hget
  obtain ⟨rest, -, hinner⟩ := Workqueue.get_eq_some hget
  -- the key that is handed out was with no worker
  have hnone : ∀ v, (c.workers v).item ≠ some req := fun v hv => hfree ((h.held req).mpr ⟨v, hv⟩)
  have hitem : ∀ v, (Function.update c.workers w (Worker.reconciling req prog) v).item =
      if v = w then some req else (c.workers v).item := by
    intro v
    by_cases hv : v = w
    · simp [hv, Worker.item]
    · simp [hv]
  refine ⟨hvalid, fun k => ?_, fun v v' k => ?_⟩
  · simp only [hitem, hinner, Finset.mem_insert, h.held]
    constructor
    · rintro (rfl | ⟨v, hv⟩)
      · exact ⟨w, by simp⟩
      · refine ⟨v, ?_⟩
        rw [if_neg]
        · exact hv
        · rintro rfl
          simp [hidle, Worker.item] at hv
    · rintro ⟨v, hv⟩
      split_ifs at hv
      · exact Or.inl (Option.some.inj hv).symm
      · exact Or.inr ⟨v, hv⟩
  · simp only [hitem]
    split_ifs with hv hv' hv'
    · exact fun _ _ => hv.trans hv'.symm
    · intro hk hk'
      exact absurd (hk'.trans hk.symm) (hnone v')
    · intro hk hk'
      exact absurd (hk.trans hk'.symm) (hnone v)
    · exact h.exclusive v v' k

theorem Inv.done (h : Inv c) {w : ω} {req : κ} (hw : c.workers w = .handled req) :
    Inv { c with queue := c.queue.done req, workers := Function.update c.workers w .idle } := by
  have hheld : (c.workers w).item = some req := by rw [hw, Worker.item]
  have hitem : ∀ v, (Function.update c.workers w (Worker.idle : Worker κ ι ο ε) v).item =
      if v = w then none else (c.workers v).item := by
    intro v
    by_cases hv : v = w
    · simp [hv, Worker.item]
    · simp [hv]
  refine ⟨h.valid.done ((h.held req).mpr ⟨w, hheld⟩), fun k => ?_, fun v v' k => ?_⟩
  · simp only [hitem, RateLimitingQueue.done, Workqueue.done_processing, Finset.mem_erase, h.held]
    constructor
    · rintro ⟨hne, v, hv⟩
      refine ⟨v, ?_⟩
      rw [if_neg]
      · exact hv
      · rintro rfl
        exact hne (Option.some.inj (hv.symm.trans hheld))
    · rintro ⟨v, hv⟩
      split_ifs at hv with hvw
      refine ⟨?_, v, hv⟩
      rintro rfl
      exact hvw (h.exclusive v w k hv hheld)
  · simp only [hitem]
    split_ifs with hv hv' hv'
    · exact fun _ _ => hv.trans hv'.symm
    · exact fun hk => by cases hk
    · exact fun _ hk => by cases hk
    · exact h.exclusive v v' k

theorem Inv.step (h : Inv c) (hs : Step C c l c') : Inv c' := by
  cases hs with
  | env _ => exact h.keep (grows_foldl_add _ _) fun _ => rfl
  | tick duration => exact h.keep (.of_inner rfl) fun _ => rfl
  | receive => exact h.keep (grows_receive _) fun _ => rfl
  | addReady => exact h.keep (grows_addReady _) fun _ => rfl
  | get hidle hget => exact h.get hidle hget
  | stop hidle hget =>
    obtain ⟨-, -, rfl⟩ := Workqueue.get_eq_none hget
    refine h.keep (.of_inner rfl) (item_update ?_)
    rw [hidle, Worker.item, Worker.item]
  | call hw _ =>
    refine h.keep (.refl _) (item_update ?_)
    rw [hw, Worker.item, Worker.item]
  | finish bucket hw =>
    refine h.keep (grows_reconcileHandler _ _ _ _) (item_update ?_)
    rw [hw, Worker.item, Worker.item]
  | done hw => exact h.done hw
  | shutDown => exact ⟨h.valid.shutDown, h.held, h.exclusive⟩

theorem Runs.inv (h : Runs C s ls c) : Inv c :=
  h.invariant (inv_start s) fun _ _ _ hc hs => hc.step hs

end Exclusion

/-- One process for each key that starts the reconciler at any time, and the world beside them. -/
def system (C : Controller κ ι ο σ ε) : System κ ι ο σ (Reply ε) where
  start req _ prog := prog = C.reconcile req
  serve _ := C.serve
  env s s' := ∃ added, C.env s added s'

/-- What a step of the controller is for the process of its key. -/
def Label.project : Label ω κ ι ο ε → Option (Effect.Label κ ι ο (Reply ε))
  | .env _ => some .env
  | .get _ req => some (.start req)
  | .call _ req i o => some (.call req i o)
  | .finish _ req reply => some (.finish req reply)
  | .tick | .receive | .addReady | .stop _ | .done _ _ | .shutDown => none

/-- The processes are the runs that the workers are in. -/
structure Simulates (c : State ω κ ι ο σ ε) (d : Config κ ι ο σ (Reply ε)) : Prop where
  state : d.state = c.world
  procs : ∀ k prog, d.procs k = some prog ↔ ∃ w, c.workers w = .reconciling k prog

section Refinement
variable {C : Controller κ ι ο σ ε} {c c' : State ω κ ι ο σ ε} {l : Label ω κ ι ο ε} {s : σ}
  {ls : List (Label ω κ ι ο ε)} {d : Config κ ι ο σ (Reply ε)}

/-- A step of one worker in the run for `req`, which is at `x` afterwards. -/
theorem Simulates.update (h : Simulates c d) (hinv : Inv c) {w : ω} {req : κ}
    {x : Option (Program ι ο (Reply ε))} {y : Worker κ ι ο ε} {world : σ}
    {queue : RateLimitingQueue κ}
    (hw : c.workers w = .idle ∧ (∀ v, (c.workers v).item ≠ some req) ∨
      (c.workers w).item = some req)
    (hy : ∀ k prog, y = .reconciling k prog ↔ k = req ∧ x = some prog) :
    Simulates { c with
        world := world, queue := queue, workers := Function.update c.workers w y }
      ⟨world, Function.update d.procs req x⟩ where
  state := rfl
  procs k prog := by
    -- a run for `req` can only be with the worker `w`
    have hother : ∀ v, v ≠ w → c.workers v ≠ .reconciling req prog := by
      intro v hv hrun
      have hitem : (c.workers v).item = some req := by rw [hrun, Worker.item]
      rcases hw with ⟨-, hnone⟩ | hw
      · exact hnone v hitem
      · exact hv (hinv.exclusive v w req hitem hw)
    by_cases hk : k = req
    · subst hk
      simp only [Function.update_self]
      constructor
      · intro hx
        exact ⟨w, by rw [Function.update_self]; exact (hy k prog).mpr ⟨rfl, hx⟩⟩
      · rintro ⟨v, hv⟩
        by_cases hvw : v = w
        · rw [hvw, Function.update_self] at hv
          exact ((hy k prog).mp hv).2
        · rw [Function.update_of_ne hvw] at hv
          exact absurd hv (hother v hvw)
    · simp only [Function.update_of_ne hk, h.procs]
      refine exists_congr fun v => ?_
      by_cases hvw : v = w
      · rw [hvw, Function.update_self, hy]
        refine iff_of_false (fun hrun => ?_) fun hk' => hk hk'.1
        rcases hw with ⟨hidle, -⟩ | hw
        · rw [hidle] at hrun
          cases hrun
        · rw [hrun, Worker.item] at hw
          exact hk (Option.some.inj hw)
      · rw [Function.update_of_ne hvw]

omit [DecidableEq κ] [DecidableEq ω] in
/-- A step that no process sees. -/
theorem Simulates.keep (h : Simulates c d) (hworld : c'.world = c.world)
    (hw : ∀ w k prog, c'.workers w = .reconciling k prog ↔ c.workers w = .reconciling k prog) :
    Simulates c' d where
  state := h.state.trans hworld.symm
  procs k prog := (h.procs k prog).trans (exists_congr fun w => (hw w k prog).symm)

omit [DecidableEq κ] in
/-- A worker moves between states in which it runs nothing. -/
theorem reconciling_update {workers : ω → Worker κ ι ο ε} {w : ω} {x : Worker κ ι ο ε}
    (h : ∀ k prog, workers w ≠ .reconciling k prog) (hx : ∀ k prog, x ≠ .reconciling k prog)
    (v : ω) (k : κ) (prog : Program ι ο (Reply ε)) :
    Function.update workers w x v = .reconciling k prog ↔ workers v = .reconciling k prog := by
  by_cases hv : v = w
  · rw [hv, Function.update_self]
    exact iff_of_false (hx k prog) (h k prog)
  · rw [Function.update_of_ne hv]

theorem Simulates.step (h : Simulates c d) (hinv : Inv c) (hs : Step C c l c') :
    ∃ d', System.Run C.system d l.project.toList d' ∧ Simulates c' d' := by
  obtain ⟨state, procs⟩ := d
  obtain rfl : state = c.world := h.state
  cases hs with
  | @env added world henv =>
    exact ⟨⟨world, procs⟩, .cons (.env ⟨added, henv⟩) (.nil _), rfl, h.procs⟩
  | tick duration => exact ⟨_, .nil _, h.keep rfl fun _ _ _ => Iff.rfl⟩
  | receive => exact ⟨_, .nil _, h.keep rfl fun _ _ _ => Iff.rfl⟩
  | addReady => exact ⟨_, .nil _, h.keep rfl fun _ _ _ => Iff.rfl⟩
  | @get w req inner hidle hget =>
    have hnone : ∀ v, (c.workers v).item ≠ some req := fun v hv =>
      (hinv.valid.get hget).2 ((hinv.held req).mpr ⟨v, hv⟩)
    have hproc : procs req = none := by
      cases hp : procs req with
      | none => rfl
      | some prog =>
        obtain ⟨v, hv⟩ := (h.procs req prog).mp hp
        exact absurd (by rw [hv, Worker.item]) (hnone v)
    refine ⟨_, .cons (.start hproc rfl) (.nil _), h.update hinv (Or.inl ⟨hidle, hnone⟩) ?_⟩
    intro k prog
    simp [eq_comm]
  | @stop w inner hidle hget =>
    refine ⟨_, .nil _, h.keep rfl (reconciling_update ?_ ?_)⟩
    · simp [hidle]
    · simp
  | @call w req i k o world hw hserve =>
    have hproc : procs req = some (.request i k) := (h.procs req _).mpr ⟨w, hw⟩
    refine ⟨_, .cons (.call hproc hserve) (.nil _),
      h.update hinv (Or.inr (by rw [hw, Worker.item])) ?_⟩
    intro k prog
    simp [eq_comm]
  | @finish w req reply bucket hw =>
    have hproc : procs req = some (.pure reply) := (h.procs req _).mpr ⟨w, hw⟩
    refine ⟨_, .cons (.finish hproc) (.nil _),
      h.update hinv (Or.inr (by rw [hw, Worker.item])) ?_⟩
    intro k prog
    simp
  | @done w req hw =>
    refine ⟨_, .nil _, h.keep rfl (reconciling_update ?_ ?_)⟩
    · simp [hw]
    · simp
  | shutDown => exact ⟨_, .nil _, h.keep rfl fun _ _ _ => Iff.rfl⟩

/-- Whatever the workers do, for each key there is one run at a time. -/
theorem Runs.simulates (h : Runs C s ls c) :
    ∃ d, System.Run C.system (System.idle s) (ls.filterMap Label.project) d ∧ Simulates c d := by
  induction h with
  | nil => exact ⟨_, .nil _, rfl, by simp [System.idle, start]⟩
  | @snoc ls t u l trace last ih =>
    obtain ⟨d, hrun, hsim⟩ := ih
    obtain ⟨d', hrun', hsim'⟩ := hsim.step (Runs.inv trace) last
    have hlast : [l].filterMap Label.project = l.project.toList := by
      cases hl : l.project <;> simp [hl]
    refine ⟨d', ?_, hsim'⟩
    rw [List.filterMap_append, hlast]
    exact hrun.append hrun'

end Refinement

section Turns
variable {C : Controller κ ι ο σ ε} {s : σ} {ls : List (Label ω κ ι ο ε)} {c : State ω κ ι ο σ ε}

/-- A worker can finish the run it is in while everything else waits. -/
theorem Runs.exec {prog : Program ι ο (Reply ε)} {es : List (Program.Event ι ο)}
    {reply : Reply ε} {world world' : σ}
    (he : Program.Exec C.serve prog world es reply world') {w : ω} {req : κ} (h : Runs C s ls c)
    (hw : c.workers w = .reconciling req prog) (hc : c.world = world) :
    ∃ ls', Runs C s ls' { c with
      world := world'
      workers := Function.update c.workers w (.reconciling req (.pure reply)) } := by
  induction he generalizing ls c with
  | pure a s =>
    subst hc
    refine ⟨ls, ?_⟩
    rw [← hw, Function.update_eq_self]
    exact h
  | request hs _ ih =>
    subst hc
    obtain ⟨ls', h'⟩ := ih (.snoc h (.call hw hs)) (Function.update_self ..) rfl
    refine ⟨ls', ?_⟩
    simpa only [Function.update_idem] using h'

/-- A whole `processNextWorkItem` of an idle worker, with answers that a handler gives. -/
theorem Runs.turn {handle : σ → (i : ι) → ο i × σ}
    (hserve : ∀ s i, C.serve s i (handle s i).1 (handle s i).2) (h : Runs C s ls c) (w : ω)
    (hw : c.workers w = .idle) (req : κ) (rest : List κ)
    (hqueue : c.queue.inner.queue = req :: rest) :
    ∃ ls', Runs C s ls' { c with
      world := (Program.run handle (C.reconcile req) c.world).2.2
      queue := (C.reconcileHandler { c.queue with
          inner := { c.queue.inner with
            queue := rest
            processing := insert req c.queue.inner.processing
            dirty := c.queue.inner.dirty.erase req } } req
        (Program.run handle (C.reconcile req) c.world).2.1 0).done req } := by
  have hget : c.queue.inner.get = some (some req, { c.queue.inner with
      queue := rest
      processing := insert req c.queue.inner.processing
      dirty := c.queue.inner.dirty.erase req }) := by
    rw [Workqueue.get, hqueue]
  obtain ⟨ls₁, h₁⟩ := Runs.exec (Program.exec_run hserve (C.reconcile req) c.world)
    (.snoc h (.get hw hget)) (Function.update_self ..) rfl
  have h₂ := Trace.snoc h₁ (.finish 0 (Function.update_self ..))
  have h₃ := Trace.snoc h₂ (.done (Function.update_self ..))
  simp only [Function.update_idem] at h₃
  rw [← hw, Function.update_eq_self] at h₃
  exact ⟨_, h₃⟩

end Turns
end Controller
end FrpProvisioner
