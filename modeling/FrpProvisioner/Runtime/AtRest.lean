import FrpProvisioner.Runtime.Controller

/-! What holds when a controller has nothing left to do. A change that concerns a key is on its
way to the event handlers, then the key is on its way through the queue, then a run that starts
after the change is made for it; a run that fails puts the key back. So when nothing is on its
way, the last run for each key has succeeded and nothing that concerns the key has changed
since it started. -/
namespace FrpProvisioner
open Effect
namespace RateLimitingQueue
variable {κ : Type} [DecidableEq κ] {q : RateLimitingQueue κ} {item k : κ}

def Scheduled (q : RateLimitingQueue κ) (k : κ) : Prop :=
  k ∈ q.inner.dirty ∨ (∃ e ∈ q.waitingForAddCh, e.data = k) ∨
    (q.waitingForQueue.known k).isSome = true

theorem scheduled_add (h : q.inner.shuttingDown = false) :
    (q.add item).Scheduled k ↔ k = item ∨ q.Scheduled k := by
  have hmem : k ∈ (q.add item).inner.dirty ↔ k = item ∨ k ∈ q.inner.dirty :=
    Workqueue.mem_add_dirty h
  unfold Scheduled
  rw [hmem, or_assoc]
  rfl

theorem scheduled_foldl_add (added : List κ) (h : q.inner.shuttingDown = false) :
    (added.foldl add q).Scheduled k ↔ k ∈ added ∨ q.Scheduled k := by
  induction added generalizing q with
  | nil => simp
  | cons item added ih =>
    have hopen : (q.add item).inner.shuttingDown = false :=
      (Controller.grows_add q item).shuttingDown.trans h
    rw [List.foldl_cons, ih hopen, scheduled_add h, List.mem_cons]
    tauto

theorem scheduled_addAfter (duration : ℕ) (h : q.inner.shuttingDown = false) :
    (q.addAfter item duration).Scheduled k ↔ k = item ∨ q.Scheduled k := by
  unfold addAfter DelayingQueue.addAfter
  simp only [h, Bool.false_eq_true, ↓reduceIte]
  split_ifs
  · exact scheduled_add h
  · simp only [Scheduled, List.mem_append, List.mem_singleton]
    constructor
    · rintro (hk | ⟨e, he | rfl, hd⟩ | hk)
      · exact Or.inr (Or.inl hk)
      · exact Or.inr (Or.inr (Or.inl ⟨e, he, hd⟩))
      · exact Or.inl hd.symm
      · exact Or.inr (Or.inr (Or.inr hk))
    · rintro (rfl | hk | ⟨e, he, hd⟩ | hk)
      · exact Or.inr (Or.inl ⟨_, Or.inr rfl, rfl⟩)
      · exact Or.inl hk
      · exact Or.inr (Or.inl ⟨e, Or.inl he, hd⟩)
      · exact Or.inr (Or.inr hk)

theorem scheduled_addRateLimited (bucket : ℕ) (h : q.inner.shuttingDown = false) :
    (q.addRateLimited item bucket).Scheduled k ↔ k = item ∨ q.Scheduled k :=
  scheduled_addAfter _ h

theorem scheduled_receive (h : q.inner.shuttingDown = false) :
    q.receive.Scheduled k ↔ q.Scheduled k := by
  unfold receive DelayingQueue.receive
  split
  · rfl
  next entry rest hch =>
    split_ifs with hready
    · simp only [Scheduled, hch, List.mem_cons, WaitForPriorityQueue.known_insert_isSome]
      constructor
      · rintro (hk | ⟨e, he, hd⟩ | rfl | hk)
        · exact Or.inl hk
        · exact Or.inr (Or.inl ⟨e, Or.inr he, hd⟩)
        · exact Or.inr (Or.inl ⟨entry, Or.inl rfl, rfl⟩)
        · exact Or.inr (Or.inr hk)
      · rintro (hk | ⟨e, rfl | he, hd⟩ | hk)
        · exact Or.inl hk
        · exact Or.inr (Or.inr (Or.inl hd.symm))
        · exact Or.inr (Or.inl ⟨e, he, hd⟩)
        · exact Or.inr (Or.inr (Or.inr hk))
    · have hmem : k ∈ (q.inner.add entry.data).dirty ↔ k = entry.data ∨ k ∈ q.inner.dirty :=
        Workqueue.mem_add_dirty h
      simp only [Scheduled, DelayingQueue.add, hmem, hch, List.mem_cons]
      constructor
      · rintro ((rfl | hk) | ⟨e, he, hd⟩ | hk)
        · exact Or.inr (Or.inl ⟨entry, Or.inl rfl, rfl⟩)
        · exact Or.inl hk
        · exact Or.inr (Or.inl ⟨e, Or.inr he, hd⟩)
        · exact Or.inr (Or.inr hk)
      · rintro (hk | ⟨e, rfl | he, hd⟩ | hk)
        · exact Or.inl (Or.inr hk)
        · exact Or.inl (Or.inl hd.symm)
        · exact Or.inr (Or.inl ⟨e, he, hd⟩)
        · exact Or.inr (Or.inr hk)

theorem scheduled_addReady (h : q.inner.shuttingDown = false) :
    q.addReady.Scheduled k ↔ q.Scheduled k := by
  unfold addReady DelayingQueue.addReady
  split
  · rfl
  next entry rest hentries =>
    split_ifs with hready
    · rfl
    · have hmem : k ∈ (q.inner.add entry.data).dirty ↔ k = entry.data ∨ k ∈ q.inner.dirty :=
        Workqueue.mem_add_dirty h
      simp only [Scheduled, DelayingQueue.add, hmem, WaitForPriorityQueue.known_pop hentries]
      by_cases hk : k = entry.data
      · subst hk
        have hknown : q.waitingForQueue.known entry.data = some entry :=
          WaitForPriorityQueue.known_eq_some.mpr ⟨by simp [hentries], rfl⟩
        simp [hknown]
      · simp [hk]

/-- `Get` takes one key off the schedule at most. -/
theorem scheduled_get {inner : Workqueue κ} (h : q.inner.get = some (some item, inner))
    (hk : k ≠ item) (hs : q.Scheduled k) :
    ({ q with inner := inner } : RateLimitingQueue κ).Scheduled k := by
  obtain ⟨rest, -, rfl⟩ := Workqueue.get_eq_some h
  rcases hs with hs | hs
  · exact Or.inl (Finset.mem_erase.mpr ⟨hk, hs⟩)
  · exact Or.inr hs

theorem scheduled_done : (q.done item).Scheduled k ↔ q.Scheduled k := by
  unfold Scheduled done
  simp only [Workqueue.done_dirty]

end RateLimitingQueue

namespace Controller
variable {ω κ ι : Type} {ο : ι → Type} {σ ε : Type} [DecidableEq κ]

def again (C : Controller κ ι ο σ ε) (reply : Reply ε) : Bool :=
  match reply.err with
  | some err => !C.terminal err
  | none => decide (0 < reply.requeueAfter) || reply.requeue

section Handler
variable {C : Controller κ ι ο σ ε} {q : RateLimitingQueue κ} {req k : κ} {reply : Reply ε}
  {bucket : ℕ}

theorem scheduled_reconcileHandler (h : q.inner.shuttingDown = false) :
    (C.reconcileHandler q req reply bucket).Scheduled k ↔
      (C.again reply = true ∧ k = req) ∨ q.Scheduled k := by
  cases herr : reply.err with
  | some err =>
    simp only [reconcileHandler, again, herr]
    split_ifs with ht
    · simp [ht]
    · rw [RateLimitingQueue.scheduled_addRateLimited bucket h]
      simp [ht]
  | none =>
    have hforget : (q.forget req).Scheduled k ↔ q.Scheduled k := Iff.rfl
    simp only [reconcileHandler, again, herr]
    split_ifs with hafter hrequeue
    · have hopen : (q.forget req).inner.shuttingDown = false := h
      rw [RateLimitingQueue.scheduled_addAfter _ hopen, hforget]
      simp [hafter]
    · rw [RateLimitingQueue.scheduled_addRateLimited bucket h]
      simp [hrequeue]
    · rw [hforget]
      simp [hafter, hrequeue]

end Handler

section Invariant
variable (C : Controller κ ι ο σ ε) (I : σ → Prop) (Owed : κ → σ → Prop)
  (Keeps : κ → σ → σ → Prop) (Settled : κ → σ → Prop)

/-- Nothing that concerns the key is on its way. -/
structure Still (k : κ) (s : σ) : Prop where
  good : I s
  quiet : ¬ Owed k s

/-- The moves of the others during a run that nothing disturbs, and the answers it gets. -/
abbrev quietly (k : κ) : σ → σ → Prop :=
  Relation.ReflTransGen fun s s' => Still I Owed k s' ∧ Keeps k s s'

abbrev quietServe (serve : Server ι ο σ) (k : κ) : Server ι ο σ :=
  fun s i o s' => Still I Owed k s ∧ serve s i o s' ∧ Still I Owed k s'

/-- What is left of a run still settles its key, unless something that concerns it changes. -/
def Promises (k : κ) (prog : Program ι ο (Reply ε)) (s : σ) : Prop :=
  prog.wp (quietly I Owed Keeps k) (quietServe I Owed C.serve k) (fun _ _ _ _ => True)
    (fun reply s => C.again reply = true ∨ Settled k s) s

/-- What a controller that is run for changes needs. `Owed k` says that a change that concerns
`k` is still on its way to the handlers, `Keeps k` that a move of the world does not concern
`k`, and `Settled k` is what a run for `k` is to achieve. -/
structure LevelTriggered (G : κ → Server ι ο σ) : Prop where
  /-- A change becomes owed, and stays so until a handler has added the key. -/
  env : ∀ s added s', I s → C.env s added s' → ∀ k,
    Owed k s' ∨ k ∈ added ∨ (¬ Owed k s ∧ Keeps k s s')
  serve : ∀ p s i o s', I s → C.serve s i o s' → G p s i o s' → ∀ k,
    Owed k s' ∨ (¬ Owed k s ∧ Keeps k s s')
  /-- A run during which nothing that concerns its key changes. -/
  run : ∀ k s, I s → ¬ Owed k s → Promises C I Owed Keeps Settled k (C.reconcile k) s
  settled : ∀ k s s', I s → I s' → Keeps k s s' → Settled k s → Settled k s'

/-- A run for the key is still to come, or is on its way to settle it, or the key is settled. -/
inductive Covered (k : κ) (c : State ω κ ι ο σ ε) : Prop
  | owed (h : Owed k c.world)
  | scheduled (h : c.queue.Scheduled k)
  | running (w : ω) (prog : Program ι ο (Reply ε)) (here : c.workers w = .reconciling k prog)
      (h : Promises C I Owed Keeps Settled k prog c.world)
  | settled (idle : ∀ w prog, c.workers w ≠ .reconciling k prog) (h : Settled k c.world)

end Invariant

section Steps
variable {C : Controller κ ι ο σ ε} {I : σ → Prop} {G : κ → Server ι ο σ}
  {Owed : κ → σ → Prop} {Keeps : κ → σ → σ → Prop} {Settled : κ → σ → Prop}
  {c c' : State ω κ ι ο σ ε} {k : κ} {s : σ}

/-- A step that is not one of a run for the key. -/
theorem Covered.keep (hL : LevelTriggered C I Owed Keeps Settled G)
    (h : Covered C I Owed Keeps Settled k c) (hI : I c.world) (hI' : I c'.world)
    (hq : c.queue.Scheduled k → c'.queue.Scheduled k)
    (hw : ∀ w prog, c'.workers w = .reconciling k prog ↔ c.workers w = .reconciling k prog)
    (hs : Owed k c'.world ∨ c'.queue.Scheduled k ∨ c'.world = c.world ∨
      (¬ Owed k c.world ∧ Keeps k c.world c'.world)) :
    Covered C I Owed Keeps Settled k c' := by
  by_cases howed : Owed k c'.world
  · exact .owed howed
  rcases hs with hs | hs | hs | ⟨hnot, hs⟩
  · exact absurd hs howed
  · exact .scheduled hs
  · cases h with
    | owed h => exact absurd (hs ▸ h) howed
    | scheduled h => exact .scheduled (hq h)
    | running w prog here h => exact .running w prog ((hw w prog).mpr here) (hs ▸ h)
    | settled idle h =>
      exact .settled (fun w prog hrun => idle w prog ((hw w prog).mp hrun)) (hs ▸ h)
  · cases h with
    | owed h => exact absurd h hnot
    | scheduled h => exact .scheduled (hq h)
    | running w prog here h =>
      refine .running w prog ((hw w prog).mpr here) (Program.wp_stable h ?_ ?_)
      · exact fun s₁ h₁ => .head ⟨⟨hI', howed⟩, hs⟩ h₁
      · exact fun reply hr => hr.imp_right (hL.settled k _ _ hI hI' hs)
    | settled idle h =>
      exact .settled (fun w prog hrun => idle w prog ((hw w prog).mp hrun))
        (hL.settled k _ _ hI hI' hs h)

variable [DecidableEq ω]

omit [DecidableEq κ] in
/-- A worker that is not in a run for `k`, before or after. -/
theorem reconciling_update_ne {workers : ω → Worker κ ι ο ε} {w : ω} {x : Worker κ ι ο ε}
    (h : ∀ prog, workers w ≠ .reconciling k prog) (hx : ∀ prog, x ≠ .reconciling k prog)
    (v : ω) (prog : Program ι ο (Reply ε)) :
    Function.update workers w x v = .reconciling k prog ↔ workers v = .reconciling k prog := by
  by_cases hv : v = w
  · rw [hv, Function.update_self]
    exact iff_of_false (hx prog) (h prog)
  · rw [Function.update_of_ne hv]

omit [DecidableEq κ] [DecidableEq ω] in
/-- Whoever is in a run for the key of `w` is `w`. -/
theorem Inv.eq_of_reconciling (h : Inv c) {v w : ω} {prog prog' : Program ι ο (Reply ε)}
    (hv : c.workers v = .reconciling k prog) (hw : c.workers w = .reconciling k prog') : v = w :=
  h.exclusive v w k (by rw [hv, Worker.item]) (by rw [hw, Worker.item])

/-- A run starts when nothing is owed any more, or will be made again. -/
theorem Covered.get (hL : LevelTriggered C I Owed Keeps Settled G) (hI : I c.world) {w : ω}
    {inner : Workqueue κ} :
    Covered C I Owed Keeps Settled k { c with
      queue.inner := inner
      workers := Function.update c.workers w (.reconciling k (C.reconcile k)) } := by
  by_cases howed : Owed k c.world
  · exact .owed howed
  · exact .running w _ (Function.update_self ..) (hL.run k c.world hI howed)

theorem Covered.call (hL : LevelTriggered C I Owed Keeps Settled G) (hinv : Inv c)
    (h : Covered C I Owed Keeps Settled k c) (hI : I c.world) {w : ω} {i : ι}
    {prog : ο i → Program ι ο (Reply ε)} {o : ο i} {world : σ} (hI' : I world)
    (hw : c.workers w = .reconciling k (.request i prog)) (hserve : C.serve c.world i o world)
    (hG : G k c.world i o world) :
    Covered C I Owed Keeps Settled k { c with
      world := world
      workers := Function.update c.workers w (.reconciling k (prog o)) } := by
  rcases hL.serve k c.world i o world hI hserve hG k with howed | ⟨hnot, -⟩
  · exact .owed howed
  by_cases howed : Owed k world
  · exact .owed howed
  cases h with
  | owed h => exact absurd h hnot
  | scheduled h => exact .scheduled h
  | running v p here h =>
    obtain rfl := hinv.eq_of_reconciling here hw
    cases here.symm.trans hw
    refine .running v _ (Function.update_self ..) ?_
    exact (h c.world .refl o world ⟨⟨hI, hnot⟩, hserve, hI', howed⟩).2
  | settled idle h => exact absurd hw (idle w _)

theorem Covered.finish (hinv : Inv c) (h : Covered C I Owed Keeps Settled k c) {w : ω}
    {reply : Reply ε} {bucket : ℕ} (hopen : c.queue.inner.shuttingDown = false)
    (hw : c.workers w = .reconciling k (.pure reply)) :
    Covered C I Owed Keeps Settled k { c with
      queue := C.reconcileHandler c.queue k reply bucket
      workers := Function.update c.workers w (.handled k) } := by
  cases h with
  | owed h => exact .owed h
  | scheduled h => exact .scheduled ((scheduled_reconcileHandler hopen).mpr (Or.inr h))
  | running v p here h =>
    obtain rfl := hinv.eq_of_reconciling here hw
    cases here.symm.trans hw
    rcases h with hagain | hsettled
    · exact .scheduled ((scheduled_reconcileHandler hopen).mpr (Or.inl ⟨hagain, rfl⟩))
    · refine .settled (fun u prog hrun => ?_) hsettled
      by_cases hu : u = v
      · rw [hu] at hrun
        simp at hrun
      · simp only [Function.update_of_ne hu] at hrun
        exact hu (hinv.eq_of_reconciling hrun here)
  | settled idle h => exact absurd hw (idle w _)

/-- The queue is shut down for good. -/
theorem Step.shuttingDown {l : Label ω κ ι ο ε} (hs : Step C c l c')
    (h : c'.queue.inner.shuttingDown = false) : c.queue.inner.shuttingDown = false := by
  cases hs with
  | env _ => exact (grows_foldl_add _ _).shuttingDown.symm.trans h
  | tick duration => exact h
  | receive => exact (grows_receive _).shuttingDown.symm.trans h
  | addReady => exact (grows_addReady _).shuttingDown.symm.trans h
  | get _ hget =>
    obtain ⟨rest, -, rfl⟩ := Workqueue.get_eq_some hget
    exact h
  | stop _ hget =>
    obtain ⟨-, -, rfl⟩ := Workqueue.get_eq_none hget
    exact h
  | call _ _ => exact h
  | finish bucket _ => exact (grows_reconcileHandler _ _ _ _).shuttingDown.symm.trans h
  | done _ => exact Workqueue.done_shuttingDown.symm.trans h
  | shutDown => cases h

/-- What is known of the state before a step and of the world after it. -/
theorem Covered.step (hL : LevelTriggered C I Owed Keeps Settled G) {l : Label ω κ ι ο ε}
    (hinv : Inv c) (h : Covered C I Owed Keeps Settled k c) (hI : I c.world) (hI' : I c'.world)
    (hG : ∀ w req i o, l = .call w req i o → G req c.world i o c'.world)
    (hopen : c'.queue.inner.shuttingDown = false) (hs : Step C c l c') :
    Covered C I Owed Keeps Settled k c' := by
  have hopen₀ := hs.shuttingDown hopen
  cases hs with
  | @env added world henv =>
    have hq : ∀ q, q = added.foldl RateLimitingQueue.add c.queue →
        (q.Scheduled k ↔ k ∈ added ∨ c.queue.Scheduled k) := by
      rintro _ rfl
      exact RateLimitingQueue.scheduled_foldl_add added hopen₀
    refine h.keep hL hI hI' (fun hk => (hq _ rfl).mpr (Or.inr hk)) (fun _ _ => Iff.rfl) ?_
    rcases hL.env c.world added world hI henv k with howed | hadded | hkeeps
    · exact Or.inl howed
    · exact Or.inr (Or.inl ((hq _ rfl).mpr (Or.inl hadded)))
    · exact Or.inr (Or.inr (Or.inr hkeeps))
  | tick duration => exact h.keep hL hI hI' id (fun _ _ => Iff.rfl) (Or.inr (Or.inr (Or.inl rfl)))
  | receive =>
    exact h.keep hL hI hI' (RateLimitingQueue.scheduled_receive hopen₀).mpr (fun _ _ => Iff.rfl)
      (Or.inr (Or.inr (Or.inl rfl)))
  | addReady =>
    exact h.keep hL hI hI' (RateLimitingQueue.scheduled_addReady hopen₀).mpr (fun _ _ => Iff.rfl)
      (Or.inr (Or.inr (Or.inl rfl)))
  | @get w req inner hidle hget =>
    by_cases hk : k = req
    · subst hk
      exact Covered.get hL hI
    · refine h.keep hL hI hI' (RateLimitingQueue.scheduled_get hget hk)
        (reconciling_update_ne ?_ ?_) (Or.inr (Or.inr (Or.inl rfl)))
      · simp [hidle]
      · simp [Ne.symm hk]
  | @stop w inner hidle hget =>
    obtain ⟨-, -, rfl⟩ := Workqueue.get_eq_none hget
    refine h.keep hL hI hI' id (reconciling_update_ne ?_ ?_) (Or.inr (Or.inr (Or.inl rfl)))
    · simp [hidle]
    · simp
  | @call w req i prog o world hw hserve =>
    by_cases hk : k = req
    · subst hk
      exact Covered.call hL hinv h hI hI' hw hserve (hG _ _ _ _ rfl)
    · refine h.keep hL hI hI' id (reconciling_update_ne ?_ ?_) ?_
      · simp [hw, Ne.symm hk]
      · simp [Ne.symm hk]
      · rcases hL.serve req c.world i o world hI hserve (hG _ _ _ _ rfl) k with howed | hkeeps
        · exact Or.inl howed
        · exact Or.inr (Or.inr (Or.inr hkeeps))
  | @finish w req reply bucket hw =>
    by_cases hk : k = req
    · subst hk
      exact Covered.finish hinv h hopen₀ hw
    · refine h.keep hL hI hI' (fun hq => (scheduled_reconcileHandler hopen₀).mpr (Or.inr hq))
        (reconciling_update_ne ?_ ?_) (Or.inr (Or.inr (Or.inl rfl)))
      · simp [hw, Ne.symm hk]
      · simp
  | @done w req hw =>
    refine h.keep hL hI hI' RateLimitingQueue.scheduled_done.mpr (reconciling_update_ne ?_ ?_)
      (Or.inr (Or.inr (Or.inl rfl)))
    · simp [hw]
    · simp
  | shutDown => cases hopen

end Steps

section Runs
variable [DecidableEq ω] {C : Controller κ ι ο σ ε} {I : σ → Prop} {G : κ → Server ι ο σ}
  {Q : κ → Reply ε → σ → Prop} {Owed : κ → σ → Prop} {Keeps : κ → σ → σ → Prop}
  {Settled : κ → σ → Prop} {s : σ} {ls : List (Label ω κ ι ο ε)} {c : State ω κ ι ο σ ε}

/-- An invariant of the processes is one of the controller, whatever the workers do. -/
theorem Runs.system_inv (hM : C.system.Compatible I G Q) (hs : I s) (h : Runs C s ls c) :
    ∃ d, C.system.Inv I G Q d ∧ Simulates c d := by
  obtain ⟨d, hrun, hsim⟩ := h.simulates
  exact ⟨d, (System.inv_idle hs).run hM hrun, hsim⟩

theorem Runs.world_inv (hM : C.system.Compatible I G Q) (hs : I s) (h : Runs C s ls c) :
    I c.world := by
  obtain ⟨d, hd, hsim⟩ := h.system_inv hM hs
  exact hsim.state ▸ hd.1

/-- In every run every key is covered, from a world in which changes are owed for all keys that
are not settled. -/
theorem Runs.covered (hM : C.system.Compatible I G Q)
    (hL : LevelTriggered C I Owed Keeps Settled G) (hs : I s)
    (h₀ : ∀ k, Owed k s ∨ Settled k s) (h : Runs C s ls c)
    (hopen : c.queue.inner.shuttingDown = false) (k : κ) :
    Covered C I Owed Keeps Settled k c := by
  induction h with
  | nil =>
    rcases h₀ k with howed | hsettled
    · exact .owed howed
    · exact .settled (by simp [start]) hsettled
  | @snoc ls t u l trace last ih =>
    have ht : Runs C s ls t := trace
    have hu : Runs C s (ls ++ [l]) u := .snoc trace last
    refine (ih (last.shuttingDown hopen)).step hL ht.inv (ht.world_inv hM hs)
      (hu.world_inv hM hs) ?_ hopen last
    rintro w req i o rfl
    obtain ⟨d, hd, hsim⟩ := ht.system_inv hM hs
    cases last with
    | call hw hserve =>
      have hproc := (hsim.procs req _).mpr ⟨w, hw⟩
      rw [← hsim.state] at hserve ⊢
      exact hd.guarantee hproc hserve

/-- Nothing is queued or waits, and no worker has a key. -/
structure AtRest (c : State ω κ ι ο σ ε) : Prop where
  serving : c.queue.inner.shuttingDown = false
  queue : c.queue.inner.queue = []
  channel : c.queue.waitingForAddCh = []
  waiting : c.queue.waitingForQueue.entries = []
  workers : ∀ w, (c.workers w).item = none

omit [DecidableEq ω] in
theorem AtRest.not_scheduled (h : AtRest c) (hinv : Inv c) {k : κ} : ¬ c.queue.Scheduled k := by
  rintro (hq | ⟨e, he, -⟩ | hq)
  · -- what is dirty but not queued would be with a worker
    have hprocessing : k ∈ c.queue.inner.processing := by
      by_contra hnot
      have hqueued := (hinv.valid.queued k).mpr ⟨hq, hnot⟩
      rw [h.queue] at hqueued
      cases hqueued
    obtain ⟨w, hw⟩ := (hinv.held k).mp hprocessing
    cases (h.workers w).symm.trans hw
  · rw [h.channel] at he
    cases he
  · simp [WaitForPriorityQueue.known, h.waiting] at hq

/-- A controller that is at rest has settled every key for which nothing is owed. -/
theorem Runs.settled_at_rest (hM : C.system.Compatible I G Q)
    (hL : LevelTriggered C I Owed Keeps Settled G) (hs : I s)
    (h₀ : ∀ k, Owed k s ∨ Settled k s) (h : Runs C s ls c) (hrest : AtRest c) {k : κ}
    (hk : ¬ Owed k c.world) : Settled k c.world := by
  cases h.covered hM hL hs h₀ hrest.serving k with
  | owed howed => exact absurd howed hk
  | scheduled hq => exact absurd hq (hrest.not_scheduled h.inv)
  | running w prog here _ =>
    have hw := hrest.workers w
    rw [here, Worker.item] at hw
    cases hw
  | settled _ hsettled => exact hsettled

end Runs
end Controller
end FrpProvisioner
