import FrpProvisioner.Effect.Trace
import Mathlib.Data.Finset.Card
import Mathlib.Data.Fintype.EquivFin
import Mathlib.Logic.Function.Basic

/-! The task manager of package safe: any number of goroutines call `GoCtx` and `Close`, and
the tasks that `GoCtx` starts run beside them. Each lock, add, go, cancel, wait and unlock is
a step of its own, and the steps of different goroutines interleave at will. -/
namespace FrpProvisioner.TaskManager
open Effect

/-- A goroutine of the process, or the one that `GoCtx` made for a task. -/
inductive Thread where
  | caller (n : ℕ)
  | task (t : ℕ)
  deriving DecidableEq

/-- How far a goroutine is in a call on the manager. -/
inductive Place where
  | idle
  -- GoCtx, before Lock returns, before Add, with the task added, and before Unlock
  | goLock
  | goAdd
  | goSpawn (t : ℕ)
  | goUnlock
  -- Close, before Lock returns, before cancel, in Wait, and before Unlock
  | closeLock
  | closeCancel
  | closeWait
  | closeUnlock
  deriving DecidableEq

def Place.holds : Place → Bool
  | .goAdd | .goSpawn _ | .goUnlock | .closeCancel | .closeWait | .closeUnlock => true
  | .idle | .goLock | .closeLock => false

/-- The manager with the goroutines around it. A task is started when `GoCtx` adds it to the
wait group, spawned when its goroutine exists and finished when that has called Done. -/
structure State where
  lock : Option Thread
  cancelled : Bool
  waitGroup : ℕ
  started : Finset ℕ
  spawned : Finset ℕ
  finished : Finset ℕ
  place : Thread → Place

namespace State

def unfinished (s : State) : Finset ℕ := s.started \ s.finished

def running (s : State) : Finset ℕ := s.spawned \ s.finished

def Alive (s : State) : Thread → Prop
  | .caller _ => True
  | .task t => t ∈ s.running

def move (s : State) (th : Thread) (p : Place) : State :=
  { s with place := Function.update s.place th p }

@[simp] theorem move_place_self (s : State) (th : Thread) (p : Place) :
    (s.move th p).place th = p :=
  Function.update_self ..

theorem move_place_of_ne (s : State) {th th' : Thread} (h : th' ≠ th) (p : Place) :
    (s.move th p).place th' = s.place th' :=
  Function.update_of_ne h ..

end State

/-- What `NewTaskManager` returns, before anyone has called it. -/
def newTaskManager : State :=
  { lock := none, cancelled := false, waitGroup := 0, started := ∅, spawned := ∅, finished := ∅,
    place := fun _ => .idle }

/-- Which tasks call methods of the manager that runs them. -/
structure Tasks where
  callGoCtx : ℕ → Prop
  callClose : ℕ → Prop

namespace Tasks

def MayGoCtx (tasks : Tasks) : Thread → Prop
  | .caller _ => True
  | .task t => tasks.callGoCtx t

def MayClose (tasks : Tasks) : Thread → Prop
  | .caller _ => True
  | .task t => tasks.callClose t

end Tasks

inductive Label where
  | callGoCtx (th : Thread)
  | lockGoCtx (th : Thread)
  | add (th : Thread)
  | go (th : Thread)
  | unlockGoCtx (th : Thread)
  | callClose (th : Thread)
  | lockClose (th : Thread)
  | cancel (th : Thread)
  | wait (th : Thread)
  | closeReturns (th : Thread)
  | parentCancel
  | done (t : ℕ)
  deriving DecidableEq

/-- One step of one goroutine. `GoCtx` is Lock, Add, `go` and Unlock, `Close` is Lock, cancel,
Wait and Unlock; neither looks at the context. -/
inductive Step (tasks : Tasks) : State → Label → State → Prop
  | callGoCtx {s th} (alive : s.Alive th) (idle : s.place th = .idle)
      (may : tasks.MayGoCtx th) : Step tasks s (.callGoCtx th) (s.move th .goLock)
  | lockGoCtx {s th} (here : s.place th = .goLock) (free : s.lock = none) :
      Step tasks s (.lockGoCtx th) { s.move th .goAdd with lock := some th }
  | add {s th t} (here : s.place th = .goAdd) (fresh : t ∉ s.started) :
      Step tasks s (.add th)
        { s.move th (.goSpawn t) with
          waitGroup := s.waitGroup + 1, started := insert t s.started }
  | go {s th t} (here : s.place th = .goSpawn t) :
      Step tasks s (.go th) { s.move th .goUnlock with spawned := insert t s.spawned }
  | unlockGoCtx {s th} (here : s.place th = .goUnlock) :
      Step tasks s (.unlockGoCtx th) { s.move th .idle with lock := none }
  | callClose {s th} (alive : s.Alive th) (idle : s.place th = .idle)
      (may : tasks.MayClose th) : Step tasks s (.callClose th) (s.move th .closeLock)
  | lockClose {s th} (here : s.place th = .closeLock) (free : s.lock = none) :
      Step tasks s (.lockClose th) { s.move th .closeCancel with lock := some th }
  | cancel {s th} (here : s.place th = .closeCancel) :
      Step tasks s (.cancel th) { s.move th .closeWait with cancelled := true }
  | wait {s th} (here : s.place th = .closeWait) (zero : s.waitGroup = 0) :
      Step tasks s (.wait th) (s.move th .closeUnlock)
  | closeReturns {s th} (here : s.place th = .closeUnlock) :
      Step tasks s (.closeReturns th) { s.move th .idle with lock := none }
  -- the context also ends with the one it was made from
  | parentCancel {s} : Step tasks s .parentCancel { s with cancelled := true }
  -- the task's function has returned and its deferred Done runs
  | done {s t} (alive : t ∈ s.running) (idle : s.place (.task t) = .idle) :
      Step tasks s (.done t)
        { s with waitGroup := s.waitGroup - 1, finished := insert t s.finished }

/-- Every run of the manager from its creation. -/
abbrev Runs (tasks : Tasks) (ls : List Label) (s : State) : Prop :=
  Trace (Step tasks) newTaskManager ls s

/-- Whoever is between Lock and Unlock is the holder of the lock, so there is one at most. The
wait group counts the unfinished tasks, of which a Close that is done waiting leaves none. -/
structure Inv (s : State) : Prop where
  counted : s.waitGroup = s.unfinished.card
  spawned : s.spawned ⊆ s.started
  finished : s.finished ⊆ s.spawned
  owner : ∀ th, (s.place th).holds = true → s.lock = some th
  pending : ∀ th t, s.place th = .goSpawn t → t ∈ s.started ∧ t ∉ s.spawned
  drained : ∀ th, s.place th = .closeUnlock → s.waitGroup = 0

section
variable {tasks : Tasks} {s s' : State} {th th' : Thread} {l : Label} {ls : List Label}

theorem inv_newTaskManager : Inv newTaskManager := by
  constructor <;> simp [newTaskManager, State.unfinished, Place.holds]

namespace Inv

theorem lock_eq (h : Inv s) {p : Place} (here : s.place th = p) (hp : p.holds = true) :
    s.lock = some th :=
  h.owner th (here ▸ hp)

theorem holder_unique (h : Inv s) (hth : (s.place th).holds = true)
    (hth' : (s.place th').holds = true) : th' = th := by
  have hlock := h.owner th hth
  rw [h.owner th' hth'] at hlock
  exact Option.some.inj hlock

/-- When the holder of the lock moves, nobody else is between Lock and Unlock. -/
theorem eq_holder (h : Inv s) {p q : Place} (here : s.place th = p) (hp : p.holds = true)
    (hth' : ((s.move th q).place th').holds = true) : th' = th := by
  by_contra hne
  rw [s.move_place_of_ne hne] at hth'
  exact hne (h.holder_unique (here ▸ hp) hth')

/-- A step that moves one goroutine, and perhaps locks or unlocks, touches no task. -/
theorem relocate (h : Inv s) {p : Place} {lock : Option Thread}
    (others : ∀ th', th' ≠ th → (s.place th').holds = true → lock = some th')
    (own : p.holds = true → lock = some th) (notSpawn : ∀ t, p ≠ .goSpawn t)
    (drained : p = .closeUnlock → s.waitGroup = 0) :
    Inv { s.move th p with lock := lock } where
  counted := h.counted
  spawned := h.spawned
  finished := h.finished
  owner := by
    intro th' hth'
    by_cases hth : th' = th
    · subst hth
      exact own (by simpa using hth')
    · exact others th' hth (by rwa [s.move_place_of_ne hth] at hth')
  pending := by
    intro th' t hth'
    by_cases hth : th' = th
    · subst hth
      exact absurd (by simpa using hth') (notSpawn t)
    · exact h.pending th' t (by rwa [s.move_place_of_ne hth] at hth')
  drained := by
    intro th' hth'
    by_cases hth : th' = th
    · subst hth
      exact drained (by simpa using hth')
    · exact h.drained th' (by rwa [s.move_place_of_ne hth] at hth')

theorem move (h : Inv s) {p : Place} (own : p.holds = true → s.lock = some th)
    (notSpawn : ∀ t, p ≠ .goSpawn t) (drained : p = .closeUnlock → s.waitGroup = 0) :
    Inv (s.move th p) :=
  h.relocate (fun th' _ => h.owner th') own notSpawn drained

theorem locked (h : Inv s) {p : Place} (free : s.lock = none) (notSpawn : ∀ t, p ≠ .goSpawn t)
    (drained : p ≠ .closeUnlock) : Inv { s.move th p with lock := some th } := by
  apply h.relocate
  · intro th' _ hth'
    have hlock := h.owner th' hth'
    simp [free] at hlock
  · simp
  · exact notSpawn
  · intro hp
    exact absurd hp drained

theorem unlocked (h : Inv s) (hth : (s.place th).holds = true) :
    Inv { s.move th .idle with lock := none } := by
  apply h.relocate
  · intro th' hne hth'
    exact absurd (h.holder_unique hth hth') hne
  · simp [Place.holds]
  · simp
  · simp

theorem cancelled (h : Inv s) : Inv { s with cancelled := true } :=
  ⟨h.counted, h.spawned, h.finished, h.owner, h.pending, h.drained⟩

theorem add (h : Inv s) {t : ℕ} (here : s.place th = .goAdd) (fresh : t ∉ s.started) :
    Inv { s.move th (.goSpawn t) with
      waitGroup := s.waitGroup + 1, started := insert t s.started } := by
  have unfinished : insert t s.started \ s.finished = insert t s.unfinished :=
    Finset.insert_sdiff_of_notMem _ fun ht => fresh (h.spawned (h.finished ht))
  constructor
  case counted =>
    have new : t ∉ s.unfinished := fun ht => fresh (Finset.mem_sdiff.mp ht).1
    calc s.waitGroup + 1 = s.unfinished.card + 1 := by rw [h.counted]
      _ = (insert t s.unfinished).card := (Finset.card_insert_of_notMem new).symm
      _ = (insert t s.started \ s.finished).card := by rw [unfinished]
  case spawned => exact fun t' ht' => Finset.mem_insert_of_mem (h.spawned ht')
  case finished => exact h.finished
  case owner =>
    intro th' hth'
    rw [h.eq_holder here rfl hth']
    exact h.lock_eq here rfl
  case pending =>
    intro th' t' hth'
    obtain rfl : th' = th := h.eq_holder here rfl (congrArg Place.holds hth')
    have ht : t = t' := by simpa using hth'
    rw [← ht]
    exact ⟨Finset.mem_insert_self _ _, fun ht => fresh (h.spawned ht)⟩
  case drained =>
    -- a Close after its Wait would hold the lock that this GoCtx holds
    intro th' hth'
    obtain rfl : th' = th := h.eq_holder here rfl (congrArg Place.holds hth')
    simp at hth'

theorem go (h : Inv s) {t : ℕ} (here : s.place th = .goSpawn t) :
    Inv { s.move th .goUnlock with spawned := insert t s.spawned } := by
  have moved : Inv (s.move th .goUnlock) :=
    h.move (fun _ => h.lock_eq here rfl) (by simp) (by simp)
  constructor
  case counted => exact moved.counted
  case spawned => exact Finset.insert_subset (h.pending th t here).1 h.spawned
  case finished => exact Finset.Subset.trans h.finished (Finset.subset_insert _ _)
  case owner => exact moved.owner
  case pending =>
    intro th' t' hth'
    obtain rfl : th' = th := h.eq_holder here rfl (congrArg Place.holds hth')
    simp at hth'
  case drained => exact moved.drained

theorem done (h : Inv s) {t : ℕ} (alive : t ∈ s.running) :
    Inv { s with waitGroup := s.waitGroup - 1, finished := insert t s.finished } := by
  obtain ⟨hspawned, hfinished⟩ := Finset.mem_sdiff.mp alive
  have hmem : t ∈ s.unfinished := Finset.mem_sdiff.mpr ⟨h.spawned hspawned, hfinished⟩
  constructor
  case counted =>
    calc s.waitGroup - 1 = s.unfinished.card - 1 := by rw [h.counted]
      _ = (s.unfinished.erase t).card := (Finset.card_erase_of_mem hmem).symm
      _ = (s.started \ insert t s.finished).card := by
        rw [Finset.sdiff_insert, State.unfinished]
  case spawned => exact h.spawned
  case finished => exact Finset.insert_subset hspawned h.finished
  case owner => exact h.owner
  case pending => exact h.pending
  case drained =>
    intro th' hth'
    have hzero := h.drained th' hth'
    simp only [hzero]

theorem step (h : Inv s) (hstep : Step tasks s l s') : Inv s' := by
  cases hstep with
  | callGoCtx => exact h.move (by simp [Place.holds]) (by simp) (by simp)
  | lockGoCtx _ free => exact h.locked free (by simp) (by simp)
  | add here fresh => exact h.add here fresh
  | go here => exact h.go here
  | unlockGoCtx here => exact h.unlocked (by simp [here, Place.holds])
  | callClose => exact h.move (by simp [Place.holds]) (by simp) (by simp)
  | lockClose _ free => exact h.locked free (by simp) (by simp)
  | cancel here =>
    exact (h.move (fun _ => h.lock_eq here rfl) (by simp) (by simp)).cancelled
  | wait here zero =>
    exact h.move (fun _ => h.lock_eq here rfl) (by simp) (fun _ => zero)
  | closeReturns here => exact h.unlocked (by simp [here, Place.holds])
  | parentCancel => exact h.cancelled
  | done alive _ => exact h.done alive

end Inv

theorem Runs.inv (h : Runs tasks ls s) : Inv s :=
  h.invariant inv_newTaskManager fun _ _ _ hinv hstep => hinv.step hstep

/-- When no task is unfinished none runs. -/
theorem Inv.running_eq_empty (h : Inv s) (zero : s.waitGroup = 0) : s.running = ∅ := by
  have hnone : s.unfinished = ∅ := by
    rw [← Finset.card_eq_zero, ← h.counted, zero]
  rw [← Finset.subset_empty, ← hnone]
  exact Finset.sdiff_subset_sdiff h.spawned (Finset.Subset.refl _)

end

/-! ### Whole calls -/

def goCtxCall (th : Thread) : List Label :=
  [.callGoCtx th, .lockGoCtx th, .add th, .go th, .unlockGoCtx th]

def closeCall (th : Thread) : List Label :=
  [.callClose th, .lockClose th, .cancel th, .wait th, .closeReturns th]

section
variable {tasks : Tasks} {s : State} {ls : List Label} {n t : ℕ}

theorem Runs.goCtx (h : Runs tasks ls s) (idle : s.place (.caller n) = .idle)
    (free : s.lock = none) (fresh : t ∉ s.started) :
    Runs tasks (ls ++ goCtxCall (.caller n))
      { s with
        waitGroup := s.waitGroup + 1
        started := insert t s.started
        spawned := insert t s.spawned } := by
  have back : Function.update s.place (.caller n) .idle = s.place := by
    rw [← idle, Function.update_eq_self]
  have h₁ := h.snoc (@Step.callGoCtx tasks s (.caller n) trivial idle trivial)
  have h₂ := h₁.snoc (@Step.lockGoCtx tasks _ (.caller n) (by simp) free)
  have h₃ := h₂.snoc (@Step.add tasks _ (.caller n) t (by simp) fresh)
  have h₄ := h₃.snoc (@Step.go tasks _ (.caller n) t (by simp))
  have h₅ := h₄.snoc (@Step.unlockGoCtx tasks _ (.caller n) (by simp))
  simpa [goCtxCall, State.move, back, free] using h₅

/-- A Close that nobody interrupts, when there is nothing to wait for. -/
theorem Runs.close (h : Runs tasks ls s) (idle : s.place (.caller n) = .idle)
    (free : s.lock = none) (zero : s.waitGroup = 0) :
    Runs tasks (ls ++ closeCall (.caller n)) { s with cancelled := true } := by
  have back : Function.update s.place (.caller n) .idle = s.place := by
    rw [← idle, Function.update_eq_self]
  have h₁ := h.snoc (@Step.callClose tasks s (.caller n) trivial idle trivial)
  have h₂ := h₁.snoc (@Step.lockClose tasks _ (.caller n) (by simp) free)
  have h₃ := h₂.snoc (@Step.cancel tasks _ (.caller n) (by simp))
  have h₄ := h₃.snoc (@Step.wait tasks _ (.caller n) (by simp) zero)
  have h₅ := h₄.snoc (@Step.closeReturns tasks _ (.caller n) (by simp))
  simpa [closeCall, State.move, back, free] using h₅

end

/-! ### After Close -/

def CloseReturned (ls : List Label) : Prop := ∃ th, .closeReturns th ∈ ls

/-- In every state of the run the wait group counts the unfinished tasks. -/
def Counts (tasks : Tasks) (ls : List Label) : Prop :=
  ∀ ls₁ ls₂ u, ls = ls₁ ++ ls₂ → Runs tasks ls₁ u → u.waitGroup = u.unfinished.card

/-- In every state of the run that comes after the return of a Close no task runs. -/
def Final (tasks : Tasks) (ls : List Label) : Prop :=
  ∀ ls₁ ls₂ u, ls = ls₁ ++ ls₂ → Runs tasks ls₁ u → CloseReturned ls₁ → u.running = ∅

def NoLateStart (ls : List Label) : Prop :=
  ∀ ls₁ th ls₂, ls = ls₁ ++ .go th :: ls₂ → ¬ CloseReturned ls₁

def NoLateLock (ls : List Label) : Prop :=
  ∀ ls₁ th ls₂, ls = ls₁ ++ .lockGoCtx th :: ls₂ → ¬ CloseReturned ls₁

/-- Whatever follows, Close is final as long as no other `GoCtx` takes the lock. -/
def StaysFinal (tasks : Tasks) (ls : List Label) : Prop :=
  ∀ ls' s', (∀ th, .lockGoCtx th ∉ ls') → Runs tasks (ls ++ ls') s' → Final tasks (ls ++ ls')

section
variable {tasks : Tasks} {s s' : State} {l : Label} {ls : List Label}

theorem Step.running_subset (h : Step tasks s l s') (hgo : ∀ th, l ≠ .go th) :
    s'.running ⊆ s.running := by
  cases h with
  | go => exact absurd rfl (hgo _)
  | done => exact Finset.sdiff_subset_sdiff (Finset.Subset.refl _) (Finset.subset_insert _ _)
  | _ => exact Finset.Subset.refl _

theorem Step.running_of_go {th : Thread} (h : Step tasks s (.go th) s') (hinv : Inv s) :
    s'.running ≠ ∅ := by
  cases h with
  | @go _ t here =>
    have hnot : t ∉ s.finished := fun ht => (hinv.pending th t here).2 (hinv.finished ht)
    apply Finset.ne_empty_of_mem
    exact Finset.mem_sdiff.mpr ⟨Finset.mem_insert_self _ _, hnot⟩

theorem Step.running_of_closeReturns {th : Thread} (h : Step tasks s (.closeReturns th) s')
    (hinv : Inv s) : s'.running = ∅ := by
  cases h with
  | closeReturns here => exact hinv.running_eq_empty (hinv.drained th here)

theorem NoLateStart.init (h : NoLateStart (ls ++ [l])) : NoLateStart ls := by
  intro ls₁ th ls₂ hls
  exact h ls₁ th (ls₂ ++ [l]) (by simp [hls])

theorem CloseReturned.snoc (h : CloseReturned (ls ++ [l])) :
    CloseReturned ls ∨ ∃ th, l = .closeReturns th := by
  obtain ⟨th, hth⟩ := h
  rcases List.mem_append.mp hth with hth | hth
  · exact .inl ⟨th, hth⟩
  · exact .inr ⟨th, (List.mem_singleton.mp hth).symm⟩

/-- Without late starts nothing runs once a Close has returned. -/
theorem Runs.running_eq_empty (h : Runs tasks ls s) (late : NoLateStart ls)
    (hret : CloseReturned ls) : s.running = ∅ := by
  induction h with
  | nil => simp [CloseReturned] at hret
  | @snoc ls t u l trace last ih =>
    rcases hret.snoc with before | ⟨th, rfl⟩
    · have hgo : ∀ th, l ≠ .go th := by
        rintro th rfl
        exact late ls th [] rfl before
      rw [← Finset.subset_empty, ← ih late.init before]
      exact last.running_subset hgo
    · exact last.running_of_closeReturns (Runs.inv trace)

theorem noLateStart_snoc (h : ¬ CloseReturned ls) : NoLateStart (ls ++ [l]) := by
  rintro ls₁ th ls₂ hls ⟨th', hth'⟩
  apply h
  rcases List.eq_nil_or_concat ls₂ with rfl | ⟨ls₃, l', rfl⟩
  · obtain ⟨rfl, _⟩ := List.append_inj' hls rfl
    exact ⟨th', hth'⟩
  · have hls₃ : ls ++ [l] = (ls₁ ++ .go th :: ls₃) ++ [l'] := by simpa using hls
    obtain ⟨rfl, _⟩ := List.append_inj' hls₃ rfl
    exact ⟨th', List.mem_append_left _ hth'⟩

theorem Runs.final_iff (h : Runs tasks ls s) : Final tasks ls ↔ NoLateStart ls := by
  constructor
  · intro hfinal ls₁ th ls₂ hls hret
    have hls' : ls = (ls₁ ++ [.go th]) ++ ls₂ := by simp [hls]
    rw [hls'] at h
    obtain ⟨u, hu⟩ := h.exists_mid
    obtain ⟨t, ht, hgo⟩ := hu.exists_last
    have hret' : CloseReturned (ls₁ ++ [.go th]) := by
      obtain ⟨th', hth'⟩ := hret
      exact ⟨th', List.mem_append_left _ hth'⟩
    exact hgo.running_of_go (Runs.inv ht) (hfinal _ _ u hls' hu hret')
  · intro late ls₁ ls₂ u hls hu hret
    apply hu.running_eq_empty _ hret
    intro ls₃ th ls₄ hls₁
    exact late ls₃ th (ls₄ ++ ls₂) (by simp [hls, hls₁])

/-! A `GoCtx` keeps the lock from Lock to `go`, so that no Close returns in between. -/

/-- In `GoCtx`, with the lock and before the goroutine is started. -/
def Place.starting : Place → Bool
  | .goAdd | .goSpawn _ => true
  | _ => false

theorem starting_move {th th' : Thread} {p : Place} (hth : (s.place th).starting = true)
    (hp : th' = th → p.starting = true) : ((s.move th' p).place th).starting = true := by
  by_cases h : th = th'
  · rw [h, s.move_place_self]
    exact hp h.symm
  · rwa [s.move_place_of_ne h]

theorem starting_of_move {th th' : Thread} {p : Place} (hp : p.starting = false)
    (hth : ((s.move th' p).place th).starting = true) : (s.place th).starting = true := by
  by_cases h : th = th'
  · rw [h, s.move_place_self, hp] at hth
    cases hth
  · rwa [s.move_place_of_ne h] at hth

/-- Who is about to start a goroutine stays so until it does. -/
theorem Step.starting {th : Thread} (h : Step tasks s l s') (hth : (s.place th).starting = true) :
    (s'.place th).starting = true ∨ l = .go th := by
  have other : ∀ {th' : Thread} {p : Place}, (s.place th').starting = false →
      ((s.move th' p).place th).starting = true := by
    intro th' p hth'
    apply starting_move hth
    rintro rfl
    rw [hth'] at hth
    cases hth
  cases h with
  | callGoCtx _ idle _ => exact .inl (other (by rw [idle]; rfl))
  | lockGoCtx here _ => exact .inl (other (by rw [here]; rfl))
  | add here _ => exact .inl (starting_move hth fun _ => rfl)
  | @go th' t here =>
    by_cases hne : th' = th
    · exact .inr (by rw [hne])
    · exact .inl (starting_move hth fun h => absurd h hne)
  | unlockGoCtx here => exact .inl (other (by rw [here]; rfl))
  | callClose _ idle _ => exact .inl (other (by rw [idle]; rfl))
  | lockClose here _ => exact .inl (other (by rw [here]; rfl))
  | cancel here => exact .inl (other (by rw [here]; rfl))
  | wait here _ => exact .inl (other (by rw [here]; rfl))
  | closeReturns here => exact .inl (other (by rw [here]; rfl))
  | parentCancel => exact .inl hth
  | done _ _ => exact .inl hth

/-- Who is about to start a goroutine was so before, unless it has just got the lock. -/
theorem Step.starting_before {th : Thread} (h : Step tasks s l s')
    (hth : (s'.place th).starting = true) :
    (s.place th).starting = true ∨ l = .lockGoCtx th := by
  cases h with
  | @lockGoCtx th' here _ =>
    by_cases hne : th = th'
    · exact .inr (by rw [hne])
    · exact .inl (by rwa [s.move_place_of_ne hne] at hth)
  | @add th' t here _ =>
    by_cases hne : th = th'
    · exact .inl (by rw [hne, here]; rfl)
    · exact .inl (by rwa [s.move_place_of_ne hne] at hth)
  | parentCancel => exact .inl hth
  | done _ _ => exact .inl hth
  | _ => exact .inl (starting_of_move rfl hth)

theorem starting_of_trace {th : Thread} (h : Trace (Step tasks) s ls s')
    (hth : (s.place th).starting = true) :
    (s'.place th).starting = true ∨ .go th ∈ ls := by
  induction h with
  | nil => exact .inl hth
  | snoc _ last ih =>
    rcases ih with hth | hgo
    · rcases last.starting hth with hth | rfl
      · exact .inl hth
      · exact .inr (by simp)
    · exact .inr (List.mem_append_left _ hgo)

/-- A goroutine that is about to be started when a Close has returned belongs to a `GoCtx` that
took the lock after that. -/
theorem Runs.lock_of_starting {th : Thread} (h : Runs tasks ls s)
    (hth : (s.place th).starting = true) (hret : CloseReturned ls) :
    ∃ ls₁ ls₂, ls = ls₁ ++ .lockGoCtx th :: ls₂ ∧ CloseReturned ls₁ := by
  induction h with
  | nil => simp [CloseReturned] at hret
  | @snoc ls t u l trace last ih =>
    rcases hret.snoc with before | ⟨th', rfl⟩
    · rcases last.starting_before hth with hth | rfl
      · obtain ⟨ls₁, ls₂, rfl, hearly⟩ := ih hth before
        exact ⟨ls₁, ls₂ ++ [l], by simp, hearly⟩
      · exact ⟨ls, [], rfl, before⟩
    · -- the lock is free after a Close
      have hlock : u.lock = some th := ((Runs.inv trace).step last).owner th (by
        revert hth
        cases u.place th <;> simp [Place.starting, Place.holds])
      cases last with
      | closeReturns here => cases hlock

/-- A step of a run by which a `GoCtx` has the lock is followed by one by which it starts its
goroutine, at once or after the run. -/
theorem Runs.start_after_lock {th : Thread} {ls₁ ls₂ : List Label}
    (h : Runs tasks (ls₁ ++ .lockGoCtx th :: ls₂) s) : ∃ ls' s', (∀ th', .lockGoCtx th' ∉ ls') ∧
      Runs tasks (ls₁ ++ .lockGoCtx th :: ls₂ ++ ls') s' ∧ .go th ∈ ls₂ ++ ls' := by
  obtain ⟨t, t', -, hlock, hlater⟩ := Trace.exists_step h
  have hth : (t'.place th).starting = true := by
    cases hlock with
    | lockGoCtx _ _ =>
      rw [t.move_place_self]
      rfl
  rcases starting_of_trace hlater hth with hth | hgo
  · cases hplace : s.place th with
    | goAdd =>
      obtain ⟨n, hn⟩ := Infinite.exists_notMem_finset s.started
      have hadd := h.snoc (Step.add hplace hn)
      have hgo := hadd.snoc (Step.go (s.move_place_self th (.goSpawn n)))
      refine ⟨[.add th, .go th], _, by simp, by simpa using hgo, by simp⟩
    | goSpawn n =>
      exact ⟨[.go th], _, by simp, h.snoc (Step.go hplace), by simp⟩
    | _ =>
      rw [hplace] at hth
      cases hth
  · exact ⟨[], s, by simp, by simpa using h, by simpa using hgo⟩

/-- The wait group counts the unfinished tasks throughout, and Close is final in exactly the
runs in which no `GoCtx` starts its goroutine after a Close has returned. It stays final until
the next `GoCtx` takes the lock in exactly those in which none has taken it after that. -/
theorem close_final_iff (h : Runs tasks ls s) :
    Counts tasks ls ∧ (Final tasks ls ↔ NoLateStart ls) ∧
      (StaysFinal tasks ls ↔ NoLateLock ls) := by
  refine ⟨?_, h.final_iff, ?_⟩
  · intro ls₁ ls₂ u _ hu
    exact hu.inv.counted
  constructor
  · rintro hstays ls₁ th ls₂ rfl hret
    obtain ⟨ls', s', hnone, h', hgo⟩ := h.start_after_lock
    obtain ⟨ls₃, ls₄, hsplit⟩ := List.append_of_mem hgo
    have hlate := h'.final_iff.mp (hstays ls' s' hnone h')
    apply hlate (ls₁ ++ .lockGoCtx th :: ls₃) th ls₄
    · rw [List.append_assoc, List.cons_append, hsplit]
      simp
    · obtain ⟨th', hth'⟩ := hret
      exact ⟨th', List.mem_append_left _ hth'⟩
  · intro hlock ls' s' hnone h'
    apply h'.final_iff.mpr
    intro ls₁ th ls₂ hls hret
    rw [hls] at h'
    obtain ⟨t, t', ht, hgo, -⟩ := Trace.exists_step h'
    have hth : (t.place th).starting = true := by
      cases hgo with
      | go here =>
        rw [here]
        rfl
    obtain ⟨ls₃, ls₄, rfl, hearly⟩ := Runs.lock_of_starting ht hth hret
    -- that lock was taken in the first part of the run
    rw [List.append_assoc, List.cons_append, List.append_eq_append_iff] at hls
    rcases hls with ⟨as, -, hls'⟩ | ⟨as, rfl, has⟩
    · exact hnone th (by simp [hls'])
    · cases as with
      | nil =>
        rw [List.nil_append] at has
        exact hnone th (by simp [← has])
      | cons a as =>
        rw [List.cons_append, List.cons.injEq] at has
        rw [← has.1] at hlock
        exact hlock ls₃ th as rfl hearly

end

def plainTasks : Tasks := ⟨fun _ => False, fun _ => False⟩

/-- A manager that is closed when its one task has finished. -/
theorem close_final_after_task : ∃ ls s, Runs plainTasks ls s ∧ s.started = {0} ∧
    CloseReturned ls ∧ Final plainTasks ls := by
  have started : Runs plainTasks _ _ := Runs.goCtx (n := 0) (t := 0) Trace.nil rfl rfl (by decide)
  have finished := started.snoc (@Step.done _ _ 0 (by decide) rfl)
  have closed := Runs.close (n := 0) finished rfl rfl rfl
  refine ⟨_, _, closed, rfl, ⟨.caller 0, by simp [closeCall]⟩, (close_final_iff closed).2.1.mpr ?_⟩
  have early : ¬ CloseReturned (goCtxCall (.caller 0) ++ [.done 0, .callClose (.caller 0),
      .lockClose (.caller 0), .cancel (.caller 0), .wait (.caller 0)]) := by
    simp [CloseReturned, goCtxCall]
  exact noLateStart_snoc early

/-- `GoCtx` does not look at the context: after a Close it starts a task as before. -/
theorem close_then_started :
    ∃ ls s, Runs plainTasks ls s ∧ CloseReturned ls ∧ s.running = {0} := by
  have closed : Runs plainTasks _ _ := Runs.close (n := 0) Trace.nil rfl rfl rfl
  have started := Runs.goCtx (n := 0) (t := 0) closed rfl rfl (by decide)
  exact ⟨_, _, started, ⟨.caller 0, by simp [closeCall]⟩, by decide⟩

/-! ### Tasks that call their manager -/

/-- A Close holds the lock and waits for tasks that all wait for the lock in `GoCtx`. -/
def Deadlocked (s : State) : Prop :=
  ∃ th, s.lock = some th ∧ s.place th = .closeWait ∧ s.unfinished.Nonempty ∧
    ∀ t ∈ s.unfinished, s.place (.task t) = .goLock

section
variable {tasks : Tasks} {s s' : State} {th : Thread} {p : Place} {l : Label} {ls : List Label}

namespace Deadlocked

/-- Nobody but the waiting Close is between Lock and Unlock. -/
theorem place_of_holds (h : Deadlocked s) (hinv : Inv s) (here : s.place th = p)
    (hp : p.holds = true) : p = .closeWait := by
  obtain ⟨closer, hlock, hwait, _⟩ := h
  rw [hinv.lock_eq here hp] at hlock
  cases hlock
  rw [← here, hwait]

theorem waitGroup_pos (h : Deadlocked s) (hinv : Inv s) : 0 < s.waitGroup := by
  obtain ⟨_, _, _, hunfinished, _⟩ := h
  rw [hinv.counted]
  exact hunfinished.card_pos

theorem move (h : Deadlocked s) (idle : s.place th = .idle) : Deadlocked (s.move th p) := by
  obtain ⟨closer, hlock, hwait, hunfinished, hblocked⟩ := h
  have still : ∀ th', s.place th' ≠ .idle → (s.move th p).place th' = s.place th' := by
    intro th' hth'
    apply s.move_place_of_ne
    rintro rfl
    exact hth' idle
  refine ⟨closer, hlock, ?_, hunfinished, ?_⟩
  · rw [still closer (by simp [hwait]), hwait]
  · intro t ht
    rw [still (.task t) (by simp [hblocked t ht]), hblocked t ht]

/-- From outside one can still call a deadlocked manager, or cancel its context, but no call
goes on, no task ends and no Close returns. -/
theorem step (h : Deadlocked s) (hinv : Inv s) (hstep : Step tasks s l s') :
    Deadlocked s' ∧ ∀ th, l ≠ .closeReturns th := by
  have hlocked : s.lock ≠ none := by
    obtain ⟨_, hlock, _⟩ := h
    simp [hlock]
  cases hstep with
  | callGoCtx _ idle _ => exact ⟨h.move idle, by simp⟩
  | callClose _ idle _ => exact ⟨h.move idle, by simp⟩
  | parentCancel => exact ⟨h, by simp⟩
  | lockGoCtx _ free => exact absurd free hlocked
  | lockClose _ free => exact absurd free hlocked
  | wait _ zero => exact absurd zero (h.waitGroup_pos hinv).ne'
  | done alive idle =>
    obtain ⟨_, _, _, _, hblocked⟩ := h
    have hmem := Finset.sdiff_subset_sdiff hinv.spawned (Finset.Subset.refl s.finished) alive
    rw [hblocked _ hmem] at idle
    cases idle
  | add here => cases h.place_of_holds hinv here rfl
  | go here => cases h.place_of_holds hinv here rfl
  | unlockGoCtx here => cases h.place_of_holds hinv here rfl
  | cancel here => cases h.place_of_holds hinv here rfl
  | closeReturns here => cases h.place_of_holds hinv here rfl

/-- A deadlock is for ever. -/
theorem forever (h : Deadlocked s) (hinv : Inv s) (htrace : Trace (Step tasks) s ls s') :
    (Deadlocked s' ∧ Inv s') ∧ ¬ CloseReturned ls := by
  induction htrace with
  | nil => exact ⟨⟨h, hinv⟩, by simp [CloseReturned]⟩
  | snoc _ last ih =>
    obtain ⟨⟨hdead, hinv'⟩, hret⟩ := ih
    obtain ⟨hnext, hlabel⟩ := hdead.step hinv' last
    refine ⟨⟨hnext, hinv'.step last⟩, ?_⟩
    intro hsnoc
    rcases hsnoc.snoc with before | ⟨th, hth⟩
    · exact hret before
    · exact hlabel th hth

end Deadlocked

theorem goLock_of_move {th' : Thread} (here : (s.move th' p).place th = .goLock)
    (hp : p ≠ .goLock) : s.place th = .goLock := by
  by_cases hth : th = th'
  · subst hth
    exact absurd (by simpa using here) hp
  · rwa [s.move_place_of_ne hth] at here

/-- Only a call of `GoCtx` makes a goroutine wait for the lock there. -/
theorem Step.mayGoCtx (h : Step tasks s l s') (here : s'.place th = .goLock)
    (hbefore : s.place th = .goLock → tasks.MayGoCtx th) : tasks.MayGoCtx th := by
  cases h with
  | @callGoCtx th' _ _ may =>
    by_cases hth : th = th'
    · rw [hth]
      exact may
    · exact hbefore (by rwa [s.move_place_of_ne hth] at here)
  | parentCancel => exact hbefore here
  | done => exact hbefore here
  | _ => exact hbefore (goLock_of_move here (by simp))

theorem Runs.mayGoCtx (h : Runs tasks ls s) (here : s.place th = .goLock) : tasks.MayGoCtx th := by
  revert here
  apply h.invariant
  · simp [newTaskManager]
  · intro t l u ih hstep here
    exact hstep.mayGoCtx here ih

/-- A Close waits for a task that calls `GoCtx` meanwhile. -/
theorem exists_deadlocked {t : ℕ} (ht : tasks.callGoCtx t) :
    ∃ ls s, Runs tasks ls s ∧ Deadlocked s := by
  have started : Runs tasks _ _ := Runs.goCtx (n := 0) (t := t) Trace.nil rfl rfl
    (Finset.notMem_empty t)
  have called := started.snoc (@Step.callClose _ _ (.caller 0) trivial rfl trivial)
  have locked := called.snoc (@Step.lockClose _ _ (.caller 0) (by simp) rfl)
  have waiting := locked.snoc (@Step.cancel _ _ (.caller 0) (by simp))
  have blocked := waiting.snoc (@Step.callGoCtx _ _ (.task t)
    (by simp [State.Alive, State.running, State.move, newTaskManager]) (by rfl) ht)
  refine ⟨_, _, blocked, .caller 0, rfl, by simp [State.move], ⟨t, ?_⟩, ?_⟩
  · simp [State.unfinished, State.move, newTaskManager]
  · intro t' ht'
    have heq : t' = t := by simpa [State.unfinished, State.move, newTaskManager] using ht'
    simp [heq, State.move]

end

/-- Close never waits for tasks that wait for it exactly when no task calls `GoCtx` on the
manager that runs it. -/
theorem deadlock_free_iff (tasks : Tasks) :
    (∀ ls s, Runs tasks ls s → ¬ Deadlocked s) ↔ ∀ t, ¬ tasks.callGoCtx t := by
  constructor
  · intro h t ht
    obtain ⟨ls, s, hrun, hdead⟩ := exists_deadlocked ht
    exact h ls s hrun hdead
  · intro h ls s hrun hdead
    obtain ⟨_, _, _, ⟨t, ht⟩, hblocked⟩ := hdead
    exact h t (hrun.mayGoCtx (hblocked t ht))

def startingTasks : Tasks := ⟨fun _ => True, fun _ => False⟩

theorem close_waits_for_itself : ∃ ls s, Runs startingTasks ls s ∧ Deadlocked s ∧
    ∀ ls' s', Trace (Step startingTasks) s ls' s' → Deadlocked s' ∧ ¬ CloseReturned ls' := by
  have reentrant : startingTasks.callGoCtx 0 := trivial
  obtain ⟨ls, s, hrun, hdead⟩ := exists_deadlocked reentrant
  refine ⟨ls, s, hrun, hdead, ?_⟩
  intro ls' s' htrace
  obtain ⟨⟨hdead', _⟩, hret⟩ := hdead.forever hrun.inv htrace
  exact ⟨hdead', hret⟩

end FrpProvisioner.TaskManager
