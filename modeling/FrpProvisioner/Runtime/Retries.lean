import FrpProvisioner.Runtime.AtRest

/-! What the log of a controller shows. A key that a handler has added, or whose run has failed,
is run again, and again until a run succeeds; and it is not handed out again before the worker
that has it is done with it. -/
namespace FrpProvisioner
open Effect

/-- No error, and no wish to be run again. -/
structure Reply.Succeeds {ε : Type} (reply : Reply ε) : Prop where
  err : reply.err = none
  requeue : reply.requeue = false
  requeueAfter : reply.requeueAfter = 0

namespace Controller
variable {ω κ ι : Type} {ο : ι → Type} {σ ε : Type} [DecidableEq κ] [DecidableEq ω]
  {C : Controller κ ι ο σ ε} {s : σ} {c c' t u : State ω κ ι ο σ ε} {l : Label ω κ ι ο ε}
  {ls ls₁ ls₂ ls₃ : List (Label ω κ ι ο ε)} {k : κ} {v w : ω} {reply : Reply ε}

section Attention

omit [DecidableEq κ] in
/-- Where no error is terminal, a key is put back after every run that does not succeed. -/
theorem again_eq_false (hterminal : ∀ err, C.terminal err = false) :
    C.again reply = false ↔ reply.Succeeds := by
  cases herr : reply.err with
  | some err =>
    simp only [again, herr, hterminal]
    constructor
    · simp
    · intro h
      rw [h.err] at herr
      cases herr
  | none =>
    simp only [again, herr, Bool.or_eq_false_iff, decide_eq_false_iff_not, Nat.pos_iff_ne_zero,
      not_not]
    exact ⟨fun h => ⟨herr, h.2, h.1⟩, fun h => ⟨h.requeueAfter, h.requeue⟩⟩

/-- What is scheduled stays so until it is handed out. -/
theorem Step.scheduled (hs : Step C c l c') (hopen : c'.queue.inner.shuttingDown = false)
    (h : c.queue.Scheduled k) : c'.queue.Scheduled k ∨ ∃ w, l = .get w k := by
  have hopen₀ := hs.shuttingDown hopen
  cases hs with
  | env _ => exact Or.inl ((RateLimitingQueue.scheduled_foldl_add _ hopen₀).mpr (Or.inr h))
  | tick duration => exact Or.inl h
  | receive => exact Or.inl ((RateLimitingQueue.scheduled_receive hopen₀).mpr h)
  | addReady => exact Or.inl ((RateLimitingQueue.scheduled_addReady hopen₀).mpr h)
  | @get w req inner hidle hget =>
    by_cases hk : k = req
    · exact Or.inr ⟨w, by rw [hk]⟩
    · exact Or.inl (RateLimitingQueue.scheduled_get hget hk h)
  | stop _ hget =>
    obtain ⟨-, -, rfl⟩ := Workqueue.get_eq_none hget
    exact Or.inl h
  | call _ _ => exact Or.inl h
  | finish bucket _ => exact Or.inl ((scheduled_reconcileHandler hopen₀).mpr (Or.inr h))
  | done _ => exact Or.inl (RateLimitingQueue.scheduled_done.mpr h)
  | shutDown => cases hopen

/-- A run goes on until it is finished. -/
theorem Step.reconciling (hs : Step C c l c') {prog : Program ι ο (Reply ε)}
    (h : c.workers w = .reconciling k prog) :
    (∃ prog', c'.workers w = .reconciling k prog') ∨ ∃ reply, l = .finish w k reply := by
  -- a step of another worker
  have hother : ∀ {v : ω} {x : Worker κ ι ο ε}, v ≠ w →
      ∃ prog', Function.update c.workers v x w = .reconciling k prog' :=
    fun hv => ⟨prog, by rw [Function.update_of_ne (Ne.symm hv), h]⟩
  cases hs with
  | env _ => exact Or.inl ⟨prog, h⟩
  | tick duration => exact Or.inl ⟨prog, h⟩
  | receive => exact Or.inl ⟨prog, h⟩
  | addReady => exact Or.inl ⟨prog, h⟩
  | shutDown => exact Or.inl ⟨prog, h⟩
  | @get v req inner hidle hget =>
    refine Or.inl (hother ?_)
    rintro rfl
    rw [hidle] at h
    cases h
  | @stop v inner hidle hget =>
    refine Or.inl (hother ?_)
    rintro rfl
    rw [hidle] at h
    cases h
  | @call v req i next o world hv _ =>
    by_cases hvw : v = w
    · subst hvw
      cases hv.symm.trans h
      exact Or.inl ⟨_, Function.update_self ..⟩
    · exact Or.inl (hother hvw)
  | @finish v req reply bucket hv =>
    by_cases hvw : v = w
    · subst hvw
      cases hv.symm.trans h
      exact Or.inr ⟨reply, rfl⟩
    · exact Or.inl (hother hvw)
  | @done v req hv =>
    refine Or.inl (hother ?_)
    rintro rfl
    rw [hv] at h
    cases h

/-- A run for the key is to come, or has started among the steps `ls`, or has succeeded. -/
inductive Attended (C : Controller κ ι ο σ ε) (k : κ) (ls : List (Label ω κ ι ο ε))
    (c : State ω κ ι ο σ ε) : Prop
  | scheduled (h : c.queue.Scheduled k)
  | running (w : ω) (prog : Program ι ο (Reply ε)) (here : c.workers w = .reconciling k prog)
      (started : Label.get w k ∈ ls)
  | succeeded (w : ω) (reply : Reply ε)
      (steps : List.Sublist [Label.get w k, .finish w k reply] ls) (h : C.again reply = false)

theorem Attended.step (h : Attended C k ls c) (hs : Step C c l c')
    (hopen : c'.queue.inner.shuttingDown = false) : Attended C k (ls ++ [l]) c' := by
  cases h with
  | scheduled h =>
    rcases hs.scheduled hopen h with h' | ⟨w, rfl⟩
    · exact .scheduled h'
    · cases hs with
      | get _ _ => exact .running w _ (Function.update_self ..) (by simp)
  | running w prog here started =>
    rcases hs.reconciling here with ⟨prog', here'⟩ | ⟨reply, rfl⟩
    · exact .running w prog' here' (List.mem_append_left _ started)
    · have hopen₀ := hs.shuttingDown hopen
      cases hs with
      | finish bucket hw =>
        cases hagain : C.again reply with
        | true =>
          exact .scheduled ((scheduled_reconcileHandler hopen₀).mpr (Or.inl ⟨hagain, rfl⟩))
        | false =>
          exact .succeeded w reply
            (List.Sublist.append (List.singleton_sublist.mpr started) (.refl _)) hagain
  | succeeded w reply steps h =>
    exact .succeeded w reply (List.sublist_append_of_sublist_left steps) h

theorem shuttingDown_of_trace (h : Trace (Step C) t ls c)
    (hopen : c.queue.inner.shuttingDown = false) : t.queue.inner.shuttingDown = false := by
  induction h with
  | nil => exact hopen
  | snoc _ last ih => exact ih (last.shuttingDown hopen)

theorem attended_of_trace (h : Trace (Step C) t ls c) (ht : t.queue.Scheduled k)
    (hopen : c.queue.inner.shuttingDown = false) : Attended C k ls c := by
  induction h with
  | nil => exact .scheduled ht
  | snoc _ last ih => exact (ih (last.shuttingDown hopen)).step last hopen

/-- From a key that is scheduled to a run that succeeds. -/
theorem succeeds_of_scheduled (hterminal : ∀ err, C.terminal err = false)
    (h : Trace (Step C) t ls c) (hinv : Inv c) (hrest : AtRest c) (ht : t.queue.Scheduled k) :
    ∃ w reply, List.Sublist [Label.get w k, .finish w k reply] ls ∧ reply.Succeeds := by
  cases attended_of_trace h ht hrest.serving with
  | scheduled hq => exact absurd hq (hrest.not_scheduled hinv)
  | running w prog here _ =>
    have hw := hrest.workers w
    rw [here, Worker.item] at hw
    cases hw
  | succeeded w reply steps h => exact ⟨w, reply, steps, (again_eq_false hterminal).mp h⟩

end Attention

section Sample

/-- A reconciler that asks once and fails when the answer is no. -/
def asking : Controller ℕ Unit (fun _ => Bool) Unit String where
  reconcile _ := do
    let ok ← Program.call ()
    return { requeue := false, requeueAfter := 0, err := if ok then none else some "down" }
  serve s _ _ s' := s' = s
  env s _ s' := s' = s
  terminal _ := false

/-- One failure and then a success. -/
private theorem asking_twice : ∃ c : State Unit ℕ Unit (fun _ => Bool) Unit String, AtRest c ∧
    Runs asking () [.env [0], .get () 0, .call () 0 () false,
      .finish () 0 ⟨false, 0, some "down"⟩, .done () 0, .receive, .tick, .addReady, .get () 0,
      .call () 0 () true, .finish () 0 ⟨false, 0, none⟩, .done () 0] c := by
  have h : Runs asking () [] (start () : State Unit _ _ _ _ _) := .nil
  have h := Trace.snoc h (.env (show asking.env () [0] () from rfl))
  have h := Trace.snoc h (.get (w := ()) rfl rfl)
  have h := Trace.snoc h (.call (o := false) (w := ()) rfl rfl)
  have h := Trace.snoc h (.finish 0 (w := ()) rfl)
  have h := Trace.snoc h (.done (w := ()) rfl)
  have h := Trace.snoc h .receive
  have h := Trace.snoc h (.tick 5000000)
  have h := Trace.snoc h .addReady
  have h := Trace.snoc h (.get (w := ()) rfl rfl)
  have h := Trace.snoc h (.call (o := true) (w := ()) rfl rfl)
  have h := Trace.snoc h (.finish 0 (w := ()) rfl)
  have h := Trace.snoc h (.done (w := ()) rfl)
  exact ⟨_, ⟨rfl, rfl, rfl, rfl, fun _ => rfl⟩, h⟩

end Sample

/-- No event is lost: when the controller is at rest, each key that a handler has added was run
with success, in a run that was started after the key was added. -/
theorem Runs.succeeds_after_add (hterminal : ∀ err, C.terminal err = false) {added : List κ}
    (h : Runs C s (ls₁ ++ .env added :: ls₂) c) (hk : k ∈ added) (hrest : AtRest c) :
    ∃ w reply, List.Sublist [Label.get w k, .finish w k reply] ls₂ ∧ reply.Succeeds := by
  obtain ⟨t, t', -, hadd, hlater⟩ := Trace.exists_step h
  have hopen := shuttingDown_of_trace hlater hrest.serving
  refine succeeds_of_scheduled hterminal hlater h.inv hrest ?_
  cases hadd with
  | env henv =>
    have hopen₀ : t.queue.inner.shuttingDown = false :=
      (grows_foldl_add _ _).shuttingDown.symm.trans hopen
    exact (RateLimitingQueue.scheduled_foldl_add _ hopen₀).mpr (Or.inl hk)

theorem Runs.succeeds_after_add_asking :
    ∃ (ls : List (Label Unit ℕ Unit (fun _ => Bool) String)) (c : State Unit _ _ _ _ _),
      Runs asking () (.env [0] :: ls) c ∧ ∃ w reply,
        List.Sublist [Label.get w 0, .finish w 0 reply] ls ∧ reply.Succeeds := by
  obtain ⟨c, hrest, h⟩ := asking_twice
  have hsplit : Runs asking () ([] ++ .env [0] :: [.get () 0, .call () 0 () false,
    .finish () 0 ⟨false, 0, some "down"⟩, .done () 0, .receive, .tick, .addReady, .get () 0,
    .call () 0 () true, .finish () 0 ⟨false, 0, none⟩, .done () 0]) c := h
  exact ⟨_, c, hsplit, Runs.succeeds_after_add (fun _ => rfl) hsplit (by simp) hrest⟩

/-- No failure is final: each run that does not succeed is followed by one that does. -/
theorem Runs.succeeds_after_failure (hterminal : ∀ err, C.terminal err = false)
    (h : Runs C s (ls₁ ++ .finish w k reply :: ls₂) c) (hfail : ¬ reply.Succeeds)
    (hrest : AtRest c) : ∃ v reply', List.Sublist [Label.get v k, .finish v k reply'] ls₂ ∧
      reply'.Succeeds := by
  have hagain : C.again reply = true := by
    rw [← again_eq_false hterminal, Bool.not_eq_false] at hfail
    exact hfail
  obtain ⟨t, t', -, hfinish, hlater⟩ := Trace.exists_step h
  have hopen := shuttingDown_of_trace hlater hrest.serving
  refine succeeds_of_scheduled hterminal hlater h.inv hrest ?_
  have hopen₀ := hfinish.shuttingDown hopen
  cases hfinish with
  | finish bucket _ => exact (scheduled_reconcileHandler hopen₀).mpr (Or.inl ⟨hagain, rfl⟩)

theorem Runs.succeeds_after_failure_asking :
    ∃ (ls₁ ls₂ : List (Label Unit ℕ Unit (fun _ => Bool) String)) (c : State Unit _ _ _ _ _),
      Runs asking () (ls₁ ++ .finish () 0 ⟨false, 0, some "down"⟩ :: ls₂) c ∧ ∃ w reply,
        List.Sublist [Label.get w 0, .finish w 0 reply] ls₂ ∧ reply.Succeeds := by
  obtain ⟨c, hrest, h⟩ := asking_twice
  have hsplit : Runs asking () ([.env [0], .get () 0, .call () 0 () false] ++
    .finish () 0 ⟨false, 0, some "down"⟩ :: [.done () 0, .receive, .tick, .addReady, .get () 0,
      .call () 0 () true, .finish () 0 ⟨false, 0, none⟩, .done () 0]) c := h
  have hfail : ¬ (⟨false, 0, some "down"⟩ : Reply String).Succeeds := by
    intro h
    cases h.err
  exact ⟨_, _, c, hsplit, Runs.succeeds_after_failure (fun _ => rfl) hsplit hfail hrest⟩

section Exclusion

/-- A worker keeps its key until it is done with it. -/
theorem Step.item (hs : Step C c l c') (h : (c.workers w).item = some k) :
    (c'.workers w).item = some k ∨ l = .done w k := by
  have hkeep : ∀ {v : ω} {x : Worker κ ι ο ε}, (v = w → x.item = some k) →
      (Function.update c.workers v x w).item = some k := by
    intro v x hx
    by_cases hv : v = w
    · subst hv
      rw [Function.update_self]
      exact hx rfl
    · rw [Function.update_of_ne (Ne.symm hv)]
      exact h
  cases hs with
  | env _ => exact Or.inl h
  | tick duration => exact Or.inl h
  | receive => exact Or.inl h
  | addReady => exact Or.inl h
  | shutDown => exact Or.inl h
  | @get v req inner hidle _ =>
    refine Or.inl (hkeep ?_)
    rintro rfl
    simp [hidle, Worker.item] at h
  | @stop v inner hidle _ =>
    refine Or.inl (hkeep ?_)
    rintro rfl
    simp [hidle, Worker.item] at h
  | @call v req i next o world hv _ =>
    refine Or.inl (hkeep ?_)
    rintro rfl
    simpa [hv, Worker.item] using h
  | @finish v req reply bucket hv =>
    refine Or.inl (hkeep ?_)
    rintro rfl
    simpa [hv, Worker.item] using h
  | @done v req hv =>
    by_cases hvw : v = w
    · subst hvw
      right
      have hreq : req = k := by simpa [hv, Worker.item] using h
      rw [hreq]
    · exact Or.inl (hkeep fun h => absurd h hvw)

theorem item_of_trace (h : Trace (Step C) t ls c) (ht : (t.workers w).item = some k) :
    (c.workers w).item = some k ∨ Label.done w k ∈ ls := by
  induction h with
  | nil => exact Or.inl ht
  | snoc _ last ih =>
    rcases ih with hitem | hdone
    · rcases last.item hitem with hitem' | rfl
      · exact Or.inl hitem'
      · exact Or.inr (by simp)
    · exact Or.inr (List.mem_append_left _ hdone)

end Exclusion

/-- A key is not handed out again before the worker that has it is done with it. -/
theorem Runs.done_between
    (h : Runs C s (ls₁ ++ .get w k :: (ls₂ ++ .get v k :: ls₃)) c) : Label.done w k ∈ ls₂ := by
  obtain ⟨t, t', ht, hget, hlater⟩ := Trace.exists_step h
  obtain ⟨u, u', hbetween, hagain, -⟩ := Trace.exists_step hlater
  have hitem : (t'.workers w).item = some k := by
    cases hget with
    | get _ _ => simp [Worker.item]
  have hu : Inv u := by
    have ht' : Inv t' := (Runs.inv ht).step hget
    exact hbetween.invariant ht' fun _ _ _ hc hs => hc.step hs
  rcases item_of_trace hbetween hitem with hheld | hdone
  · cases hagain with
    | get _ hget' => exact absurd ((hu.held k).mpr ⟨w, hheld⟩) (hu.valid.get hget').2
  · exact hdone

theorem Runs.done_between_asking :
    ∃ (ls₁ ls₂ ls₃ : List (Label Unit ℕ Unit (fun _ => Bool) String)) (c : State Unit _ _ _ _ _),
      Runs asking () (ls₁ ++ .get () 0 :: (ls₂ ++ .get () 0 :: ls₃)) c ∧
        Label.done () 0 ∈ ls₂ := by
  obtain ⟨c, -, h⟩ := asking_twice
  have hsplit : Runs asking () ([.env [0]] ++ .get () 0 :: ([.call () 0 () false,
    .finish () 0 ⟨false, 0, some "down"⟩, .done () 0, .receive, .tick, .addReady] ++ .get () 0 ::
      [.call () 0 () true, .finish () 0 ⟨false, 0, none⟩, .done () 0])) c := h
  exact ⟨_, _, _, c, hsplit, hsplit.done_between⟩

end Controller
end FrpProvisioner
