import FrpProvisioner.Effect.Table
import FrpProvisioner.Runtime.AtRest

/-! Runs that nothing disturbs, for a controller that reads the objects it is run for from a
cache. During such a run what is cached for its key is what is stored; and a write that concerns
the key would be on its way to the cache, so no request of the run has made one. -/
namespace FrpProvisioner
open Effect
variable {α κ ι : Type} {ο : ι → Type} {σ ε : Type}

/-- The world of a controller and the objects it is run for. `Owed k` says that a change that
concerns `k` is on its way to the cache, and `Keeps k` that a move does not concern `k`. -/
structure Watching (key : α → κ) (ι : Type) (ο : ι → Type) (σ : Type) where
  serve : Server ι ο σ
  Good : σ → Prop
  Owed : κ → σ → Prop
  Keeps : κ → σ → σ → Prop
  stored : σ → Table key
  cached : σ → Table key
  synced : ∀ {k s x}, Good s → ¬ Owed k s → key x = k → (x ∈ cached s ↔ x ∈ stored s)
  kept : ∀ {k s s' x}, Keeps k s s' → key x = k → (x ∈ cached s' ↔ x ∈ cached s)
  reported : ∀ {s i o s'}, Good s → serve s i o s' → ∀ k, Owed k s' ∨ (¬ Owed k s ∧ Keeps k s s')

namespace Watching
variable {key : α → κ} {W : Watching key ι ο σ} {k : κ} {s s' : σ} {x : α} {i : ι} {o : ο i}

abbrev Still (W : Watching key ι ο σ) : κ → σ → Prop := Controller.Still W.Good W.Owed

abbrev quietly (W : Watching key ι ο σ) : κ → σ → σ → Prop :=
  Controller.quietly W.Good W.Owed W.Keeps

abbrev quietServe (W : Watching key ι ο σ) : κ → Server ι ο σ :=
  Controller.quietServe W.Good W.Owed W.serve

/-- No request of such a run has changed anything that concerns the key. -/
theorem keeps_of_quietServe (h : W.quietServe k s i o s') : W.Keeps k s s' :=
  ((W.reported h.1.good h.2.1 k).resolve_left h.2.2.quiet).2

/-- What such moves keep is stable. -/
theorem stable_of_keeps {A : σ → Prop}
    (h : ∀ s s', A s → W.Still k s' → W.Keeps k s s' → A s') (s s' : σ) (hA : A s)
    (hm : W.quietly k s s') : A s' := by
  induction hm with
  | refl => exact hA
  | tail _ last ih => exact h _ _ ih last.1 last.2

/-- An object was read and is still the cached one. -/
structure Viewed (W : Watching key ι ο σ) (k : κ) (x : α) (s : σ) : Prop extends
    Controller.Still W.Good W.Owed k s where
  key : key x = k
  cached : x ∈ W.cached s

theorem Viewed.keep (h : W.Viewed k x s) (hs : W.Still k s') (hk : W.Keeps k s s') :
    W.Viewed k x s' :=
  ⟨hs, h.key, (W.kept hk h.key).mpr h.cached⟩

theorem Viewed.stable (s s' : σ) (h : W.Viewed k x s) (hm : W.quietly k s s') :
    W.Viewed k x s' :=
  stable_of_keeps (fun _ _ h hs hk => h.keep hs hk) s s' h hm

theorem Viewed.serve (h : W.Viewed k x s) (hs : W.quietServe k s i o s') : W.Viewed k x s' :=
  h.keep hs.2.2 (keeps_of_quietServe hs)

theorem Viewed.stored (h : W.Viewed k x s) : x ∈ W.stored s :=
  (W.synced h.good h.quiet h.key).mp h.cached

/-- The stored object is the one that was read. -/
theorem Viewed.eq_of_stored (h : W.Viewed k x s) {y : α} (hmem : y ∈ W.stored s)
    (hk : key y = k) : y = x :=
  Table.eq_of_key hmem h.stored (hk.trans h.key.symm)

section Find
variable [DecidableEq κ]

theorem viewed_of_find (h : W.Still k s) (hfind : (W.cached s).find? k = some x) :
    W.Viewed k x s :=
  ⟨h, (Table.find?_eq_some.mp hfind).2, (Table.find?_eq_some.mp hfind).1⟩

/-- What is not cached is not stored either. -/
theorem ne_of_find_none (h : W.Still k s) (hnone : (W.cached s).find? k = none) :
    ∀ y ∈ W.stored s, key y ≠ k := by
  intro y hy hk
  exact Table.find?_eq_none.mp hnone y ((W.synced h.good h.quiet hk).mpr hy) hk

end Find

/-- The run ends with an error, or has settled its key. -/
abbrev Outcome (Settled : κ → σ → Prop) (k : κ) (err : Option ε) (s : σ) : Prop :=
  err ≠ none ∨ Settled k s

/-- A controller whose reconciler returns nothing but an error, and whose errors are all tried
again: runs that nothing disturbs are to settle their key, and what is settled is to stay so. -/
theorem levelTriggered {C : Controller κ ι ο σ ε} {Settled : κ → σ → Prop}
    {G : κ → Server ι ο σ} {run : κ → Program ι ο (Option ε)} (hserve : C.serve = W.serve)
    (hreconcile : ∀ k, C.reconcile k = do
      let err ← run k
      return { requeue := false, requeueAfter := 0, err := err })
    (hterminal : ∀ err, C.terminal err = false)
    (henv : ∀ s added s', W.Good s → C.env s added s' → ∀ k,
      W.Owed k s' ∨ k ∈ added ∨ (¬ W.Owed k s ∧ W.Keeps k s s'))
    (hrun : ∀ k s, W.Still k s → (run k).wp (W.quietly k) (W.quietServe k)
      (fun _ _ _ _ => True) (Outcome Settled k) s)
    (hsettled : ∀ k s s', W.Good s → W.Good s' → W.Keeps k s s' → Settled k s → Settled k s') :
    Controller.LevelTriggered C W.Good W.Owed W.Keeps Settled G where
  env := henv
  serve _ _ _ _ _ hgood hs _ := W.reported hgood (hserve ▸ hs)
  run k s hgood hquiet := by
    unfold Controller.Promises
    rw [hreconcile, hserve]
    refine Program.wp_seq (hrun k s ⟨hgood, hquiet⟩) fun err s h => ?_
    rcases h with herr | hsettled
    · left
      cases err with
      | none => exact absurd rfl herr
      | some err => simp [Controller.again, hterminal]
    · exact Or.inr hsettled
  settled := hsettled

end Watching
end FrpProvisioner
