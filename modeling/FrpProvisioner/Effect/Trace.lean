import Mathlib.Data.List.Induction

/-! Finite runs of a labelled transition relation together with the labels of their steps,
the last one at the end. -/
namespace Effect

/-- From `s` the steps labelled `ls`, one after the other, lead to the state in the index. -/
inductive Trace {σ ε : Type} (step : σ → ε → σ → Prop) (s : σ) : List ε → σ → Prop
  | nil : Trace step s [] s
  | snoc {ls : List ε} {t u : σ} {l : ε} (trace : Trace step s ls t) (last : step t l u) :
      Trace step s (ls ++ [l]) u

namespace Trace
variable {σ ε : Type} {step : σ → ε → σ → Prop} {s t u : σ} {ls ls₁ ls₂ : List ε} {l : ε}

/-- What holds at first and is kept by every step holds at the end of every run. -/
theorem invariant {I : σ → Prop} (h : Trace step s ls t) (start : I s)
    (keep : ∀ t l u, I t → step t l u → I u) : I t := by
  induction h with
  | nil => exact start
  | snoc _ last ih => exact keep _ _ _ ih last

theorem exists_last (h : Trace step s (ls ++ [l]) u) : ∃ t, Trace step s ls t ∧ step t l u := by
  generalize hls : ls ++ [l] = whole at h
  cases h with
  | nil => simp at hls
  | snoc trace last =>
    obtain ⟨hls, hl⟩ := List.append_inj' hls rfl
    cases hls
    cases hl
    exact ⟨_, trace, last⟩

/-- A run passes through a state after each first part of its labels. -/
theorem exists_mid (h : Trace step s (ls₁ ++ ls₂) u) : ∃ t, Trace step s ls₁ t := by
  induction ls₂ using List.reverseRecOn generalizing u with
  | nil => exact ⟨u, by simpa using h⟩
  | append_singleton ls₂ l ih =>
    rw [← List.append_assoc] at h
    obtain ⟨t, ht, _⟩ := h.exists_last
    exact ih ht

/-- The state that a run passes through, and the run from there. -/
theorem exists_split (h : Trace step s (ls₁ ++ ls₂) u) :
    ∃ t, Trace step s ls₁ t ∧ Trace step t ls₂ u := by
  induction ls₂ using List.reverseRecOn generalizing u with
  | nil => exact ⟨u, by simpa using h, .nil⟩
  | append_singleton ls₂ l ih =>
    rw [← List.append_assoc] at h
    obtain ⟨v, hv, last⟩ := h.exists_last
    obtain ⟨t, h₁, h₂⟩ := ih hv
    exact ⟨t, h₁, .snoc h₂ last⟩

/-- The step with a label of a run, and the runs before and after it. -/
theorem exists_step (h : Trace step s (ls₁ ++ l :: ls₂) u) :
    ∃ t t', Trace step s ls₁ t ∧ step t l t' ∧ Trace step t' ls₂ u := by
  rw [List.append_cons] at h
  obtain ⟨t', h₁, h₂⟩ := h.exists_split
  obtain ⟨t, ht, hl⟩ := h₁.exists_last
  exact ⟨t, t', ht, hl, h₂⟩

end Trace
end Effect
