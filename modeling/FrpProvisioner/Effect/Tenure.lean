import Mathlib.Data.List.Basic

/-! Logs in which entries take a resource and later entries end what an earlier one took. If
nothing can be taken while it is held, two entries that take the same thing have an end of
the first between them. -/
namespace Effect

/-- `Holds a` says of the present that what the entry `a` took is still held. -/
structure Tenure {ε : Type} (Takes : ε → Prop) (Rival Ends : ε → ε → Prop) (Holds : ε → Prop)
    (log : List ε) : Prop where
  held : ∀ l₁ a l₂, log = l₁ ++ a :: l₂ → Takes a → (∀ r ∈ l₂, ¬ Ends a r) → Holds a
  apart : ∀ l₁ a l₂ b l₃, log = l₁ ++ a :: (l₂ ++ b :: l₃) → Takes a → Takes b → Rival a b →
    ∃ r ∈ l₂, Ends a r

namespace Tenure
variable {ε : Type} {Takes : ε → Prop} {Rival Ends : ε → ε → Prop} {Holds Holds' : ε → Prop}
  {log : List ε} {e : ε}

theorem nil : Tenure Takes Rival Ends Holds [] :=
  ⟨fun _ _ _ h => by simp at h, fun _ _ _ _ _ h => by simp at h⟩

theorem mono (h : Tenure Takes Rival Ends Holds log) (hs : ∀ a, Holds a → Holds' a) :
    Tenure Takes Rival Ends Holds' log :=
  ⟨fun l₁ a l₂ hl ha hr => hs a (h.held l₁ a l₂ hl ha hr), h.apart⟩

/-- A split of a log with a new last entry is at that entry or in the old log. -/
private theorem snoc_split {l₁ l₂ : List ε} {a : ε} (h : log ++ [e] = l₁ ++ a :: l₂) :
    (a = e ∧ log = l₁ ∧ l₂ = []) ∨ ∃ l₃, l₂ = l₃ ++ [e] ∧ log = l₁ ++ a :: l₃ := by
  rcases List.eq_nil_or_concat l₂ with rfl | ⟨l₃, x, rfl⟩
  · obtain ⟨hl, he⟩ := List.append_inj' h rfl
    exact Or.inl ⟨(List.singleton_inj.mp he).symm, hl, rfl⟩
  · rw [List.concat_eq_append] at h ⊢
    rw [← List.cons_append, ← List.append_assoc] at h
    obtain ⟨hl, he⟩ := List.append_inj' h rfl
    rw [List.singleton_inj.mp he]
    exact Or.inr ⟨l₃, rfl, hl⟩

/-- One more entry: it may take only what is not held, and what it does not end is still held
afterwards. -/
theorem snoc (h : Tenure Takes Rival Ends Holds log)
    (hkeep : ∀ a, Takes a → Holds a → ¬ Ends a e → Holds' a) (htake : Takes e → Holds' e)
    (hfree : ∀ a, Takes a → Takes e → Rival a e → ¬ Holds a) :
    Tenure Takes Rival Ends Holds' (log ++ [e]) := by
  constructor
  · intro l₁ a l₂ hl ha hends
    rcases snoc_split hl with ⟨rfl, -, -⟩ | ⟨l₃, rfl, hlog⟩
    · exact htake ha
    · have hold : Holds a :=
        h.held l₁ a l₃ hlog ha fun r hr => hends r (List.mem_append_left _ hr)
      exact hkeep a ha hold (hends e (by simp))
  · intro l₁ a l₂ b l₃ hl ha hb hab
    rw [← List.cons_append, ← List.append_assoc] at hl
    rcases snoc_split hl with ⟨rfl, hlog, -⟩ | ⟨l₄, -, hlog⟩
    · by_contra hno
      have hold : Holds a := h.held l₁ a l₂ hlog ha fun r hr hend => hno ⟨r, hr, hend⟩
      exact hfree a ha hb hab hold
    · rw [List.append_assoc, List.cons_append] at hlog
      exact h.apart l₁ a l₂ b l₄ hlog ha hb hab

end Tenure
end Effect
