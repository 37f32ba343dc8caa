import FrpProvisioner.Effect.Table

/-! Tables whose entries carry a version, together with everything that was ever stored.
Every write gets a version above all earlier ones, so key and version identify an entry: a
write that names the stored version was made from the stored value. -/
namespace Effect

/-- `past` has every entry the table has had, and `clock` bounds the versions given out. -/
structure Recorded {κ α : Type*} {key : α → κ} (version : α → ℕ) (t : Table key)
    (past : List α) (clock : ℕ) : Prop where
  stored : ∀ a ∈ t, a ∈ past
  le_clock : ∀ a ∈ past, version a ≤ clock
  unique : ∀ a ∈ past, ∀ b ∈ past, key a = key b → version a = version b → a = b

namespace Recorded
variable {κ α : Type*} {key : α → κ} {version : α → ℕ} {t t' : Table key} {past : List α}
  {clock : ℕ} {a b : α}

theorem init (h : ∀ a ∈ t, version a ≤ clock) : Recorded version t t.entries clock where
  stored _ ha := ha
  le_clock := h
  unique _ ha _ hb hk _ := Table.eq_of_key ha hb hk

/-- A copy with the version of the stored entry is that entry. -/
theorem eq_stored (h : Recorded version t past clock) (ha : a ∈ past) (hb : b ∈ t)
    (hk : key a = key b) (hv : version a = version b) : a = b :=
  h.unique a ha b (h.stored b hb) hk hv

/-- Entries that a step leaves unchanged may be recorded again. -/
theorem again (h : Recorded version t past clock) :
    Recorded version t (t.entries ++ past) clock := by
  have hmem : ∀ a, a ∈ t.entries ++ past → a ∈ past := by
    intro a ha
    rcases List.mem_append.mp ha with ha | ha
    · exact h.stored a ha
    · exact ha
  exact ⟨fun a ha => List.mem_append_left _ ha, fun a ha => h.le_clock a (hmem a ha),
    fun a ha b hb => h.unique a (hmem a ha) b (hmem b hb)⟩

/-- Any number of entries may change in one step, under one new version. -/
theorem advance (h : Recorded version t past clock)
    (ht : ∀ a ∈ t', a ∈ t ∨ version a = clock + 1) :
    Recorded version t' (t'.entries ++ past) (clock + 1) := by
  have hnew : ∀ a ∈ t'.entries ++ past, a ∈ past ∨ (a ∈ t' ∧ version a = clock + 1) := by
    intro a ha
    rcases List.mem_append.mp ha with ha | ha
    · rcases ht a ha with hold | hv
      · exact Or.inl (h.stored a hold)
      · exact Or.inr ⟨ha, hv⟩
    · exact Or.inl ha
  refine ⟨fun a ha => List.mem_append_left _ ha, fun a ha => ?_, fun a ha b hb hk hv => ?_⟩
  · rcases hnew a ha with ha | ⟨-, hv⟩
    · exact Nat.le_succ_of_le (h.le_clock a ha)
    · exact Nat.le_of_eq hv
  · rcases hnew a ha with ha | ⟨ha, hva⟩
    · rcases hnew b hb with hb | ⟨-, hvb⟩
      · exact h.unique a ha b hb hk hv
      · have := h.le_clock a ha
        omega
    · rcases hnew b hb with hb | ⟨hb, -⟩
      · have := h.le_clock b hb
        omega
      · exact Table.eq_of_key ha hb hk

end Recorded
end Effect
