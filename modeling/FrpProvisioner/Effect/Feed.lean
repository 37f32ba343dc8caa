import Mathlib.Data.List.Basic

/-! Updates of one value that are on their way, in order, to whoever keeps a copy of it. Each
update `d` makes the value `result d`. -/
namespace Effect
namespace Feed
variable {δ α : Type*} (result : δ → α)

def latest (p : α) (ds : List δ) : α := ds.foldl (fun _ d => result d) p

@[simp] theorem latest_nil (p : α) : latest result p [] = p := rfl

@[simp] theorem latest_cons (p : α) (d : δ) (ds : List δ) :
    latest result p (d :: ds) = latest result (result d) ds := rfl

@[simp] theorem latest_append (p : α) (ds es : List δ) :
    latest result p (ds ++ es) = latest result (latest result p ds) es := List.foldl_append

/-- Each update can be made to the value that it finds. -/
def Follows (ok : α → δ → Prop) : α → List δ → Prop
  | _, [] => True
  | p, d :: ds => ok p d ∧ Follows ok (result d) ds

/-- One of the updates makes the value another than it was at first. -/
def Stirs (p : α) (ds : List δ) : Prop := ∃ d ∈ ds, result d ≠ p

variable {result} {ok : α → δ → Prop} {p : α} {d : δ} {ds es : List δ}

@[simp] theorem follows_nil : Follows result ok p [] := trivial

@[simp] theorem follows_cons :
    Follows result ok p (d :: ds) ↔ ok p d ∧ Follows result ok (result d) ds := Iff.rfl

@[simp] theorem follows_append : Follows result ok p (ds ++ es) ↔
    Follows result ok p ds ∧ Follows result ok (latest result p ds) es := by
  induction ds generalizing p with
  | nil => simp
  | cons d ds ih => simp [ih, and_assoc]

@[simp] theorem not_stirs_nil : ¬ Stirs result p [] := by simp [Stirs]

theorem stirs_append : Stirs result p (ds ++ es) ↔ Stirs result p ds ∨ Stirs result p es := by
  simp [Stirs, or_and_right, exists_or]

theorem latest_of_not_stirs (h : ¬ Stirs result p ds) : latest result p ds = p := by
  induction ds with
  | nil => rfl
  | cons d ds ih =>
    have hd : result d = p := by_contra fun hne => h ⟨d, List.mem_cons_self, hne⟩
    rw [latest_cons, hd]
    refine ih ?_
    rintro ⟨e, he, hne⟩
    exact h ⟨e, List.mem_cons_of_mem _ he, hne⟩

/-- Two updates in a row that differ cannot both leave the value as it was. -/
theorem stirs_snoc (h : result d ≠ latest result p ds) : Stirs result p (ds ++ [d]) := by
  rw [stirs_append]
  by_cases hs : Stirs result p ds
  · exact Or.inl hs
  · rw [latest_of_not_stirs hs] at h
    exact Or.inr ⟨d, List.mem_singleton.mpr rfl, h⟩

end Feed
end Effect
