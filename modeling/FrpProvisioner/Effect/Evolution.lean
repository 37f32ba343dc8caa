import FrpProvisioner.Effect.Table
import Mathlib.Data.List.Forall2

/-! How a table follows from an earlier one. Each entry of the earlier table is related to
what has become of it under its key, and entries that are new come at the end. -/
namespace Effect

/-- Two lists that are related to a common one. -/
theorem forall₂_of_common {α β γ : Type*} {R : α → β → Prop} {R' : α → γ → Prop}
    {S : β → γ → Prop} {as : List α} {bs : List β} {cs : List γ} (h : List.Forall₂ R as bs)
    (h' : List.Forall₂ R' as cs) (hS : ∀ a ∈ as, ∀ b c, R a b → R' a c → S b c) :
    List.Forall₂ S bs cs := by
  induction h generalizing cs with
  | nil =>
    cases h'
    exact .nil
  | cons hab _ ih =>
    cases h' with
    | cons hac hrest =>
      apply List.Forall₂.cons
      · exact hS _ List.mem_cons_self _ _ hab hac
      · exact ih hrest fun a ha => hS a (List.mem_cons_of_mem _ ha)

namespace Table
variable {κ α : Type*} {key : α → κ}

/-- Every entry `a` of `t₀` has become an entry `b` with `rel a (some b)`, or is gone with
`rel a none`; beside these `t` has the entries `new`. -/
def Evolves (t₀ t : Table key) (rel : α → Option α → Prop) (new : List α) : Prop :=
  ∃ f : α → Option α, (∀ a ∈ t₀, rel a (f a)) ∧ (∀ a ∈ t₀, ∀ b ∈ f a, key b = key a) ∧
    t.entries = t₀.entries.filterMap f ++ new

section
variable {t₀ t t' : Table key} {rel rel' : α → Option α → Prop} {new new' : List α} {a : α}

theorem evolves_refl (h : ∀ a ∈ t, rel a (some a)) : Evolves t t rel [] := by
  refine ⟨some, h, ?_, by simp⟩
  intro a _ b hb
  rw [Option.mem_some_iff.mp hb]

theorem Evolves.mono (h : Evolves t₀ t rel new) (himp : ∀ a ∈ t₀, ∀ o, rel a o → rel' a o) :
    Evolves t₀ t rel' new := by
  obtain ⟨f, hrel, hkey, hentries⟩ := h
  exact ⟨f, fun a ha => himp a ha _ (hrel a ha), hkey, hentries⟩

/-- An entry comes from an earlier one with the same key, or is new. -/
theorem Evolves.of_mem (h : Evolves t₀ t rel new) {b : α} (hb : b ∈ t) :
    (∃ a ∈ t₀, rel a (some b) ∧ key b = key a) ∨ b ∈ new := by
  obtain ⟨f, hrel, hkey, hentries⟩ := h
  rw [mem_def, hentries, List.mem_append, List.mem_filterMap] at hb
  rcases hb with ⟨a, ha, hfa⟩ | hb
  · exact Or.inl ⟨a, ha, hfa ▸ hrel a ha, hkey a ha b hfa⟩
  · exact Or.inr hb

/-- An entry that can only have stayed as it was is still there. -/
theorem Evolves.mem_of_same (h : Evolves t₀ t rel new) (ha : a ∈ t₀)
    (hsame : ∀ o, rel a o → o = some a) : a ∈ t := by
  obtain ⟨f, hrel, -, hentries⟩ := h
  rw [mem_def, hentries, List.mem_append, List.mem_filterMap]
  exact Or.inl ⟨a, ha, hsame _ (hrel a ha)⟩

/-- The part of a table that an evolution does not touch. -/
theorem Evolves.filter_eq (h : Evolves t₀ t rel new) {q : α → Bool}
    (hsame : ∀ a ∈ t₀, q a = true → ∀ o, rel a o → o = some a)
    (hout : ∀ a ∈ t₀, q a = false → ∀ b, rel a (some b) → q b = false)
    (hnew : ∀ a ∈ new, q a = false) : t.entries.filter q = t₀.entries.filter q := by
  obtain ⟨f, hrel, -, hentries⟩ := h
  have hnil : new.filter q = [] := List.filter_eq_nil_iff.mpr fun a ha => by simp [hnew a ha]
  rw [hentries, List.filter_append, hnil, List.append_nil, List.filter_filterMap,
    ← List.filterMap_eq_filter]
  apply List.filterMap_congr
  intro a ha
  cases hq : q a with
  | true => simp [hsame a ha hq _ (hrel a ha), Option.guard, hq]
  | false =>
    cases hfa : f a with
    | none => simp [Option.guard, hq]
    | some b => simp [Option.guard, hq, hout a ha hq b (hfa ▸ hrel a ha)]

/-- Two evolutions of one table, compared entry by entry. -/
theorem Evolves.forall₂ {u : Table key} {S : α → α → Prop} (h : Evolves t₀ t rel new)
    (h' : Evolves t₀ u rel' new')
    (hsame : ∀ a ∈ t₀, ∀ o o', rel a o → rel' a o' → Option.Rel S o o') :
    ∃ old old', t.entries = old ++ new ∧ u.entries = old' ++ new' ∧ List.Forall₂ S old old' := by
  obtain ⟨f, hrel, -, hentries⟩ := h
  obtain ⟨f', hrel', -, hentries'⟩ := h'
  refine ⟨_, _, hentries, hentries', ?_⟩
  have hS : ∀ a ∈ t₀.entries, Option.Rel S (f a) (f' a) := fun a ha =>
    hsame a ha _ _ (hrel a ha) (hrel' a ha)
  generalize t₀.entries = as at hS
  induction as with
  | nil => exact .nil
  | cons a as ih =>
    have htail := ih fun b hb => hS b (List.mem_cons_of_mem a hb)
    have hhead := hS a List.mem_cons_self
    rw [List.filterMap_cons, List.filterMap_cons]
    cases hfa : f a with
    | none =>
      cases hfa' : f' a with
      | none => exact htail
      | some b' =>
        rw [hfa, hfa'] at hhead
        cases hhead
    | some b =>
      cases hfa' : f' a with
      | none =>
        rw [hfa, hfa'] at hhead
        cases hhead
      | some b' =>
        rw [hfa, hfa'] at hhead
        cases hhead with
        | some hb => exact .cons hb htail

/-- One evolution after another; the second leaves what the first has added. -/
theorem Evolves.comp {rel₂ rel₃ : α → Option α → Prop} (h : Evolves t₀ t rel new)
    (h' : Evolves t t' rel₂ new')
    (hgone : ∀ a ∈ t₀, rel a none → rel₃ a none)
    (hnext : ∀ a ∈ t₀, ∀ b, key b = key a → rel a (some b) → ∀ o, rel₂ b o → rel₃ a o)
    (hkeep : ∀ a ∈ new, ∀ o, rel₂ a o → o = some a) : Evolves t₀ t' rel₃ (new ++ new') := by
  obtain ⟨f, hrel, hkey, hentries⟩ := h
  obtain ⟨g, hrel', hkey', hentries'⟩ := h'
  have hmem : ∀ a ∈ t₀, ∀ b, f a = some b → b ∈ t := by
    intro a ha b hb
    rw [mem_def, hentries, List.mem_append, List.mem_filterMap]
    exact Or.inl ⟨a, ha, hb⟩
  refine ⟨fun a => (f a).bind g, ?_, ?_, ?_⟩
  · intro a ha
    show rel₃ a ((f a).bind g)
    cases hfa : f a with
    | none => exact hgone a ha (hfa ▸ hrel a ha)
    | some b =>
      exact hnext a ha b (hkey a ha b hfa) (hfa ▸ hrel a ha) _ (hrel' b (hmem a ha b hfa))
  · intro a ha c hc
    obtain ⟨b, hb, hc⟩ := Option.bind_eq_some_iff.mp hc
    exact (hkey' b (hmem a ha b hb) c hc).trans (hkey a ha b hb)
  · have hnew : new.filterMap g = new := by
      rw [← List.filterMap_some (l := new)]
      rw [List.filterMap_filterMap]
      apply List.filterMap_congr
      intro a ha
      have hat : a ∈ t := by
        rw [mem_def, hentries]
        exact List.mem_append_right _ ha
      exact hkeep a ha _ (hrel' a hat)
    rw [hentries', hentries, List.filterMap_append, hnew, List.filterMap_filterMap,
      List.append_assoc]

variable [DecidableEq κ]

/-- What has become of an entry is found under its key. -/
theorem Evolves.found (h : Evolves t₀ t rel []) :
    Evolves t₀ t (fun a o => rel a o ∧ o = t.find? (key a)) [] := by
  obtain ⟨f, hrel, hkey, hentries⟩ := h
  have hmem : ∀ b, b ∈ t ↔ ∃ a ∈ t₀, f a = some b := by
    intro b
    rw [mem_def, hentries, List.append_nil, List.mem_filterMap]
    rfl
  refine ⟨f, ?_, hkey, hentries⟩
  intro a ha
  refine ⟨hrel a ha, ?_⟩
  cases hfa : f a with
  | none =>
    symm
    rw [find?_eq_none]
    intro b hb hkb
    obtain ⟨c, hc, hfc⟩ := (hmem b).mp hb
    rw [eq_of_key hc ha ((hkey c hc b hfc).symm.trans hkb), hfa] at hfc
    cases hfc
  | some b =>
    symm
    rw [find?_eq_some]
    exact ⟨(hmem b).mpr ⟨a, ha, hfa⟩, hkey a ha b hfa⟩

theorem Evolves.find? (h : Evolves t₀ t rel []) (ha : a ∈ t₀) : rel a (t.find? (key a)) := by
  obtain ⟨f, hf, -⟩ := h.found
  obtain ⟨hrel, heq⟩ := hf a ha
  exact heq ▸ hrel

/-- A write under the key of `a` changes what has become of `a`, and nothing else. -/
theorem Evolves.write (h : Evolves t₀ t rel []) (ha : a ∈ t₀) {o : Option α}
    (hthere : (t.find? (key a)).isSome) (hkey : ∀ b ∈ o, key b = key a)
    (hentries : t'.entries = t.entries.filterMap fun b => if key b = key a then o else some b)
    (hrel : rel' a o) (hrest : ∀ b ∈ t₀, b ≠ a → ∀ p, rel b p → rel' b p) :
    Evolves t₀ t' rel' [] := by
  obtain ⟨f, hf, hfkey, hfentries⟩ := h.found
  rw [List.append_nil] at hfentries
  obtain ⟨b, hb⟩ := Option.isSome_iff_exists.mp hthere
  have hfa : f a = some b := (hf a ha).2.trans hb
  -- among the entries of the earlier table only `a` has its key
  have hne : ∀ c ∈ t₀, key c ≠ key a → c ≠ a := fun c _ hk e => hk (by rw [e])
  refine ⟨fun c => if key c = key a then o else f c, ?_, ?_, ?_⟩
  · intro c hc
    dsimp only
    by_cases hk : key c = key a
    · rw [if_pos hk, eq_of_key hc ha hk]
      exact hrel
    · rw [if_neg hk]
      exact hrest c hc (hne c hc hk) _ (hf c hc).1
  · intro c hc d hd
    dsimp only at hd
    by_cases hk : key c = key a
    · rw [if_pos hk] at hd
      exact (hkey d hd).trans hk.symm
    · rw [if_neg hk] at hd
      exact hfkey c hc d hd
  · rw [hentries, hfentries, List.filterMap_filterMap, List.append_nil]
    apply List.filterMap_congr
    intro c hc
    by_cases hk : key c = key a
    · rw [if_pos hk, eq_of_key hc ha hk, hfa]
      exact if_pos (hfkey a ha b hfa)
    · rw [if_neg hk]
      cases hfc : f c with
      | none => rfl
      | some d =>
        have hkd : key d ≠ key a := fun e => hk ((hfkey c hc d hfc).symm.trans e)
        exact if_neg hkd

theorem entries_replace (t : Table key) (a : α) : (t.replace a).entries =
    t.entries.filterMap fun b => if key b = key a then some a else some b := by
  show t.entries.map _ = _
  rw [← List.filterMap_eq_map]
  apply List.filterMap_congr
  intro b _
  show some (if key b = key a then a else b) = _
  split <;> rfl

theorem entries_erase (t : Table key) (k : κ) : (t.erase k).entries =
    t.entries.filterMap fun b => if key b = k then none else some b := by
  show t.entries.filter _ = _
  rw [← List.filterMap_eq_filter]
  apply List.filterMap_congr
  intro b _
  by_cases hk : key b = k <;> simp [Option.guard, hk]

theorem Evolves.replace (h : Evolves t₀ t rel []) (ha : a ∈ t₀) {b : α}
    (hthere : (t.find? (key a)).isSome) (hkey : key b = key a) (hrel : rel' a (some b))
    (hrest : ∀ c ∈ t₀, c ≠ a → ∀ p, rel c p → rel' c p) : Evolves t₀ (t.replace b) rel' [] := by
  refine h.write (o := some b) ha hthere ?_ ?_ hrel hrest
  · intro c hc
    rw [← Option.mem_some_iff.mp hc]
    exact hkey
  · rw [entries_replace, hkey]

theorem Evolves.erase (h : Evolves t₀ t rel []) (ha : a ∈ t₀)
    (hthere : (t.find? (key a)).isSome) (hrel : rel' a none)
    (hrest : ∀ c ∈ t₀, c ≠ a → ∀ p, rel c p → rel' c p) :
    Evolves t₀ (t.erase (key a)) rel' [] :=
  h.write (o := none) ha hthere (fun _ hb => nomatch hb) (entries_erase t (key a)) hrel hrest

theorem Evolves.skip (h : Evolves t₀ t rel []) (hrel : rel' a (t.find? (key a)))
    (hrest : ∀ c ∈ t₀, c ≠ a → ∀ p, rel c p → rel' c p) : Evolves t₀ t rel' [] := by
  apply h.found.mono
  rintro c hc o ⟨ho, rfl⟩
  by_cases hca : c = a
  · rw [hca]
    exact hrel
  · exact hrest c hc hca _ ho

theorem Evolves.push (h : Evolves t₀ t rel []) {x : α} (hfree : t.find? (key x) = none) :
    Evolves t₀ (t.upsert x) rel [x] := by
  obtain ⟨f, hrel, hkey, hentries⟩ := h
  refine ⟨f, hrel, hkey, ?_⟩
  rw [List.append_nil] at hentries
  unfold upsert
  rw [dif_pos hfree]
  show t.entries ++ [x] = _
  rw [hentries]

end
end Table
end Effect
