import Mathlib.Data.List.Basic
import Mathlib.Data.List.Nodup
import Mathlib.Data.List.Dedup

/-! Finite tables of values that carry their own key. Two entries of a table never
share a key, so every write below has to keep the keys distinct. -/
namespace Effect

structure Table {κ α : Type*} (key : α → κ) where
  entries : List α
  nodup : (entries.map key).Nodup

namespace Table
variable {κ α : Type*} {key : α → κ}

instance : Membership α (Table key) := ⟨fun t a => a ∈ t.entries⟩

theorem mem_def {t : Table key} {a : α} : a ∈ t ↔ a ∈ t.entries := Iff.rfl

@[ext] theorem ext_entries {t u : Table key} (h : t.entries = u.entries) : t = u := by
  cases t; cases u; cases h; rfl

theorem eq_of_key {t : Table key} {a b : α} (ha : a ∈ t) (hb : b ∈ t) (h : key a = key b) :
    a = b := List.inj_on_of_nodup_map t.nodup ha hb h

def empty : Table key := ⟨[], List.nodup_nil⟩

instance : Inhabited (Table key) := ⟨empty⟩

instance [DecidableEq α] : DecidableEq (Table key) := fun t u =>
  decidable_of_iff (t.entries = u.entries) ⟨ext_entries, fun h => h ▸ rfl⟩

instance [DecidableEq α] (a : α) (t : Table key) : Decidable (a ∈ t) :=
  inferInstanceAs (Decidable (a ∈ t.entries))

/-- Rewriting entries one by one keeps the table when no entry changes its key. -/
def map (t : Table key) (f : α → α) (hf : ∀ a, key (f a) = key a) : Table key where
  entries := t.entries.map f
  nodup := by
    have h : (t.entries.map f).map key = t.entries.map key := by
      rw [List.map_map]
      exact List.map_congr_left fun a _ => hf a
    rw [h]
    exact t.nodup

@[simp] theorem mem_map {t : Table key} {f : α → α} {hf : ∀ a, key (f a) = key a} {b : α} :
    b ∈ t.map f hf ↔ ∃ a ∈ t, f a = b := List.mem_map

variable [DecidableEq κ]

def find? (t : Table key) (k : κ) : Option α := t.entries.find? fun a => key a = k

theorem find?_eq_none {t : Table key} {k : κ} : t.find? k = none ↔ ∀ a ∈ t, key a ≠ k := by
  simp [find?, mem_def]

theorem find?_eq_some {t : Table key} {k : κ} {a : α} :
    t.find? k = some a ↔ a ∈ t ∧ key a = k := by
  constructor
  · intro h
    exact ⟨List.mem_of_find?_eq_some h, by simpa using List.find?_some h⟩
  · rintro ⟨hm, rfl⟩
    cases h : t.find? (key a) with
    | none => exact absurd rfl (find?_eq_none.mp h a hm)
    | some b =>
      have hb : key b = key a := by simpa using List.find?_some h
      rw [eq_of_key (List.mem_of_find?_eq_some h) hm hb]

theorem find?_of_mem {t : Table key} {a : α} (h : a ∈ t) : t.find? (key a) = some a :=
  find?_eq_some.mpr ⟨h, rfl⟩

/-- Overwrites the entry with the key of `a`; a table without one is unchanged. -/
def replace (t : Table key) (a : α) : Table key :=
  t.map (fun b => if key b = key a then a else b) (by intro b; split <;> simp_all)

theorem mem_replace {t : Table key} {a b : α} :
    b ∈ t.replace a ↔ (b = a ∧ ∃ c ∈ t, key c = key a) ∨ (b ∈ t ∧ key b ≠ key a) := by
  simp only [replace, mem_map]
  constructor
  · rintro ⟨c, hc, hb⟩
    split at hb
    · exact Or.inl ⟨hb.symm, c, hc, by assumption⟩
    · subst hb
      exact Or.inr ⟨hc, by assumption⟩
  · rintro (⟨rfl, c, hc, hk⟩ | ⟨hb, hk⟩)
    · exact ⟨c, hc, if_pos hk⟩
    · exact ⟨b, hb, if_neg hk⟩

theorem find?_replace_of_ne {t : Table key} {a : α} {k : κ} (h : k ≠ key a) :
    (t.replace a).find? k = t.find? k := by
  apply Option.ext
  intro b
  simp only [find?_eq_some, mem_replace]
  constructor
  · rintro ⟨⟨rfl, -⟩ | ⟨hb, -⟩, hk⟩
    · exact absurd hk.symm h
    · exact ⟨hb, hk⟩
  · exact fun ⟨hb, hk⟩ => ⟨Or.inr ⟨hb, hk ▸ h⟩, hk⟩

def erase (t : Table key) (k : κ) : Table key where
  entries := t.entries.filter fun a => key a ≠ k
  nodup := t.nodup.sublist (List.filter_sublist.map key)

theorem mem_erase {t : Table key} {k : κ} {a : α} : a ∈ t.erase k ↔ a ∈ t ∧ key a ≠ k := by
  simp [erase, mem_def]

def push (t : Table key) (a : α) (h : t.find? (key a) = none) : Table key where
  entries := t.entries ++ [a]
  nodup := by
    rw [List.map_append, List.nodup_append]
    refine ⟨t.nodup, by simp, ?_⟩
    intro k hk l hl
    obtain ⟨b, hb, rfl⟩ := List.mem_map.mp hk
    simp only [List.map_cons, List.map_nil, List.mem_singleton] at hl
    exact hl ▸ find?_eq_none.mp h b hb

@[simp] theorem mem_push {t : Table key} {a b : α} {h : t.find? (key a) = none} :
    b ∈ t.push a h ↔ b ∈ t ∨ b = a := by simp [push, mem_def]

def upsert (t : Table key) (a : α) : Table key :=
  if h : t.find? (key a) = none then t.push a h else t.replace a

theorem mem_upsert {t : Table key} {a b : α} :
    b ∈ t.upsert a ↔ b = a ∨ (b ∈ t ∧ key b ≠ key a) := by
  unfold upsert
  split
  next h =>
    rw [mem_push]
    constructor
    · rintro (hb | hb)
      · exact Or.inr ⟨hb, find?_eq_none.mp h b hb⟩
      · exact Or.inl hb
    · rintro (hb | hb)
      · exact Or.inr hb
      · exact Or.inl hb.1
  next h =>
    obtain ⟨c, hc⟩ := Option.ne_none_iff_exists'.mp h
    have hex : ∃ c ∈ t, key c = key a := ⟨c, find?_eq_some.mp hc⟩
    simp [mem_replace, hex]

theorem find?_upsert {t : Table key} {a : α} {k : κ} :
    (t.upsert a).find? k = if k = key a then some a else t.find? k := by
  apply Option.ext
  intro b
  rw [find?_eq_some, mem_upsert]
  split_ifs with h
  · subst h
    simp only [Option.some.injEq]
    constructor
    · rintro ⟨rfl | ⟨-, hne⟩, hk⟩
      · rfl
      · exact absurd hk hne
    · rintro rfl
      exact ⟨Or.inl rfl, rfl⟩
  · rw [find?_eq_some]
    constructor
    · rintro ⟨rfl | ⟨hb, -⟩, hk⟩
      · exact absurd hk.symm h
      · exact ⟨hb, hk⟩
    · rintro ⟨hb, hk⟩
      exact ⟨Or.inr ⟨hb, hk ▸ h⟩, hk⟩

theorem find?_erase {t : Table key} {j k : κ} :
    (t.erase j).find? k = if k = j then none else t.find? k := by
  apply Option.ext
  intro b
  rw [find?_eq_some, mem_erase]
  split_ifs with h
  · subst h
    exact iff_of_false (fun hb => hb.1.2 hb.2) (by simp)
  · rw [find?_eq_some]
    constructor
    · rintro ⟨⟨hb, -⟩, hk⟩
      exact ⟨hb, hk⟩
    · rintro ⟨hb, hk⟩
      exact ⟨⟨hb, hk ▸ h⟩, hk⟩

/-- The entries with one key are at most one. -/
theorem filter_key (t : Table key) (k : κ) :
    t.entries.filter (fun a => key a = k) = (t.find? k).toList := by
  obtain ⟨entries, nodup⟩ := t
  simp only [find?]
  induction entries with
  | nil => rfl
  | cons a entries ih =>
    rw [List.map_cons, List.nodup_cons] at nodup
    by_cases h : key a = k
    · have hrest : entries.filter (fun b => key b = k) = [] := by
        rw [List.filter_eq_nil_iff]
        intro b hb hk
        rw [decide_eq_true_eq] at hk
        exact nodup.1 (List.mem_map.mpr ⟨b, hb, hk.trans h.symm⟩)
      simp [h, hrest]
    · simp [h, ih nodup.2]

end Table

abbrev Assoc (κ β : Type*) := Table (Prod.fst : κ × β → κ)

namespace Assoc
variable {κ β : Type*} [DecidableEq κ] {m : Assoc κ β} {k l : κ} {b : β}

def get? (m : Assoc κ β) (k : κ) : Option β := (m.find? k).map Prod.snd

def set (m : Assoc κ β) (k : κ) (b : β) : Assoc κ β := m.upsert (k, b)

theorem get?_eq_some : m.get? k = some b ↔ (k, b) ∈ m := by
  rw [get?, Option.map_eq_some_iff]
  constructor
  · rintro ⟨⟨k', b'⟩, hfind, rfl⟩
    obtain ⟨hmem, rfl⟩ := Table.find?_eq_some.mp hfind
    exact hmem
  · intro hmem
    exact ⟨(k, b), Table.find?_eq_some.mpr ⟨hmem, rfl⟩, rfl⟩

theorem get?_set : (m.set k b).get? l = if l = k then some b else m.get? l := by
  rw [get?, set, Table.find?_upsert]
  split_ifs <;> rfl

theorem get?_erase : get? (m.erase k) l = if l = k then none else m.get? l := by
  rw [get?, Table.find?_erase]
  split_ifs <;> rfl

@[simp] theorem get?_empty : get? (Table.empty : Assoc κ β) k = none := rfl

end Assoc
end Effect
