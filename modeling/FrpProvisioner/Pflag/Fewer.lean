import FrpProvisioner.Pflag.Given
import Mathlib.Data.List.Nodup

/-! The same arguments parsed by two flag sets, one with fewer flags than the other. What the
larger set accepts the smaller one accepts too, unless a flag it does not have is given. -/
namespace Pflag

variable {σ : Type}

/-- A text that a value accepts once it accepts always. -/
theorem FlagValue.set_again {α : Type} {value : FlagValue α} {changed : Bool} {x y : α}
    {text : String} (h : value.set changed x text = .ok y) (changed' : Bool) (x' : α) :
    ∃ y', value.set changed' x' text = .ok y' := by
  cases value with
  | scalar noOptDefVal parse => exact ⟨y, h⟩
  | stringArray => exact ⟨_, rfl⟩

/-- Taking `after` as the flags set at the end and `before` as those set at first, either `ok`
and the new ones are known, or `err` and one of them is not. -/
def Splits (known before after : List String) (ok err : Prop) : Prop :=
  (ok ∧ ∀ n ∈ after, n ∈ before ∨ n ∈ known) ∨ (err ∧ ∃ n ∈ after, n ∉ known)

namespace Splits
variable {known before mid after : List String} {ok err ok' err' : Prop}

theorem refl (h : ok) : Splits known before before ok err :=
  .inl ⟨h, fun _ hn => .inl hn⟩

theorem one {n : String} (h : ok) (hn : n ∈ known) : Splits known before (n :: before) ok err := by
  refine .inl ⟨h, ?_⟩
  intro m hm
  rcases List.mem_cons.mp hm with rfl | hm
  · exact .inr hn
  · exact .inl hm

theorem unknown {n : String} (h : err) (hn : n ∉ known) (hmem : n ∈ after) :
    Splits known before after ok err :=
  .inr ⟨h, n, hmem, hn⟩

theorem imp (h : Splits known before after ok err) (hok : ok → ok') (herr : err → err') :
    Splits known before after ok' err' :=
  Or.imp (And.imp_left hok) (And.imp_left herr) h

/-- Two parts one after the other: the second is reached only if the first succeeds. -/
theorem trans (h : Splits known before mid ok err) (hsub : mid ⊆ after) (stop : err → err')
    (rest : ok → Splits known mid after ok' err') : Splits known before after ok' err' := by
  rcases h with ⟨hok, hmid⟩ | ⟨herr, n, hn, hnot⟩
  · rcases rest hok with ⟨hok', hafter⟩ | ⟨herr', hafter⟩
    · refine .inl ⟨hok', ?_⟩
      intro n hn
      rcases hafter n hn with hn | hn
      · exact hmid n hn
      · exact .inr hn
    · exact .inr ⟨herr', hafter⟩
  · exact .inr ⟨stop herr, n, hsub hn, hnot⟩

end Splits

namespace FlagSet

/-- The flags of `fs'` are flags of `fs`, and in the states `J` they accept each text that
they accept in some state. -/
structure Fewer (fs fs' : FlagSet σ) (J : σ → Prop) : Prop where
  formal : fs'.formal ⊆ fs.formal
  shorthand : ∀ f ∈ fs.formal, ∀ g ∈ fs.formal, f.shorthand ≠ none → f.shorthand = g.shorthand →
    f = g
  accepts : ∀ flag ∈ fs'.formal, ∀ changed text st st₁, flag.set changed text st = .ok st₁ →
    ∀ changed' st', J st' → ∃ st₁', flag.set changed' text st' = .ok st₁' ∧ J st₁'

namespace Fewer
variable {fs fs' : FlagSet σ} {J : σ → Prop} {flag : Flag σ} {text name : String}
  {p p' q : Parsed σ}

theorem mem_iff (h : Fewer fs fs' J) (hflag : flag ∈ fs.formal) :
    flag ∈ fs'.formal ↔ flag.name ∈ fs'.names := by
  constructor
  · exact fun hmem => List.mem_map_of_mem hmem
  · intro hname
    obtain ⟨other, hother, heq⟩ := List.mem_map.mp hname
    rwa [← List.inj_on_of_nodup_map fs.nodup (h.formal hother) hflag heq]

/-- A flag of the larger set is the one of its name in the smaller set too, if there is one. -/
theorem lookup_eq (h : Fewer fs fs' J) (hl : fs.lookup name = some flag) :
    fs'.lookup name = if name ∈ fs'.names then some flag else none := by
  obtain ⟨hmem, rfl⟩ := lookup_eq_some hl
  cases hl' : fs'.lookup flag.name with
  | none =>
    have hnot : flag.name ∉ fs'.names := by
      intro hname
      have hnone := List.find?_eq_none.mp hl' flag ((h.mem_iff hmem).mpr hname)
      simp at hnone
    rw [if_neg hnot]
  | some other =>
    obtain ⟨hother, heq⟩ := lookup_eq_some hl'
    have hname : flag.name ∈ fs'.names := List.mem_map.mpr ⟨other, hother, heq⟩
    rw [if_pos hname, List.inj_on_of_nodup_map fs.nodup (h.formal hother) hmem heq]

theorem lookupShorthand_eq (h : Fewer fs fs' J) {c : Char}
    (hl : fs.lookupShorthand c = some flag) :
    fs'.lookupShorthand c = if flag.name ∈ fs'.names then some flag else none := by
  obtain ⟨hmem, hc⟩ := lookupShorthand_eq_some hl
  cases hl' : fs'.lookupShorthand c with
  | none =>
    have hnot : flag.name ∉ fs'.names := by
      intro hname
      have hnone := List.find?_eq_none.mp hl' flag ((h.mem_iff hmem).mpr hname)
      simp [hc] at hnone
    rw [if_neg hnot]
  | some other =>
    obtain ⟨hother, hc'⟩ := lookupShorthand_eq_some hl'
    have heq : flag = other :=
      h.shorthand flag hmem other (h.formal hother) (by simp [hc]) (hc.trans hc'.symm)
    subst heq
    rw [if_pos ((h.mem_iff hmem).mp hother)]

theorem set (h : Fewer fs fs' J) (hflag : flag ∈ fs'.formal) (hset : p.set flag text = .ok q)
    (hJ : J p'.state) : q.actual = flag.name :: p.actual ∧
      ∃ q', p'.set flag text = .ok q' ∧ J q'.state := by
  obtain ⟨st, hst, rfl⟩ := Parsed.set_eq_ok hset
  obtain ⟨st', hst', hJ'⟩ := h.accepts flag hflag _ _ _ _ hst (flag.name ∈ p'.actual) p'.state hJ
  exact ⟨rfl, ⟨flag.name :: p'.actual, st'⟩, by simp [Parsed.set, hst'], hJ'⟩

end Fewer

end FlagSet

theorem actual_of_set {flag : Flag σ} {text : String} {p q : Parsed σ}
    (h : p.set flag text = .ok q) : q.actual = flag.name :: p.actual := by
  obtain ⟨st, _, rfl⟩ := Parsed.set_eq_ok h
  rfl

namespace Sets
variable {fs : FlagSet σ} {given : List (String × String)} {p q : Parsed σ}

theorem mem_actual (h : Sets fs given p q) {n : String} :
    n ∈ q.actual ↔ n ∈ p.actual ∨ n ∈ given.map Prod.fst := by
  induction h with
  | nil p => simp
  | cons _ hset _ ih =>
    rw [ih, actual_of_set hset, List.map_cons, List.mem_cons, List.mem_cons]
    tauto

theorem actual_subset (h : Sets fs given p q) : p.actual ⊆ q.actual :=
  fun _ hn => h.mem_actual.mpr (.inl hn)

end Sets

namespace FlagSet

section Arguments
variable {fs fs' : FlagSet σ} {J : σ → Prop} {r : Reading} {p p' : Parsed σ}

theorem parseShortArg_fewer (h : Fewer fs fs' J) (hfs : fs.Reads r) {shorthands : List Char}
    {q : Parsed σ} (hs : fs.parseShortArg shorthands p = .ok (.done q)) (hJ : J p'.state) :
    Splits fs'.names p.actual q.actual
      (∃ q', fs'.parseShortArg shorthands p' = .ok (.done q') ∧ J q'.state)
      (∃ err, fs'.parseShortArg shorthands p' = .error err) := by
  induction shorthands generalizing p p' with
  | nil =>
    obtain rfl : p = q := by simpa [parseShortArg] using hs
    exact .refl ⟨p', rfl, hJ⟩
  | cons c cs ih =>
    unfold parseShortArg at hs ⊢
    by_cases htest : "test.".toList <+: c :: cs
    · simp only [htest, if_true] at hs ⊢
      obtain rfl : p = q := by simpa using hs
      exact .refl ⟨p', rfl, hJ⟩
    simp only [htest, if_false] at hs ⊢
    cases hl : fs.lookupShorthand c with
    | none => simp [hl] at hs
    | some flag =>
      obtain ⟨hmem, hc⟩ := lookupShorthand_eq_some hl
      obtain ⟨d, hd, -⟩ := hfs.short flag hmem c hc
      simp only [hl, hd, h.lookupShorthand_eq hl] at hs ⊢
      cases hi : shortInline cs with
      | some text =>
        simp only [hi] at hs ⊢
        obtain ⟨q₁, hset, heq⟩ := map_done_eq_ok hs
        cases heq
        rw [actual_of_set hset]
        by_cases hknown : flag.name ∈ fs'.names
        · obtain ⟨-, q', hset', hJ'⟩ := h.set ((h.mem_iff hmem).mpr hknown) hset hJ
          exact .one ⟨q', by simp [hknown, hset', Except.map], hJ'⟩ hknown
        · exact .unknown (by simp [hknown]) hknown List.mem_cons_self
      | none =>
        simp only [hi] at hs ⊢
        cases hset : p.set flag d with
        | error err => simp [hset] at hs
        | ok p₁ =>
          simp only [hset] at hs
          obtain ⟨_, heq, hsets⟩ := parseShortArg_sets hfs hs
          cases heq
          have hsub := hsets.actual_subset
          rw [actual_of_set hset] at hsub
          by_cases hknown : flag.name ∈ fs'.names
          · obtain ⟨hactual, p₁', hset', hJ'⟩ := h.set ((h.mem_iff hmem).mpr hknown) hset hJ
            have hrest := ih hs hJ'
            rw [hactual] at hrest
            simp only [hknown, if_true, hd, hset']
            exact (Splits.one trivial hknown).trans hsub False.elim fun _ => hrest
          · exact .unknown (by simp [hknown]) hknown (hsub List.mem_cons_self)

/-- How the smaller set does on an argument of which the larger one makes the given. -/
private def Answers (fs fs' : FlagSet σ) (J : σ → Prop) (s : String) (p p' : Parsed σ) :
    Next σ → Prop
  | .positional => fs'.parseArg s p' = .ok .positional
  | .stop => fs'.parseArg s p' = .ok .stop
  | .done q => p.actual ⊆ q.actual ∧ Splits fs'.names p.actual q.actual
      (∃ q', fs'.parseArg s p' = .ok (.done q') ∧ J q'.state)
      (∃ err, fs'.parseArg s p' = .error err)
  | .wants flag q _ => q = p ∧ flag ∈ fs.formal ∧
      if flag.name ∈ fs'.names then ∃ err, fs'.parseArg s p' = .ok (.wants flag p' err)
      else ∃ err, fs'.parseArg s p' = .error err

private theorem parseArg_answers (h : Fewer fs fs' J) (hfs : fs.Reads r) {s : String}
    {next : Next σ} (hs : fs.parseArg s p = .ok next) (hJ : J p'.state) :
    Answers fs fs' J s p p' next := by
  unfold parseArg at hs
  cases hw : Word.ofString s with
  | positional =>
    simp only [hw, Except.ok.injEq] at hs
    subst hs
    simp [Answers, parseArg, hw]
  | dashes =>
    simp only [hw, Except.ok.injEq] at hs
    subst hs
    simp [Answers, parseArg, hw]
  | bad => simp [hw] at hs
  | long name inline =>
    simp only [hw] at hs
    cases hl : fs.lookup name with
    | none => simp [parseLongArg, hl] at hs
    | some flag =>
      obtain ⟨hmem, rfl⟩ := lookup_eq_some hl
      have hl' := h.lookup_eq hl
      simp only [parseLongArg, hl] at hs
      cases ht : inline.or flag.noOptDefVal with
      | none =>
        simp only [ht, Except.ok.injEq] at hs
        subst hs
        refine ⟨rfl, hmem, ?_⟩
        split
        · next hknown => simp [parseArg, hw, parseLongArg, hl', hknown, ht]
        · next hknown => simp [parseArg, hw, parseLongArg, hl', hknown]
      | some text =>
        simp only [ht] at hs
        obtain ⟨q, hset, rfl⟩ := map_done_eq_ok hs
        rw [Answers, actual_of_set hset]
        refine ⟨List.subset_cons_self _ _, ?_⟩
        by_cases hknown : flag.name ∈ fs'.names
        · obtain ⟨-, q', hset', hJ'⟩ := h.set ((h.mem_iff hmem).mpr hknown) hset hJ
          refine .one ⟨q', ?_, hJ'⟩ hknown
          simp [parseArg, hw, parseLongArg, hl', hknown, ht, hset', Except.map]
        · refine .unknown ?_ hknown List.mem_cons_self
          simp [parseArg, hw, parseLongArg, hl', hknown]
  | short shorthands =>
    simp only [hw] at hs
    obtain ⟨q, rfl, hsets⟩ := parseShortArg_sets hfs hs
    refine ⟨hsets.actual_subset, ?_⟩
    simpa only [parseArg, hw] using parseShortArg_fewer h hfs hs hJ

/-- The smaller set accepts the arguments, if all flags they set are its own, or it fails and
they set one that is not. -/
theorem parseArgs_fewer (h : Fewer fs fs' J) (hfs : fs.Reads r) {args rest : List String}
    {q : Parsed σ} (hs : fs.parseArgs args p = .ok (rest, q)) (hJ : J p'.state) :
    Splits fs'.names p.actual q.actual
      (∃ q', fs'.parseArgs args p' = .ok (rest, q') ∧ J q'.state)
      (∃ err, fs'.parseArgs args p' = .error err) := by
  fun_induction FlagSet.parseArgs fs args p generalizing rest p' with
  | case1 p =>
    obtain ⟨rfl, rfl⟩ : [] = rest ∧ p = q := by simpa using hs
    exact .refl ⟨p', rfl, hJ⟩
  | case2 s args p err harg => simp at hs
  | case3 s args p harg ih =>
    have hans : fs'.parseArg s p' = .ok .positional := parseArg_answers h hfs harg hJ
    cases hr : fs.parseArgs args p with
    | error err => simp [hr, Except.map] at hs
    | ok r =>
      obtain ⟨rest', q'⟩ := r
      obtain ⟨rfl, rfl⟩ : s :: rest' = rest ∧ q' = q := by simpa [hr, Except.map] using hs
      simp only [parseArgs, hans]
      apply (ih hr hJ).imp
      · rintro ⟨q'', hq, hJ'⟩
        exact ⟨q'', by simp [hq, Except.map], hJ'⟩
      · rintro ⟨err, herr⟩
        exact ⟨err, by simp [herr, Except.map]⟩
  | case4 s args p harg =>
    obtain ⟨rfl, rfl⟩ : args = rest ∧ p = q := by simpa using hs
    have hans : fs'.parseArg s p' = .ok .stop := parseArg_answers h hfs harg hJ
    exact .refl ⟨p', by simp [parseArgs, hans], hJ⟩
  | case5 s args p p₁ harg ih =>
    obtain ⟨-, hans⟩ := parseArg_answers h hfs harg hJ
    have hsub := (parseArgs_sets hfs hs).actual_subset
    simp only [parseArgs]
    apply hans.trans hsub
    · rintro ⟨err, herr⟩
      exact ⟨err, by simp [herr]⟩
    · rintro ⟨p₁', hp₁', hJ'⟩
      simp only [hp₁']
      exact ih hs hJ'
  | case6 s p flag p₁ err harg => simp at hs
  | case7 s p flag p₁ err harg text args p₂ hset ih =>
    obtain ⟨rfl, hmem, hans⟩ := parseArg_answers h hfs harg hJ
    have hsub := (parseArgs_sets hfs hs).actual_subset
    rw [actual_of_set hset] at hsub
    split at hans
    · next hknown =>
      obtain ⟨err', hans⟩ := hans
      obtain ⟨hactual, p₂', hset', hJ'⟩ := h.set ((h.mem_iff hmem).mpr hknown) hset hJ
      have hrest := ih hs hJ'
      rw [hactual] at hrest
      simp only [parseArgs, hans, hset']
      exact (Splits.one trivial hknown).trans hsub False.elim fun _ => hrest
    · next hknown =>
      obtain ⟨err', hans⟩ := hans
      exact .unknown ⟨err', by simp [parseArgs, hans]⟩ hknown (hsub List.mem_cons_self)
  | case8 s p flag p₁ err harg text args err' hset => simp at hs

/-- Arguments that one flag set accepts are accepted by a smaller one exactly if it has the
flags that they name. -/
theorem parse_fewer (h : Fewer fs fs' J) (hfs : fs.Reads r) {args rest : List String}
    {st st' st₀ : σ} (hs : fs.parse args st₀ = .ok (rest, st)) (hJ : J st') :
    (∃ st₁, fs'.parse args st' = .ok (rest, st₁) ∧ J st₁) ∧
        (occurrences r args).map Prod.fst ⊆ fs'.names ∨
      (∃ err, fs'.parse args st' = .error err) ∧
        ¬ (occurrences r args).map Prod.fst ⊆ fs'.names := by
  obtain ⟨actual, hp⟩ := parse_eq_ok hs
  have hactual : ∀ n, n ∈ actual ↔ n ∈ (occurrences r args).map Prod.fst := by
    intro n
    simpa using (parseArgs_sets hfs hp).mem_actual (n := n)
  have hsplit := parseArgs_fewer h hfs hp (show J (Parsed.mk [] st').state from hJ)
  rcases hsplit with ⟨⟨q', hq, hJ'⟩, hall⟩ | ⟨⟨err, herr⟩, hn⟩
  · refine .inl ⟨⟨q'.state, by simp [parse, hq, Except.map], hJ'⟩, ?_⟩
    intro n hn
    exact (hall n ((hactual n).mpr hn)).resolve_left List.not_mem_nil
  · refine .inr ⟨⟨err, by simp [parse, herr, Except.map]⟩, ?_⟩
    obtain ⟨n, hn, hnot⟩ := hn
    exact fun hsub => hnot (hsub ((hactual n).mp hn))

end Arguments
end FlagSet
end Pflag
