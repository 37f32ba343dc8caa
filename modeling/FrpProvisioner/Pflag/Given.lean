import FrpProvisioner.Pflag.Parse

/-! What a successful parse does to the state: it sets flags of the set one after the other,
and which flags with which texts can be read from the arguments alone. -/
namespace Pflag

section Given
variable {σ : Type}

/-- The flags of a set that are set one after the other, with the text given to each. -/
inductive Sets (fs : FlagSet σ) : List (String × String) → Parsed σ → Parsed σ → Prop where
  | nil (p : Parsed σ) : Sets fs [] p p
  | cons {flag : Flag σ} {text : String} {given : List (String × String)} {p p' p'' : Parsed σ} :
      flag ∈ fs.formal → p.set flag text = .ok p' → Sets fs given p' p'' →
      Sets fs ((flag.name, text) :: given) p p''

def textsOf (name : String) (given : List (String × String)) : List String :=
  (given.filter fun g => g.1 = name).map Prod.snd

theorem textsOf_cons_self (name text : String) (given : List (String × String)) :
    textsOf name ((name, text) :: given) = text :: textsOf name given := by simp [textsOf]

theorem textsOf_cons_of_ne {name m : String} (h : m ≠ name) (text : String)
    (given : List (String × String)) :
    textsOf name ((m, text) :: given) = textsOf name given := by simp [textsOf, h]

theorem textsOf_ne_nil {name : String} {given : List (String × String)} :
    textsOf name given ≠ [] ↔ name ∈ given.map Prod.fst := by
  simp [textsOf, List.filter_eq_nil_iff]

theorem textsOf_eq_nil {name : String} {given : List (String × String)} :
    textsOf name given = [] ↔ name ∉ given.map Prod.fst := by
  rw [← textsOf_ne_nil, not_not]

theorem Sets.append {fs : FlagSet σ} {given given' : List (String × String)}
    {p p' p'' : Parsed σ} (h : Sets fs given p p') (h' : Sets fs given' p' p'') :
    Sets fs (given ++ given') p p'' := by
  induction h with
  | nil p => exact h'
  | cons hmem hset _ ih => exact .cons hmem hset (ih h')

/-- What can be known of the flags without a flag set: the value of a flag that needs no text,
and the flag that a shorthand stands for, with its value. -/
structure Reading where
  bare : String → Option String
  short : Char → Option (String × String)

/-- The flags that a group of shorthands names, when none takes the next argument. -/
def shortOccurrences (r : Reading) : List Char → List (String × String)
  | [] => []
  | c :: cs =>
    if "test.".toList <+: c :: cs then []
    else
      match r.short c with
      | none => []
      | some (name, value) =>
        match FlagSet.shortInline cs with
        | some text => [(name, text)]
        | none => (name, value) :: shortOccurrences r cs

def occurrences (r : Reading) : List String → List (String × String)
  | [] => []
  | s :: args =>
    match Word.ofString s with
    | .dashes => []
    | .long name inline =>
      match inline.or (r.bare name) with
      | some text => (name, text) :: occurrences r args
      | none =>
        match args with
        | [] => []
        | text :: args => (name, text) :: occurrences r args
    | .short shorthands => shortOccurrences r shorthands ++ occurrences r args
    | _ => occurrences r args

namespace FlagSet
variable {fs : FlagSet σ}

def names (fs : FlagSet σ) : List String := fs.formal.map Flag.name

theorem lookup_eq_some {name : String} {flag : Flag σ} (h : fs.lookup name = some flag) :
    flag ∈ fs.formal ∧ flag.name = name :=
  ⟨List.mem_of_find?_eq_some h, by simpa using List.find?_some h⟩

theorem lookupShorthand_eq_some {c : Char} {flag : Flag σ}
    (h : fs.lookupShorthand c = some flag) : flag ∈ fs.formal ∧ flag.shorthand = some c :=
  ⟨List.mem_of_find?_eq_some h, by simpa using List.find?_some h⟩

theorem map_done_eq_ok {e : Except ParseError (Parsed σ)} {next : Next σ}
    (h : e.map .done = .ok next) : ∃ p, e = .ok p ∧ next = .done p := by
  cases e with
  | error err => simp [Except.map] at h
  | ok p =>
    simp only [Except.map, Except.ok.injEq] at h
    exact ⟨p, rfl, h.symm⟩

/-- A long argument sets its flag, or leaves it to the next argument. -/
theorem parseLongArg_cases {s name : String} {inline : Option String} {p : Parsed σ}
    {next : Next σ} (h : fs.parseLongArg s name inline p = .ok next) :
    ∃ flag ∈ fs.formal, flag.name = name ∧
      ((∃ text p', inline.or flag.noOptDefVal = some text ∧ p.set flag text = .ok p' ∧
          next = .done p') ∨
        inline.or flag.noOptDefVal = none ∧ next = .wants flag p (.needsArgument s)) := by
  unfold parseLongArg at h
  cases hl : fs.lookup name with
  | none => simp [hl] at h
  | some flag =>
    obtain ⟨hmem, hname⟩ := lookup_eq_some hl
    refine ⟨flag, hmem, hname, ?_⟩
    simp only [hl] at h
    cases ht : inline.or flag.noOptDefVal with
    | none =>
      simp only [ht, Except.ok.injEq] at h
      exact .inr ⟨rfl, h.symm⟩
    | some text =>
      simp only [ht] at h
      obtain ⟨p', hp, hnext⟩ := map_done_eq_ok h
      exact .inl ⟨text, p', rfl, hp, hnext⟩

/-- A flag set whose flags are as a reading has them; shorthands need no text. -/
structure Reads (fs : FlagSet σ) (r : Reading) : Prop where
  long : ∀ flag ∈ fs.formal, r.bare flag.name = flag.noOptDefVal
  short : ∀ flag ∈ fs.formal, ∀ c, flag.shorthand = some c →
    ∃ value, flag.noOptDefVal = some value ∧ r.short c = some (flag.name, value)

section Arguments
variable {r : Reading}

theorem parseShortArg_sets (hfs : fs.Reads r) {shorthands : List Char} {p : Parsed σ}
    {next : Next σ} (h : fs.parseShortArg shorthands p = .ok next) :
    ∃ p', next = .done p' ∧ Sets fs (shortOccurrences r shorthands) p p' := by
  induction shorthands generalizing p with
  | nil =>
    simp only [parseShortArg, Except.ok.injEq] at h
    exact ⟨p, h.symm, .nil p⟩
  | cons c cs ih =>
    unfold parseShortArg at h
    unfold shortOccurrences
    by_cases htest : "test.".toList <+: c :: cs
    · simp only [htest, if_true, Except.ok.injEq] at h ⊢
      exact ⟨p, h.symm, .nil p⟩
    simp only [htest, if_false] at h ⊢
    cases hl : fs.lookupShorthand c with
    | none => simp [hl] at h
    | some flag =>
      obtain ⟨hmem, hc⟩ := lookupShorthand_eq_some hl
      obtain ⟨value, hvalue, hshort⟩ := hfs.short flag hmem c hc
      simp only [hl, hvalue] at h
      simp only [hshort]
      cases hi : shortInline cs with
      | some text =>
        simp only [hi] at h ⊢
        obtain ⟨p', hp, hnext⟩ := map_done_eq_ok h
        exact ⟨p', hnext, .cons hmem hp (.nil p')⟩
      | none =>
        simp only [hi] at h ⊢
        cases hp : p.set flag value with
        | error err => simp [hp] at h
        | ok p' =>
          simp only [hp] at h
          obtain ⟨p'', hnext, hsets⟩ := ih h
          exact ⟨p'', hnext, .cons hmem hp hsets⟩

/-- How one argument accounts for the flags the whole list names. -/
private def Accounts (fs : FlagSet σ) (r : Reading) (s : String) (p : Parsed σ) : Next σ → Prop
  | .positional => ∀ args, occurrences r (s :: args) = occurrences r args
  | .stop => ∀ args, occurrences r (s :: args) = []
  | .done p' => ∃ given, Sets fs given p p' ∧
      ∀ args, occurrences r (s :: args) = given ++ occurrences r args
  | .wants flag p' _ => p' = p ∧ flag ∈ fs.formal ∧ ∀ text args,
      occurrences r (s :: text :: args) = (flag.name, text) :: occurrences r args

private theorem parseArg_accounts (hfs : fs.Reads r)
    {s : String} {p : Parsed σ} {next : Next σ} (h : fs.parseArg s p = .ok next) :
    fs.Accounts r s p next := by
  unfold parseArg at h
  cases hw : Word.ofString s with
  | positional =>
    simp only [hw, Except.ok.injEq] at h
    subst h
    exact fun args => by simp only [occurrences, hw]
  | dashes =>
    simp only [hw, Except.ok.injEq] at h
    subst h
    exact fun args => by simp only [occurrences, hw]
  | bad => simp [hw] at h
  | long name inline =>
    simp only [hw] at h
    obtain ⟨flag, hmem, rfl, ⟨text, p', ht, hp, rfl⟩ | ⟨ht, rfl⟩⟩ := parseLongArg_cases h
    · refine ⟨[(flag.name, text)], .cons hmem hp (.nil p'), fun args => ?_⟩
      simp only [occurrences, hw, hfs.long flag hmem, ht, List.singleton_append]
    · refine ⟨rfl, hmem, fun text args => ?_⟩
      simp only [occurrences, hw, hfs.long flag hmem, ht]
  | short shorthands =>
    simp only [hw] at h
    obtain ⟨p', rfl, hsets⟩ := parseShortArg_sets hfs h
    exact ⟨_, hsets, fun args => by simp only [occurrences, hw]⟩

/-- What a successful parse does: it sets the flags that the arguments name, in their order. -/
theorem parseArgs_sets (hfs : fs.Reads r)
    {args rest : List String} {p q : Parsed σ} (h : fs.parseArgs args p = .ok (rest, q)) :
    Sets fs (occurrences r args) p q := by
  fun_induction FlagSet.parseArgs fs args p generalizing rest with
  | case1 p =>
    obtain ⟨rfl, rfl⟩ : [] = rest ∧ p = q := by simpa using h
    exact .nil p
  | case2 s args p err hs => simp at h
  | case3 s args p hs ih =>
    cases hr : fs.parseArgs args p with
    | error err => simp [hr, Except.map] at h
    | ok result =>
      obtain ⟨rest', q'⟩ := result
      obtain ⟨-, rfl⟩ : s :: rest' = rest ∧ q' = q := by simpa [hr, Except.map] using h
      rw [parseArg_accounts hfs hs args]
      exact ih hr
  | case4 s args p hs =>
    obtain ⟨rfl, rfl⟩ : args = rest ∧ p = q := by simpa using h
    rw [parseArg_accounts hfs hs args]
    exact .nil p
  | case5 s args p p' hs ih =>
    obtain ⟨given, hsets, hocc⟩ := parseArg_accounts hfs hs
    rw [hocc]
    exact hsets.append (ih h)
  | case6 s p flag p' err hs => simp at h
  | case7 s p flag p' err hs text args p'' hset ih =>
    obtain ⟨rfl, hmem, hocc⟩ := parseArg_accounts hfs hs
    rw [hocc]
    exact .cons hmem hset (ih h)
  | case8 s p flag p' err hs text args err' hset => simp at h

end Arguments

end FlagSet

namespace Sets
variable {fs : FlagSet σ} {given : List (String × String)} {p q : Parsed σ}

theorem mem_formal (h : Sets fs given p q) : ∀ g ∈ given, ∃ flag ∈ fs.formal, flag.name = g.1 := by
  induction h with
  | nil p => simp
  | cons hmem _ _ ih => exact List.forall_mem_cons.2 ⟨⟨_, hmem, rfl⟩, ih⟩

/-- A condition that every flag set by the parse keeps holds after it. -/
theorem invariant {I : σ → Prop} (h : Sets fs given p q)
    (hI : ∀ flag ∈ fs.formal, flag.name ∈ given.map Prod.fst → ∀ changed text st st',
      flag.set changed text st = .ok st' → I st → I st')
    (hp : I p.state) : I q.state := by
  induction h with
  | nil p => exact hp
  | cons hmem hset _ ih =>
    obtain ⟨st, hst, rfl⟩ := Parsed.set_eq_ok hset
    refine ih (fun flag hflag hname => hI flag hflag ?_) (hI _ hmem ?_ _ _ _ _ hst hp)
    · exact List.mem_cons_of_mem _ hname
    · exact List.mem_cons_self

/-- The variable of one flag. `sees st x` says that it holds `x`: the flag `name` acts on it
as `value` does, and no other flag of the set touches it. -/
structure Tracks {α : Type} (fs : FlagSet σ) (name : String) (value : FlagValue α)
    (sees : σ → α → Prop) : Prop where
  own : ∀ flag ∈ fs.formal, flag.name = name → ∀ changed text st st' x,
    flag.set changed text st = .ok st' → sees st x →
      ∃ y, value.set changed x text = .ok y ∧ sees st' y
  other : ∀ flag ∈ fs.formal, flag.name ≠ name → ∀ changed text st st' x,
    flag.set changed text st = .ok st' → sees st x → sees st' x

theorem setAll {α : Type} {name : String} {value : FlagValue α} {sees : σ → α → Prop}
    (htrack : Tracks fs name value sees) (h : Sets fs given p q) {x : α} (hx : sees p.state x) :
    ∃ y, value.setAll (name ∈ p.actual) x (textsOf name given) = .ok y ∧ sees q.state y := by
  induction h generalizing x with
  | nil p => exact ⟨x, rfl, hx⟩
  | @cons flag text given p p' q hmem hset _ ih =>
    obtain ⟨st, hst, rfl⟩ := Parsed.set_eq_ok hset
    by_cases hname : flag.name = name
    · subst hname
      obtain ⟨y, hy, hsees⟩ := htrack.own flag hmem rfl _ _ _ _ _ hst hx
      obtain ⟨z, hz, hseesz⟩ := ih hsees
      refine ⟨z, ?_, hseesz⟩
      simpa [textsOf_cons_self, FlagValue.setAll, hy] using hz
    · obtain ⟨z, hz, hseesz⟩ := ih (htrack.other flag hmem hname _ _ _ _ _ hst hx)
      refine ⟨z, ?_, hseesz⟩
      rw [textsOf_cons_of_ne hname]
      simpa [Ne.symm hname] using hz

end Sets

namespace FlagSet
variable {fs : FlagSet σ} {r : Reading} {args rest : List String} {st st' : σ}

theorem parse_eq_ok (h : fs.parse args st = .ok (rest, st')) :
    ∃ actual, fs.parseArgs args ⟨[], st⟩ = .ok (rest, ⟨actual, st'⟩) := by
  unfold parse at h
  cases hp : fs.parseArgs args ⟨[], st⟩ with
  | error err => simp [hp, Except.map] at h
  | ok result =>
    obtain ⟨rest', actual, q⟩ := result
    obtain ⟨rfl, rfl⟩ : rest' = rest ∧ q = st' := by simpa [hp, Except.map] using h
    exact ⟨actual, rfl⟩

theorem parse_sets (hfs : fs.Reads r) (h : fs.parse args st = .ok (rest, st')) :
    ∃ actual, Sets fs (occurrences r args) ⟨[], st⟩ ⟨actual, st'⟩ := by
  obtain ⟨actual, hp⟩ := parse_eq_ok h
  exact ⟨actual, parseArgs_sets hfs hp⟩

theorem parse_invariant (hfs : fs.Reads r) {I : σ → Prop}
    (hI : ∀ flag ∈ fs.formal, textsOf flag.name (occurrences r args) ≠ [] →
      ∀ changed text st st', flag.set changed text st = .ok st' → I st → I st')
    (h : fs.parse args st = .ok (rest, st')) (hst : I st) : I st' := by
  obtain ⟨actual, hsets⟩ := parse_sets hfs h
  exact hsets.invariant (fun flag hflag hname => hI flag hflag (textsOf_ne_nil.mpr hname)) hst

theorem named_subset_names (hfs : fs.Reads r) (h : fs.parse args st = .ok (rest, st')) :
    (occurrences r args).map Prod.fst ⊆ fs.names := by
  obtain ⟨actual, hsets⟩ := parse_sets hfs h
  intro name hname
  obtain ⟨g, hg, rfl⟩ := List.mem_map.mp hname
  obtain ⟨flag, hflag, heq⟩ := hsets.mem_formal g hg
  exact List.mem_map.mpr ⟨flag, hflag, heq⟩

/-- The variable of a flag keeps its value when the arguments do not name the flag, and ends
with the value of their texts when they do. -/
theorem parse_tracks (hfs : fs.Reads r) {α : Type} {name : String} {value : FlagValue α}
    {sees : σ → α → Prop} (htrack : Sets.Tracks fs name value sees)
    (h : fs.parse args st = .ok (rest, st')) {x : α} (hx : sees st x) :
    ∃ y, sees st' y ∧ (textsOf name (occurrences r args) = [] → y = x) ∧
      (textsOf name (occurrences r args) ≠ [] →
        value.Final (textsOf name (occurrences r args)) y) := by
  obtain ⟨actual, hsets⟩ := parse_sets hfs h
  obtain ⟨y, hy, hsees⟩ := hsets.setAll htrack hx
  refine ⟨y, hsees, fun hnil => ?_, fun hne => FlagValue.final_of_setAll hne (by simpa using hy)⟩
  rw [hnil] at hy
  exact (by simpa [FlagValue.setAll] using hy : x = y).symm

end FlagSet
end Given

end Pflag
