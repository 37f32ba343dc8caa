import Mathlib.Data.List.Basic
import Mathlib.Data.Int.Notation

/-! Command lines as `pflag` parses them. A flag set reads its arguments from the left and
sets the variable behind each flag it meets; the variables are parts of one state. -/
namespace Pflag

/-- The `Value` behind a flag: what one text given for it does to its variable. -/
inductive FlagValue : Type → Type 1 where
  /-- Every text overwrites the variable. `noOptDefVal` stands for a flag without a text. -/
  | scalar {α : Type} (noOptDefVal : Option String) (parse : String → Except String α) :
      FlagValue α
  | stringArray : FlagValue (List String)

namespace FlagValue
variable {α : Type}

def noOptDefVal : FlagValue α → Option String
  | scalar noOptDefVal _ => noOptDefVal
  | stringArray => none

/-- `Value.Set`. The first text of a parse replaces a string array, later ones extend it. -/
def set : FlagValue α → Bool → α → String → Except String α
  | scalar _ parse, _, _, text => parse text
  | stringArray, changed, old, text => .ok (if changed then old ++ [text] else [text])

def setAll (value : FlagValue α) : Bool → α → List String → Except String α
  | _, x, [] => .ok x
  | changed, x, text :: texts =>
    match value.set changed x text with
    | .ok y => value.setAll true y texts
    | .error err => .error err

/-- The value of a flag to which the texts were given, whatever its variable held before. -/
def Final : FlagValue α → List String → α → Prop
  | scalar _ parse, texts, x => ∃ text, texts.getLast? = some text ∧ parse text = .ok x
  | stringArray, texts, x => x = texts

private theorem setAll_stringArray (x texts : List String) :
    stringArray.setAll true x texts = .ok (x ++ texts) := by
  induction texts generalizing x with
  | nil => simp [setAll]
  | cons text texts ih => simp [setAll, set, ih]

private theorem setAll_scalar {noOptDefVal : Option String} {parse : String → Except String α}
    {texts : List String} {changed : Bool} {x y : α} (hne : texts ≠ [])
    (h : (scalar noOptDefVal parse).setAll changed x texts = .ok y) :
    (scalar noOptDefVal parse).Final texts y := by
  induction texts generalizing changed x with
  | nil => exact absurd rfl hne
  | cons text texts ih =>
    simp only [setAll, set] at h
    cases hp : parse text with
    | error err => simp [hp] at h
    | ok z =>
      simp only [hp] at h
      cases texts with
      | nil =>
        have hzy : z = y := by simpa [setAll] using h
        exact ⟨text, rfl, hzy ▸ hp⟩
      | cons text' texts =>
        obtain ⟨last, hlast, hy⟩ := ih (by simp) h
        exact ⟨last, by simpa using hlast, hy⟩

/-- Texts given in one parse leave nothing of the value before it. -/
theorem final_of_setAll {value : FlagValue α} {texts : List String} {x y : α}
    (hne : texts ≠ []) (h : value.setAll false x texts = .ok y) : value.Final texts y := by
  cases value with
  | scalar noOptDefVal parse => exact setAll_scalar hne h
  | stringArray =>
    cases texts with
    | nil => exact absurd rfl hne
    | cons text texts =>
      have hy : [text] ++ texts = y := by simpa [setAll, set, setAll_stringArray] using h
      exact hy.symm

end FlagValue

def parseBool (s : String) : Except String Bool :=
  if s ∈ ["1", "t", "T", "TRUE", "true", "True"] then .ok true
  else if s ∈ ["0", "f", "F", "FALSE", "false", "False"] then .ok false
  else .error ("strconv.ParseBool: parsing " ++ s.quote ++ ": invalid syntax")

def boolValue : FlagValue Bool := .scalar (some "true") parseBool

def stringValue : FlagValue String := .scalar none .ok

/-- A flag over states `σ`; `set` is told whether the flag has been set before. -/
structure Flag (σ : Type) where
  name : String
  shorthand : Option Char
  noOptDefVal : Option String
  set : Bool → String → σ → Except String σ

/-- A flag set. `AddFlag` panics on a second flag of the same name. -/
structure FlagSet (σ : Type) where
  formal : List (Flag σ)
  nodup : (formal.map Flag.name).Nodup

inductive ParseError where
  | badSyntax (arg : String)
  | helpRequested
  | unknownFlag (name : String)
  | needsArgument (arg : String)
  | unknownShorthand (c : Char) (shorthands : String)
  | shorthandNeedsArgument (c : Char) (shorthands : String)
  | invalidArgument (text name err : String)
  deriving DecidableEq, Repr

/-- The state between two arguments, with the names of the flags set so far. -/
structure Parsed (σ : Type) where
  actual : List String
  state : σ

/-- One argument: `long` carries the text after the first equals sign. -/
inductive Word where
  | positional
  | dashes
  | bad
  | long (name : String) (inline : Option String)
  | short (shorthands : List Char)
  deriving DecidableEq, Repr

def Word.ofString (s : String) : Word :=
  match s.toList with
  | ['-', '-'] => .dashes
  | '-' :: '-' :: '-' :: _ => .bad
  | '-' :: '-' :: '=' :: _ => .bad
  | '-' :: '-' :: cs =>
    let name := String.ofList (cs.takeWhile (· ≠ '='))
    match cs.dropWhile (· ≠ '=') with
    | [] => .long name none
    | _ :: text => .long name (some (String.ofList text))
  | '-' :: c :: cs => .short (c :: cs)
  | _ => .positional

/-- How the parse goes on after one argument; `wants` takes the next one as its text. -/
inductive Next (σ : Type) where
  | positional
  | stop
  | done (p : Parsed σ)
  | wants (flag : Flag σ) (p : Parsed σ) (err : ParseError)

section Parse
variable {σ : Type}

def Parsed.set (p : Parsed σ) (flag : Flag σ) (text : String) : Except ParseError (Parsed σ) :=
  match flag.set (flag.name ∈ p.actual) text p.state with
  | .ok st => .ok ⟨flag.name :: p.actual, st⟩
  | .error err => .error (.invalidArgument text flag.name err)

theorem Parsed.set_eq_ok {p q : Parsed σ} {flag : Flag σ} {text : String}
    (h : p.set flag text = .ok q) : ∃ st, flag.set (flag.name ∈ p.actual) text p.state = .ok st ∧
      q = ⟨flag.name :: p.actual, st⟩ := by
  unfold Parsed.set at h
  cases hset : flag.set (flag.name ∈ p.actual) text p.state with
  | error err => simp [hset] at h
  | ok st =>
    simp only [hset, Except.ok.injEq] at h
    exact ⟨st, rfl, h.symm⟩

namespace FlagSet

def lookup (fs : FlagSet σ) (name : String) : Option (Flag σ) :=
  fs.formal.find? fun flag => flag.name = name

def lookupShorthand (fs : FlagSet σ) (c : Char) : Option (Flag σ) :=
  fs.formal.find? fun flag => flag.shorthand = some c

def parseLongArg (fs : FlagSet σ) (s name : String) (inline : Option String) (p : Parsed σ) :
    Except ParseError (Next σ) :=
  match fs.lookup name with
  | none => .error (if name = "help" then .helpRequested else .unknownFlag name)
  | some flag =>
    match inline.or flag.noOptDefVal with
    | some text => (p.set flag text).map .done
    | none => .ok (.wants flag p (.needsArgument s))

/-- The text after a shorthand and an equals sign; an equals sign alone is none. -/
def shortInline : List Char → Option String
  | '=' :: t :: text => some (String.ofList (t :: text))
  | _ => none

def parseShortArg (fs : FlagSet σ) : List Char → Parsed σ → Except ParseError (Next σ)
  | [], p => .ok (.done p)
  | c :: cs, p =>
    -- flags of `go test` are passed over
    if "test.".toList <+: c :: cs then .ok (.done p)
    else
      match fs.lookupShorthand c with
      | none =>
        .error (if c = 'h' then .helpRequested else .unknownShorthand c (String.ofList (c :: cs)))
      | some flag =>
        match shortInline cs with
        | some text => (p.set flag text).map .done
        | none =>
          match flag.noOptDefVal with
          | some text =>
            match p.set flag text with
            | .ok p' => fs.parseShortArg cs p'
            | .error err => .error err
          | none =>
            match cs with
            | [] => .ok (.wants flag p (.shorthandNeedsArgument c (String.ofList [c])))
            | t :: text => (p.set flag (String.ofList (t :: text))).map .done

def parseArg (fs : FlagSet σ) (s : String) (p : Parsed σ) : Except ParseError (Next σ) :=
  match Word.ofString s with
  | .positional => .ok .positional
  | .dashes => .ok .stop
  | .bad => .error (.badSyntax s)
  | .long name inline => fs.parseLongArg s name inline p
  | .short shorthands => fs.parseShortArg shorthands p

/-- The arguments that are no flags, and the state after all of them. -/
def parseArgs (fs : FlagSet σ) : List String → Parsed σ →
    Except ParseError (List String × Parsed σ)
  | [], p => .ok ([], p)
  | s :: args, p =>
    match fs.parseArg s p with
    | .error err => .error err
    | .ok .positional => (fs.parseArgs args p).map fun (rest, p') => (s :: rest, p')
    | .ok .stop => .ok (args, p)
    | .ok (.done p') => fs.parseArgs args p'
    | .ok (.wants flag p' err) =>
      match args with
      | [] => .error err
      | text :: args =>
        match p'.set flag text with
        | .ok p'' => fs.parseArgs args p''
        | .error err => .error err

/-- `FlagSet.Parse` of a flag set none of whose flags has been set. -/
def parse (fs : FlagSet σ) (args : List String) (st : σ) : Except ParseError (List String × σ) :=
  (fs.parseArgs args ⟨[], st⟩).map fun (rest, p) => (rest, p.state)

end FlagSet

end Parse

end Pflag
