import Mathlib.Data.List.ReduceOption

/-! Go errors as the controllers build and classify them: API statuses, `fmt.Errorf` with
and without `%w`, `errors.Join`, and the aggregate of `k8s.io/apimachinery`. -/
namespace FrpProvisioner

/-- `metav1.StatusReason`; `other` is any reason without a constant of its own. -/
inductive StatusReason where
  | unknown | unauthorized | forbidden | notFound | alreadyExists | conflict | gone | invalid
  | serverTimeout | timeout | tooManyRequests | badRequest | methodNotAllowed | notAcceptable
  | requestEntityTooLarge | unsupportedMediaType | internalError | expired | serviceUnavailable
  | other (reason : String)
  deriving DecidableEq, Repr

def StatusReason.known : StatusReason → Bool
  | .unknown | .other _ => false
  | _ => true

structure Status where
  reason : StatusReason
  code : ℕ
  message : String
  deriving DecidableEq, Repr

inductive GoError where
  | status (s : Status)
  /-- `errors.New`, and `fmt.Errorf` without `%w`. -/
  | text (message : String)
  /-- `fmt.Errorf` with `%w`; the message already contains the text of `inner`. -/
  | wrap (message : String) (inner : GoError)
  | aggregate (errs : List GoError)
  | join (errs : List GoError)

namespace GoError

/-- `aggregate.Error` lists each message once, in the order of first occurrence. -/
def renderAggregate (messages : List String) : String :=
  match messages.eraseDups with
  | [m] => m
  | ms => "[" ++ ", ".intercalate ms ++ "]"

mutual
def messages : GoError → List String
  | status s => [s.message]
  | text m => [m]
  | wrap m _ => [m]
  | aggregate errs => messagesAll errs
  | join errs => ["\n".intercalate (errors errs)]
def messagesAll : List GoError → List String
  | [] => []
  | e :: es => messages e ++ messagesAll es
def error : GoError → String
  | status s => s.message
  | text m => m
  | wrap m _ => m
  | aggregate errs =>
    match errors errs with
    | [m] => m
    | _ => renderAggregate (messagesAll errs)
  | join errs => "\n".intercalate (errors errs)
def errors : List GoError → List String
  | [] => []
  | e :: es => error e :: errors es
end

mutual
/-- `errors.As` into an `APIStatus`. Aggregates do not unwrap, joined errors do. -/
def asStatus : GoError → Option Status
  | status s => some s
  | text _ => none
  | wrap _ inner => asStatus inner
  | aggregate _ => none
  | join errs => asStatusAny errs
def asStatusAny : List GoError → Option Status
  | [] => none
  | e :: es => (asStatus e).or (asStatusAny es)
end

mutual
/-- The errors that `errors.Join` put together, in their order. -/
def findings : GoError → List GoError
  | status s => [status s]
  | text m => [text m]
  | wrap m inner => [wrap m inner]
  | aggregate errs => [aggregate errs]
  | join errs => findingsAll errs
def findingsAll : List GoError → List GoError
  | [] => []
  | e :: es => findings e ++ findingsAll es
end

def isNotFound (err : GoError) : Bool :=
  match err.asStatus with
  | some s => s.reason = .notFound || (!s.reason.known && s.code = 404)
  | none => false

@[simp] theorem isNotFound_text (m : String) : (text m).isNotFound = false := rfl

end GoError

/-- `utilerrors.NewAggregate`; a nil error is `none`. -/
def newAggregate (errlist : List (Option GoError)) : Option GoError :=
  match errlist.reduceOption with
  | [] => none
  | errs => some (.aggregate errs)

private theorem reduceOption_eq_nil {errlist : List (Option GoError)} :
    errlist.reduceOption = [] ↔ ∀ e ∈ errlist, e = none := by
  simp only [List.reduceOption, List.filterMap_eq_nil_iff, id]

theorem newAggregate_map_some {errs : List GoError} (h : errs ≠ []) :
    newAggregate (errs.map some) = some (.aggregate errs) := by
  have hr : (errs.map some).reduceOption = errs := by simp [List.reduceOption]
  unfold newAggregate
  rw [hr]
  cases errs with
  | nil => exact absurd rfl h
  | cons e es => rfl

theorem newAggregate_eq_none {errlist : List (Option GoError)} :
    newAggregate errlist = none ↔ ∀ e ∈ errlist, e = none := by
  rw [← reduceOption_eq_nil]
  unfold newAggregate
  split <;> simp_all

/-- `errors.Join`: nil when every argument is. -/
def errorsJoin (errs : List (Option GoError)) : Option GoError :=
  match errs.reduceOption with
  | [] => none
  | errs => some (.join errs)

def joinCheck (errs check : Option GoError) : Option GoError :=
  match check with
  | some err => errorsJoin [errs, some err]
  | none => errs

def joinChecks (checks : List (Option GoError)) : Option GoError := checks.foldl joinCheck none

/-- What a returned error reports; nil reports nothing. -/
def found (err : Option GoError) : List GoError := err.elim [] GoError.findings

theorem found_errorsJoin (err e : Option GoError) :
    found (errorsJoin [err, e]) = found err ++ found e := by
  cases err <;> cases e <;>
    simp [found, errorsJoin, List.reduceOption, GoError.findings, GoError.findingsAll]

theorem errorsJoin_eq_none {errs : List (Option GoError)} :
    errorsJoin errs = none ↔ ∀ e ∈ errs, e = none := by
  rw [← reduceOption_eq_nil]
  unfold errorsJoin
  split <;> simp_all

theorem joinCheck_eq_none {errs check : Option GoError} :
    joinCheck errs check = none ↔ errs = none ∧ check = none := by
  cases check with
  | none => simp [joinCheck]
  | some err => simp [joinCheck, errorsJoin_eq_none]

theorem joinChecks_eq_none {checks : List (Option GoError)} :
    joinChecks checks = none ↔ ∀ c ∈ checks, c = none := by
  suffices h : ∀ errs, checks.foldl joinCheck errs = none ↔
      errs = none ∧ ∀ c ∈ checks, c = none from (h none).trans (by simp)
  induction checks with
  | nil => simp
  | cons c checks ih =>
    intro errs
    rw [List.foldl_cons, ih, joinCheck_eq_none, List.forall_mem_cons, and_assoc]

end FrpProvisioner
