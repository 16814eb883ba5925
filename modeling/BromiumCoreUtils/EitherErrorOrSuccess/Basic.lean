import BromiumCoreUtils.Foundation
import BromiumCoreUtils.Lib.Machine

/-!
# `BRUEitherErrorOrSuccess`

The outcome of a computation: an object if it was successful, and an error if not.  The assertions
of the initialiser make sure that an instance has one of the two and not the other, so the
structure has this as fields.

The constructors that take all three arguments pass on only what the outcome needs.  They are
stricter in their documentation than in their code: an error beside a success is dropped.
-/

namespace BromiumCoreUtils

open Machine

/-- The assertions of `-initWithSuccess:object:error:`. -/
inductive OutcomeAssertion where
  /-- `... successful BRUEitherErrorOrSuccess without success object`. -/
  | successWithoutObject
  /-- `... successful BRUEitherErrorOrSuccess with non-nil error object`. -/
  | successWithError
  /-- `... errorneous BRUEitherErrorOrSuccess with non-nil success object`. -/
  | errorWithObject
  /-- `... errornesous BRUEitherErrorOrSuccess with nil error object`. -/
  | errorWithoutError
deriving DecidableEq, Repr

@[ext] structure BRUEitherErrorOrSuccess (T : Type) where
  success : Bool
  object : Option T
  error : Option NSError
  isSome_object : object.isSome = success
  isSome_error : error.isSome = !success
deriving DecidableEq, Repr

namespace BRUEitherErrorOrSuccess

variable {T : Type}

/-- A successful outcome. -/
def ofObject (object : T) : BRUEitherErrorOrSuccess T :=
  ⟨true, some object, none, rfl, rfl⟩

/-- A failed outcome. -/
def ofError (error : NSError) : BRUEitherErrorOrSuccess T :=
  ⟨false, none, some error, rfl, rfl⟩

/-- `-initWithSuccess:object:error:`. -/
def initWithSuccess (success : Bool) (object : Option T) (error : Option NSError) :
    Exec OutcomeAssertion (BRUEitherErrorOrSuccess T) :=
  match success, object, error with
  | true, none, _ => .error (.failed .successWithoutObject)
  | true, some _, some _ => .error (.failed .successWithError)
  | true, some object, none => pure (ofObject object)
  | false, some _, _ => .error (.failed .errorWithObject)
  | false, none, none => .error (.failed .errorWithoutError)
  | false, none, some error => pure (ofError error)

/-- `+newWithSuccessObject:`. -/
def newWithSuccessObject (obj : Option T) : Exec OutcomeAssertion (BRUEitherErrorOrSuccess T) :=
  initWithSuccess true obj none

/-- `+newWithSuccess`, with `[NSNull null]`. -/
def newWithSuccess (null : T) : Exec OutcomeAssertion (BRUEitherErrorOrSuccess T) :=
  initWithSuccess true (some null) none

/-- `+newWithError:`. -/
def newWithError (error : Option NSError) : Exec OutcomeAssertion (BRUEitherErrorOrSuccess T) :=
  initWithSuccess false none error

/-- `+newWithComputationSuccess:successObject:error:`. -/
def newWithComputationSuccessObject (success : Bool) (obj : Option T) (error : Option NSError) :
    Exec OutcomeAssertion (BRUEitherErrorOrSuccess T) :=
  if success then newWithSuccessObject obj else newWithError error

/-- `+newWithComputationSuccess:error:`. -/
def newWithComputationSuccess (null : T) (success : Bool) (error : Option NSError) :
    Exec OutcomeAssertion (BRUEitherErrorOrSuccess T) :=
  newWithComputationSuccessObject success (some null) error

/-- `+newWithSuccessObject:error:`. -/
def newWithSuccessObjectOrError (obj : Option T) (error : Option NSError) :
    Exec OutcomeAssertion (BRUEitherErrorOrSuccess T) :=
  if obj.isSome then newWithSuccessObject obj else newWithError error

/-- `-returnComputationSuccessAndSetError:`, with what the pointer points to, if it is not `NULL`,
before and after the call. -/
def returnComputationSuccessAndSetError (error : Option (Option NSError))
    (outcome : BRUEitherErrorOrSuccess T) : Bool × Option (Option NSError) :=
  if outcome.success then (true, error) else (false, error.map fun _ => outcome.error)

/-- `-returnComputationSuccessObjectAndSetError:`. -/
def returnComputationSuccessObjectAndSetError (error : Option (Option NSError))
    (outcome : BRUEitherErrorOrSuccess T) : Option T × Option (Option NSError) :=
  if outcome.success then (outcome.object, error) else (none, error.map fun _ => outcome.error)

/-- `isEqualTo:` between two properties. -/
def isEqualTo {U : Type} (eq : U → U → Bool) : Option U → Option U → Bool
  | some a, some b => eq a b
  | _, _ => false

/-- `-isEqual:` with another outcome. -/
def isEqual (objectEq : T → T → Bool) (outcome typedObject : BRUEitherErrorOrSuccess T) : Bool :=
  outcome.success == typedObject.success &&
    ((outcome.success && isEqualTo objectEq outcome.object typedObject.object) ||
      (!outcome.success && isEqualTo (· == ·) outcome.error typedObject.error))

/-- `-hash`. -/
def hash (objectHash : T → Nat) (errorHash : NSError → Nat) (outcome : BRUEitherErrorOrSuccess T) :
    Nat :=
  if outcome.success then (outcome.object.map objectHash).getD 0
  else (outcome.error.map errorHash).getD 0

/-! ## There are two kinds of outcomes -/

theorem cases_outcome (outcome : BRUEitherErrorOrSuccess T) :
    (∃ object, outcome = ofObject object) ∨ ∃ error, outcome = ofError error := by
  obtain ⟨success, object, error, hobject, herror⟩ := outcome
  cases success with
  | true =>
    obtain ⟨object, rfl⟩ := Option.isSome_iff_exists.mp hobject
    obtain rfl : error = none := by simpa using herror
    exact Or.inl ⟨object, rfl⟩
  | false =>
    obtain ⟨error, rfl⟩ := Option.isSome_iff_exists.mp herror
    obtain rfl : object = none := by simpa using hobject
    exact Or.inr ⟨error, rfl⟩

variable {success : Bool} {obj : Option T} {error : Option NSError}
variable {outcome : BRUEitherErrorOrSuccess T}

/-- A success needs its object, and a failure its error.  The other argument does not matter. -/
theorem newWithComputationSuccessObject_eq_ok :
    newWithComputationSuccessObject success obj error = .ok outcome ↔
      (success = true ∧ ∃ object, obj = some object ∧ ofObject object = outcome) ∨
        (success = false ∧ ∃ e, error = some e ∧ ofError e = outcome) := by
  cases success <;> cases obj <;> cases error <;>
    simp [newWithComputationSuccessObject, newWithSuccessObject, newWithError, initWithSuccess,
      pure, Except.pure]

theorem newWithSuccessObjectOrError_eq_ok :
    newWithSuccessObjectOrError obj error = .ok outcome ↔
      (∃ object, obj = some object ∧ ofObject object = outcome) ∨
        (obj = none ∧ ∃ e, error = some e ∧ ofError e = outcome) := by
  cases obj <;> cases error <;>
    simp [newWithSuccessObjectOrError, newWithSuccessObject, newWithError, initWithSuccess,
      pure, Except.pure]

/-- What a method returns by the convention of Cocoa makes the same outcome again. -/
theorem newWithSuccessObjectOrError_returned (outcome : BRUEitherErrorOrSuccess T) :
    newWithSuccessObjectOrError (outcome.returnComputationSuccessObjectAndSetError (some none)).1
        ((outcome.returnComputationSuccessObjectAndSetError (some none)).2.getD none) =
      .ok outcome := by
  rcases outcome.cases_outcome with ⟨object, rfl⟩ | ⟨error, rfl⟩
  · rfl
  · rfl

/-! ## Equality -/

section Equality

variable {objectEq : T → T → Bool} {a b c : BRUEitherErrorOrSuccess T}

@[simp] theorem isEqual_ofObject {x y : T} :
    isEqual objectEq (ofObject x) (ofObject y) = objectEq x y := by
  simp [isEqual, isEqualTo, ofObject]

@[simp] theorem isEqual_ofError {x y : NSError} :
    isEqual objectEq (ofError x) (ofError y : BRUEitherErrorOrSuccess T) = (x == y) := by
  simp [isEqual, isEqualTo, ofError]

/-- Equal outcomes are of the same kind. -/
theorem isEqual_cases (h : a.isEqual objectEq b = true) :
    (∃ x y, a = ofObject x ∧ b = ofObject y ∧ objectEq x y = true) ∨
      ∃ e, a = ofError e ∧ b = ofError e := by
  rcases a.cases_outcome with ⟨x, rfl⟩ | ⟨x, rfl⟩
  · rcases b.cases_outcome with ⟨y, rfl⟩ | ⟨y, rfl⟩
    · rw [isEqual_ofObject] at h
      exact Or.inl ⟨x, y, rfl, rfl, h⟩
    · simp [isEqual, ofObject, ofError] at h
  · rcases b.cases_outcome with ⟨y, rfl⟩ | ⟨y, rfl⟩
    · simp [isEqual, ofObject, ofError] at h
    · rw [isEqual_ofError, beq_iff_eq] at h
      exact Or.inr ⟨x, rfl, by rw [h]⟩

/-- If the objects are compared by an equivalence relation, so are the outcomes. -/
theorem isEqual_equivalence (heq : Equivalence fun x y => objectEq x y = true) :
    Equivalence fun a b : BRUEitherErrorOrSuccess T => a.isEqual objectEq b = true where
  refl a := by
    rcases a.cases_outcome with ⟨x, rfl⟩ | ⟨x, rfl⟩
    · rw [isEqual_ofObject]
      exact heq.refl x
    · simp
  symm h := by
    rcases isEqual_cases h with ⟨x, y, rfl, rfl, hxy⟩ | ⟨e, rfl, rfl⟩
    · rw [isEqual_ofObject]
      exact heq.symm hxy
    · simp
  trans h h' := by
    rcases isEqual_cases h with ⟨x, y, rfl, rfl, hxy⟩ | ⟨e, rfl, rfl⟩
    · rcases isEqual_cases h' with ⟨y', z, hy, rfl, hyz⟩ | ⟨e, hy, _⟩
      · obtain rfl : y = y' := by simpa [ofObject] using hy
        rw [isEqual_ofObject]
        exact heq.trans hxy hyz
      · simp [ofObject, ofError] at hy
    · exact h'

/-- Equal outcomes have one hash, if equal objects do. -/
theorem hash_eq_of_isEqual {objectHash : T → Nat} (errorHash : NSError → Nat)
    (hhash : ∀ x y, objectEq x y = true → objectHash x = objectHash y)
    (h : a.isEqual objectEq b = true) :
    a.hash objectHash errorHash = b.hash objectHash errorHash := by
  rcases isEqual_cases h with ⟨x, y, rfl, rfl, hxy⟩ | ⟨e, rfl, rfl⟩
  · exact hhash x y hxy
  · rfl

end Equality

end BRUEitherErrorOrSuccess

end BromiumCoreUtils
