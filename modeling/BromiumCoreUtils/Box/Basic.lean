/-!
# `BRUConcurrentBox`

A box holds one value or none.  Every method holds the lock of the condition
while it looks at the value or changes it, so a method is one or more sections
that nothing interrupts.  The functions here are the sections that change the
value; a method that has to wait first is given the section that ends its wait.
-/

namespace BromiumCoreUtils

/-- `BRUConcurrentBox`. -/
structure BRUConcurrentBox (T : Type) where
  value : Option T
deriving DecidableEq, Repr

namespace BRUConcurrentBox

variable {T : Type}

/-- `+emptyBox`. -/
def emptyBox : BRUConcurrentBox T where
  value := none

/-- `-take`, with the value that it returns.  It waits as long as there is
none. -/
def take (box : BRUConcurrentBox T) : Option (T × BRUConcurrentBox T) :=
  match box.value with
  | none => none
  | some value => some (value, { value := none })

/-- `-trySwapWithValue:`, with the value that it returns. -/
def trySwapWithValue (newValue : T) (box : BRUConcurrentBox T) :
    Option T × BRUConcurrentBox T :=
  (box.value, { value := some newValue })

theorem take_eq_some {box box' : BRUConcurrentBox T} {value : T} :
    box.take = some (value, box') ↔ box.value = some value ∧ box' = emptyBox := by
  unfold take
  cases box.value <;> simp [emptyBox, eq_comm]

end BRUConcurrentBox

end BromiumCoreUtils
