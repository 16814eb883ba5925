import Mathlib.Algebra.Group.Int.Defs
import Mathlib.Logic.Function.Basic

/-!
# Descriptor tables

The open descriptors of a process, over any type of open files.  A descriptor is
an `Int`, as in C, and a negative one is never open.

The calls do what POSIX says they do on any argument: `dup2` of a descriptor that
is not open fails and changes nothing, and so does `close` of one.  The simp
lemmas say what each call does to each descriptor.
-/

/-- The open file of each open descriptor. -/
structure DescriptorTable (F : Type) where
  file : Int → Option F
  negative : ∀ fd < 0, file fd = none

namespace DescriptorTable

variable {F : Type}

/-- `dup2`, onto a descriptor that exists. -/
def dup2 (t : DescriptorTable F) (fd : Int) (fd2 : Nat) : DescriptorTable F where
  file := if (t.file fd).isSome then Function.update t.file fd2 (t.file fd) else t.file
  negative := by
    intro i hi
    split
    · rw [Function.update_of_ne (by omega)]
      exact t.negative i hi
    · exact t.negative i hi

/-- `close`. -/
def close (t : DescriptorTable F) (fd : Int) : DescriptorTable F where
  file := Function.update t.file fd none
  negative := by
    intro i hi
    by_cases h : i = fd
    · rw [h, Function.update_self]
    · rw [Function.update_of_ne h]
      exact t.negative i hi

/-- `close` on each of them. -/
def closeAll (t : DescriptorTable F) (fds : List Int) : DescriptorTable F :=
  fds.foldl close t

variable {t : DescriptorTable F} {fd fd2 i : Int}

@[simp] theorem close_self : (t.close fd).file fd = none := by
  simp [close]

@[simp] theorem close_other (h : i ≠ fd) : (t.close fd).file i = t.file i := by
  simp [close, h]

/-- A `dup2` that succeeds. -/
theorem dup2_self (h : (t.file fd).isSome = true) (n : Nat) :
    (t.dup2 fd n).file n = t.file fd := by
  simp [dup2, h]

@[simp] theorem dup2_other {n : Nat} (h : i ≠ n) : (t.dup2 fd n).file i = t.file i := by
  simp only [dup2]
  split
  · rw [Function.update_of_ne h]
  · rfl

/-- The descriptors that are closed, and the others. -/
theorem file_closeAll (fds : List Int) (t : DescriptorTable F) (i : Int) :
    (t.closeAll fds).file i = if i ∈ fds then none else t.file i := by
  induction fds generalizing t with
  | nil => simp [closeAll]
  | cons fd fds ih =>
    have hcons : t.closeAll (fd :: fds) = (t.close fd).closeAll fds := rfl
    rw [hcons, ih]
    by_cases hi : i = fd
    · simp [hi]
    · simp [hi]

end DescriptorTable
