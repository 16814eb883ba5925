import Mathlib.Logic.Function.Basic

/-!
# Heaps

The blocks that `malloc` has handed out and `free` has not taken back, over any type of
contents.  An address is handed out once, so what is said here of a block that was freed twice
or used after its end is never hidden by a later block at its place.

The calls fail on an address that has no block.  The simp lemmas say what each call does to each
address.
-/

/-- What C leaves undefined. -/
inductive HeapFault where
  | invalidAccess
  | invalidFree
deriving DecidableEq, Repr

/-- The content of each block. -/
structure Heap (B : Type) where
  blocks : Nat → Option B
  next : Nat
  fresh : ∀ a, next ≤ a → blocks a = none

namespace Heap

variable {B : Type}

/-- `malloc`, of a block with this content at `h.next`. -/
def malloc (h : Heap B) (content : B) : Heap B where
  blocks := Function.update h.blocks h.next (some content)
  next := h.next + 1
  fresh := by
    intro a ha
    rw [Function.update_of_ne (by omega)]
    exact h.fresh a (by omega)

/-- The block of an address. -/
def load (h : Heap B) (a : Nat) : Except HeapFault B :=
  match h.blocks a with
  | some content => .ok content
  | none => .error .invalidAccess

theorem lt_next {h : Heap B} {a : Nat} {content : B} (hblock : h.blocks a = some content) :
    a < h.next := by
  refine Nat.lt_of_not_le ?_
  intro hle
  rw [h.fresh a hle] at hblock
  cases hblock

/-- The block gets another content, or none. -/
def update (h : Heap B) (a : Nat) (content : Option B) (ha : a < h.next) : Heap B where
  blocks := Function.update h.blocks a content
  next := h.next
  fresh := by
    intro a' ha'
    rw [Function.update_of_ne (by omega)]
    exact h.fresh a' ha'

def store (h : Heap B) (a : Nat) (content : B) : Except HeapFault (Heap B) :=
  if ha : a < h.next then
    if (h.blocks a).isSome then .ok (h.update a (some content) ha) else .error .invalidAccess
  else .error .invalidAccess

/-- `free`. -/
def free (h : Heap B) (a : Nat) : Except HeapFault (Heap B) :=
  if ha : a < h.next then
    if (h.blocks a).isSome then .ok (h.update a none ha) else .error .invalidFree
  else .error .invalidFree

variable {h : Heap B} {a a' : Nat} {content content' : B}

@[simp] theorem blocks_malloc_self : (h.malloc content).blocks h.next = some content := by
  simp [malloc]

@[simp] theorem blocks_malloc_of_ne (hne : a ≠ h.next) :
    (h.malloc content).blocks a = h.blocks a := by
  simp [malloc, hne]

theorem load_eq_ok (hblock : h.blocks a = some content) : h.load a = .ok content := by
  simp [load, hblock]

/-- A block that is there can be written. -/
theorem exists_store (hblock : h.blocks a = some content) (content' : B) :
    ∃ h', h.store a content' = .ok h' ∧
      h'.blocks = Function.update h.blocks a (some content') ∧ h'.next = h.next := by
  refine ⟨h.update a (some content') (lt_next hblock), ?_, rfl, rfl⟩
  simp [store, lt_next hblock, hblock]

/-- A block that is there can be freed. -/
theorem exists_free (hblock : h.blocks a = some content) :
    ∃ h', h.free a = .ok h' ∧ h'.blocks = Function.update h.blocks a none ∧
      h'.next = h.next := by
  refine ⟨h.update a none (lt_next hblock), ?_, rfl, rfl⟩
  simp [free, lt_next hblock, hblock]

end Heap
