import Mathlib.Data.Finset.Erase
import Mathlib.Data.Finset.Insert

/-!
# Pipes

A pipe with the messages that are in it and the parties that hold its two ends.
A party may hold both ends, as after a `fork`, and closes them one by one.  A
`read` of an empty pipe waits as long as a party can still write, and is at the
end of the file after that.  A `write` to a pipe that nobody can read from
fails.

Messages are delivered whole, and the module is independent of what they are.
-/

/-- What a `read` finds. -/
inductive Reading (M : Type) where
  | message (m : M)
  | endOfFile
  /-- There is nothing to read yet. -/
  | blocked
deriving DecidableEq, Repr

/-- A pipe between parties of type `P`, the oldest message first. -/
structure Pipe (P M : Type) where
  queue : List M
  readers : Finset P
  writers : Finset P
deriving DecidableEq

namespace Pipe

variable {P M : Type}

def put (m : M) (p : Pipe P M) : Pipe P M :=
  { p with queue := p.queue ++ [m] }

/-- The pipe after a `read`. -/
def afterReading (p : Pipe P M) : Pipe P M :=
  { p with queue := p.queue.tail }

@[simp] theorem queue_put (m : M) (p : Pipe P M) : (p.put m).queue = p.queue ++ [m] := rfl

@[simp] theorem readers_put (m : M) (p : Pipe P M) : (p.put m).readers = p.readers := rfl

@[simp] theorem writers_put (m : M) (p : Pipe P M) : (p.put m).writers = p.writers := rfl

@[simp] theorem readers_afterReading (p : Pipe P M) :
    p.afterReading.readers = p.readers := rfl

@[simp] theorem writers_afterReading (p : Pipe P M) :
    p.afterReading.writers = p.writers := rfl

variable [DecidableEq P]

def closeReader (party : P) (p : Pipe P M) : Pipe P M :=
  { p with readers := p.readers.erase party }

def closeWriter (party : P) (p : Pipe P M) : Pipe P M :=
  { p with writers := p.writers.erase party }

/-- A process that ends closes what it holds. -/
def closeBoth (party : P) (p : Pipe P M) : Pipe P M :=
  (p.closeReader party).closeWriter party

/-- A `write`.  There is no answer when the pipe is broken. -/
def write (m : M) (p : Pipe P M) : Option (Pipe P M) :=
  if p.readers = ∅ then none else some (p.put m)

def reading (p : Pipe P M) : Reading M :=
  match p.queue with
  | m :: _ => .message m
  | [] => if p.writers = ∅ then .endOfFile else .blocked

@[simp] theorem readers_closeReader (party : P) (p : Pipe P M) :
    (p.closeReader party).readers = p.readers.erase party := rfl

@[simp] theorem writers_closeReader (party : P) (p : Pipe P M) :
    (p.closeReader party).writers = p.writers := rfl

@[simp] theorem readers_closeWriter (party : P) (p : Pipe P M) :
    (p.closeWriter party).readers = p.readers := rfl

@[simp] theorem writers_closeWriter (party : P) (p : Pipe P M) :
    (p.closeWriter party).writers = p.writers.erase party := rfl

@[simp] theorem readers_closeBoth (party : P) (p : Pipe P M) :
    (p.closeBoth party).readers = p.readers.erase party := rfl

@[simp] theorem writers_closeBoth (party : P) (p : Pipe P M) :
    (p.closeBoth party).writers = p.writers.erase party := rfl

/-- A `write` succeeds as long as somebody can read. -/
theorem write_of_mem {m : M} {p : Pipe P M} {party : P} (h : party ∈ p.readers) :
    p.write m = some (p.put m) :=
  if_neg (Finset.nonempty_iff_ne_empty.mp ⟨party, h⟩)

theorem write_eq_none {m : M} {p : Pipe P M} (h : p.write m = none) (party : P) :
    party ∉ p.readers := by
  intro hmem
  rw [write_of_mem hmem] at h
  cases h

theorem write_eq_some {m : M} {p q : Pipe P M} (h : p.write m = some q) : q = p.put m := by
  unfold write at h
  split at h
  · cases h
  · exact (Option.some.inj h).symm

theorem reading_eq_message {p : Pipe P M} {m : M} (h : p.reading = .message m) :
    m ∈ p.queue := by
  unfold reading at h
  split at h
  · rename_i hqueue
    injection h with heq
    rw [hqueue, heq]
    exact List.mem_cons_self
  · split at h <;> cases h

/-- The end of the file is read only when nothing is left and nobody can
write. -/
theorem reading_eq_endOfFile {p : Pipe P M} (h : p.reading = .endOfFile) :
    p.queue = [] ∧ ∀ party, party ∉ p.writers := by
  unfold reading at h
  split at h
  · cases h
  · rename_i hqueue
    refine ⟨hqueue, ?_⟩
    split at h
    · rename_i hwriters
      rw [hwriters]
      exact Finset.notMem_empty
    · cases h

/-- A `read` waits only when nothing is there and somebody can still write. -/
theorem reading_eq_blocked {p : Pipe P M} (h : p.reading = .blocked) :
    p.queue = [] ∧ ∃ party, party ∈ p.writers := by
  unfold reading at h
  split at h
  · cases h
  · rename_i hqueue
    refine ⟨hqueue, ?_⟩
    split at h
    · cases h
    · rename_i hwriters
      exact Finset.nonempty_iff_ne_empty.mpr hwriters

end Pipe
