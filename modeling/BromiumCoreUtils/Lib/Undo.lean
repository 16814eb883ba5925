import Mathlib.Data.List.Basic

/-!
# Undoing steps in reverse order

A step that changes a world leaves a block behind that takes the change back.  The block works in
the world right after its step; it says nothing about other worlds.  `Trail` collects such blocks
along the steps that were made, and `Trail.runBlocks` says that they lead back to the start if the
last one runs first.
-/

namespace Undo

/-- A block, with the error of a block that fails. -/
abbrev Block (W E : Type) := W → W × Option E

variable {W E : Type}

/-- Run the blocks, the first one first.  They answer in this order. -/
def runBlocks : List (Block W E) → W → W × List (Option E)
  | [], w => (w, [])
  | block :: blocks, w =>
    let (w', answer) := block w
    let (w'', answers) := runBlocks blocks w'
    (w'', answer :: answers)

/-- The blocks that were left behind on the way from `start`. -/
inductive Trail (start : W) : List (Block W E) → W → Prop
  | nil : Trail start [] start
  | snoc {blocks : List (Block W E)} {block : Block W E} {w w' : W} (h : Trail start blocks w)
      (hblock : block w' = (w, none)) : Trail start (blocks ++ [block]) w'

@[simp] theorem length_runBlocks (blocks : List (Block W E)) (w : W) :
    (runBlocks blocks w).2.length = blocks.length := by
  induction blocks generalizing w with
  | nil => rfl
  | cons block blocks ih => simp [runBlocks, ih]

/-- The trail of the first steps and that of the steps after them. -/
theorem Trail.append {start m w : W} {blocks blocks' : List (Block W E)}
    (h : Trail start blocks m) (h' : Trail m blocks' w) : Trail start (blocks ++ blocks') w := by
  induction h' with
  | nil =>
    rw [List.append_nil]
    exact h
  | snoc _ hblock ih =>
    rw [← List.append_assoc]
    exact .snoc ih hblock

/-- In reverse order every block finds the world that it was made for. -/
theorem Trail.runBlocks {start w : W} {blocks : List (Block W E)} (h : Trail start blocks w) :
    runBlocks blocks.reverse w = (start, List.replicate blocks.length none) := by
  induction h with
  | nil => rfl
  | snoc _ hblock ih =>
    rw [List.reverse_append, List.reverse_singleton, List.singleton_append, Undo.runBlocks, hblock]
    simp only [ih, List.length_append, List.length_singleton, List.replicate_succ]

end Undo
