import BromiumCoreUtils.Foundation
import BromiumCoreUtils.Lib.Machine

/-!
# `BRUResourceCleanup`

A cleanup block takes an out-parameter for an error, so it is a function from what the
parameter points to before the call to the answer and what it points to after it.  The one
variable of `runAllCleanupsWithError:` is handed to all the blocks in turn.

Which block it is stays abstract: `B` is a type of blocks, and the state lists the ones that
were executed.  Everything runs on the serial `syncQueue`, so a call is one step.

`unwinds_completely` says what is executed, answered and reported after any number of
additions.
-/

namespace BromiumCoreUtils

open Machine

/-- `BOOL(^)(BRUOutError)`. -/
structure CleanupBlock (B : Type) where
  block : B
  call : Option NSError → Bool × Option NSError

/-- `BRUResourceCleanup`, and the blocks that were executed so far. -/
structure BRUResourceCleanup (B : Type) where
  active : Bool
  cleanupBlocks : List (CleanupBlock B)
  executed : List B

namespace BRUResourceCleanup

variable {B : Type}

/-- `-init`. -/
def init : BRUResourceCleanup B where
  active := true
  cleanupBlocks := []
  executed := []

/-- `-addResourceCleanupBlock:`. -/
def addResourceCleanupBlock (cleanupBlock : CleanupBlock B) (s : BRUResourceCleanup B) :
    Exec Assertion (BRUResourceCleanup B) := do
  assertThat (s.active = true) .cleanupNotActive
  pure { s with cleanupBlocks := s.cleanupBlocks ++ [cleanupBlock] }

/-- `-addResourceNonFallibleCleanupBlock:`. -/
def addResourceNonFallibleCleanupBlock (cleanupBlock : B) (s : BRUResourceCleanup B) :
    Exec Assertion (BRUResourceCleanup B) :=
  s.addResourceCleanupBlock ⟨cleanupBlock, fun error => (true, error)⟩

/-- `-addCleanupBlockForDeletingFileSystemItemAtPath:`, with the error that
`removeItemAtPath:error:` writes when the block runs, if it fails. -/
def addCleanupBlockForDeletingFileSystemItemAtPath (block : B) (failure : Option NSError)
    (s : BRUResourceCleanup B) : Exec Assertion (BRUResourceCleanup B) :=
  s.addResourceCleanupBlock ⟨block, fun error =>
    match failure with
    | some failure => (false, some failure)
    | none => (true, error)⟩

/-- The error of the block of `-addCleanupBlockForClosingFileDescriptor:`. -/
def closingFailed (errno : Int) : NSError where
  domain := NSPOSIXErrorDomain
  code := errno
  userInfo := [(BRUErrorReasonKey, "closing file descriptor failed")]

/-- `-addCleanupBlockForClosingFileDescriptor:`, with what `close` returns when the block runs,
and the `errno` it leaves. -/
def addCleanupBlockForClosingFileDescriptor (block : B) (err errno : Int)
    (s : BRUResourceCleanup B) : Exec Assertion (BRUResourceCleanup B) :=
  s.addResourceCleanupBlock ⟨block, fun error =>
    if err ≠ 0 then (false, some (closingFailed errno)) else (true, error)⟩

/-- The variables of `-runAllCleanupsWithError:`. -/
structure Unwinding (B : Type) where
  success : Bool
  error : Option NSError
  executed : List B

/-- The loop over the `reverseObjectEnumerator`. -/
def runCleanups (s : Unwinding B) : List (CleanupBlock B) → Unwinding B
  | [] => s
  | cleanup :: cleanups =>
    let (succeeded, error) := cleanup.call s.error
    runCleanups
      { success := succeeded && s.success
        error := error
        executed := s.executed ++ [cleanup.block] } cleanups

/-- `-runAllCleanupsWithError:`.  The pointer `outError` may be `NULL`. -/
def runAllCleanupsWithError (outError : Option (Option NSError)) (s : BRUResourceCleanup B) :
    Exec Assertion (Bool × Option (Option NSError) × BRUResourceCleanup B) := do
  assertThat (s.active = true) .cleanupNotActive
  let unwound := runCleanups ⟨true, none, s.executed⟩ s.cleanupBlocks.reverse
  pure (unwound.success, outError.map fun _ => unwound.error,
    { active := false, cleanupBlocks := [], executed := unwound.executed })

/-- `-discardAllCleanups`. -/
def discardAllCleanups (s : BRUResourceCleanup B) : BRUResourceCleanup B :=
  { s with active := false, cleanupBlocks := [] }

/-- The calls of the public methods. -/
inductive Event (B : Type) where
  | addResourceCleanupBlock (cleanupBlock : CleanupBlock B)
  | addResourceNonFallibleCleanupBlock (cleanupBlock : B)
  | addCleanupBlockForDeletingFileSystemItemAtPath (block : B) (failure : Option NSError)
  | addCleanupBlockForClosingFileDescriptor (block : B) (err errno : Int)
  | runAllCleanupsWithError (outError : Option (Option NSError))
  | discardAllCleanups

def step (s : BRUResourceCleanup B) : Event B → Exec Assertion (BRUResourceCleanup B)
  | .addResourceCleanupBlock cleanupBlock => s.addResourceCleanupBlock cleanupBlock
  | .addResourceNonFallibleCleanupBlock cleanupBlock =>
    s.addResourceNonFallibleCleanupBlock cleanupBlock
  | .addCleanupBlockForDeletingFileSystemItemAtPath block failure =>
    s.addCleanupBlockForDeletingFileSystemItemAtPath block failure
  | .addCleanupBlockForClosingFileDescriptor block err errno =>
    s.addCleanupBlockForClosingFileDescriptor block err errno
  | .runAllCleanupsWithError outError => do
    let (_, _, t) ← s.runAllCleanupsWithError outError
    pure t
  | .discardAllCleanups => pure s.discardAllCleanups

/-! ## What the clients add -/

/-- A block that a client adds, with the error it will write if it fails. -/
inductive Addition (B : Type) where
  | fallible (block : B) (ownError : Option NSError)
  | nonFallible (block : B)
  | deleting (block : B) (failure : Option NSError)
  | closing (block : B) (err errno : Int)

namespace Addition

def block : Addition B → B
  | .fallible block _ => block
  | .nonFallible block => block
  | .deleting block _ => block
  | .closing block _ _ => block

/-- The error of a block that fails.  A block that succeeds has none. -/
def ownError : Addition B → Option NSError
  | .fallible _ ownError => ownError
  | .nonFallible _ => none
  | .deleting _ failure => failure
  | .closing _ err errno => if err = 0 then none else some (closingFailed errno)

/-- A block that fails writes its error, and one that succeeds writes nothing. -/
def call (ownError error : Option NSError) : Bool × Option NSError :=
  match ownError with
  | some failure => (false, some failure)
  | none => (true, error)

def event : Addition B → Event B
  | .fallible block ownError => .addResourceCleanupBlock ⟨block, call ownError⟩
  | .nonFallible block => .addResourceNonFallibleCleanupBlock block
  | .deleting block failure => .addCleanupBlockForDeletingFileSystemItemAtPath block failure
  | .closing block err errno => .addCleanupBlockForClosingFileDescriptor block err errno

/-- The block as the object keeps it. -/
def cleanupBlock (addition : Addition B) : CleanupBlock B :=
  ⟨addition.block, call addition.ownError⟩

end Addition

/-- All the blocks were executed, the last one first, and the answer and the error tell how
that went. -/
structure Unwound (additions : List (Addition B)) (outError : Option (Option NSError))
    (success : Bool) (error : Option (Option NSError)) (t : BRUResourceCleanup B) : Prop where
  executed : t.executed = (additions.map Addition.block).reverse
  answer : success = true ↔ ∀ addition ∈ additions, addition.ownError = none
  noError : success = true → error = outError.map fun _ => none
  /-- The block that was added first is the last one to write its error. -/
  firstError : success = false → ∃ before addition after failure,
    additions = before ++ addition :: after ∧ (∀ b ∈ before, b.ownError = none) ∧
      addition.ownError = some failure ∧ error = outError.map fun _ => some failure
  cleanupBlocks : t.cleanupBlocks = []
  active : t.active = false

/-- Whatever is called later executes nothing. -/
def ExecutesNoMore (t : BRUResourceCleanup B) : Prop :=
  ∀ t', Reachable step t t' → t'.executed = t.executed

/-! ## The loop -/

variable {s t : BRUResourceCleanup B}

theorem runCleanups_append (u : Unwinding B) (cleanups cleanups' : List (CleanupBlock B)) :
    runCleanups u (cleanups ++ cleanups') = runCleanups (runCleanups u cleanups) cleanups' := by
  induction cleanups generalizing u with
  | nil => rfl
  | cons cleanup cleanups ih =>
    show runCleanups _ (cleanups ++ cleanups') = runCleanups (runCleanups _ cleanups) cleanups'
    rw [ih]

/-- The block that was added first is executed last, so the error that stays is that of the
first block that fails. -/
theorem runCleanups_reverse (executed : List B) (additions : List (Addition B)) :
    runCleanups ⟨true, none, executed⟩ (additions.map Addition.cleanupBlock).reverse =
      { success := additions.all fun addition => addition.ownError.isNone
        error := additions.findSome? Addition.ownError
        executed := executed ++ (additions.map Addition.block).reverse } := by
  induction additions with
  | nil => simp [runCleanups]
  | cons addition additions ih =>
    rw [List.map_cons, List.reverse_cons, runCleanups_append, ih]
    cases hfailure : addition.ownError with
    | none =>
      simp [runCleanups, Addition.cleanupBlock, Addition.call, hfailure]
    | some failure =>
      simp [runCleanups, Addition.cleanupBlock, Addition.call, hfailure]

/-! ## The runs -/

/-- The block that closes a file descriptor writes its error if `close` fails, and only then. -/
theorem addCleanupBlockForClosingFileDescriptor_eq (block : B) (err errno : Int)
    (s : BRUResourceCleanup B) :
    s.addCleanupBlockForClosingFileDescriptor block err errno =
      s.addResourceCleanupBlock (Addition.closing block err errno).cleanupBlock := by
  unfold addCleanupBlockForClosingFileDescriptor Addition.cleanupBlock Addition.ownError
  by_cases hclosed : err = 0
  · simp only [hclosed, ne_eq, not_true_eq_false, if_false, if_true]
    rfl
  · simp only [hclosed, ne_eq, not_false_eq_true, if_true, if_false]
    rfl

theorem step_event (addition : Addition B) (hactive : s.active = true) :
    s.step addition.event =
      .ok { s with cleanupBlocks := s.cleanupBlocks ++ [addition.cleanupBlock] } := by
  have hadd (cleanupBlock : CleanupBlock B) : s.addResourceCleanupBlock cleanupBlock =
      .ok { s with cleanupBlocks := s.cleanupBlocks ++ [cleanupBlock] } := by
    simp [addResourceCleanupBlock, hactive]
  cases addition with
  | fallible block ownError => exact hadd _
  | nonFallible block => exact hadd _
  | deleting block failure => cases failure <;> exact hadd _
  | closing block err errno =>
    exact (addCleanupBlockForClosingFileDescriptor_eq block err errno s).trans (hadd _)

/-- An active object takes every block. -/
theorem run_additions (additions : List (Addition B)) (hactive : s.active = true) :
    run step s (additions.map Addition.event) =
      .ok { s with
        cleanupBlocks := s.cleanupBlocks ++ additions.map Addition.cleanupBlock } := by
  induction additions generalizing s with
  | nil => simp
  | cons addition additions ih =>
    rw [List.map_cons, run_cons, step_event addition hactive]
    have hrest := ih (s := { s with cleanupBlocks := s.cleanupBlocks ++ [addition.cleanupBlock] })
      hactive
    refine hrest.trans ?_
    simp

/-- An object that is no longer active has nothing to execute. -/
theorem executesNoMore (hactive : t.active = false) : t.ExecutesNoMore := by
  intro t' hreach
  have hinv : t'.active = false ∧ t'.executed = t.executed := by
    refine hreach.invariant (I := fun m => m.active = false ∧ m.executed = t.executed)
      ⟨hactive, rfl⟩ ?_
    intro m e n _ hm hstep
    cases e with
    | discardAllCleanups =>
      obtain rfl := pure_eq_ok.mp hstep
      exact ⟨rfl, hm.2⟩
    | addResourceCleanupBlock | addResourceNonFallibleCleanupBlock | runAllCleanupsWithError
    | addCleanupBlockForDeletingFileSystemItemAtPath | addCleanupBlockForClosingFileDescriptor =>
      simp [step, addResourceCleanupBlock, addResourceNonFallibleCleanupBlock,
        addCleanupBlockForDeletingFileSystemItemAtPath, addCleanupBlockForClosingFileDescriptor,
        runAllCleanupsWithError, hm.1] at hstep
  exact hinv.2

theorem unwound_run (additions : List (Addition B)) (outError : Option (Option NSError)) :
    Unwound additions outError (additions.all fun addition => addition.ownError.isNone)
      (outError.map fun _ => additions.findSome? Addition.ownError)
      { active := false
        cleanupBlocks := []
        executed := (additions.map Addition.block).reverse } where
  executed := rfl
  answer := by simp
  noError hsuccess := by
    have hnone : additions.findSome? Addition.ownError = none := by
      rw [List.findSome?_eq_none_iff]
      simpa using hsuccess
    rw [hnone]
  firstError hsuccess := by
    cases hfirst : additions.findSome? Addition.ownError with
    | none =>
      rw [List.findSome?_eq_none_iff] at hfirst
      have hall : (additions.all fun addition => addition.ownError.isNone) = true := by
        simpa using hfirst
      rw [hall] at hsuccess
      cases hsuccess
    | some failure =>
      obtain ⟨before, addition, after, hadditions, hfailure, hbefore⟩ :=
        List.findSome?_eq_some_iff.mp hfirst
      exact ⟨before, addition, after, failure, hadditions, hbefore, hfailure, rfl⟩
  cleanupBlocks := rfl
  active := rfl

/-- However many blocks were added, and whatever they answer: a run executes them all and says
how it went, and a discard executes none. -/
theorem unwinds_completely (additions : List (Addition B)) (outError : Option (Option NSError)) :
    ∃ s, run step init (additions.map Addition.event) = .ok s ∧
      (∃ success error t, s.runAllCleanupsWithError outError = .ok (success, error, t) ∧
        Unwound additions outError success error t ∧ t.ExecutesNoMore) ∧
      s.discardAllCleanups.executed = [] ∧ s.discardAllCleanups.ExecutesNoMore := by
  refine ⟨_, run_additions additions rfl, ?_, rfl, executesNoMore rfl⟩
  refine ⟨_, _, _, rfl, ?_, executesNoMore rfl⟩
  show Unwound additions outError
    (runCleanups ⟨true, none, []⟩ (additions.map Addition.cleanupBlock).reverse).success _ _
  simp only [init, List.nil_append, runCleanups_reverse]
  exact unwound_run additions outError

end BRUResourceCleanup

end BromiumCoreUtils
