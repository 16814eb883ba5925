import BromiumCoreUtils.Foundation
import BromiumCoreUtils.Lib.Machine

/-!
# `BRUFileMonitor`

A file monitor keeps one dispatch source for each prefix of its path that could be
opened, and what `lstat` last said about the path.  The functions here are the ones
that run on its `syncQueue`.  What `lstat` and `open` answer is an argument, so that
they can be used with any file system: `P` is the type of the paths, `O` says what a
descriptor is open on, and `S` is `struct stat`, of which only `st_ino` is ever read.

Queues stay outside of the module.  `evaluateForPath:` answers which blocks it has
given to the completion queue, and whether it has to rebuild the sources.
-/

namespace BromiumCoreUtils

open Machine

/-- `struct stat`: its `st_ino`, and what an instance variable of it holds before anything is
stored there. -/
class FileStat (S : Type) where
  st_ino : S → Nat
  zero : S

open FileStat (st_ino)

/-- A `struct stat` that is nothing but its `st_ino`. -/
instance : FileStat Nat := ⟨id, 0⟩

@[simp] theorem map_st_ino_nat (answer : Option Nat) : answer.map st_ino = answer := by
  cases answer <;> rfl

/-- A dispatch source of `buildMonitors`. -/
structure VnodeSource (P O : Type) where
  subPath : P
  fd : O
deriving DecidableEq, Repr

/-- The properties of a monitor.  `subPaths` are the values of the variable `subPath`
in the loop of `buildMonitors`. -/
structure BRUFileMonitor (P O S Cb : Type) where
  path : P
  subPaths : List P
  dispatch_source_list : Option (List (VnodeSource P O)) := none
  isStatValid : Bool := false
  stat : S
  eventCallback : Option Cb := none
deriving DecidableEq, Repr

/-- What `evaluateForPath:` leaves.  A block for the completion queue holds the
callback that `invokeCallback` has read. -/
structure Evaluation (P O S Cb : Type) where
  monitor : BRUFileMonitor P O S Cb
  completionBlocks : List (Option Cb) := []
  rebuilds : Bool := false
deriving DecidableEq, Repr

namespace BRUFileMonitor

variable {P O S Cb : Type}

/-- The sources of `buildMonitors`, one for each `subPath` that can be opened. -/
def sources (openPath : P → Option O) (subPaths : List P) : List (VnodeSource P O) :=
  subPaths.filterMap fun subPath => (openPath subPath).map fun fd => ⟨subPath, fd⟩

def buildMonitors (openPath : P → Option O) (m : BRUFileMonitor P O S Cb) :
    Exec Assertion (BRUFileMonitor P O S Cb) := do
  assertThat (m.dispatch_source_list.isNone = true) .monitorsAlreadyBuilt
  pure { m with dispatch_source_list := some (sources openPath m.subPaths) }

def destroyMonitors (m : BRUFileMonitor P O S Cb) : Exec Assertion (BRUFileMonitor P O S Cb) := do
  assertThat (m.dispatch_source_list.isSome = true) .monitorsAlreadyDestroyed
  pure { m with dispatch_source_list := none }

/-- The block of `invokeCallback`. -/
def invokeCallback (m : BRUFileMonitor P O S Cb) : List (Option Cb) := [m.eventCallback]

/-- `evaluateForPath:`, up to its `rebuildBlock`, with what `lstat` gives. -/
def evaluateForPath [DecidableEq P] [FileStat S] (post : Option S) (path : Option P)
    (m : BRUFileMonitor P O S Cb) : Evaluation P O S Cb :=
  match post with
  | none =>
    if m.isStatValid then
      { monitor := { m with isStatValid := false }
        completionBlocks := m.invokeCallback
        rebuilds := true }
    else { monitor := m }
  | some post =>
    if m.isStatValid then
      if st_ino post ≠ st_ino m.stat then
        { monitor := { m with stat := post }
          completionBlocks := m.invokeCallback
          rebuilds := true }
      else if path = some m.path then
        { monitor := m, completionBlocks := m.invokeCallback }
      else { monitor := m }
    else
      { monitor := { m with isStatValid := true, stat := post }
        completionBlocks := m.invokeCallback
        rebuilds := true }

/-- The block of `startWithError:callback:` up to `buildMonitors`, for a callback that
is not `nil`.  The answer of `lstat` is stored before the check, also when the start
fails. -/
def startBlock (pre : Option S) (callback : Cb) (m : BRUFileMonitor P O S Cb) :
    BRUFileMonitor P O S Cb × Option NSError :=
  let m := match pre with
    | none => { m with isStatValid := false }
    | some pre => { m with isStatValid := true, stat := pre }
  match m.dispatch_source_list with
  | some _ => (m, some {
      domain := NSPOSIXErrorDomain
      code := ENOTSUP
      userInfo := [(BRUErrorReasonKey, "Can't start already started monitor.")] })
  | none => ({ m with eventCallback := some callback }, none)

/-- What the monitor knows of its path: the inode number, if there was a file. -/
def recorded [FileStat S] (m : BRUFileMonitor P O S Cb) : Option Nat :=
  if m.isStatValid then some (st_ino m.stat) else none

/-! ## What an evaluation does -/

section

variable [DecidableEq P] [FileStat S] (post : Option S) (path : Option P)
  (m : BRUFileMonitor P O S Cb)

/-- After an evaluation, the monitor knows what `lstat` has said. -/
@[simp] theorem recorded_evaluateForPath :
    (m.evaluateForPath post path).monitor.recorded = post.map st_ino := by
  unfold evaluateForPath
  split
  · split
    · rfl
    · rename_i hvalid
      simp [recorded, hvalid]
  · split
    · rename_i hvalid
      split
      · simp [recorded, hvalid]
      · rename_i hsame
        have hsame := Decidable.not_not.mp hsame
        split <;> simp [recorded, hvalid, hsame]
    · simp [recorded]

/-- The sources are rebuilt exactly when the answer of `lstat` has changed. -/
theorem rebuilds_evaluateForPath :
    (m.evaluateForPath post path).rebuilds = true ↔ m.recorded ≠ post.map st_ino := by
  unfold evaluateForPath
  split
  · split <;> rename_i hvalid <;> simp [recorded, hvalid]
  · split
    · rename_i hvalid
      split
      · rename_i hne
        simp [recorded, hvalid, Ne.symm hne]
      · rename_i hsame
        have hsame := Decidable.not_not.mp hsame
        split <;> simp [recorded, hvalid, hsame]
    · rename_i hvalid
      simp [recorded, hvalid]

/-- An evaluation leaves the sources to the rebuild. -/
@[simp] theorem dispatch_source_list_evaluateForPath :
    (m.evaluateForPath post path).monitor.dispatch_source_list = m.dispatch_source_list := by
  unfold evaluateForPath
  repeat' split
  all_goals rfl

@[simp] theorem subPaths_evaluateForPath :
    (m.evaluateForPath post path).monitor.subPaths = m.subPaths := by
  unfold evaluateForPath
  repeat' split
  all_goals rfl

@[simp] theorem path_evaluateForPath :
    (m.evaluateForPath post path).monitor.path = m.path := by
  unfold evaluateForPath
  repeat' split
  all_goals rfl

@[simp] theorem eventCallback_evaluateForPath :
    (m.evaluateForPath post path).monitor.eventCallback = m.eventCallback := by
  unfold evaluateForPath
  repeat' split
  all_goals rfl

/-- The callback is invoked when the answer of `lstat` has changed, and when there is
the same file and the event is one of the whole path. -/
theorem completionBlocks_evaluateForPath :
    (m.evaluateForPath post path).completionBlocks =
      if m.recorded ≠ post.map st_ino ∨ post.isSome = true ∧ path = some m.path then
        [m.eventCallback]
      else [] := by
  unfold evaluateForPath
  split
  · split <;> rename_i hvalid <;> simp [recorded, hvalid, invokeCallback]
  · split
    · rename_i hvalid
      split
      · rename_i hne
        simp [recorded, hvalid, Ne.symm hne, invokeCallback]
      · rename_i hsame
        have hsame := Decidable.not_not.mp hsame
        split <;> rename_i hpath <;> simp [recorded, hvalid, hsame, hpath, invokeCallback]
    · rename_i hvalid
      simp [recorded, hvalid, invokeCallback]

end

/-- A start of a monitor that is not started succeeds and stores what `lstat` says. -/
theorem startBlock_of_stopped [FileStat S] {m : BRUFileMonitor P O S Cb}
    (h : m.dispatch_source_list = none) (pre : Option S) (callback : Cb) :
    ∃ started, m.startBlock pre callback = (started, none) ∧
      started.dispatch_source_list = none ∧ started.subPaths = m.subPaths ∧
      started.recorded = pre.map st_ino := by
  unfold startBlock
  cases pre <;> simp [h, recorded]

theorem mem_sources {openPath : P → Option O} {subPaths : List P} {src : VnodeSource P O} :
    src ∈ sources openPath subPaths ↔
      src.subPath ∈ subPaths ∧ openPath src.subPath = some src.fd := by
  unfold sources
  rw [List.mem_filterMap]
  constructor
  · rintro ⟨subPath, hmem, hopen⟩
    obtain ⟨fd, hfd, rfl⟩ := Option.map_eq_some_iff.mp hopen
    exact ⟨hmem, hfd⟩
  · rintro ⟨hmem, hopen⟩
    exact ⟨src.subPath, hmem, by rw [hopen]; rfl⟩

end BRUFileMonitor

end BromiumCoreUtils
