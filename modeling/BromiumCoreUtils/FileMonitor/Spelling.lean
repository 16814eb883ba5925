import BromiumCoreUtils.FileMonitor.Basic
import BromiumCoreUtils.Lib.PathString

/-!
# The spelling of a monitored path

`buildMonitors` appends the components of the path one after the other and gives each
source the `subPath` so far.  `evaluateForPath:` takes an event for one of the file when
its `subPath` equals the path.  Joining the components again drops a `/` at the end and
one of two that stand together, so a path that is spelled with them is equal to no
`subPath`, and writes to the file go by without a callback.
-/

namespace BromiumCoreUtils

namespace BRUFileMonitor

open FileStat (st_ino)

/-- The values of `subPath` in the loop of `buildMonitors`. -/
def subPathsOf (path : List Char) : List (List Char) := PathString.beginnings '/' path

/-- `initWithPath:`. -/
def initWithPath {O S Cb : Type} [FileStat S] (path : List Char) :
    BRUFileMonitor (List Char) O S Cb where
  path := path
  subPaths := subPathsOf path
  stat := FileStat.zero

/-- The last `subPath` is the path.  While `lstat` finds the same file, an event of the
source that watches it dispatches the callback, and an event of another source does
not. -/
structure RecognisesOwnEvents (O S Cb : Type) [FileStat S] (path : List Char) : Prop where
  last : (subPathsOf path).getLast? = some path
  own : ∀ (m : BRUFileMonitor (List Char) O S Cb) post, m.path = path →
    m.recorded = some (st_ino post) → ∀ subPath, (subPathsOf path).getLast? = some subPath →
      (m.evaluateForPath (some post) (some subPath)).completionBlocks = [m.eventCallback]
  ancestor : ∀ (m : BRUFileMonitor (List Char) O S Cb) post, m.path = path →
    m.recorded = some (st_ino post) → ∀ subPath ∈ subPathsOf path,
      (subPathsOf path).getLast? ≠ some subPath →
        (m.evaluateForPath (some post) (some subPath)).completionBlocks = []

section SameFile

variable {O S Cb : Type} [FileStat S] {m : BRUFileMonitor (List Char) O S Cb} {post : S}

/-- Which event dispatches the callback while the file is the same. -/
theorem completionBlocks_sameFile (h : m.recorded = some (st_ino post)) (subPath : List Char) :
    (m.evaluateForPath (some post) (some subPath)).completionBlocks =
      if subPath = m.path then [m.eventCallback] else [] := by
  rw [completionBlocks_evaluateForPath, h]
  simp

end SameFile

variable {O S Cb : Type} [FileStat S] {path : List Char}

/-- However the path is spelled, an event of an ancestor does not dispatch the
callback. -/
theorem subPath_ne_path (hpath : path ≠ []) {subPath : List Char}
    (hmem : subPath ∈ subPathsOf path) (hother : (subPathsOf path).getLast? ≠ some subPath) :
    subPath ≠ path := by
  intro heq
  have hcanonical : PathString.Canonical '/' path :=
    heq ▸ PathString.canonical_of_mem_beginnings hmem
  apply hother
  unfold subPathsOf
  rw [PathString.getLast?_beginnings hpath, PathString.rejoined_of_canonical hcanonical, heq]

/-- A monitor recognises the events of its file exactly when its path has no two `/` next
to each other and does not end in `/`, unless it is `/`. -/
theorem recognisesOwnEvents_iff (hpath : path ≠ []) :
    RecognisesOwnEvents O S Cb path ↔ PathString.Canonical '/' path := by
  have hlast : (subPathsOf path).getLast? = some (PathString.rejoined '/' path) :=
    PathString.getLast?_beginnings hpath
  constructor
  · intro h
    have hself : PathString.rejoined '/' path = path := by
      have heq := h.last
      rw [hlast] at heq
      exact Option.some.inj heq
    exact (PathString.rejoined_eq_self_iff hpath).mp hself
  · intro hcanonical
    have hself := PathString.rejoined_of_canonical hcanonical
    rw [hself] at hlast
    refine ⟨hlast, ?_, ?_⟩
    · intro m post hm hrecorded subPath hsub
      have heq : subPath = m.path := by
        rw [hlast] at hsub
        rw [hm]
        exact (Option.some.inj hsub).symm
      rw [completionBlocks_sameFile hrecorded, if_pos heq]
    · intro m post hm hrecorded subPath hmem hother
      have hne := subPath_ne_path hpath hmem hother
      rw [completionBlocks_sameFile hrecorded, if_neg (hm ▸ hne)]

/-- Two names below the root. -/
theorem recognisesOwnEvents_absolute :
    "/a/b".toList ≠ [] ∧ RecognisesOwnEvents Nat Nat Nat "/a/b".toList := by
  refine ⟨by decide, (recognisesOwnEvents_iff (by decide)).mpr ⟨?_, ?_⟩⟩
  · decide
  · decide

/-- A `/` at the end: an event of the file dispatches no callback. -/
theorem not_recognisesOwnEvents :
    subPathsOf "/a/".toList = ["/".toList, "/a".toList, "/a".toList] ∧
      (evaluateForPath (some 5) (some "/a".toList)
        { (initWithPath "/a/".toList : BRUFileMonitor (List Char) Nat Nat Nat) with
          isStatValid := true
          stat := 5
          eventCallback := some 7 }).completionBlocks = [] ∧
      ¬ RecognisesOwnEvents Nat Nat Nat "/a/".toList := by
  refine ⟨by decide, by decide, ?_⟩
  intro h
  have hlast := h.last
  revert hlast
  decide

end BRUFileMonitor

end BromiumCoreUtils
