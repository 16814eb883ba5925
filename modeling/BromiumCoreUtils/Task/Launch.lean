import BromiumCoreUtils.Task.Handshake
import Mathlib.Algebra.Ring.Nat

/-!
# When the answer of a launch is true

The parent may fail on its own, in its `write` or in its `read`.  It answers `NO`
then, but the child goes on at the end of the file as it does at the byte, and
starts the program.  `launchContract_iff` shows that this is the only way for the
answer to be wrong, and that every launch comes to an end.

Each process has an invariant of its own, `ParentSide` and `ChildSide`, with the
ends that it holds and what it knows.  A step of one process is a step lemma for
its own side and a frame lemma for the other one.
-/

namespace BromiumCoreUtils

open Machine

/-- The number of steps that the parent has before it, without the ones that try a
`read` again. -/
def ParentPlace.remaining : ParentPlace → Nat
  | .closeParent2childRead => 6
  | .closeChild2parentWrite => 5
  | .writeParent2child => 4
  | .closeParent2childWrite _ => 3
  | .readChild2parent => 2
  | .closeChild2parentRead => 1
  | .returned => 0

/-- At most so many steps of the child are to come. -/
def ChildPlace.remaining : ChildPlace → Nat
  | .closeChild2parentRead => 9
  | .closeParent2childWrite => 8
  | .fcntl => 7
  | .readParent2child => 6
  | .closeParent2childRead => 5
  | .execve => 4
  | .writeErrno _ _ => 3
  | .closeChild2parentWrite _ => 2
  | .leave _ => 1
  | .executing => 0
  | .dead => 0

/-- Where the child has given up its end of `child2parent`. -/
theorem ChildPlace.eq_of_remaining {place : ChildPlace} (h : ¬ 2 ≤ place.remaining) :
    (∃ ending, place = .leave ending) ∨ place = .executing ∨ place = .dead := by
  cases place <;> simp_all [remaining]

namespace Handshake

variable {o : SyscallOutcomes} {s t : Handshake}

/-! ## What each process knows -/

/-- What the parent has concluded. -/
structure Verdict (o : SyscallOutcomes) (v : LaunchVariables) : Prop where
  success : v.success = true → o.parentError = none ∧ o.childError = none
  failure : v.success = false →
    o.parentError.or o.childError = some v.error_errno ∧ v.error_desc.isSome = true

structure ParentSide (o : SyscallOutcomes) (s : Handshake) : Prop where
  parent2childWriter : .parent ∈ s.parent2child.writers ↔ 3 ≤ s.parent.remaining
  child2parentWriter : .parent ∈ s.child2parent.writers ↔ 5 ≤ s.parent.remaining
  child2parentReader : .parent ∈ s.child2parent.readers ↔ 1 ≤ s.parent.remaining
  written : ∀ suc_write, s.parent = .closeParent2childWrite suc_write → suc_write = o.write
  reading : s.parent = .readChild2parent → o.write = .one
  decided : s.parent.remaining ≤ 1 → Verdict o s.launch

/-- The child does not get to the program because of `errno`. -/
def Fails (o : SyscallOutcomes) (s : Handshake) (errno : Int) : Prop :=
  o.fcntlError = some errno ∧ s.execve = none ∨
    o.fcntlError = none ∧ o.execveError = some errno ∧ s.execve = some (.error errno)

/-- What the child has met, and what it has told the parent of it. -/
def Story (o : SyscallOutcomes) (s : Handshake) : Prop :=
  match s.child with
  | .closeChild2parentRead | .closeParent2childWrite | .fcntl =>
    s.child2parent.queue = [] ∧ s.execve = none
  | .readParent2child | .closeParent2childRead | .execve =>
    s.child2parent.queue = [] ∧ s.execve = none ∧ o.fcntlError = none
  | .writeErrno errno _ => s.child2parent.queue = [] ∧ s.Fails o errno
  | .closeChild2parentWrite _ | .leave _ | .dead =>
    ∃ errno, s.Fails o errno ∧
      (s.child2parent.queue = [errno] ∨ s.parent.remaining ≤ 1)
  | .executing =>
    s.child2parent.queue = [] ∧ s.execve = some (.ok ()) ∧ o.fcntlError = none ∧
      o.execveError = none

structure ChildSide (o : SyscallOutcomes) (s : Handshake) : Prop where
  parent2childWriter : .child ∈ s.parent2child.writers ↔ 8 ≤ s.child.remaining
  child2parentWriter : .child ∈ s.child2parent.writers ↔ 2 ≤ s.child.remaining
  story : s.Story o

/-- Both invariants. -/
def Invariant (o : SyscallOutcomes) (s : Handshake) : Prop :=
  ParentSide o s ∧ ChildSide o s

theorem invariant_initial : Invariant o initial := by
  constructor
  · refine
      { parent2childWriter := by decide, child2parentWriter := by decide,
        child2parentReader := by decide, written := ?_, reading := ?_, decided := ?_ }
    · intro suc_write h
      cases h
    · intro h
      cases h
    · intro h
      exact absurd h (by decide)
  · exact
      { parent2childWriter := by decide, child2parentWriter := by decide,
        story := ⟨rfl, rfl⟩ }

theorem Fails.childError {errno : Int} (h : s.Fails o errno) :
    o.childError = some errno := by
  unfold SyscallOutcomes.childError
  rcases h with ⟨hfcntl, -⟩ | ⟨hfcntl, hexecve, -⟩
  · rw [hfcntl]
    rfl
  · rw [hfcntl, hexecve]
    rfl

/-! ## Steps of the parent -/

/-- A message in `child2parent` is the error of the child. -/
theorem ChildSide.childError_of_mem (h : ChildSide o s) {errno : Int}
    (hmem : errno ∈ s.child2parent.queue) (hwaits : 1 < s.parent.remaining) :
    o.childError = some errno := by
  have hstory := h.story
  unfold Story at hstory
  have hempty : s.child2parent.queue ≠ [] := List.ne_nil_of_mem hmem
  split at hstory
  all_goals try exact absurd hstory.1 hempty
  all_goals
    obtain ⟨errno', hfails, hqueue | hdone⟩ := hstory
    · rw [hqueue] at hmem
      rw [List.mem_singleton.mp hmem]
      exact hfails.childError
    · omega

/-- When nothing is left in `child2parent` and the child cannot write any more,
its program was started. -/
theorem ChildSide.childError_of_endOfFile (h : ChildSide o s)
    (hqueue : s.child2parent.queue = []) (hwriter : .child ∉ s.child2parent.writers)
    (hwaits : 1 < s.parent.remaining) : o.childError = none := by
  have hpast : ¬ 2 ≤ s.child.remaining := fun hle =>
    hwriter (h.child2parentWriter.mpr hle)
  have hstory := h.story
  unfold Story at hstory
  rcases ChildPlace.eq_of_remaining hpast with ⟨ending, hplace⟩ | hplace | hplace <;>
    rw [hplace] at hstory
  · obtain ⟨errno, -, hfull | hdone⟩ := hstory
    · rw [hqueue] at hfull
      cases hfull
    · omega
  · obtain ⟨-, -, hfcntl, hexecve⟩ := hstory
    rw [SyscallOutcomes.childError, hfcntl, hexecve]
    rfl
  · obtain ⟨errno, -, hfull | hdone⟩ := hstory
    · rw [hqueue] at hfull
      cases hfull
    · omega

/-- What the child knows stays when the parent takes the message out of the pipe,
because it is past its `read` then. -/
theorem ChildSide.frame (h : ChildSide o s) (hchild : t.child = s.child)
    (hexecve : t.execve = s.execve)
    (hgate : .child ∈ t.parent2child.writers ↔ .child ∈ s.parent2child.writers)
    (hreport : .child ∈ t.child2parent.writers ↔ .child ∈ s.child2parent.writers)
    (hremaining : t.parent.remaining ≤ s.parent.remaining)
    (hqueue : t.child2parent.queue = s.child2parent.queue ∨
      s.child2parent.queue ≠ [] ∧ t.parent.remaining ≤ 1) : ChildSide o t := by
  have hfails : ∀ errno, s.Fails o errno → t.Fails o errno := by
    intro errno hs
    rw [Fails, hexecve]
    exact hs
  refine
    { parent2childWriter := by rw [hgate, hchild]; exact h.parent2childWriter,
      child2parentWriter := by rw [hreport, hchild]; exact h.child2parentWriter,
      story := ?_ }
  have hstory := h.story
  unfold Story at hstory ⊢
  rw [hchild, hexecve]
  rcases hqueue with hqueue | ⟨hfull, hdone⟩
  · rw [hqueue]
    split at hstory
    all_goals try exact hstory
    · exact ⟨hstory.1, hfails _ hstory.2⟩
    all_goals
      obtain ⟨errno, hs, hreported⟩ := hstory
      exact ⟨errno, hfails errno hs, hreported.imp_right (by omega)⟩
  · split at hstory
    all_goals try exact absurd hstory.1 hfull
    all_goals
      obtain ⟨errno, hs, -⟩ := hstory
      exact ⟨errno, hfails errno hs, Or.inr hdone⟩

/-- A `read` that was interrupted changes nothing. -/
theorem loopTurn_again {errno : Int} (h : errno = EINTR ∨ errno = EAGAIN) :
    s.loopTurn (.error errno, s.child2parent) = s := by
  have hnone : checkRead (.error errno) s.launch = none := if_pos h
  unfold loopTurn
  rw [hnone]

theorem loopTurn_of_checkRead {result : ReadResult × Pipe Process Int} {v : LaunchVariables}
    (h : checkRead result.1 s.launch = some v) :
    s.loopTurn result =
      { s with parent := .closeChild2parentRead, child2parent := result.2, launch := v } := by
  unfold loopTurn
  rw [h]

theorem verdict_fail {v : LaunchVariables} {errno : Int} {desc : String}
    (h : o.parentError.or o.childError = some errno) : Verdict o (v.fail errno desc) where
  success := by
    intro hsuccess
    cases hsuccess
  failure _ := ⟨h, rfl⟩

/-- The last `read` tells the parent how the launch went. -/
theorem loopTurn_readResult (h : Invariant o s) (hplace : s.parent = .readChild2parent)
    {result : ReadResult × Pipe Process Int} (hresult : s.readResult o = some result) :
    ∃ v, s.loopTurn result =
        { s with parent := .closeChild2parentRead, child2parent := result.2, launch := v } ∧
      Verdict o v ∧
      (result.2 = s.child2parent ∨
        s.child2parent.queue ≠ [] ∧ result.2 = s.child2parent.afterReading) := by
  have hwrite := h.1.reading hplace
  have hwaits : 1 < s.parent.remaining := by
    rw [hplace]
    decide
  unfold readResult at hresult
  split at hresult
  · rename_i failure hfailure
    obtain rfl := Option.some.inj hresult
    have hparent : o.parentError = some failure.errno := by
      simp [SyscallOutcomes.parentError, hwrite, hfailure]
    have hfinal : ¬ (failure.errno = EINTR ∨ failure.errno = EAGAIN) :=
      not_or.mpr failure.final
    refine ⟨_, loopTurn_of_checkRead (if_neg hfinal), ?_, Or.inl rfl⟩
    exact verdict_fail (by rw [hparent]; rfl)
  · rename_i hfine
    have hparent : o.parentError = none := by
      simp [SyscallOutcomes.parentError, hwrite, hfine]
    split at hresult
    · rename_i errno hreading
      obtain rfl := Option.some.inj hresult
      have hmem := Pipe.reading_eq_message hreading
      have hcheck : checkRead (.bytes 4 errno) s.launch =
          some (s.launch.fail errno "exec failed") := rfl
      refine ⟨_, loopTurn_of_checkRead hcheck, ?_, Or.inr ⟨List.ne_nil_of_mem hmem, rfl⟩⟩
      exact verdict_fail (by rw [hparent, h.2.childError_of_mem hmem hwaits]; rfl)
    · rename_i hreading
      obtain rfl := Option.some.inj hresult
      obtain ⟨hqueue, hwriters⟩ := Pipe.reading_eq_endOfFile hreading
      refine ⟨_, rfl, { success := fun _ => ⟨hparent, ?_⟩, failure := ?_ }, Or.inl rfl⟩
      · exact h.2.childError_of_endOfFile hqueue (hwriters _) hwaits
      · intro hfailed
        cases hfailed
    · cases hresult

/-- The parent goes on to its `read` only after the byte is written. -/
theorem checkWrite_cases (v : LaunchVariables) :
    (checkWrite o.write v = (v, false) ∧ o.write = .one) ∨
      ∃ v', checkWrite o.write v = (v', true) ∧ Verdict o v' := by
  cases hwrite : o.write with
  | one => exact Or.inl ⟨rfl, rfl⟩
  | zero => exact Or.inr ⟨_, rfl, verdict_fail (by simp [SyscallOutcomes.parentError, hwrite])⟩
  | error errno =>
    exact Or.inr ⟨_, rfl, verdict_fail (by simp [SyscallOutcomes.parentError, hwrite])⟩

theorem invariant_stepParent (h : Invariant o s) (hstep : s.stepParent o = .ok t) :
    Invariant o t ∧ t.parent.remaining < s.parent.remaining ∧ t.child = s.child := by
  obtain ⟨hp, hc⟩ := h
  have hends := And.intro hp.parent2childWriter
    (And.intro hp.child2parentWriter hp.child2parentReader)
  unfold stepParent at hstep
  split at hstep <;> rename_i hplace <;>
    simp only [hplace, ParentPlace.remaining] at hends
  · obtain rfl := pure_eq_ok.mp hstep
    refine ⟨⟨?_, hc.frame rfl rfl ?_ Iff.rfl ?_ (Or.inl rfl)⟩, ?_, rfl⟩
    · constructor <;> simp [ParentPlace.remaining, hends]
    all_goals simp [hplace, ParentPlace.remaining]
  · obtain rfl := pure_eq_ok.mp hstep
    refine ⟨⟨?_, hc.frame rfl rfl ?_ ?_ ?_ (Or.inl rfl)⟩, ?_, rfl⟩
    · constructor <;> simp [ParentPlace.remaining, hends]
    all_goals simp [hplace, ParentPlace.remaining]
  · obtain rfl := pure_eq_ok.mp hstep
    refine ⟨⟨?_, hc.frame rfl rfl ?_ Iff.rfl ?_ (Or.inl rfl)⟩, ?_, rfl⟩
    · constructor <;> simp [ParentPlace.remaining, hends, apply_ite Pipe.writers]
    all_goals simp [hplace, ParentPlace.remaining, apply_ite Pipe.writers]
  · rename_i suc_write
    obtain rfl := hp.written suc_write hplace
    rcases checkWrite_cases s.launch with ⟨hcheck, hwrite⟩ | ⟨v, hcheck, hverdict⟩ <;>
      rw [hcheck] at hstep
    · obtain rfl := pure_eq_ok.mp hstep
      refine ⟨⟨?_, hc.frame rfl rfl ?_ Iff.rfl ?_ (Or.inl rfl)⟩, ?_, rfl⟩
      · constructor <;> simp [ParentPlace.remaining, hends, hwrite]
      all_goals simp [hplace, ParentPlace.remaining]
    · obtain rfl := pure_eq_ok.mp hstep
      refine ⟨⟨?_, hc.frame rfl rfl ?_ Iff.rfl ?_ (Or.inl rfl)⟩, ?_, rfl⟩
      · constructor <;> simp [ParentPlace.remaining, hends, hverdict]
      all_goals simp [hplace, ParentPlace.remaining]
  · split at hstep
    · rename_i result hresult
      obtain rfl := pure_eq_ok.mp hstep
      obtain ⟨v, hturn, hverdict, hpipe⟩ := loopTurn_readResult ⟨hp, hc⟩ hplace hresult
      rw [hturn]
      have hwriters : result.2.writers = s.child2parent.writers := by
        rcases hpipe with hpipe | ⟨-, hpipe⟩ <;> rw [hpipe]
        rfl
      have hreaders : result.2.readers = s.child2parent.readers := by
        rcases hpipe with hpipe | ⟨-, hpipe⟩ <;> rw [hpipe]
        rfl
      refine ⟨⟨?_, hc.frame rfl rfl Iff.rfl ?_ ?_ ?_⟩, ?_, rfl⟩
      · constructor <;> simp [ParentPlace.remaining, hends, hwriters, hreaders, hverdict]
      · rw [hwriters]
      · simp [hplace, ParentPlace.remaining]
      · refine hpipe.imp ?_ ?_
        · intro hpipe
          rw [hpipe]
        · rintro ⟨hfull, -⟩
          exact ⟨hfull, Nat.le_refl 1⟩
      · simp [hplace, ParentPlace.remaining]
    · cases hstep
  · obtain rfl := pure_eq_ok.mp hstep
    have hverdict := hp.decided (by rw [hplace]; decide)
    refine ⟨⟨?_, hc.frame rfl rfl Iff.rfl ?_ ?_ (Or.inl rfl)⟩, ?_, rfl⟩
    · constructor <;> simp [ParentPlace.remaining, hends, hverdict]
    all_goals simp [hplace, ParentPlace.remaining]
  · cases hstep

/-! ## Steps of the child -/

theorem ParentSide.frame (h : ParentSide o s) (hparent : t.parent = s.parent)
    (hlaunch : t.launch = s.launch)
    (hgate : .parent ∈ t.parent2child.writers ↔ .parent ∈ s.parent2child.writers)
    (hreport : .parent ∈ t.child2parent.writers ↔ .parent ∈ s.child2parent.writers)
    (hreader : .parent ∈ t.child2parent.readers ↔ .parent ∈ s.child2parent.readers) :
    ParentSide o t where
  parent2childWriter := by rw [hgate, hparent]; exact h.parent2childWriter
  child2parentWriter := by rw [hreport, hparent]; exact h.child2parentWriter
  child2parentReader := by rw [hreader, hparent]; exact h.child2parentReader
  written := by rw [hparent]; exact h.written
  reading := by rw [hparent]; exact h.reading
  decided := by rw [hparent, hlaunch]; exact h.decided

/-- After `execve` the program runs, or its `errno` is to be written. -/
theorem invariant_execve (h : Invariant o s) (hplace : s.child = .execve)
    (hstep : s.stepChild o = .ok t) :
    Invariant o t ∧ t.child.remaining < s.child.remaining ∧ t.parent = s.parent := by
  obtain ⟨hp, hc⟩ := h
  have hends := And.intro hc.parent2childWriter hc.child2parentWriter
  have hstory := hc.story
  unfold Story at hstory
  rw [hplace] at hstory
  simp only [hplace, ChildPlace.remaining] at hends
  simp only [stepChild, hplace] at hstep
  split at hstep
  · rename_i errno herror
    obtain rfl := pure_eq_ok.mp hstep
    refine ⟨⟨hp.frame rfl rfl Iff.rfl Iff.rfl Iff.rfl, ?_⟩, ?_, rfl⟩
    · exact ⟨by simp [ChildPlace.remaining, hends], by simp [ChildPlace.remaining, hends],
        ⟨hstory.1, Or.inr ⟨hstory.2.2, herror, rfl⟩⟩⟩
    · simp [hplace, ChildPlace.remaining]
  · rename_i herror
    obtain rfl := pure_eq_ok.mp hstep
    refine ⟨⟨hp.frame rfl rfl Iff.rfl ?_ Iff.rfl, ?_⟩, ?_, rfl⟩
    · simp
    · exact ⟨by simp [ChildPlace.remaining, hends], by simp [ChildPlace.remaining, hends],
        ⟨hstory.1, rfl, hstory.2.2, herror⟩⟩
    · simp [hplace, ChildPlace.remaining]

/-- The child reports its error, or finds that the parent is gone. -/
theorem invariant_writeErrno (h : Invariant o s) {errno : Int} {ending : Ending}
    (hplace : s.child = .writeErrno errno ending) (hstep : s.stepChild o = .ok t) :
    Invariant o t ∧ t.child.remaining < s.child.remaining ∧ t.parent = s.parent := by
  obtain ⟨hp, hc⟩ := h
  have hends := And.intro hc.parent2childWriter hc.child2parentWriter
  have hstory := hc.story
  unfold Story at hstory
  rw [hplace] at hstory
  simp only [hplace, ChildPlace.remaining] at hends
  simp only [stepChild, hplace] at hstep
  split at hstep
  · rename_i pipe hwrite
    obtain rfl := pure_eq_ok.mp hstep
    obtain rfl := Pipe.write_eq_some hwrite
    refine ⟨⟨hp.frame rfl rfl Iff.rfl Iff.rfl Iff.rfl, ?_⟩, ?_, rfl⟩
    · exact ⟨by simp [ChildPlace.remaining, hends], by simp [ChildPlace.remaining, hends],
        ⟨errno, hstory.2, Or.inl (by simp [hstory.1])⟩⟩
    · simp [hplace, ChildPlace.remaining]
  · rename_i hwrite
    obtain rfl := pure_eq_ok.mp hstep
    -- the parent is gone, so it has its answer
    have hgone : ¬ 1 ≤ s.parent.remaining := fun hle =>
      Pipe.write_eq_none hwrite .parent (hp.child2parentReader.mpr hle)
    refine ⟨⟨hp.frame rfl rfl ?_ ?_ ?_, ?_⟩, ?_, rfl⟩
    any_goals simp
    · exact ⟨by simp [ChildPlace.remaining], by simp [ChildPlace.remaining],
        ⟨errno, hstory.2, Or.inr (by show s.parent.remaining ≤ 1; omega)⟩⟩
    · simp [hplace, ChildPlace.remaining]

theorem invariant_stepChild (h : Invariant o s) (hstep : s.stepChild o = .ok t) :
    Invariant o t ∧ t.child.remaining < s.child.remaining ∧ t.parent = s.parent := by
  obtain ⟨hp, hc⟩ := h
  have hends := And.intro hc.parent2childWriter hc.child2parentWriter
  have hstory := hc.story
  unfold Story at hstory
  have hwhole := hstep
  unfold stepChild at hstep
  split at hstep <;> rename_i hplace <;> rw [hplace] at hstory <;>
    simp only [hplace, ChildPlace.remaining] at hends
  · obtain rfl := pure_eq_ok.mp hstep
    refine ⟨⟨hp.frame rfl rfl Iff.rfl Iff.rfl ?_, ?_⟩, ?_, rfl⟩
    · simp
    · exact ⟨by simp [ChildPlace.remaining, hends], by simp [ChildPlace.remaining, hends],
        hstory⟩
    · simp [hplace, ChildPlace.remaining]
  · obtain rfl := pure_eq_ok.mp hstep
    refine ⟨⟨hp.frame rfl rfl ?_ Iff.rfl Iff.rfl, ?_⟩, ?_, rfl⟩
    · simp
    · exact ⟨by simp [ChildPlace.remaining, hends], by simp [ChildPlace.remaining, hends],
        hstory⟩
    · simp [hplace, ChildPlace.remaining]
  · split at hstep
    · rename_i errno herror
      obtain rfl := pure_eq_ok.mp hstep
      refine ⟨⟨hp.frame rfl rfl Iff.rfl Iff.rfl Iff.rfl, ?_⟩, ?_, rfl⟩
      · exact ⟨by simp [ChildPlace.remaining, hends], by simp [ChildPlace.remaining, hends],
          ⟨hstory.1, Or.inl ⟨herror, hstory.2⟩⟩⟩
      · simp [hplace, ChildPlace.remaining]
    · rename_i herror
      obtain rfl := pure_eq_ok.mp hstep
      refine ⟨⟨hp.frame rfl rfl Iff.rfl Iff.rfl Iff.rfl, ?_⟩, ?_, rfl⟩
      · exact ⟨by simp [ChildPlace.remaining, hends], by simp [ChildPlace.remaining, hends],
          ⟨hstory.1, hstory.2, herror⟩⟩
      · simp [hplace, ChildPlace.remaining]
  · split at hstep
    · obtain rfl := pure_eq_ok.mp hstep
      refine ⟨⟨hp.frame rfl rfl Iff.rfl Iff.rfl Iff.rfl, ?_⟩, ?_, rfl⟩
      · exact ⟨by simp [ChildPlace.remaining, hends], by simp [ChildPlace.remaining, hends],
          hstory⟩
      · simp [hplace, ChildPlace.remaining]
    · obtain rfl := pure_eq_ok.mp hstep
      refine ⟨⟨hp.frame rfl rfl Iff.rfl Iff.rfl Iff.rfl, ?_⟩, ?_, rfl⟩
      · exact ⟨by simp [ChildPlace.remaining, hends], by simp [ChildPlace.remaining, hends],
          hstory⟩
      · simp [hplace, ChildPlace.remaining]
    · cases hstep
  · obtain rfl := pure_eq_ok.mp hstep
    refine ⟨⟨hp.frame rfl rfl Iff.rfl Iff.rfl Iff.rfl, ?_⟩, ?_, rfl⟩
    · exact ⟨by simp [ChildPlace.remaining, hends], by simp [ChildPlace.remaining, hends],
        hstory⟩
    · simp [hplace, ChildPlace.remaining]
  · exact invariant_execve ⟨hp, hc⟩ hplace hwhole
  · exact invariant_writeErrno ⟨hp, hc⟩ hplace hwhole
  · obtain rfl := pure_eq_ok.mp hstep
    refine ⟨⟨hp.frame rfl rfl Iff.rfl ?_ Iff.rfl, ?_⟩, ?_, rfl⟩
    · simp
    · exact ⟨by simp [ChildPlace.remaining, hends], by simp [ChildPlace.remaining, hends],
        hstory⟩
    · simp [hplace, ChildPlace.remaining]
  · obtain rfl := pure_eq_ok.mp hstep
    refine ⟨⟨hp.frame rfl rfl ?_ ?_ ?_, ?_⟩, ?_, rfl⟩
    any_goals simp
    · exact ⟨by simp [ChildPlace.remaining], by simp [ChildPlace.remaining],
        hstory⟩
    · simp [hplace, ChildPlace.remaining]
  · cases hstep
  · cases hstep

/-! ## Whole runs -/

/-- The steps that are still to come in both processes, at most. -/
def remaining (s : Handshake) : Nat :=
  s.parent.remaining + s.child.remaining

/-- A `read` that is tried again is no progress. -/
def Event.progress : Event → Nat
  | .parent => 1
  | .again _ => 0
  | .child => 1

/-- A step keeps the invariant and comes closer to the end. -/
theorem invariant_step {e : Event} (h : Invariant o s) (hstep : s.step o e = .ok t) :
    Invariant o t ∧ e.progress + t.remaining ≤ s.remaining := by
  unfold remaining
  cases e with
  | parent =>
    obtain ⟨hinv, hlt, hchild⟩ := invariant_stepParent h hstep
    refine ⟨hinv, ?_⟩
    rw [hchild]
    show 1 + _ ≤ _
    omega
  | again errno =>
    simp only [step, bind_eq_ok, enabledIf_eq_ok, pure_eq_ok] at hstep
    obtain ⟨-, ⟨-, herrno⟩, rfl⟩ := hstep
    rw [loopTurn_again herrno]
    refine ⟨h, ?_⟩
    show 0 + _ ≤ _
    omega
  | child =>
    obtain ⟨hinv, hlt, hparent⟩ := invariant_stepChild h hstep
    refine ⟨hinv, ?_⟩
    rw [hparent]
    show 1 + _ ≤ _
    omega

theorem invariant_run {events : List Event} (hrun : run (step o) initial events = .ok s) :
    Invariant o s :=
  run_invariant (fun _ _ _ h hstep => (invariant_step h hstep).1) invariant_initial hrun

/-- The handshake itself takes at most fifteen steps. -/
theorem sum_progress_le {events : List Event} (hrun : run (step o) initial events = .ok s) :
    (events.map Event.progress).sum + s.remaining ≤ 15 := by
  refine run_history (I := fun events s =>
    (events.map Event.progress).sum + s.remaining ≤ 15) ?_ ?_ hrun
  · decide
  · intro events m e n hm hle hstep
    have hnext := (invariant_step (invariant_run hm) hstep).2
    simp only [List.map_append, List.sum_append, List.map_cons, List.map_nil, List.sum_cons,
      List.sum_nil]
    omega

/-- The parent takes its next step, or waits for the child. -/
theorem parent_enabled (h : Invariant o s) (hplace : s.parent ≠ .returned) :
    (∃ t, s.stepParent o = .ok t) ∨
      s.parent.remaining = 2 ∧ .child ∈ s.child2parent.writers := by
  unfold stepParent
  split
  case h_5 hread =>
    rw [hread]
    split
    · exact Or.inl ⟨_, rfl⟩
    · rename_i hresult
      refine Or.inr ⟨rfl, ?_⟩
      unfold readResult at hresult
      split at hresult
      · cases hresult
      · split at hresult
        · cases hresult
        · cases hresult
        · rename_i hblocked
          obtain ⟨-, party, hparty⟩ := Pipe.reading_eq_blocked hblocked
          cases party with
          | parent =>
            have hle := h.1.child2parentWriter.mp hparty
            rw [hread] at hle
            exact absurd hle (by decide)
          | child => exact hparty
  case h_7 hreturned => exact absurd hreturned hplace
  all_goals exact Or.inl ⟨_, rfl⟩

/-- The child does not wait any more once the parent has closed its end. -/
theorem child_enabled (h : Invariant o s) (hparent : s.parent.remaining ≤ 2)
    (hplace : s.child ≠ .executing ∧ s.child ≠ .dead) : ∃ t, s.stepChild o = .ok t := by
  unfold stepChild
  split
  case h_4 hread =>
    split
    · exact ⟨_, rfl⟩
    · exact ⟨_, rfl⟩
    · rename_i hblocked
      obtain ⟨-, party, hparty⟩ := Pipe.reading_eq_blocked hblocked
      cases party with
      | parent =>
        have hle := h.1.parent2childWriter.mp hparty
        omega
      | child =>
        have hle := h.2.parent2childWriter.mp hparty
        rw [hread] at hle
        exact absurd hle (by decide)
  case h_10 hexecuting => exact absurd hexecuting hplace.1
  case h_11 hdead => exact absurd hdead hplace.2
  all_goals
    try split
    all_goals exact ⟨_, rfl⟩

/-- Before the end, one of the two processes can take a step. -/
theorem progress (h : Invariant o s) (hunfinished : ¬ s.Finished) :
    ∃ e t, s.step o e = .ok t ∧ t.remaining < s.remaining := by
  have hchild : s.parent.remaining ≤ 2 → s.child ≠ .executing ∧ s.child ≠ .dead →
      ∃ e t, s.step o e = .ok t ∧ t.remaining < s.remaining := by
    intro hparent hplace
    obtain ⟨t, hstep⟩ := child_enabled h hparent hplace
    obtain ⟨-, hlt, hsame⟩ := invariant_stepChild h hstep
    refine ⟨.child, t, hstep, ?_⟩
    unfold remaining
    rw [hsame]
    omega
  by_cases hreturned : s.parent = .returned
  · refine hchild (by rw [hreturned]; decide) ⟨?_, ?_⟩
    · intro hexecuting
      exact hunfinished ⟨hreturned, Or.inl hexecuting⟩
    · intro hdead
      exact hunfinished ⟨hreturned, Or.inr hdead⟩
  · rcases parent_enabled h hreturned with ⟨t, hstep⟩ | ⟨hreads, hwriter⟩
    · obtain ⟨-, hlt, hsame⟩ := invariant_stepParent h hstep
      refine ⟨.parent, t, hstep, ?_⟩
      unfold remaining
      rw [hsame]
      omega
    · have hle := h.2.child2parentWriter.mp hwriter
      refine hchild (by omega) ⟨?_, ?_⟩ <;> intro hplace <;> rw [hplace] at hle <;>
        exact absurd hle (by decide)

/-- Every launch can be finished, whatever has happened so far. -/
theorem finishes (h : Invariant o s) :
    ∃ events t, run (step o) s events = .ok t ∧ t.Finished := by
  have hend : ∃ events t, AllSteps (step o) (fun _ _ => True) s events ∧
      run (step o) s events = .ok t ∧ t.Finished := by
    refine exists_run_to (I := fun remaining s => Invariant o s ∧ s.remaining = remaining) ?_
      ⟨h, rfl⟩
    rintro remaining s ⟨h, rfl⟩ hunfinished
    obtain ⟨e, t, hstep, hlt⟩ := progress h hunfinished
    exact ⟨e, t, t.remaining, trivial, hstep, hlt, (invariant_step h hstep).1, rfl⟩
  obtain ⟨events, t, -, hrun, hfinished⟩ := hend
  exact ⟨events, t, hrun, hfinished⟩

/-! ## The answer -/

theorem launchAnswer_success (v : LaunchVariables) : (launchAnswer v).1 = v.success := by
  unfold launchAnswer
  split <;> simp_all

theorem launchAnswer_code {v : LaunchVariables} (hfailed : v.success = false)
    (hdesc : v.error_desc.isSome = true) (errno : Int) :
    (∃ error, (launchAnswer v).2 = some error ∧ error.code = errno) ↔
      v.error_errno = errno := by
  obtain ⟨desc, hdesc⟩ := Option.isSome_iff_exists.mp hdesc
  simp [launchAnswer, hfailed, hdesc]

theorem Verdict.success_iff {v : LaunchVariables} (h : Verdict o v) :
    v.success = true ↔ o.parentError = none ∧ o.childError = none := by
  constructor
  · exact h.success
  · rintro ⟨hparent, hchild⟩
    cases hsuccess : v.success with
    | true => rfl
    | false =>
      obtain ⟨hcode, -⟩ := h.failure hsuccess
      rw [hparent, hchild] at hcode
      cases hcode

/-- How a finished child has ended. -/
theorem outcome_of_finished (h : Invariant o s) (hfinished : s.Finished) :
    s.execve = some (.ok ()) ∧ o.childError = none ∨ ∃ errno, s.Fails o errno := by
  have hstory := h.2.story
  unfold Story at hstory
  rcases hfinished.2 with hchild | hchild <;> rw [hchild] at hstory
  · obtain ⟨-, hexecve, hfcntl, herror⟩ := hstory
    refine Or.inl ⟨hexecve, ?_⟩
    rw [SyscallOutcomes.childError, hfcntl, herror]
    rfl
  · obtain ⟨errno, hfails, -⟩ := hstory
    exact Or.inr ⟨errno, hfails⟩

theorem execve_eq_ok (h : Invariant o s) (hfinished : s.Finished) :
    s.execve = some (.ok ()) ↔ o.childError = none := by
  rcases outcome_of_finished h hfinished with ⟨hexecve, hnone⟩ | ⟨errno, hfails⟩
  · rw [hexecve, hnone]
    exact ⟨fun _ => rfl, fun _ => rfl⟩
  · rw [hfails.childError]
    rcases hfails with ⟨-, hexecve⟩ | ⟨-, -, hexecve⟩ <;> rw [hexecve] <;>
      exact ⟨fun heq => (by cases heq), fun heq => (by cases heq)⟩

theorem execve_eq_error (h : Invariant o s) (hfinished : s.Finished) (errno : Int) :
    s.execve = some (.error errno) ↔ o.fcntlError = none ∧ o.execveError = some errno := by
  rcases outcome_of_finished h hfinished with
    ⟨hexecve, hnone⟩ | ⟨errno', ⟨hfcntl, hexecve⟩ | ⟨hfcntl, herror, hexecve⟩⟩
  · obtain ⟨-, herror⟩ := Option.or_eq_none_iff.mp hnone
    simp [hexecve, herror]
  · simp [hexecve, hfcntl]
  · simp [hexecve, hfcntl, herror]

/-- The contract in terms of the errors that the two processes meet. -/
theorem launchContract_iff_errors (h : Invariant o s) (hfinished : s.Finished) :
    s.LaunchContract ↔ (o.childError = none → o.parentError = none) ∧
      ∀ errno, o.fcntlError = none → o.execveError = some errno →
        o.parentError.or (some errno) = some errno := by
  have hverdict : Verdict o s.launch := h.1.decided (by rw [hfinished.1]; decide)
  have hlaunched : (launchAnswer s.launch).1 = true ↔
      o.parentError = none ∧ o.childError = none := by
    rw [launchAnswer_success]
    exact hverdict.success_iff
  have hreason : ∀ errno, o.fcntlError = none → o.execveError = some errno →
      ((∃ error, (launchAnswer s.launch).2 = some error ∧ error.code = errno) ↔
        o.parentError.or (some errno) = some errno) := by
    intro errno hfcntl herror
    have hchild : o.childError = some errno := by
      rw [SyscallOutcomes.childError, hfcntl, herror]
      rfl
    have hfailed : s.launch.success = false := by
      rw [← Bool.not_eq_true, hverdict.success_iff, hchild]
      rintro ⟨-, hnone⟩
      cases hnone
    obtain ⟨hcode, hdesc⟩ := hverdict.failure hfailed
    rw [launchAnswer_code hfailed hdesc, ← hchild, hcode, hchild]
    exact ⟨congrArg some, Option.some.inj⟩
  constructor
  · intro hcontract
    refine ⟨?_, ?_⟩
    · intro hnone
      exact (hlaunched.mp (hcontract.launched.mpr ((execve_eq_ok h hfinished).mpr hnone))).1
    · intro errno hfcntl herror
      refine (hreason errno hfcntl herror).mp (hcontract.reason errno ?_)
      exact (execve_eq_error h hfinished errno).mpr ⟨hfcntl, herror⟩
  · rintro ⟨hnone, hsame⟩
    refine { launched := ?_, reason := ?_ }
    · rw [hlaunched, execve_eq_ok h hfinished]
      exact ⟨fun hboth => hboth.2, fun hchild => ⟨hnone hchild, hchild⟩⟩
    · intro errno hexecve
      obtain ⟨hfcntl, herror⟩ := (execve_eq_error h hfinished errno).mp hexecve
      exact (hreason errno hfcntl herror).mpr (hsame errno hfcntl herror)

end Handshake

theorem SyscallOutcomes.agree_iff {o : SyscallOutcomes} :
    o.Agree ↔ (o.childError = none → o.parentError = none) ∧
      ∀ errno, o.fcntlError = none → o.execveError = some errno →
        o.parentError.or (some errno) = some errno := by
  unfold Agree childError
  cases o.parentError with
  | none => simp
  | some parent =>
    cases o.fcntlError with
    | some fcntl => simp
    | none => cases o.execveError <;> simp [eq_comm]

namespace Handshake

/-- Every launch comes to an end, after at most fifteen steps besides the `read`s that are tried
again, and its answer is the truth about the child if and only if the parent does not fail in a
way that the child cannot know of. -/
theorem launchContract_iff {o : SyscallOutcomes} {s : Handshake} {events : List Event}
    (hrun : run (step o) initial events = .ok s) :
    (∃ more t, run (step o) s more = .ok t ∧ t.Finished) ∧
      (events.map Event.progress).sum ≤ 15 ∧ (s.Finished → (s.LaunchContract ↔ o.Agree)) := by
  have hinv := invariant_run hrun
  refine ⟨finishes hinv, Nat.le_of_add_right_le (sum_progress_le hrun), ?_⟩
  intro hfinished
  rw [launchContract_iff_errors hinv hfinished, SyscallOutcomes.agree_iff]

/-- The parent's `read` is interrupted once, and `execve` fails with `ENOENT`. -/
theorem launchContract_iff_noProgram :
    ∃ s, run (step ⟨.one, none, none, some 2⟩) initial
        [.parent, .child, .parent, .child, .parent, .child, .child, .parent, .again 4,
          .child, .child, .child, .parent, .child, .child, .parent] = .ok s ∧
      (∃ more t, run (step ⟨.one, none, none, some 2⟩) s more = .ok t ∧ t.Finished) ∧
      s.LaunchContract := by
  obtain ⟨s, hrun, hfinished⟩ :
      ∃ s, run (step ⟨.one, none, none, some 2⟩) initial
        [.parent, .child, .parent, .child, .parent, .child, .child, .parent, .again 4,
          .child, .child, .child, .parent, .child, .child, .parent] = .ok s ∧ s.Finished :=
    ⟨_, rfl, rfl, Or.inr rfl⟩
  obtain ⟨hends, -, hiff⟩ := launchContract_iff hrun
  refine ⟨s, hrun, hends, (hiff hfinished).mpr ?_⟩
  intro errno hparent
  cases hparent

/-- The parent's `write` is interrupted.  It answers `NO`, and the program runs. -/
theorem interrupted_write_starts_program :
    ∃ s, run (step ⟨.error EINTR, none, none, none⟩) initial
        [.parent, .parent, .parent, .parent, .parent, .child, .child, .child, .child, .child,
          .child] = .ok s ∧
      s.Finished ∧ (launchAnswer s.launch).1 = false ∧ s.execve = some (.ok ()) ∧
      s.child = .executing ∧ ¬ s.LaunchContract := by
  refine ⟨_, rfl, ⟨rfl, Or.inl rfl⟩, rfl, rfl, rfl, ?_⟩
  intro hcontract
  have hsuccess := hcontract.launched.mpr rfl
  cases hsuccess

end Handshake

end BromiumCoreUtils
