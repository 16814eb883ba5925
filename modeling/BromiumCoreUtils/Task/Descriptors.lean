import BromiumCoreUtils.Foundation
import BromiumCoreUtils.Lib.Descriptors
import BromiumCoreUtils.Lib.Machine

/-!
# The descriptors of a child

`launchWithError:` extracts three descriptors from the objects that the client
gave it, forks, and the child moves the three to 0, 1 and 2 and closes the rest.
`childDescriptors` is the table that `execve` finds.

Three moves at once are done one after the other.  An earlier `dup2` replaces
the file of 0 or 1, and a later one may want what was there: `Undisturbed` says
that it does not, and `childContract_iff` that the child gets the right files
under exactly this condition.
-/

namespace BromiumCoreUtils

open Machine

/-! ## What the client gives -/

/-- An object that the client gave as one of the standard files. -/
inductive StandardObject where
  | pipe (fileHandleForReading fileHandleForWriting : Int)
  | fileHandle (fileDescriptor : Int)
  /-- An object of another class. -/
  | other
deriving DecidableEq, Repr

/-- `+extractFileHandleWithObject:writeMode:shouldCloseParentEnd:`, with the
descriptor of the file handle and the answer of the out-parameter. -/
def extractFileHandleWithObject (obj : Option StandardObject) (writeMode : Bool) :
    Exec Assertion (Option Int × Bool) :=
  match obj with
  | none => pure (none, false)
  | some (.pipe fileHandleForReading fileHandleForWriting) =>
    if writeMode then pure (some fileHandleForWriting, true)
    else pure (some fileHandleForReading, true)
  | some (.fileHandle fileDescriptor) => pure (some fileDescriptor, false)
  | some .other => .error (.failed .wrongType)

/-- The three descriptors, `-1` for the ones that the child inherits. -/
structure StandardDescriptors where
  stdin : Int
  stdout : Int
  stderr : Int
deriving DecidableEq, Repr

/-- The descriptors that `launchWithError:` gives to the child. -/
def standardDescriptors (standardInput standardOutput standardError : Option StandardObject) :
    Exec Assertion StandardDescriptors := do
  let (stdin, _) ← extractFileHandleWithObject standardInput false
  let (stdout, _) ← extractFileHandleWithObject standardOutput true
  let (stderr, _) ← extractFileHandleWithObject standardError true
  pure { stdin := stdin.getD (-1), stdout := stdout.getD (-1), stderr := stderr.getD (-1) }

/-! ## What the child does -/

/-- The two pipes of the handshake, as `pipe` returns them: with four different
descriptors. -/
structure HandshakePipes where
  child2parentRead : Int
  child2parentWrite : Int
  parent2childRead : Int
  parent2childWrite : Int
  distinct : [child2parentRead, child2parentWrite, parent2childRead, parent2childWrite].Nodup

namespace HandshakePipes

/-- The descriptor belongs to one of the pipes. -/
def Mem (pipes : HandshakePipes) (fd : Int) : Prop :=
  fd = pipes.child2parentRead ∨ fd = pipes.child2parentWrite ∨ fd = pipes.parent2childRead ∨
    fd = pipes.parent2childWrite

end HandshakePipes

variable {F : Type}

/-- `dup2` to one of the standard descriptors, if there is one to move. -/
def redirect (fd : Int) (target : Nat) (t : DescriptorTable F) : DescriptorTable F :=
  if 0 ≤ fd then t.dup2 fd target else t

/-- `close` of a descriptor that was moved. -/
def closeMoved (fd : Int) (t : DescriptorTable F) : DescriptorTable F :=
  if 2 < fd then t.close fd else t

/-- The descriptors that the loop of the child closes. -/
def closedByLoop (keep : Int) (dtablesize : Nat) : List Int :=
  ((List.range' 3 (dtablesize - 2)).map fun n : Nat => (n : Int)).filter fun i => i ≠ keep

/-- The descriptors of the child at its `execve`. -/
def childDescriptors (pipes : HandshakePipes) (fd : StandardDescriptors) (dtablesize : Nat)
    (t : DescriptorTable F) : DescriptorTable F :=
  let t := t.close pipes.child2parentRead
  let t := t.close pipes.parent2childWrite
  let t := t.close pipes.parent2childRead
  let t := redirect fd.stdin 0 t
  let t := redirect fd.stdout 1 t
  let t := redirect fd.stderr 2 t
  let t := closeMoved fd.stdin t
  let t := closeMoved fd.stdout t
  let t := closeMoved fd.stderr t
  t.closeAll (closedByLoop pipes.child2parentWrite dtablesize)

/-! ## Which files the child gets -/

/-- The file that the child is to find at a standard descriptor. -/
def wanted (t : DescriptorTable F) (fd : Int) (target : Nat) : Option F :=
  if fd = -1 then t.file target else t.file fd

/-- A descriptor that is to be moved is open and not one of the pipes. -/
def Movable (t : DescriptorTable F) (pipes : HandshakePipes) (fd : Int) : Prop :=
  fd = -1 ∨ (t.file fd).isSome = true ∧ ¬ pipes.Mem fd

/-- What the child is to find. -/
structure ChildContract (t child : DescriptorTable F) (pipes : HandshakePipes)
    (fd : StandardDescriptors) (dtablesize : Nat) : Prop where
  stdin : child.file 0 = wanted t fd.stdin 0
  stdout : child.file 1 = wanted t fd.stdout 1
  stderr : child.file 2 = wanted t fd.stderr 2
  others : ∀ i : Nat, 3 ≤ i → i ≤ dtablesize →
    ((child.file i).isSome = true ↔ (i : Int) = pipes.child2parentWrite)

/-- No move takes away what a later one needs. -/
structure Undisturbed (t : DescriptorTable F) (fd : StandardDescriptors) : Prop where
  zero : fd.stdout = 0 ∨ fd.stderr = 0 → wanted t fd.stdin 0 = t.file 0
  one : fd.stderr = 1 → wanted t fd.stdout 1 = t.file 1

variable {t : DescriptorTable F} {pipes : HandshakePipes} {fd : StandardDescriptors}

/-! ## The single steps -/

/-- A redirected descriptor has the file that was wanted of the table at that
moment. -/
theorem file_redirect_self {source : Int} {target : Nat}
    (h : source = -1 ∨ (t.file source).isSome = true) :
    (redirect source target t).file target = wanted t source target := by
  unfold redirect wanted
  by_cases hnone : source = -1
  · rw [if_neg (by omega), if_pos hnone]
  · have hopen := h.resolve_left hnone
    have hpos : 0 ≤ source := by
      by_contra hneg
      rw [t.negative source (by omega)] at hopen
      cases hopen
    rw [if_pos hpos, if_neg hnone, DescriptorTable.dup2_self hopen]

theorem file_redirect_other {source i : Int} {target : Nat} (h : i ≠ target) :
    (redirect source target t).file i = t.file i := by
  unfold redirect
  split
  · exact DescriptorTable.dup2_other h
  · rfl

/-- No descriptor is closed by a redirection. -/
theorem isSome_redirect {source i : Int} {target : Nat}
    (hsource : source = -1 ∨ (t.file source).isSome = true) (hi : (t.file i).isSome = true) :
    ((redirect source target t).file i).isSome = true := by
  by_cases heq : i = target
  · rw [heq] at hi ⊢
    rw [file_redirect_self hsource, wanted]
    split
    · exact hi
    · rename_i hne
      exact hsource.resolve_left hne
  · rw [file_redirect_other heq]
    exact hi

/-- After a redirection, the next one finds what it wants unless it wants the
target. -/
theorem wanted_redirect {source fd2 : Int} {target target2 : Nat}
    (hsource : source = -1 ∨ (t.file source).isSome = true) (hne : target2 ≠ target) :
    wanted (redirect source target t) fd2 target2 =
      if fd2 = target then wanted t source target else wanted t fd2 target2 := by
  by_cases heq : fd2 = target
  · rw [if_pos heq, heq, ← file_redirect_self hsource]
    unfold wanted
    rw [if_neg (by omega)]
  · rw [if_neg heq]
    unfold wanted
    split
    · exact file_redirect_other (by omega)
    · exact file_redirect_other heq

theorem file_closeMoved {source i : Int} (h : i ≤ 2 ∨ i ≠ source) :
    (closeMoved source t).file i = t.file i := by
  unfold closeMoved
  split
  · exact DescriptorTable.close_other (by omega)
  · rfl

/-- The child closes its copies of three of the pipe ends. -/
theorem file_closePipes {i : Int} (h : ¬ pipes.Mem i ∨ i = pipes.child2parentWrite) :
    (((t.close pipes.child2parentRead).close pipes.parent2childWrite).close
      pipes.parent2childRead).file i = t.file i := by
  have hdistinct := pipes.distinct
  simp only [List.nodup_cons, List.mem_cons, List.not_mem_nil, not_or, or_false] at hdistinct
  unfold HandshakePipes.Mem at h
  rw [DescriptorTable.close_other (by omega), DescriptorTable.close_other (by omega),
    DescriptorTable.close_other (by omega)]

theorem mem_closedByLoop {keep i : Int} {dtablesize : Nat} :
    i ∈ closedByLoop keep dtablesize ↔ 3 ≤ i ∧ i ≤ dtablesize ∧ i ≠ keep := by
  simp only [closedByLoop, List.mem_filter, List.mem_map, decide_eq_true_eq, ne_eq]
  constructor
  · rintro ⟨⟨n, hn, rfl⟩, hne⟩
    have hn := List.mem_range'_1.mp hn
    exact ⟨by omega, by omega, hne⟩
  · rintro ⟨hlow, hhigh, hne⟩
    exact ⟨⟨i.toNat, List.mem_range'_1.mpr (by omega), by omega⟩, hne⟩

/-! ## The whole child -/

/-- The files of 0, 1 and 2 are the ones of the three moves. -/
theorem file_childDescriptors {dtablesize : Nat} {i : Int} (hi : i ≤ 2) :
    (childDescriptors pipes fd dtablesize t).file i =
      (redirect fd.stderr 2 (redirect fd.stdout 1 (redirect fd.stdin 0
        (((t.close pipes.child2parentRead).close pipes.parent2childWrite).close
          pipes.parent2childRead)))).file i := by
  have hnot : i ∉ closedByLoop pipes.child2parentWrite dtablesize := by
    rw [mem_closedByLoop]
    omega
  simp only [childDescriptors]
  rw [DescriptorTable.file_closeAll, if_neg hnot, file_closeMoved (Or.inl hi),
    file_closeMoved (Or.inl hi), file_closeMoved (Or.inl hi)]

/-- Of the other descriptors, only the pipe to the parent stays open. -/
theorem others_childDescriptors
    (hopen : (t.file pipes.child2parentWrite).isSome = true)
    (hstdin : Movable t pipes fd.stdin) (hstdout : Movable t pipes fd.stdout)
    (hstderr : Movable t pipes fd.stderr) (dtablesize i : Nat) (hlow : 3 ≤ i)
    (hhigh : i ≤ dtablesize) :
    ((childDescriptors pipes fd dtablesize t).file i).isSome = true ↔
      (i : Int) = pipes.child2parentWrite := by
  simp only [childDescriptors]
  rw [DescriptorTable.file_closeAll]
  by_cases hkeep : (i : Int) = pipes.child2parentWrite
  · have hnot : (i : Int) ∉ closedByLoop pipes.child2parentWrite dtablesize := by
      rw [mem_closedByLoop]
      omega
    -- the client cannot have given a pipe end of the handshake
    have hmoved : ∀ source, Movable t pipes source → (i : Int) ≠ source := by
      rintro source (rfl | ⟨_, hmem⟩) heq
      · omega
      · exact hmem (by rw [← heq, hkeep]; exact Or.inr (Or.inl rfl))
    rw [if_neg hnot, file_closeMoved (Or.inr (hmoved _ hstderr)),
      file_closeMoved (Or.inr (hmoved _ hstdout)), file_closeMoved (Or.inr (hmoved _ hstdin)),
      file_redirect_other (by omega), file_redirect_other (by omega),
      file_redirect_other (by omega), file_closePipes (Or.inr hkeep), hkeep]
    exact ⟨fun _ => rfl, fun _ => hopen⟩
  · have hmem : (i : Int) ∈ closedByLoop pipes.child2parentWrite dtablesize := by
      rw [mem_closedByLoop]
      omega
    rw [if_pos hmem]
    simp [hkeep]

/-- The files that the moves leave at 0, 1 and 2.  A move that wants the target
of an earlier one gets what that one has put there. -/
theorem file_standard (habove : ∀ i, pipes.Mem i → 2 < i)
    (hstdin : Movable t pipes fd.stdin) (hstdout : Movable t pipes fd.stdout)
    (hstderr : Movable t pipes fd.stderr) (dtablesize : Nat) :
    (childDescriptors pipes fd dtablesize t).file 0 = wanted t fd.stdin 0 ∧
      (childDescriptors pipes fd dtablesize t).file 1 =
        (if fd.stdout = 0 then wanted t fd.stdin 0 else wanted t fd.stdout 1) ∧
      (childDescriptors pipes fd dtablesize t).file 2 =
        if fd.stderr = 1 then (childDescriptors pipes fd dtablesize t).file 1
        else if fd.stderr = 0 then wanted t fd.stdin 0 else wanted t fd.stderr 2 := by
  have hlow : ∀ i : Int, i ≤ 2 → ¬ pipes.Mem i := by
    intro i hi hmem
    have := habove i hmem
    omega
  rw [file_childDescriptors (by omega), file_childDescriptors (by omega),
    file_childDescriptors (by omega)]
  -- the table before the moves, which has the files of the parent
  generalize hclosed : ((t.close pipes.child2parentRead).close pipes.parent2childWrite).close
    pipes.parent2childRead = c
  have hfile : ∀ i, ¬ pipes.Mem i → c.file i = t.file i := by
    intro i hi
    rw [← hclosed]
    exact file_closePipes (Or.inl hi)
  have hbefore : ∀ source, Movable t pipes source → ∀ target : Nat, target ≤ 2 →
      wanted c source target = wanted t source target := by
    intro source hsource target htarget
    unfold wanted
    split
    · exact hfile _ (hlow _ (by omega))
    · rename_i hne
      exact hfile _ (hsource.resolve_left hne).2
  have hopen : ∀ source, Movable t pipes source →
      source = -1 ∨ (c.file source).isSome = true := by
    rintro source (hnone | ⟨hopen, hmem⟩)
    · exact Or.inl hnone
    · rw [hfile source hmem]
      exact Or.inr hopen
  have hopen1 : fd.stdout = -1 ∨ ((redirect fd.stdin 0 c).file fd.stdout).isSome = true :=
    (hopen _ hstdout).imp_right (isSome_redirect (hopen _ hstdin))
  have hopen2 : fd.stderr = -1 ∨
      ((redirect fd.stdout 1 (redirect fd.stdin 0 c)).file fd.stderr).isSome = true :=
    (hopen _ hstderr).imp_right
      (fun h => isSome_redirect hopen1 (isSome_redirect (hopen _ hstdin) h))
  have hzero : (redirect fd.stdin 0 c).file 0 = wanted t fd.stdin 0 := by
    rw [← hbefore _ hstdin 0 (by omega)]
    exact file_redirect_self (hopen _ hstdin)
  have hone : (redirect fd.stdout 1 (redirect fd.stdin 0 c)).file 1 =
      if fd.stdout = 0 then wanted t fd.stdin 0 else wanted t fd.stdout 1 := by
    rw [← hbefore _ hstdin 0 (by omega), ← hbefore _ hstdout 1 (by omega)]
    exact (file_redirect_self hopen1).trans (wanted_redirect (hopen _ hstdin) (by omega))
  have htwo : (redirect fd.stderr 2 (redirect fd.stdout 1 (redirect fd.stdin 0 c))).file 2 =
      if fd.stderr = 1 then (redirect fd.stdout 1 (redirect fd.stdin 0 c)).file 1
      else if fd.stderr = 0 then wanted t fd.stdin 0 else wanted t fd.stderr 2 := by
    have hself : (redirect fd.stdout 1 (redirect fd.stdin 0 c)).file 1 =
        wanted (redirect fd.stdin 0 c) fd.stdout 1 := file_redirect_self hopen1
    have hfirst : wanted (redirect fd.stdin 0 c) fd.stderr 2 =
        if fd.stderr = 0 then wanted c fd.stdin 0 else wanted c fd.stderr 2 :=
      wanted_redirect (hopen _ hstdin) (by omega)
    rw [← hbefore _ hstdin 0 (by omega), ← hbefore _ hstderr 2 (by omega), hself, ← hfirst]
    exact (file_redirect_self hopen2).trans (wanted_redirect hopen1 (by omega))
  refine ⟨?_, ?_, ?_⟩
  · rw [file_redirect_other (by omega), file_redirect_other (by omega)]
    exact hzero
  · rw [file_redirect_other (by omega)]
    exact hone
  · rw [htwo]
    split
    · exact (file_redirect_other (by omega)).symm
    · rfl

/-- The child finds the files that it is to find if and only if no move takes
away what a later one needs. -/
theorem childContract_iff (habove : ∀ i, pipes.Mem i → 2 < i)
    (hopen : (t.file pipes.child2parentWrite).isSome = true)
    (hstdin : Movable t pipes fd.stdin) (hstdout : Movable t pipes fd.stdout)
    (hstderr : Movable t pipes fd.stderr) (dtablesize : Nat) :
    ChildContract t (childDescriptors pipes fd dtablesize t) pipes fd dtablesize ↔
      Undisturbed t fd := by
  obtain ⟨hzero, hone, htwo⟩ := file_standard habove hstdin hstdout hstderr dtablesize
  have hout : fd.stdout = 0 → wanted t fd.stdout 1 = t.file 0 := by
    intro heq
    simp [wanted, heq]
  have herr0 : fd.stderr = 0 → wanted t fd.stderr 2 = t.file 0 := by
    intro heq
    simp [wanted, heq]
  have herr1 : fd.stderr = 1 → wanted t fd.stderr 2 = t.file 1 := by
    intro heq
    simp [wanted, heq]
  constructor
  · intro hcontract
    refine { zero := ?_, one := ?_ }
    · rintro (heq | heq)
      · rw [← hout heq, ← hcontract.stdout, hone, if_pos heq]
      · rw [← herr0 heq, ← hcontract.stderr, htwo, if_neg (by omega), if_pos heq]
    · intro heq
      rw [← herr1 heq, ← hcontract.stderr, htwo, if_pos heq, hcontract.stdout]
  · intro hfine
    have hstdoutFile : (childDescriptors pipes fd dtablesize t).file 1 =
        wanted t fd.stdout 1 := by
      rw [hone]
      split
      · rename_i heq
        rw [hout heq, hfine.zero (Or.inl heq)]
      · rfl
    refine
      { stdin := hzero, stdout := hstdoutFile, stderr := ?_,
        others := others_childDescriptors hopen hstdin hstdout hstderr dtablesize }
    rw [htwo]
    split
    · rename_i heq
      rw [hstdoutFile, herr1 heq, hfine.one heq]
    · split
      · rename_i heq
        rw [herr0 heq, hfine.zero (Or.inr heq)]
      · rfl

/-- A parent with the descriptors 0 to 9 open, each with a file of its own. -/
def tenFiles : DescriptorTable Nat where
  file := fun fd => if 0 ≤ fd ∧ fd ≤ 9 then some fd.toNat else none
  negative := by
    intro fd hfd
    rw [if_neg (by omega)]

/-- The pipes of its handshake. -/
def firstPipes : HandshakePipes where
  child2parentRead := 3
  child2parentWrite := 4
  parent2childRead := 5
  parent2childWrite := 6
  distinct := by decide

theorem firstPipes_above (i : Int) (h : firstPipes.Mem i) : 2 < i := by
  rcases h with h | h | h | h <;> rw [h] <;> decide

theorem movable_tenFiles {fd : Int} (h : fd = -1 ∨ fd = 0 ∨ fd = 1 ∨ fd = 2 ∨ fd = 7) :
    Movable tenFiles firstPipes fd := by
  rcases h with rfl | rfl | rfl | rfl | rfl
  · exact Or.inl rfl
  all_goals
    refine Or.inr ⟨by decide, ?_⟩
    rintro (h | h | h | h) <;> cases h

/-- Standard output is a pipe with the descriptor 7 to write to, and standard error
is the standard output of the parent.  The child writes its errors to the pipe. -/
theorem stderr_follows_stdout :
    standardDescriptors none (some (.pipe 8 7)) (some (.fileHandle 1)) = .ok ⟨-1, 7, 1⟩ ∧
      (∀ i, firstPipes.Mem i → 2 < i) ∧
      (tenFiles.file firstPipes.child2parentWrite).isSome = true ∧
      Movable tenFiles firstPipes (-1) ∧ Movable tenFiles firstPipes 7 ∧
      Movable tenFiles firstPipes 1 ∧ wanted tenFiles 1 2 = some 1 ∧
      (childDescriptors firstPipes ⟨-1, 7, 1⟩ 16 tenFiles).file 2 = some 7 := by
  refine ⟨rfl, firstPipes_above, rfl, movable_tenFiles (by simp), movable_tenFiles (by simp),
    movable_tenFiles (by simp), rfl, ?_⟩
  decide

/-- Standard output and standard error both go to descriptor 7. -/
theorem childContract_iff_shared :
    ChildContract tenFiles (childDescriptors firstPipes ⟨-1, 7, 7⟩ 16 tenFiles) firstPipes
      ⟨-1, 7, 7⟩ 16 := by
  refine (childContract_iff firstPipes_above rfl (movable_tenFiles (by simp))
    (movable_tenFiles (by simp)) (movable_tenFiles (by simp)) 16).mpr ?_
  exact { zero := by decide, one := by decide }

end BromiumCoreUtils
