import BromiumCoreUtils.Task.Parent

/-!
# The descriptors of a launch in the parent

A launch creates four descriptors for its handshake and may close some of its
caller's.  `DescriptorContract` says what is to be closed when `launchWithError:`
returns, and `descriptorContract_iff` that one failure is in the way: after a
`fork` that fails nothing closes the two pipes.
-/

namespace BromiumCoreUtils

open Machine

/-! ## What a launch creates and closes -/

/-- The descriptors that the calls of `pipe` created. -/
def createdBy (calls : List ParentCall) : List Int :=
  calls.flatMap fun
    | .pipe readEnd writeEnd => [readEnd, writeEnd]
    | _ => []

/-- The descriptors that were closed, once for each time. -/
def closedBy (calls : List ParentCall) : List Int :=
  calls.filterMap fun
    | .close fd => some fd
    | .closeFile fd => some fd
    | _ => none

/-- The descriptor is the child's end of a pipe that the caller gave. -/
def StandardObjects.ChildSide (objects : StandardObjects) (fd : Int) : Prop :=
  childSideEnd objects.standardInput false = some fd ∨
    childSideEnd objects.standardOutput true = some fd ∨
    childSideEnd objects.standardError true = some fd

/-- What a launch is to close. -/
structure DescriptorContract (objects : StandardObjects) (s : ParentLaunch) : Prop where
  /-- The pipes of the handshake, each of their descriptors once, -/
  pipes : ∀ fd ∈ createdBy s.calls, (closedBy s.calls).count fd = 1
  /-- and of all the others the ends that went to the child, if it was started. -/
  caller : ∀ fd, fd ∉ createdBy s.calls →
    (fd ∈ closedBy s.calls ↔ s.answer = true ∧ 2 < fd ∧ objects.ChildSide fd)

namespace LaunchOutcomes

/-- `fork` fails, and the pipes are there. -/
def ForkFails (o : LaunchOutcomes) : Prop :=
  (∃ pipes, o.pipes = .created pipes) ∧ ∃ errno, o.fork = .error errno

/-- The pipes are new: none of their descriptors is one that the caller gave. -/
def Fresh (o : LaunchOutcomes) (objects : StandardObjects) : Prop :=
  ∀ pipes, o.pipes = .created pipes → ∀ fd, objects.ChildSide fd → ¬ pipes.Mem fd

end LaunchOutcomes

theorem closedBy_append (calls calls' : List ParentCall) :
    closedBy (calls ++ calls') = closedBy calls ++ closedBy calls' :=
  List.filterMap_append

theorem mem_closedStandard {obj : Option StandardObject} {writeMode : Bool} {fd : Int} :
    fd ∈ closedBy (closedStandard obj writeMode) ↔
      2 < fd ∧ childSideEnd obj writeMode = some fd := by
  unfold closedStandard
  cases childSideEnd obj writeMode with
  | none => simp [closedBy]
  | some fd' =>
    by_cases h : 2 < fd'
    · simp only [if_pos h, closedBy, List.filterMap_cons, List.filterMap_nil,
        List.mem_singleton, Option.some.injEq]
      omega
    · simp only [if_neg h, closedBy, List.filterMap_nil, List.not_mem_nil,
        Option.some.injEq, false_iff, not_and]
      omega

/-- What the parent closes for the child. -/
theorem mem_closed {objects : StandardObjects} {fd : Int} :
    fd ∈ closedBy objects.closed ↔ 2 < fd ∧ objects.ChildSide fd := by
  rw [StandardObjects.closed, closedBy_append, closedBy_append, List.mem_append,
    List.mem_append, mem_closedStandard, mem_closedStandard, mem_closedStandard,
    StandardObjects.ChildSide]
  tauto

theorem createdBy_append (calls calls' : List ParentCall) :
    createdBy (calls ++ calls') = createdBy calls ++ createdBy calls' :=
  List.flatMap_append

theorem createdBy_closed (objects : StandardObjects) : createdBy objects.closed = [] := by
  have hstandard : ∀ obj writeMode, createdBy (closedStandard obj writeMode) = [] := by
    intro obj writeMode
    unfold closedStandard
    split
    · split <;> rfl
    · rfl
  rw [StandardObjects.closed, createdBy_append, createdBy_append, hstandard, hstandard,
    hstandard]
  rfl

/-! ## The contract -/

section Pipes

variable (pipes : HandshakePipes) (fd : Int)

/-- The calls of `close` in the parent branch. -/
def HandshakePipes.closes : List Int :=
  [pipes.parent2childRead, pipes.child2parentWrite, pipes.parent2childWrite,
    pipes.child2parentRead]

theorem HandshakePipes.mem_closes : fd ∈ pipes.closes ↔ pipes.Mem fd := by
  simp only [closes, Mem, List.mem_cons, List.not_mem_nil, or_false]
  tauto

/-- Each descriptor of the pipes is closed once. -/
theorem HandshakePipes.count_closes (h : pipes.Mem fd) : pipes.closes.count fd = 1 := by
  have hdistinct := pipes.distinct
  have hnodup : pipes.closes.Nodup := by
    simp only [closes, List.nodup_cons, List.mem_cons, List.not_mem_nil, not_or, or_false,
      not_false_eq_true, List.nodup_nil, and_true] at hdistinct ⊢
    omega
  exact List.count_eq_one_of_mem hnodup ((pipes.mem_closes fd).mpr h)

end Pipes

section Cases

variable {objects : StandardObjects} {s : ParentLaunch} {pipes : HandshakePipes}

/-- A second `pipe` that fails leaves nothing open. -/
theorem contract_of_parent2childFails {child2parentRead child2parentWrite : Int}
    (distinct : child2parentRead ≠ child2parentWrite)
    (hcalls : s.calls = [.pipe child2parentRead child2parentWrite, .close child2parentRead,
      .close child2parentWrite]) (hanswer : s.answer = false) : DescriptorContract objects s where
  pipes := by
    rw [hcalls]
    intro fd hfd
    have hnodup : [child2parentRead, child2parentWrite].Nodup := by
      simpa using distinct
    exact List.count_eq_one_of_mem hnodup hfd
  caller := by
    rw [hcalls, hanswer]
    intro fd hfd
    constructor
    · intro hclosed
      exact absurd hclosed hfd
    · rintro ⟨hyes, _⟩
      cases hyes

/-- A `fork` that fails leaves both pipes open. -/
theorem not_contract_of_forkFails
    (hcalls : s.calls = [.pipe pipes.child2parentRead pipes.child2parentWrite,
      .pipe pipes.parent2childRead pipes.parent2childWrite]) :
    ¬ DescriptorContract objects s := by
  intro hcontract
  have hone := hcontract.pipes pipes.child2parentRead (by rw [hcalls]; simp [createdBy])
  rw [hcalls] at hone
  simp [closedBy] at hone

/-- Once there is a child, everything is closed that has to be. -/
theorem contract_of_forked {pid : Int}
    (hfresh : ∀ fd, objects.ChildSide fd → ¬ pipes.Mem fd)
    (hcalls : s.calls = [.pipe pipes.child2parentRead pipes.child2parentWrite,
        .pipe pipes.parent2childRead pipes.parent2childWrite, .fork pid,
        .close pipes.parent2childRead, .close pipes.child2parentWrite,
        .close pipes.parent2childWrite, .close pipes.child2parentRead] ++
      if s.answer then objects.closed else []) : DescriptorContract objects s := by
  have hcreated : ∀ fd, fd ∈ createdBy s.calls ↔ pipes.Mem fd := by
    intro fd
    have hnone : createdBy (if s.answer then objects.closed else []) = [] := by
      split
      · exact createdBy_closed objects
      · rfl
    rw [hcalls, createdBy_append, hnone, List.append_nil]
    simp [createdBy, HandshakePipes.Mem]
  have hclosed : closedBy s.calls =
      pipes.closes ++ if s.answer then closedBy objects.closed else [] := by
    rw [hcalls, closedBy_append]
    cases s.answer <;> rfl
  refine { pipes := ?_, caller := ?_ }
  · intro fd hfd
    have hmem := (hcreated fd).mp hfd
    have hnot : fd ∉ (if s.answer then closedBy objects.closed else []) := by
      split
      · intro hfile
        exact hfresh fd (mem_closed.mp hfile).2 hmem
      · exact List.not_mem_nil
    rw [hclosed, List.count_append, pipes.count_closes fd hmem,
      List.count_eq_zero_of_not_mem hnot]
  · intro fd hfd
    have hnot : fd ∉ pipes.closes := by
      rw [pipes.mem_closes, ← hcreated]
      exact hfd
    rw [hclosed, List.mem_append, or_iff_right hnot]
    cases s.answer with
    | true => simp [mem_closed]
    | false => simp

end Cases

/-- A launch closes what it is to close if and only if it does not fail in `fork`. -/
theorem descriptorContract_iff {objects : StandardObjects} {o : LaunchOutcomes}
    {s : ParentLaunch} (hfresh : o.Fresh objects)
    (hlaunch : ParentLaunch.launchWithError objects o = .ok s) :
    DescriptorContract objects s ↔ ¬ o.ForkFails := by
  cases ParentLaunch.launch_returns hlaunch with
  | child2parentFails hpipes _ hcalls _ hanswer =>
    have hnot : ¬ o.ForkFails := by simp [LaunchOutcomes.ForkFails, hpipes]
    refine ⟨fun _ => hnot, fun _ => { pipes := ?_, caller := ?_ }⟩
    · rw [hcalls]
      intro fd hfd
      cases hfd
    · intro fd _
      rw [hcalls, hanswer]
      simp [closedBy]
  | @parent2childFails child2parentRead child2parentWrite errno distinct hpipes _ hcalls _
      hanswer =>
    have hnot : ¬ o.ForkFails := by simp [LaunchOutcomes.ForkFails, hpipes]
    exact ⟨fun _ => hnot, fun _ => contract_of_parent2childFails distinct hcalls hanswer⟩
  | @forkFails pipes errno hpipes hfork _ hcalls _ hanswer =>
    have hfails : o.ForkFails := ⟨⟨pipes, hpipes⟩, errno, hfork⟩
    exact ⟨fun hcontract => absurd hcontract (not_contract_of_forkFails hcalls),
      fun hnot => absurd hfails hnot⟩
  | @forked pipes pid hpipes hfork _ hcalls _ _ hanswer =>
    have hnot : ¬ o.ForkFails := by simp [LaunchOutcomes.ForkFails, hfork]
    exact ⟨fun _ => hnot, fun _ => contract_of_forked (hfresh pipes hpipes) hcalls⟩

/-- Standard output is a pipe to read from at 8 and to write to at 9. -/
def pipedOutput : StandardObjects where
  standardInput := none
  standardOutput := some (.pipe 8 9)
  standardError := none

/-- A launch whose `execve` fails, after one interrupted `read`. -/
def execFails : LaunchOutcomes where
  pipes := .created firstPipes
  fork := .pid 70
  sourceCreated := true
  write := .one
  reads := [.error EINTR, .bytes 4 2]

theorem descriptorContract_iff_execFails : ∃ s,
    ParentLaunch.launchWithError pipedOutput execFails = .ok s ∧
      DescriptorContract pipedOutput s := by
  obtain ⟨s, hlaunch⟩ : ∃ s, ParentLaunch.launchWithError pipedOutput execFails = .ok s :=
    ⟨_, rfl⟩
  refine ⟨s, hlaunch, (descriptorContract_iff ?_ hlaunch).mpr ?_⟩
  · intro pipes hpipes fd hside hmem
    obtain rfl : firstPipes = pipes := by injection hpipes
    have hfd : fd = 9 := by
      rcases hside with hside | hside | hside
      · cases hside
      · exact (Option.some.inj hside).symm
      · cases hside
    rw [hfd] at hmem
    rcases hmem with h | h | h | h <;> cases h
  · rintro ⟨_, errno, hfork⟩
    cases hfork

/-- `fork` fails with `EAGAIN`, and the launch returns with four descriptors open. -/
theorem fork_failure_leaks : ∃ s,
    ParentLaunch.launchWithError ⟨none, none, none⟩
        { execFails with fork := .error EAGAIN } = .ok s ∧
      s.answer = false ∧ createdBy s.calls = [3, 4, 5, 6] ∧ closedBy s.calls = [] ∧
      ¬ DescriptorContract ⟨none, none, none⟩ s := by
  refine ⟨_, rfl, rfl, rfl, rfl, ?_⟩
  intro hcontract
  have hone := hcontract.pipes 3 (by decide)
  cases hone

end BromiumCoreUtils
