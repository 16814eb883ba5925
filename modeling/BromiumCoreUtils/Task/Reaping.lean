import BromiumCoreUtils.Task.ExitHandler
import BromiumCoreUtils.Task.Parent

/-!
# The children that launches leave behind

A child that has exited stays a zombie until its parent calls `waitpid` on it.
The only call is in the event handler that `launchWithError:` installs, and it
installs that handler when it returns `YES`: a launch that fails after its `fork`
gives its source an empty one.

`ForkedChildren` is a process that launches tasks, one after the other, whose
children exit and whose handlers run in between.  `no_zombie_iff` says which
launches leave no zombie behind.
-/

namespace BromiumCoreUtils

open Machine

namespace ParentLaunch

/-- An event handler that calls `waitpid` on this child is installed. -/
def Watches (pid : Int) (source : Option ExitSource) : Prop :=
  source = some ⟨pid, some .waitpid, true⟩

instance (pid : Int) (source : Option ExitSource) : Decidable (Watches pid source) :=
  inferInstanceAs (Decidable (_ = _))

/-- The child will be waited for, or has been. -/
def WaitsFor (pid : Int) (s : ParentLaunch) : Prop :=
  Watches pid s.childExitedSrc ∨ .waitpid pid ∈ s.calls

end ParentLaunch

/-- A child that a launch has forked. -/
structure ForkedChild where
  processIdentifier : Int
  childExitedSrc : Option ExitSource
  exited : Bool
  /-- `waitpid` has given the child back to the kernel. -/
  reaped : Bool
deriving DecidableEq, Repr

/-- The handler of the child's exit calls `waitpid`. -/
def ForkedChild.Watched (child : ForkedChild) : Prop :=
  ParentLaunch.Watches child.processIdentifier child.childExitedSrc

instance (child : ForkedChild) : Decidable child.Watched :=
  inferInstanceAs (Decidable (ParentLaunch.Watches _ _))

/-- The child is reaped, or its handler will see to it. -/
def ForkedChild.Covered (child : ForkedChild) : Prop :=
  child.Watched ∨ child.reaped = true

/-- A process that launches tasks, with the children in the order of the launches. -/
structure ForkedChildren where
  children : List ForkedChild
deriving DecidableEq, Repr

namespace ForkedChildren

inductive Event where
  /-- A new task is launched. -/
  | launch (objects : StandardObjects) (o : LaunchOutcomes)
  /-- A child exits. -/
  | exit (i : Nat)
  /-- The event handler for the exit of a child calls `waitpid`. -/
  | waitpid (i : Nat) (err_wp : WaitpidResult)

def initial : ForkedChildren := ⟨[]⟩

/-- The child of a launch, if there is one. -/
def forkedBy (s : ParentLaunch) : List ForkedChild :=
  match s.processIdentifier with
  | some pid => [⟨pid, s.childExitedSrc, false, decide (.waitpid pid ∈ s.calls)⟩]
  | none => []

/-- What a `waitpid` does to a child that has exited.  It can be interrupted or come too
early, but it cannot fail. -/
def wait (err_wp : WaitpidResult) (child : ForkedChild) : Exec Assertion ForkedChild :=
  match err_wp with
  | .pid _ => pure { child with reaped := true }
  | .zero => pure child
  | .error errno => do
    enabledIf (errno = EINTR)
    pure child

def step (t : ForkedChildren) : Event → Exec Assertion ForkedChildren
  | .launch objects o => do
    let s ← ParentLaunch.launchWithError objects o
    pure { t with children := t.children ++ forkedBy s }
  | .exit i =>
    match t.children[i]? with
    | none => .error .disabled
    | some child => do
      enabledIf (child.exited = false)
      pure { t with children := t.children.set i { child with exited := true } }
  | .waitpid i err_wp =>
    match t.children[i]? with
    | none => .error .disabled
    | some child => do
      enabledIf (child.Watched ∧ child.exited = true ∧ child.reaped = false)
      let child' ← wait err_wp child
      pure { t with children := t.children.set i child' }

/-- A launch that forks starts its program. -/
def LaunchesStart (_ : ForkedChildren) : Event → Prop
  | .launch _ o => (∃ pipes pid, o.pipes = .created pipes ∧ o.fork = .pid pid) → o.Started
  | _ => True

/-- Child `i` is reaped after its exit: from then on, whatever happens, a handler can
reap it, until one has. -/
def EventuallyReaped (t : ForkedChildren) (i : Nat) : Prop :=
  ∀ t' child, Reachable step t t' → t'.children[i]? = some child → child.exited = true →
    child.reaped = true ∨ ∀ wp_status, ∃ t'' child',
      step t' (.waitpid i (.pid wp_status)) = .ok t'' ∧ t''.children[i]? = some child' ∧
        child'.reaped = true

/-! ## One launch -/

section Launch

variable {objects : StandardObjects} {o : LaunchOutcomes} {s : ParentLaunch}

/-- No call of a launch is a `waitpid`. -/
theorem waitpid_not_mem_closed (objects : StandardObjects) (pid : Int) :
    .waitpid pid ∉ objects.closed := by
  have hstandard : ∀ obj writeMode, .waitpid pid ∉ closedStandard obj writeMode := by
    intro obj writeMode
    unfold closedStandard
    split
    · split <;> simp
    · simp
  simp [StandardObjects.closed, hstandard]

/-- Whether a launch forked is what its caller can read off `processIdentifier`. -/
theorem forks_iff (hlaunch : ParentLaunch.launchWithError objects o = .ok s) :
    (∃ pipes pid, o.pipes = .created pipes ∧ o.fork = .pid pid) ↔
      ∃ pid, s.processIdentifier = some pid := by
  cases ParentLaunch.launch_returns hlaunch with
  | child2parentFails hpipes hpid _ _ _ => simp [hpipes, hpid]
  | parent2childFails hpipes hpid _ _ _ => simp [hpipes, hpid]
  | forkFails _ hfork hpid _ _ _ => simp [hfork, hpid]
  | forked hpipes hfork hpid _ _ _ _ => simp [hpipes, hfork, hpid]

/-- A launch that has forked leaves somebody to wait for its child if and only if the
program was started. -/
theorem waitsFor_iff {pid : Int} (hlaunch : ParentLaunch.launchWithError objects o = .ok s)
    (hchild : s.processIdentifier = some pid) : s.WaitsFor pid ↔ o.Started := by
  cases ParentLaunch.launch_returns hlaunch with
  | child2parentFails _ hpid | parent2childFails _ hpid | forkFails _ _ hpid =>
    rw [hpid] at hchild
    cases hchild
  | @forked pipes pid' _ _ hpid hcalls hsource hcreated hanswer =>
    obtain rfl : pid' = pid := by
      rw [hpid] at hchild
      exact Option.some.inj hchild
    have hnone : .waitpid pid' ∉ s.calls := by
      rw [hcalls]
      cases s.answer with
      | true => simp [waitpid_not_mem_closed]
      | false => simp
    rw [ParentLaunch.WaitsFor, or_iff_left hnone, ParentLaunch.Watches, hsource, ← hanswer]
    cases hyes : s.answer with
    | true => simp [hcreated hyes]
    | false => cases o.sourceCreated <;> simp

/-- The children of a launch are covered if and only if it starts its program. -/
theorem covered_forkedBy (t : ForkedChildren)
    (hlaunch : ParentLaunch.launchWithError objects o = .ok s) :
    (∀ child ∈ forkedBy s, child.Covered) ↔ LaunchesStart t (.launch objects o) := by
  have hforks := forks_iff hlaunch
  cases hchild : s.processIdentifier with
  | none =>
    have hnot : ¬ ∃ pipes pid, o.pipes = .created pipes ∧ o.fork = .pid pid := by
      rw [hforks, hchild]
      simp
    rw [forkedBy, hchild]
    exact ⟨fun _ hforked => absurd hforked hnot, fun _ child hmem => by cases hmem⟩
  | some pid =>
    rw [LaunchesStart, imp_iff_right (hforks.mpr ⟨pid, hchild⟩), ← waitsFor_iff hlaunch hchild,
      forkedBy, hchild]
    simp [ForkedChild.Covered, ForkedChild.Watched, ParentLaunch.WaitsFor]

end Launch

/-! ## The steps -/

section Steps

variable {t t' : ForkedChildren} {e : Event} {i : Nat} {child : ForkedChild}

/-- What a step does to a child: it keeps its handler, and only a child that is watched is
reaped. -/
structure Later (child child' : ForkedChild) : Prop where
  processIdentifier : child'.processIdentifier = child.processIdentifier
  childExitedSrc : child'.childExitedSrc = child.childExitedSrc
  exited : child.exited = true → child'.exited = true
  reaped : child.reaped = true → child'.reaped = true
  watched : child'.reaped = true → child.reaped = true ∨ child.Watched

theorem Later.refl (child : ForkedChild) : Later child child where
  processIdentifier := rfl
  childExitedSrc := rfl
  exited := id
  reaped := id
  watched := Or.inl

theorem Later.watched_iff {child' : ForkedChild} (h : Later child child') :
    child'.Watched ↔ child.Watched := by
  rw [ForkedChild.Watched, ForkedChild.Watched, h.processIdentifier, h.childExitedSrc]

theorem Later.covered_iff {child' : ForkedChild} (h : Later child child') :
    child'.Covered ↔ child.Covered := by
  rw [ForkedChild.Covered, ForkedChild.Covered, h.watched_iff]
  constructor
  · rintro (hwatched | hreaped)
    · exact Or.inl hwatched
    · exact (h.watched hreaped).symm
  · exact Or.imp_right h.reaped

theorem Later.trans {child' child'' : ForkedChild} (h : Later child child')
    (h' : Later child' child'') : Later child child'' where
  processIdentifier := h'.processIdentifier.trans h.processIdentifier
  childExitedSrc := h'.childExitedSrc.trans h.childExitedSrc
  exited hexited := h'.exited (h.exited hexited)
  reaped hreaped := h'.reaped (h.reaped hreaped)
  watched hreaped := by
    rcases h'.watched hreaped with hreaped | hwatched
    · exact h.watched hreaped
    · exact Or.inr (h.watched_iff.mp hwatched)

theorem Later.of_exit : Later child { child with exited := true } where
  processIdentifier := rfl
  childExitedSrc := rfl
  exited _ := rfl
  reaped := id
  watched := Or.inl

theorem Later.of_wait {child' : ForkedChild} {err_wp : WaitpidResult} (hwatched : child.Watched)
    (h : wait err_wp child = .ok child') : Later child child' := by
  cases err_wp with
  | pid wp_status =>
    obtain rfl := pure_eq_ok.mp h
    exact
      { processIdentifier := rfl, childExitedSrc := rfl, exited := id, reaped := fun _ => rfl,
        watched := fun _ => Or.inr hwatched }
  | zero =>
    obtain rfl := pure_eq_ok.mp h
    exact .refl child
  | error errno =>
    simp only [wait, bind_eq_ok, enabledIf_eq_ok, pure_eq_ok] at h
    obtain ⟨_, _, rfl⟩ := h
    exact .refl child

/-- A step adds the children of a launch, or does something to one child. -/
theorem step_cases (h : step t e = .ok t') :
    (∃ objects o s, e = .launch objects o ∧
      ParentLaunch.launchWithError objects o = .ok s ∧
      t'.children = t.children ++ forkedBy s) ∨
    (LaunchesStart t e ∧ ∃ j child child', t.children[j]? = some child ∧
      Later child child' ∧ t'.children = t.children.set j child') := by
  cases e with
  | launch objects o =>
    simp only [step, bind_eq_ok, pure_eq_ok] at h
    obtain ⟨s, hlaunch, rfl⟩ := h
    exact Or.inl ⟨objects, o, s, rfl, hlaunch, rfl⟩
  | exit j =>
    cases hj : t.children[j]? with
    | none => simp [step, hj] at h
    | some child =>
      simp only [step, hj, bind_eq_ok, enabledIf_eq_ok, pure_eq_ok] at h
      obtain ⟨_, _, rfl⟩ := h
      exact Or.inr ⟨trivial, j, child, _, hj, .of_exit, rfl⟩
  | waitpid j err_wp =>
    cases hj : t.children[j]? with
    | none => simp [step, hj] at h
    | some child =>
      simp only [step, hj, bind_eq_ok, enabledIf_eq_ok, pure_eq_ok] at h
      obtain ⟨_, ⟨hwatched, _, _⟩, child', hwait, rfl⟩ := h
      exact Or.inr ⟨trivial, j, child, child', hj, .of_wait hwatched hwait, rfl⟩

/-- A child stays where it is in the list. -/
theorem step_later (h : step t e = .ok t') (hi : t.children[i]? = some child) :
    ∃ child', t'.children[i]? = some child' ∧ Later child child' := by
  rcases step_cases h with ⟨objects, o, s, _, _, hchildren⟩ |
    ⟨_, j, childj, child', hj, hlater, hchildren⟩
  · have hlt : i < t.children.length := (List.getElem?_eq_some_iff.mp hi).1
    refine ⟨child, ?_, .refl child⟩
    rw [hchildren, List.getElem?_append_left hlt, hi]
  · rw [hchildren]
    by_cases heq : j = i
    · rw [heq] at hj ⊢
      obtain rfl : childj = child := by
        rw [hi] at hj
        exact (Option.some.inj hj).symm
      have hlt : i < t.children.length := (List.getElem?_eq_some_iff.mp hi).1
      exact ⟨child', List.getElem?_set_self hlt, hlater⟩
    · exact ⟨child, by rw [List.getElem?_set_ne heq, hi], .refl child⟩

theorem later_of_reachable (h : Reachable step t t') (hi : t.children[i]? = some child) :
    ∃ child', t'.children[i]? = some child' ∧ Later child child' := by
  refine h.invariant
    (I := fun t' => ∃ child', t'.children[i]? = some child' ∧ Later child child')
    ⟨child, hi, .refl child⟩ ?_
  rintro m e n _ ⟨child', hm, hlater⟩ hstep
  obtain ⟨child'', hn, hlater'⟩ := step_later hstep hm
  exact ⟨child'', hn, hlater.trans hlater'⟩

/-- A child that took a step can stand for itself. -/
theorem covered_set {child' : ForkedChild} (hlater : Later child child') :
    ∀ {children : List ForkedChild} {j : Nat}, children[j]? = some child →
      ((∀ c ∈ children.set j child', c.Covered) ↔ ∀ c ∈ children, c.Covered) := by
  intro children
  induction children with
  | nil => intro j hj; cases hj
  | cons c children ih =>
    intro j hj
    cases j with
    | zero =>
      obtain rfl : c = child := by simpa using hj
      simp only [List.set_cons_zero, List.forall_mem_cons, hlater.covered_iff]
    | succ j =>
      have hj' : children[j]? = some child := by simpa using hj
      simp only [List.set_cons_succ, List.forall_mem_cons, ih hj']

/-- Every child is covered after a step if they were before and the step is no launch that
fails with a child. -/
theorem step_covered (h : step t e = .ok t') :
    (∀ child ∈ t'.children, child.Covered) ↔
      (∀ child ∈ t.children, child.Covered) ∧ LaunchesStart t e := by
  rcases step_cases h with ⟨objects, o, s, rfl, hlaunch, hchildren⟩ |
    ⟨hstart, j, child, child', hj, hlater, hchildren⟩
  · rw [hchildren, ← covered_forkedBy t hlaunch]
    simp only [List.mem_append]
    constructor
    · intro hall
      exact ⟨fun child hmem => hall child (Or.inl hmem), fun child hmem => hall child (Or.inr hmem)⟩
    · rintro ⟨hbefore, hnew⟩ child (hmem | hmem)
      · exact hbefore child hmem
      · exact hnew child hmem
  · rw [hchildren, covered_set hlater hj, and_iff_left hstart]

/-- The run lemma: covered are the children of the launches that start their programs. -/
theorem run_covered {events : List Event} (hrun : run step t events = .ok t') :
    (∀ child ∈ t'.children, child.Covered) ↔
      (∀ child ∈ t.children, child.Covered) ∧ AllSteps step LaunchesStart t events := by
  induction events generalizing t with
  | nil =>
    obtain rfl : t = t' := by simpa using hrun
    simp [AllSteps]
  | cons e events ih =>
    obtain ⟨m, hm, hrest⟩ := run_cons_eq_ok.mp hrun
    rw [ih hrest, step_covered hm, and_assoc]
    apply and_congr_right
    intro _
    constructor
    · rintro ⟨hstart, hall⟩
      exact .cons hstart hm hall
    · rintro ⟨hstart, hall⟩
      exact ⟨hstart, hall m hm⟩

/-! ## What becomes of a child -/

/-- A child that is not covered stays a zombie after its exit. -/
theorem covered_of_eventuallyReaped (hi : t.children[i]? = some child)
    (h : t.EventuallyReaped i) : child.Covered := by
  have hlt : i < t.children.length := (List.getElem?_eq_some_iff.mp hi).1
  -- The state in which the child has exited.
  obtain ⟨t₁, child₁, hreach, hi₁, hlater, hexited⟩ : ∃ t₁ child₁, Reachable step t t₁ ∧
      t₁.children[i]? = some child₁ ∧ Later child child₁ ∧ child₁.exited = true := by
    by_cases hexited : child.exited = true
    · exact ⟨t, child, Reachable.refl t, hi, .refl child, hexited⟩
    · have hstep : step t (.exit i) =
          .ok { t with children := t.children.set i { child with exited := true } } := by
        simp [step, hi, enabledIf, hexited]
      exact ⟨_, _, (Reachable.refl t).next hstep, List.getElem?_set_self hlt, .of_exit, rfl⟩
  rw [← hlater.covered_iff]
  rcases h t₁ child₁ hreach hi₁ hexited with hreaped | hwait
  · exact Or.inr hreaped
  · obtain ⟨t₂, _, hstep, _, _⟩ := hwait 0
    simp only [step, hi₁, bind_eq_ok, enabledIf_eq_ok] at hstep
    obtain ⟨_, ⟨hwatched, _, _⟩, _⟩ := hstep
    exact Or.inl hwatched

theorem eventuallyReaped_of_covered (hi : t.children[i]? = some child)
    (h : child.Covered) : t.EventuallyReaped i := by
  intro t' child' hreach hi' hexited
  obtain ⟨later, hlater_i, hlater⟩ := later_of_reachable hreach hi
  obtain rfl : later = child' := by
    rw [hi'] at hlater_i
    exact (Option.some.inj hlater_i).symm
  rcases hlater.covered_iff.mpr h with hwatched | hreaped
  · by_cases hreaped : later.reaped = true
    · exact Or.inl hreaped
    · refine Or.inr fun wp_status => ?_
      have hlt : i < t'.children.length := (List.getElem?_eq_some_iff.mp hi').1
      have hstep : step t' (.waitpid i (.pid wp_status)) =
          .ok { t' with children := t'.children.set i { later with reaped := true } } := by
        simp [step, hi', enabledIf, hwatched, hexited, hreaped, wait]
      exact ⟨_, _, hstep, List.getElem?_set_self hlt, rfl⟩
  · exact Or.inl hreaped

end Steps

/-! ## No zombie -/

/-- After a run, every child will be reaped exactly when every launch of the run started its
program.  For a launch by itself this says whether somebody waits for its child. -/
theorem no_zombie_iff {events : List Event} {t : ForkedChildren}
    (hrun : run step initial events = .ok t) :
    (∀ objects o s pid, ParentLaunch.launchWithError objects o = .ok s →
      s.processIdentifier = some pid → (s.WaitsFor pid ↔ o.Started)) ∧
    ((∀ i < t.children.length, t.EventuallyReaped i) ↔
      AllSteps step LaunchesStart initial events) := by
  refine ⟨fun objects o s pid hlaunch hchild => waitsFor_iff hlaunch hchild, ?_⟩
  have hcovered : (∀ child ∈ t.children, child.Covered) ↔
      AllSteps step LaunchesStart initial events := by
    rw [run_covered hrun]
    exact and_iff_right fun child hmem => by cases hmem
  rw [← hcovered]
  constructor
  · intro hreaped child hmem
    obtain ⟨i, hi⟩ := List.mem_iff_getElem?.mp hmem
    have hlt : i < t.children.length := (List.getElem?_eq_some_iff.mp hi).1
    exact covered_of_eventuallyReaped hi (hreaped i hlt)
  · intro hall i hlt
    have hi : t.children[i]? = some t.children[i] := List.getElem?_eq_getElem hlt
    exact eventuallyReaped_of_covered hi (hall _ (List.getElem_mem hlt))

/-! ### Two launches -/

/-- The program starts, after a `read` that was interrupted. -/
def starts : LaunchOutcomes where
  pipes := .created firstPipes
  fork := .pid 70
  sourceCreated := true
  write := .one
  reads := [.error EINTR, .zero]

/-- There is nothing at the launch path: the child sends `ENOENT` and exits. -/
def noSuchFile : LaunchOutcomes where
  pipes := .created firstPipes
  fork := .pid 71
  sourceCreated := true
  write := .one
  reads := [.bytes 4 2]

theorem no_zombie_starts : ∃ s t,
    ParentLaunch.launchWithError ⟨none, none, none⟩ starts = .ok s ∧ s.WaitsFor 70 ∧
      run step initial [.launch ⟨none, none, none⟩ starts, .exit 0, .waitpid 0 (.error EINTR),
        .waitpid 0 (.pid 0)] = .ok t ∧ ∀ i < t.children.length, t.EventuallyReaped i := by
  obtain ⟨s, hlaunch, hchild⟩ : ∃ s,
      ParentLaunch.launchWithError ⟨none, none, none⟩ starts = .ok s ∧
        s.processIdentifier = some 70 := ⟨_, rfl, rfl⟩
  obtain ⟨t, hrun⟩ : ∃ t,
      run step initial [.launch ⟨none, none, none⟩ starts, .exit 0, .waitpid 0 (.error EINTR),
        .waitpid 0 (.pid 0)] = .ok t := ⟨_, rfl⟩
  have hstarted : starts.Started := ⟨rfl, rfl⟩
  refine ⟨s, t, hlaunch, ((no_zombie_iff hrun).1 _ _ s 70 hlaunch hchild).mpr hstarted, hrun, ?_⟩
  apply (no_zombie_iff hrun).2.mpr
  exact .cons (fun _ => hstarted) rfl (.cons trivial rfl (.cons trivial rfl (.cons trivial rfl
    trivial)))

/-- The child of a launch that failed has exited, and stays. -/
theorem zombie_of_noSuchFile : ∃ s t,
    ParentLaunch.launchWithError ⟨none, none, none⟩ noSuchFile = .ok s ∧
      s.answer = false ∧ s.processIdentifier = some 71 ∧ ¬ s.WaitsFor 71 ∧
      run step initial [.launch ⟨none, none, none⟩ noSuchFile, .exit 0] = .ok t ∧
      ¬ t.EventuallyReaped 0 := by
  refine ⟨_, _, rfl, rfl, rfl, ?_, rfl, ?_⟩
  · rintro (hwatches | hcalled)
    · cases hwatches
    · revert hcalled
      decide
  · intro hreaped
    rcases covered_of_eventuallyReaped rfl hreaped with hwatched | hreaped
    · cases hwatched
    · cases hreaped

end ForkedChildren

end BromiumCoreUtils
