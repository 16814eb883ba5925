import BromiumCoreUtils.Task.ExitHandler
import Mathlib.Logic.Function.Basic

/-!
# Signals to a task

`interrupt`, `terminate`, `suspend` and `resume` read `running` and then call `kill`,
on the threads of the clients.  The handler of the exit runs in between as it likes:
it may give the child back to the kernel after a thread has read `running`, and for
some steps after that `running` still says `YES`.

`kills_before_reap` says when no signal goes to a process that is not the child any
more, and that nothing weaker will do.
-/

namespace BromiumCoreUtils

open Machine

def SIGINT : Int := 2
def SIGTERM : Int := 15
def SIGSTOP : Int := 17
def SIGCONT : Int := 19

/-- The methods that send a signal to the child. -/
inductive SignalMethod where
  | interrupt
  | terminate
  | suspend
  | resume
deriving DecidableEq, Repr

namespace SignalMethod

def signal : SignalMethod → Int
  | .interrupt => SIGINT
  | .terminate => SIGTERM
  | .suspend => SIGSTOP
  | .resume => SIGCONT

/-- What the method returns, from its variable `error`.  Two of them return
nothing. -/
def returnValue (error : Int) : SignalMethod → Option Bool
  | .interrupt => none
  | .terminate => none
  | .suspend => some (error = 0)
  | .resume => some (error = 0)

end SignalMethod

/-- Where a thread is in one of these methods. -/
inductive CallPlace where
  | idle
  | readRunning (method : SignalMethod)
  | kill (method : SignalMethod)
  | returned (method : SignalMethod) (value : Option Bool)
deriving DecidableEq, Repr

/-- A `kill` that was executed, and whether the child was gone by then. -/
structure Kill where
  processIdentifier : Int
  signal : Int
  afterReap : Bool
deriving DecidableEq, Repr

/-- A task and the threads of its clients. -/
structure SignalledTask (Th : Type) where
  task : LaunchedTask
  calls : Th → CallPlace
  kills : List Kill

namespace SignalledTask

variable {Th : Type} [DecidableEq Th]

inductive Event (Th : Type) where
  | waitpid (err_wp : WaitpidResult)
  | handler
  | call (th : Th) (method : SignalMethod)
  | readRunning (th : Th)
  | kill (th : Th) (error : Int)
deriving DecidableEq, Repr

omit [DecidableEq Th] in
/-- The task right after a launch that succeeded. -/
def initial (processIdentifier : Int) (hasTerminationHandler : Bool) : SignalledTask Th where
  task := .initial processIdentifier hasTerminationHandler
  calls := fun _ => .idle
  kills := []

/-- A thread moves on in its method. -/
def goTo (s : SignalledTask Th) (th : Th) (place : CallPlace) : SignalledTask Th :=
  { s with calls := Function.update s.calls th place }

def step (s : SignalledTask Th) : Event Th → Exec Assertion (SignalledTask Th)
  | .waitpid err_wp => do
    enabledIf (s.task.place = .waitpid)
    pure { s with task := s.task.waitpidTurn err_wp }
  | .handler => do
    let task ← s.task.stepHandler
    pure { s with task := task }
  | .call th method =>
    match s.calls th with
    | .idle | .returned _ _ => do
      assertThat (s.task.wasLaunched = true) .notLaunchedYet
      pure (s.goTo th (.readRunning method))
    | .readRunning _ | .kill _ => .error .disabled
  | .readRunning th =>
    match s.calls th with
    | .readRunning method =>
      if s.task.running then pure (s.goTo th (.kill method))
      else pure (s.goTo th (.returned method (method.returnValue 1)))
    | _ => .error .disabled
  | .kill th error =>
    match s.calls th with
    | .kill method =>
      pure { s.goTo th (.returned method (method.returnValue error)) with
        kills := s.kills ++ [⟨s.task.processIdentifier, method.signal, s.task.reaped⟩] }
    | _ => .error .disabled

/-- The thread has read `YES` and will call `kill`. -/
def WillKill (s : SignalledTask Th) (th : Th) : Prop :=
  ∃ method, s.calls th = .kill method

/-- No signal was sent after the child was reaped. -/
def KillsBeforeReap (s : SignalledTask Th) : Prop :=
  ∀ kill ∈ s.kills, kill.afterReap = false

/-- The child is not reaped while a thread is about to signal it, and nobody reads
`running` while the handler is between the `waitpid` and the write of `NO`. -/
def Guarded (s : SignalledTask Th) : Event Th → Prop
  | .waitpid (.pid _) => ∀ th, ¬ s.WillKill th
  | .readRunning _ => s.task.place.hasStatus = true → s.task.place.hasCleared = true
  | _ => True

/-! ## What a step does -/

variable {s t : SignalledTask Th} {e : Event Th}

omit [DecidableEq Th] in
theorem Guarded.not_running {th : Th} (h : s.Guarded (.readRunning th))
    (htask : s.task.Consistent) (hreaped : s.task.reaped = true) :
    s.task.running = false := by
  rw [htask.reaped] at hreaped
  rw [htask.running, h hreaped]
  rfl

omit [DecidableEq Th] in
theorem running_of_not_guarded {th : Th} (h : ¬ s.Guarded (.readRunning th))
    (htask : s.task.Consistent) : s.task.reaped = true ∧ s.task.running = true := by
  obtain ⟨hstatus, hcleared⟩ := Classical.not_imp.mp h
  rw [htask.reaped, htask.running]
  refine ⟨hstatus, ?_⟩
  simpa using hcleared

theorem willKill_goTo {th th' : Th} {place : CallPlace} :
    (s.goTo th place).WillKill th' ↔
      if th' = th then ∃ method, place = .kill method else s.WillKill th' := by
  unfold WillKill goTo
  by_cases heq : th' = th
  · rw [if_pos heq, heq]
    simp
  · rw [if_neg heq]
    simp [Function.update_of_ne heq]

/-- A step is one of the handler, which sends nothing, a thread that reads
`running`, one that enters its method, or a `kill`. -/
theorem step_cases (h : s.step e = .ok t) :
    (t.calls = s.calls ∧ t.kills = s.kills ∧ (s.task.Consistent → t.task.Consistent) ∧
      (t.task.reaped = s.task.reaped ∨
        t.task.reaped = true ∧ ∃ wp_status, e = .waitpid (.pid wp_status))) ∨
    (∃ th method, ¬ s.WillKill th ∧ t = s.goTo th (.readRunning method)) ∨
    (∃ th method, e = .readRunning th ∧ ¬ s.WillKill th ∧
      t = s.goTo th (if s.task.running then .kill method
        else .returned method (method.returnValue 1))) ∨
    ∃ th method value, s.calls th = .kill method ∧ t.task = s.task ∧
      t.calls = Function.update s.calls th (.returned method value) ∧
      t.kills =
        s.kills ++ [⟨s.task.processIdentifier, method.signal, s.task.reaped⟩] := by
  cases e with
  | waitpid err_wp =>
    simp only [step, bind_eq_ok, enabledIf_eq_ok, pure_eq_ok] at h
    obtain ⟨-, hplace, rfl⟩ := h
    refine Or.inl ⟨rfl, rfl, fun htask => htask.waitpidTurn hplace err_wp, ?_⟩
    show (s.task.waitpidTurn err_wp).reaped = s.task.reaped ∨ _
    unfold LaunchedTask.waitpidTurn
    split
    · split
      · exact Or.inl rfl
      · exact Or.inl rfl
    · exact Or.inl rfl
    · exact Or.inr ⟨rfl, _, rfl⟩
  | handler =>
    simp only [step, bind_eq_ok, pure_eq_ok] at h
    obtain ⟨task, htask, rfl⟩ := h
    refine Or.inl ⟨rfl, rfl, fun hs => hs.stepHandler htask, Or.inl ?_⟩
    exact LaunchedTask.reaped_stepHandler htask
  | call th method =>
    simp only [step] at h
    split at h <;> rename_i hplace
    case h_1 | h_2 =>
      simp only [bind_eq_ok, pure_eq_ok] at h
      obtain ⟨-, -, rfl⟩ := h
      refine Or.inr (Or.inl ⟨th, method, ?_, rfl⟩)
      rintro ⟨method', hmethod⟩
      rw [hplace] at hmethod
      cases hmethod
    case h_3 | h_4 => cases h
  | readRunning th =>
    simp only [step] at h
    split at h
    · rename_i method hplace
      refine Or.inr (Or.inr (Or.inl ⟨th, method, rfl, ?_, ?_⟩))
      · rintro ⟨method', hmethod⟩
        rw [hplace] at hmethod
        cases hmethod
      · split at h <;> rename_i hrunning
        · rw [if_pos hrunning]
          exact (pure_eq_ok.mp h).symm
        · rw [if_neg hrunning]
          exact (pure_eq_ok.mp h).symm
    · cases h
  | kill th error =>
    simp only [step] at h
    split at h
    · rename_i method hplace
      obtain rfl := pure_eq_ok.mp h
      exact Or.inr (Or.inr (Or.inr ⟨th, method, _, hplace, rfl, rfl, rfl⟩))
    · cases h

theorem consistent_step (hs : s.task.Consistent) (h : s.step e = .ok t) :
    t.task.Consistent := by
  rcases step_cases h with ⟨-, -, htask, -⟩ | ⟨th, method, -, rfl⟩ | ⟨th, method, -, -, rfl⟩ |
    ⟨th, method, value, -, htask, -, -⟩
  · exact htask hs
  · exact hs
  · exact hs
  · rw [htask]
    exact hs

/-! ## Guarded runs -/

/-- Every signal so far went to the child, and so will the ones to come. -/
structure Safe (s : SignalledTask Th) : Prop where
  task : s.task.Consistent
  waiting : s.task.reaped = true → ∀ th, ¬ s.WillKill th
  kills : s.KillsBeforeReap

theorem safe_step (hguard : s.Guarded e) (hs : Safe s) (h : s.step e = .ok t) : Safe t := by
  have htask := consistent_step hs.task h
  rcases step_cases h with ⟨hcalls, hkills, -, hreaped⟩ | ⟨th, method, -, rfl⟩ |
    ⟨th, method, rfl, -, rfl⟩ | ⟨th, method, value, hplace, hsame, hcalls, hkills⟩
  · have hwill : ∀ th, t.WillKill th ↔ s.WillKill th := by
      intro th
      unfold WillKill
      rw [hcalls]
    refine { task := htask, waiting := ?_, kills := ?_ }
    · intro hgone th
      rw [hwill th]
      rcases hreaped with hreaped | ⟨-, wp_status, rfl⟩
      · rw [hreaped] at hgone
        exact hs.waiting hgone th
      · exact hguard th
    · unfold KillsBeforeReap
      rw [hkills]
      exact hs.kills
  · refine { task := htask, waiting := ?_, kills := hs.kills }
    intro hgone th'
    rw [willKill_goTo]
    split
    · rintro ⟨method', hmethod⟩
      cases hmethod
    · exact hs.waiting hgone th'
  · refine { task := htask, waiting := ?_, kills := hs.kills }
    intro hgone th'
    -- `running` is `NO` by now
    have hrunning := hguard.not_running hs.task hgone
    rw [willKill_goTo, hrunning]
    split
    · rintro ⟨method', hmethod⟩
      cases hmethod
    · exact hs.waiting hgone th'
  · refine { task := htask, waiting := ?_, kills := ?_ }
    · intro hgone th' hwill
      rw [hsame] at hgone
      exact hs.waiting hgone th ⟨method, hplace⟩
    · intro kill hmem
      rw [hkills] at hmem
      rcases List.mem_append.mp hmem with hmem | hmem
      · exact hs.kills kill hmem
      · rw [List.mem_singleton.mp hmem]
        show s.task.reaped = false
        cases hreaped : s.task.reaped with
        | false => rfl
        | true => exact absurd ⟨method, hplace⟩ (hs.waiting hreaped th)

/-! ## Runs that are not guarded -/

/-- A signal goes to another process, or is about to. -/
def Astray (s : SignalledTask Th) : Prop :=
  (s.task.reaped = true ∧ ∃ th, s.WillKill th) ∨ ∃ kill ∈ s.kills, kill.afterReap = true

/-- Only a `waitpid` and a read of `running` can break the guard, and then a thread
is about to signal a child that is gone. -/
theorem astray_of_not_guarded (hs : s.task.Consistent) (hguard : ¬ s.Guarded e)
    (h : s.step e = .ok t) : Astray t := by
  cases e with
  | waitpid err_wp =>
    cases err_wp with
    | error errno => exact absurd trivial hguard
    | zero => exact absurd trivial hguard
    | pid wp_status =>
      simp only [step, bind_eq_ok, enabledIf_eq_ok, pure_eq_ok] at h
      obtain ⟨-, -, rfl⟩ := h
      obtain ⟨th, hwill⟩ := Classical.not_forall_not.mp hguard
      exact Or.inl ⟨rfl, th, hwill⟩
  | handler => exact absurd trivial hguard
  | call th method => exact absurd trivial hguard
  | readRunning th =>
    obtain ⟨hreaped, hrunning⟩ := running_of_not_guarded hguard hs
    simp only [step, hrunning, if_true] at h
    split at h
    · rename_i method hplace
      obtain rfl := pure_eq_ok.mp h
      refine Or.inl ⟨hreaped, th, ?_⟩
      rw [willKill_goTo, if_pos rfl]
      exact ⟨method, rfl⟩
    · cases h
  | kill th error => exact absurd trivial hguard

theorem astray_step (hs : Astray s) (h : s.step e = .ok t) : Astray t := by
  rcases step_cases h with ⟨hcalls, hkills, -, hreaped⟩ | ⟨th, method, hnot, rfl⟩ |
    ⟨th, method, -, hnot, rfl⟩ | ⟨th, method, value, hplace, hsame, hcalls, hkills⟩
  · refine hs.imp ?_ ?_
    · rintro ⟨hgone, th, method, hplace⟩
      refine ⟨?_, th, method, ?_⟩
      · rcases hreaped with hreaped | ⟨hreaped, -⟩
        · rw [hreaped, hgone]
        · exact hreaped
      · rw [hcalls, hplace]
    · rw [hkills]
      exact id
  · refine hs.imp_left ?_
    rintro ⟨hgone, th', hwill⟩
    have hne : th' ≠ th := by
      rintro rfl
      exact hnot hwill
    refine ⟨hgone, th', ?_⟩
    rw [willKill_goTo, if_neg hne]
    exact hwill
  · refine hs.imp_left ?_
    rintro ⟨hgone, th', hwill⟩
    have hne : th' ≠ th := by
      rintro rfl
      exact hnot hwill
    refine ⟨hgone, th', ?_⟩
    rw [willKill_goTo, if_neg hne]
    exact hwill
  · rcases hs with ⟨hgone, th', hwill⟩ | ⟨kill, hmem, hafter⟩
    · by_cases heq : th' = th
      · refine Or.inr ⟨⟨s.task.processIdentifier, method.signal, s.task.reaped⟩, ?_, hgone⟩
        rw [hkills]
        exact List.mem_append_right _ (List.mem_singleton.mpr rfl)
      · obtain ⟨method', hplace'⟩ := hwill
        refine Or.inl ⟨?_, th', method', ?_⟩
        · rw [hsame, hgone]
        · rw [hcalls, Function.update_of_ne heq, hplace']
    · refine Or.inr ⟨kill, ?_, hafter⟩
      rw [hkills]
      exact List.mem_append_left _ hmem

/-! ## Signals and the reaped child -/

/-- In a guarded run, every signal goes to the child.  In a run that is not guarded
and lets every thread finish its call, one does not. -/
theorem kills_before_reap {processIdentifier : Int} {hasTerminationHandler : Bool}
    {events : List (Event Th)}
    (hrun : run step (initial processIdentifier hasTerminationHandler) events = .ok t) :
    (AllSteps step Guarded (initial processIdentifier hasTerminationHandler) events →
      t.KillsBeforeReap) ∧
    ((∀ th, ¬ t.WillKill th) → t.KillsBeforeReap →
      AllSteps step Guarded (initial processIdentifier hasTerminationHandler) events) := by
  have htask := LaunchedTask.consistent_initial processIdentifier hasTerminationHandler
  constructor
  · intro hguarded
    have hsafe : Safe (initial processIdentifier hasTerminationHandler : SignalledTask Th) :=
      { task := htask, waiting := fun hgone => (by cases hgone),
        kills := fun kill hmem => (by cases hmem) }
    exact (run_invariant_of_allSteps (fun _ _ _ hguard hs h => safe_step hguard hs h)
      hsafe hguarded hrun).kills
  · intro hsettled hkills
    have hboth := allSteps_or_invariant (P := Guarded)
      (J := fun s : SignalledTask Th => s.task.Consistent)
      (fun _ _ _ hs h => consistent_step hs h)
      (fun _ _ _ hs hguard h => astray_of_not_guarded hs hguard h)
      (fun _ _ _ hs h => astray_step hs h) htask hrun
    rcases hboth with hguarded | ⟨-, th, hwill⟩ | ⟨kill, hmem, hafter⟩
    · exact hguarded
    · exact absurd hwill (hsettled th)
    · have hbefore := hkills kill hmem
      rw [hafter] at hbefore
      cases hbefore

/-- A thread interrupts the child, which exits, and resumes the task after its end. -/
theorem kills_before_reap_exited :
    ∃ t : SignalledTask Unit, run step (initial 70 false)
        [.call () .interrupt, .handler, .readRunning (), .waitpid .zero, .kill () 0,
          .waitpid (.pid 2), .handler, .handler, .handler, .handler, .call () .resume,
          .readRunning ()] = .ok t ∧
      t.calls () = .returned .resume (some false) ∧ t.KillsBeforeReap := by
  obtain ⟨t, hrun, hcalls⟩ : ∃ t : SignalledTask Unit, run step (initial 70 false)
        [.call () .interrupt, .handler, .readRunning (), .waitpid .zero, .kill () 0,
          .waitpid (.pid 2), .handler, .handler, .handler, .handler, .call () .resume,
          .readRunning ()] = .ok t ∧
      t.calls () = .returned .resume (some false) := ⟨_, rfl, rfl⟩
  refine ⟨t, hrun, hcalls, (kills_before_reap hrun).1 ?_⟩
  refine .cons trivial rfl (.cons trivial rfl (.cons ?_ rfl (.cons trivial rfl
    (.cons trivial rfl (.cons ?_ rfl (.cons trivial rfl (.cons trivial rfl (.cons trivial rfl
      (.cons trivial rfl (.cons trivial rfl (.cons (fun _ => rfl) rfl trivial)))))))))))
  · intro hstatus
    cases hstatus
  · rintro th ⟨method, hmethod⟩
    cases hmethod

/-- A thread reads `running`, the handler reaps the child, and the thread sends
`SIGTERM` to whatever has the pid by now. -/
theorem terminate_after_reap :
    ∃ t : SignalledTask Nat, run step (initial 70 false)
        [.call 0 .terminate, .readRunning 0, .handler, .waitpid (.pid 0), .kill 0 0] =
          .ok t ∧
      (⟨70, SIGTERM, true⟩ : Kill) ∈ t.kills ∧ ¬ t.KillsBeforeReap := by
  refine ⟨_, rfl, List.mem_singleton.mpr rfl, ?_⟩
  intro hkills
  have hbefore := hkills ⟨70, SIGTERM, true⟩ (List.mem_singleton.mpr rfl)
  cases hbefore

end SignalledTask

end BromiumCoreUtils
