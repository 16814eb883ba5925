import Mathlib.Algebra.Ring.Nat
import Mathlib.Data.List.Range
import Mathlib.Data.Nat.Find
import BromiumCoreUtils.Retry.Basic

/-!
# The loop of attempts, with no queues

What a run with at most `retries` attempts is for, said without queues and
timers.  The attempts of a run have outcomes, one after the other.  `Decides`
says that an attempt ends the run, and `attempts` is the number of the first
one that does.  `runMilestones` is all that happens in such a run.

`AttemptLoop` walks through the run in small steps.  `Sound` is its invariant:
what has happened is what the runs before this one did, and a beginning of
`runMilestones`.  Each step pays for itself out of a budget of six steps an
attempt, so the loop ends.
-/

namespace BromiumCoreUtils

/-- How an attempt ends.  A failure has an error and a success has none. -/
inductive AttemptOutcome where
  | success (status : BRURetryStatus)
  | transientFailure (error : NSError)
  | finalFailure (error : NSError)
deriving DecidableEq, Repr

namespace AttemptOutcome

def error : AttemptOutcome → Option NSError
  | success _ => none
  | transientFailure error => some error
  | finalFailure error => some error

/-- What the continuation block is called with. -/
def report : AttemptOutcome → ContinuationResult
  | success status => ⟨true, none, status⟩
  | transientFailure error => ⟨false, some error, .transient⟩
  | finalFailure error => ⟨false, some error, .final⟩

/-- What a run that ends with this attempt is resolved with. -/
def result : AttemptOutcome → BRURetryResult
  | success _ => ⟨true, none⟩
  | transientFailure error => ⟨false, some error⟩
  | finalFailure error => ⟨false, some error⟩

def isTransient : AttemptOutcome → Bool
  | transientFailure _ => true
  | _ => false

theorem report_of_transient {outcome : AttemptOutcome} (h : outcome.isTransient = true) :
    outcome.report = ⟨false, outcome.error, .transient⟩ ∧
      outcome.result = ⟨false, outcome.error⟩ := by
  cases outcome with
  | transientFailure error => exact ⟨rfl, rfl⟩
  | success status => cases h
  | finalFailure error => cases h

theorem isTransient_of_report {outcome : AttemptOutcome}
    (hfailure : outcome.report.success = false) (hstatus : outcome.report.status = .transient) :
    outcome.isTransient = true := by
  cases outcome with
  | transientFailure error => rfl
  | success status => cases hfailure
  | finalFailure error => cases hstatus

theorem report_result (outcome : AttemptOutcome) :
    outcome.result = ⟨outcome.report.success, outcome.report.error⟩ := by
  cases outcome <;> rfl

end AttemptOutcome

/-- What happens in a run, as far as attempts are concerned. -/
inductive Milestone where
  | performAction (attempt : Nat)
  | continuation (attempt : Nat) (result : ContinuationResult)
  | policy (attempt : Nat) (error : Option NSError) (response : BRURetryPolicyResponse)
  | resolve (run : Nat) (result : BRURetryResult)
deriving DecidableEq, Repr

namespace AttemptLoop

/-! ## What a run is -/

section Run

variable (retries : Nat) (outcomes : Nat → AttemptOutcome)

/-- Attempt `i` ends the run: it succeeded, it failed for good, or it was the last one
that is allowed. -/
def Decides (i : Nat) : Prop :=
  1 ≤ i ∧ ((outcomes i).isTransient = false ∨ retries ≤ i)

instance : DecidablePred (Decides retries outcomes) := fun i =>
  inferInstanceAs (Decidable (1 ≤ i ∧ ((outcomes i).isTransient = false ∨ retries ≤ i)))

theorem exists_decides : ∃ i, Decides retries outcomes i :=
  ⟨max retries 1, Nat.le_max_right _ _, Or.inr (Nat.le_max_left _ _)⟩

/-- The number of attempts: the first one that ends the run. -/
def attempts : Nat :=
  Nat.find (exists_decides retries outcomes)

/-- What the policy says after a transient failure. -/
def response (attempt : Nat) : BRURetryPolicyResponse :=
  if retries ≤ attempt then .stop else .retry

/-- The first `n` attempts, each of them retried. -/
def retried : Nat → List Milestone
  | 0 => []
  | n + 1 =>
    retried n ++ [.performAction (n + 1), .continuation (n + 1) (outcomes (n + 1)).report,
      .policy (n + 1) (outcomes (n + 1)).error .retry]

/-- The last attempt `k` of a run. -/
def decided (k run : Nat) : List Milestone :=
  [.performAction k, .continuation k (outcomes k).report] ++
    (if (outcomes k).isTransient then [.policy k (outcomes k).error .stop] else []) ++
    [.resolve run (outcomes k).result]

/-- All that happens in a run. -/
def runMilestones (run : Nat) : List Milestone :=
  retried outcomes (attempts retries outcomes - 1) ++
    decided outcomes (attempts retries outcomes) run

variable {retries outcomes}

theorem attempts_least : Decides retries outcomes (attempts retries outcomes) ∧
    ∀ i, Decides retries outcomes i → attempts retries outcomes ≤ i :=
  ⟨Nat.find_spec (exists_decides retries outcomes),
    fun _ hdecides => Nat.find_min' (exists_decides retries outcomes) hdecides⟩

theorem attempts_pos : 1 ≤ attempts retries outcomes :=
  attempts_least.1.1

/-- The first attempt that decides is the last one. -/
theorem attempts_eq {n : Nat} (hbefore : ∀ i, 1 ≤ i → i ≤ n → ¬ Decides retries outcomes i)
    (hdecides : Decides retries outcomes (n + 1)) : attempts retries outcomes = n + 1 := by
  apply (Nat.find_eq_iff (exists_decides retries outcomes)).mpr
  refine ⟨hdecides, ?_⟩
  intro i hi hd
  exact hbefore i hd.1 (by omega) hd

/-- A run goes on after attempts that did not decide. -/
theorem lt_attempts {n : Nat} (hbefore : ∀ i, 1 ≤ i → i ≤ n → ¬ Decides retries outcomes i) :
    n < attempts retries outcomes := by
  apply (Nat.lt_find_iff (exists_decides retries outcomes) n).mpr
  intro i hi hd
  exact hbefore i hd.1 hi hd

/-- An attempt before the last one is retried: it failed, and another is allowed. -/
theorem transient_of_lt_attempts {i : Nat} (hpos : 1 ≤ i) (hi : i < attempts retries outcomes) :
    (outcomes i).isTransient = true ∧ i < retries := by
  have hnot := Nat.find_min (exists_decides retries outcomes) hi
  simp only [Decides, not_and, not_or, Nat.not_le, Bool.not_eq_false] at hnot
  exact hnot hpos

/-- With transient failures only, `retries` attempts are made, and one at least. -/
theorem attempts_of_transient (h : ∀ i, (outcomes i).isTransient = true) :
    attempts retries outcomes = max retries 1 := by
  apply (Nat.find_eq_iff (exists_decides retries outcomes)).mpr
  refine ⟨⟨Nat.le_max_right _ _, Or.inr (Nat.le_max_left _ _)⟩, ?_⟩
  rintro i hi ⟨hpos, hd⟩
  rcases hd with hd | hd
  · rw [h i] at hd
    cases hd
  · omega

theorem retried_append {n m : Nat} (h : n ≤ m) :
    ∃ rest, retried outcomes m = retried outcomes n ++ rest := by
  induction m, h using Nat.le_induction with
  | base => exact ⟨[], (List.append_nil _).symm⟩
  | succ m _ ih =>
    obtain ⟨rest, hrest⟩ := ih
    rw [retried, hrest, List.append_assoc]
    exact ⟨_, rfl⟩

/-- What a run does after `n` attempts that were retried. -/
theorem runMilestones_of_lt {n : Nat} (h : n < attempts retries outcomes) (run : Nat) :
    ∃ rest, rest ≠ [] ∧
      runMilestones retries outcomes run = retried outcomes n ++
        [.performAction (n + 1), .continuation (n + 1) (outcomes (n + 1)).report] ++ rest ∧
      ((outcomes (n + 1)).isTransient = true → ∃ rest', rest' ≠ [] ∧
        rest = .policy (n + 1) (outcomes (n + 1)).error (response retries (n + 1)) :: rest') := by
  by_cases hlast : attempts retries outcomes = n + 1
  · -- attempt `n + 1` is the last one
    rw [runMilestones, hlast, Nat.add_sub_cancel, decided]
    refine ⟨_, ?_, by rw [List.append_assoc, List.append_assoc], ?_⟩
    · simp
    · intro htransient
      have hmax : retries ≤ n + 1 := by
        have hdecides := (@attempts_least retries outcomes).1
        rw [hlast, Decides, htransient] at hdecides
        simpa using hdecides.2
      exact ⟨[.resolve run (outcomes (n + 1)).result], by simp,
        by simp [htransient, response, hmax]⟩
  · obtain ⟨htransient, hmax⟩ :=
      @transient_of_lt_attempts retries outcomes (n + 1) (by omega) (by omega)
    obtain ⟨more, hmore⟩ :=
      @retried_append outcomes (n + 1) (attempts retries outcomes - 1) (by omega)
    have hresponse : response retries (n + 1) = .retry := if_neg (by omega)
    refine ⟨.policy (n + 1) (outcomes (n + 1)).error .retry ::
      (more ++ decided outcomes (attempts retries outcomes) run), by simp, ?_, ?_⟩
    · rw [runMilestones, hmore, retried]
      simp
    · intro _
      refine ⟨more ++ decided outcomes (attempts retries outcomes) run, ?_, by rw [hresponse]⟩
      simp [decided]

/-! ## What a run performs and asks -/

/-- The attempts that a list of milestones performs. -/
def performed (milestones : List Milestone) : List Nat :=
  milestones.filterMap fun
    | .performAction attempt => some attempt
    | _ => none

/-- The calls of the policy, with their attempt numbers and errors. -/
def policyCalls (milestones : List Milestone) : List (Nat × Option NSError) :=
  milestones.filterMap fun
    | .policy attempt error _ => some (attempt, error)
    | _ => none

/-- What the runs of a list of milestones are resolved with. -/
def resolutions (milestones : List Milestone) : List (Nat × BRURetryResult) :=
  milestones.filterMap fun
    | .resolve run result => some (run, result)
    | _ => none

theorem performed_retried (n : Nat) : performed (retried outcomes n) = List.range' 1 n := by
  induction n with
  | zero => rfl
  | succ n ih =>
    rw [List.range'_1_concat, ← ih, Nat.add_comm 1 n]
    simp [performed, retried]

theorem policyCalls_retried (n : Nat) : policyCalls (retried outcomes n) =
    (List.range' 1 n).map fun i => (i, (outcomes i).error) := by
  induction n with
  | zero => rfl
  | succ n ih =>
    rw [List.range'_1_concat, List.map_append, ← ih, Nat.add_comm 1 n]
    simp [policyCalls, retried]

theorem resolutions_retried (n : Nat) : resolutions (retried outcomes n) = [] := by
  induction n with
  | zero => rfl
  | succ n ih =>
    rw [retried, resolutions, List.filterMap_append]
    simpa [resolutions] using ih

/-- The last attempt comes after `n` retried ones. -/
theorem exists_attempts_eq : ∃ n, attempts retries outcomes = n + 1 ∧
    ∀ run, runMilestones retries outcomes run =
      retried outcomes n ++ decided outcomes (n + 1) run := by
  obtain ⟨n, hn⟩ := Nat.exists_eq_add_of_le' (@attempts_pos retries outcomes)
  refine ⟨n, hn, ?_⟩
  intro run
  rw [runMilestones, hn, Nat.add_sub_cancel]

/-- A run performs the attempts up to the deciding one, in order. -/
theorem performed_runMilestones (run : Nat) :
    performed (runMilestones retries outcomes run) =
      List.range' 1 (attempts retries outcomes) := by
  obtain ⟨n, hn, hrun⟩ := @exists_attempts_eq retries outcomes
  have hlast : performed (decided outcomes (n + 1) run) = [n + 1] := by
    cases ht : (outcomes (n + 1)).isTransient <;> simp [performed, decided, ht]
  have happend : performed (retried outcomes n ++ decided outcomes (n + 1) run) =
      performed (retried outcomes n) ++ performed (decided outcomes (n + 1) run) :=
    List.filterMap_append
  rw [hrun, happend, performed_retried, hlast, hn, List.range'_1_concat, Nat.add_comm 1 n]

/-- The policy is called once for each transient failure, in order. -/
theorem policyCalls_runMilestones (run : Nat) :
    policyCalls (runMilestones retries outcomes run) =
      ((List.range' 1 (attempts retries outcomes)).filter
        fun i => (outcomes i).isTransient).map fun i => (i, (outcomes i).error) := by
  obtain ⟨n, hn, hrun⟩ := @exists_attempts_eq retries outcomes
  -- the attempts before the last one were all retried
  have hbefore : (List.range' 1 n).filter (fun i => (outcomes i).isTransient) =
      List.range' 1 n := by
    apply List.filter_eq_self.mpr
    intro i hi
    obtain ⟨hpos, hlt⟩ := List.mem_range'_1.mp hi
    exact (@transient_of_lt_attempts retries outcomes i hpos (by omega)).1
  have happend : policyCalls (retried outcomes n ++ decided outcomes (n + 1) run) =
      policyCalls (retried outcomes n) ++ policyCalls (decided outcomes (n + 1) run) :=
    List.filterMap_append
  rw [hrun, happend, policyCalls_retried, hn, List.range'_1_concat, List.filter_append,
    hbefore, List.map_append, Nat.add_comm 1 n]
  cases ht : (outcomes (n + 1)).isTransient <;> simp [policyCalls, decided, ht]

/-- A run is resolved once, with the outcome of its last attempt. -/
theorem resolutions_runMilestones (run : Nat) :
    resolutions (runMilestones retries outcomes run) =
      [(run, (outcomes (attempts retries outcomes)).result)] := by
  obtain ⟨n, hn, hrun⟩ := @exists_attempts_eq retries outcomes
  have happend : resolutions (retried outcomes n ++ decided outcomes (n + 1) run) =
      resolutions (retried outcomes n) ++ resolutions (decided outcomes (n + 1) run) :=
    List.filterMap_append
  rw [hrun, happend, resolutions_retried, hn, List.nil_append]
  cases ht : (outcomes (n + 1)).isTransient <;> simp [resolutions, decided, ht]

end Run

/-! ## The runs of an object -/

variable (retries : Nat) (outcomes : Nat → Nat → AttemptOutcome)

/-- All that happens in the runs from `first` on and before `n`. -/
def finishedRuns (first n : Nat) : List Milestone :=
  (List.range' first (n - first)).flatMap fun run => runMilestones retries (outcomes run) run

/-- The attempts of these runs. -/
def totalAttempts (first n : Nat) : Nat :=
  ((List.range' first (n - first)).map fun run => attempts retries (outcomes run)).sum

section Succ

variable {retries outcomes} {first n : Nat}

theorem finishedRuns_self : finishedRuns retries outcomes n n = [] := by
  rw [finishedRuns, Nat.sub_self]
  rfl

theorem range'_succ_sub (h : first ≤ n) :
    List.range' first (n + 1 - first) = List.range' first (n - first) ++ [n] := by
  rw [Nat.succ_sub h, List.range'_1_concat, Nat.add_sub_cancel' h]

theorem finishedRuns_succ (h : first ≤ n) : finishedRuns retries outcomes first (n + 1) =
    finishedRuns retries outcomes first n ++ runMilestones retries (outcomes n) n := by
  rw [finishedRuns, range'_succ_sub h, List.flatMap_append, List.flatMap_singleton]
  rfl

theorem totalAttempts_succ (h : first ≤ n) : totalAttempts retries outcomes first (n + 1) =
    totalAttempts retries outcomes first n + attempts retries (outcomes n) := by
  rw [totalAttempts, range'_succ_sub h, List.map_append, List.sum_append, List.map_singleton,
    List.sum_singleton]
  rfl

end Succ

/-- How a milestone changes the number of attempts that the current run has made. -/
def noteAttempt (made : Nat) : Milestone → Nat
  | .performAction _ => made + 1
  | .resolve .. => 0
  | _ => made

/-- How many attempts the current run has made. -/
def ordinal (milestones : List Milestone) : Nat :=
  milestones.foldl noteAttempt 0

theorem ordinal_append (milestones milestones' : List Milestone) :
    ordinal (milestones ++ milestones') = milestones'.foldl noteAttempt (ordinal milestones) :=
  List.foldl_append

/-! ## The loop -/

/-- Where a run is, after `n` attempts that were retried. -/
inductive Stage where
  | idle
  /-- The action of attempt `n + 1` is queued, -/
  | queued (n : Nat)
  /-- it was called, -/
  | running (n : Nat)
  /-- and its continuation block was. -/
  | reported (n : Nat)
  /-- The policy is queued, -/
  | asked (n : Nat)
  /-- and it has answered. -/
  | answered (n : Nat)
  /-- The timer is armed. -/
  | waiting (n : Nat)
deriving DecidableEq, Repr

namespace Stage

/-- The attempts that were retried. -/
def failures : Stage → Nat
  | idle => 0
  | queued n => n
  | running n => n
  | reported n => n
  | asked n => n
  | answered n => n
  | waiting n => n

/-- The attempt that the run is at. -/
def attempt : Stage → Nat
  | idle => 0
  | queued n => n + 1
  | running n => n + 1
  | reported n => n + 1
  | asked n => n + 1
  | answered n => n + 1
  | waiting n => n

/-- What the run has done so far. -/
def milestones (max : Nat) (outcomes : Nat → AttemptOutcome) : Stage → List Milestone
  | idle => []
  | queued n => retried outcomes n ++ [.performAction (n + 1)]
  | running n => retried outcomes n ++ [.performAction (n + 1)]
  | reported n => retried outcomes n ++
      [.performAction (n + 1), .continuation (n + 1) (outcomes (n + 1)).report]
  | asked n => retried outcomes n ++
      [.performAction (n + 1), .continuation (n + 1) (outcomes (n + 1)).report]
  | answered n => retried outcomes n ++
      [.performAction (n + 1), .continuation (n + 1) (outcomes (n + 1)).report,
        .policy (n + 1) (outcomes (n + 1)).error (response max (n + 1))]
  | waiting n => retried outcomes n

/-- What the stage says about the attempt that it is at. -/
def Allowed (max : Nat) (outcomes : Nat → AttemptOutcome) : Stage → Prop
  | asked n => (outcomes (n + 1)).isTransient = true
  | answered n => (outcomes (n + 1)).isTransient = true
  | waiting n => n < max
  | _ => True

/-- The steps that are left, at most, of a run that makes `k` attempts. -/
def budget (k : Nat) : Stage → Nat
  | idle => 0
  | queued n => 6 * (k - (n + 1)) + 5
  | running n => 6 * (k - (n + 1)) + 4
  | reported n => 6 * (k - (n + 1)) + 3
  | asked n => 6 * (k - (n + 1)) + 2
  | answered n => 6 * (k - (n + 1)) + 1
  | waiting n => 6 * (k - n)

end Stage

end AttemptLoop

/-- The loop: the runs that began, where the current one is, what has happened, and the
steps that were taken inside of runs. -/
structure AttemptLoop where
  runs : Nat
  stage : AttemptLoop.Stage
  milestones : List Milestone
  steps : Nat

namespace AttemptLoop

/-- Before any of the runs from `first` on. -/
def init (first : Nat) : AttemptLoop := ⟨first, .idle, [], 0⟩

/-- Go on to `stage` with one step. -/
def advance (stage : Stage) (milestones : List Milestone) (l : AttemptLoop) : AttemptLoop :=
  { l with
    stage := stage
    milestones := l.milestones ++ milestones
    steps := l.steps + 1 }

variable (retries : Nat) (outcomes : Nat → Nat → AttemptOutcome)

/-- The outcome of attempt `n + 1` of the current run. -/
def outcome (l : AttemptLoop) (n : Nat) : AttemptOutcome :=
  outcomes (l.runs - 1) (n + 1)

/-- One step. -/
inductive Step : AttemptLoop → AttemptLoop → Prop where
  | begin {l : AttemptLoop} (hs : l.stage = .idle) :
      Step l { l with
        runs := l.runs + 1
        stage := .queued 0
        milestones := l.milestones ++ [.performAction 1] }
  | act {l : AttemptLoop} {n : Nat} (hs : l.stage = .queued n) :
      Step l (l.advance (.running n) [])
  | report {l : AttemptLoop} {n : Nat} (hs : l.stage = .running n) :
      Step l (l.advance (.reported n) [.continuation (n + 1) (l.outcome outcomes n).report])
  | ask {l : AttemptLoop} {n : Nat} (hs : l.stage = .reported n)
      (htransient : (l.outcome outcomes n).isTransient = true) :
      Step l (l.advance (.asked n) [])
  | finish {l : AttemptLoop} {n : Nat} (hs : l.stage = .reported n)
      (htransient : (l.outcome outcomes n).isTransient = false) :
      Step l (l.advance .idle [.resolve (l.runs - 1) (l.outcome outcomes n).result])
  | answer {l : AttemptLoop} {n : Nat} (hs : l.stage = .asked n) :
      Step l (l.advance (.answered n)
        [.policy (n + 1) (l.outcome outcomes n).error (response retries (n + 1))])
  | stop {l : AttemptLoop} {n : Nat} (hs : l.stage = .answered n) (hmax : retries ≤ n + 1) :
      Step l (l.advance .idle [.resolve (l.runs - 1) (l.outcome outcomes n).result])
  | retry {l : AttemptLoop} {n : Nat} (hs : l.stage = .answered n) (hmax : n + 1 < retries) :
      Step l (l.advance (.waiting (n + 1)) [])
  | resume {l : AttemptLoop} {n : Nat} (hs : l.stage = .waiting n) :
      Step l (l.advance (.queued n) [.performAction (n + 1)])

/-! ## The invariant -/

/-- The runs before the one that the stage is about. -/
def finished (l : AttemptLoop) : Nat :=
  match l.stage with
  | .idle => l.runs
  | _ => l.runs - 1

/-- What has happened is what the finished runs did and a beginning of the current one. -/
structure Sound (first : Nat) (l : AttemptLoop) : Prop where
  first_le : first ≤ l.runs
  began : l.stage ≠ .idle → first < l.runs
  milestones : l.milestones = finishedRuns retries outcomes first l.finished ++
    l.stage.milestones retries (outcomes (l.runs - 1))
  undecided : ∀ i, 1 ≤ i → i ≤ l.stage.failures →
    ¬ Decides retries (outcomes (l.runs - 1)) i
  allowed : l.stage.Allowed retries (outcomes (l.runs - 1))
  ordinal : ordinal l.milestones = l.stage.attempt
  budget : l.steps + l.stage.budget (attempts retries (outcomes (l.runs - 1))) ≤
    6 * totalAttempts retries outcomes first l.runs

variable {retries outcomes}

theorem sound_init (first : Nat) : Sound retries outcomes first (init first) where
  first_le := le_refl first
  began h := absurd rfl h
  milestones := by
    show [] = finishedRuns retries outcomes first first ++ []
    rw [finishedRuns_self, List.append_nil]
  undecided i hpos hi := by
    have hle : i ≤ 0 := hi
    omega
  allowed := trivial
  ordinal := rfl
  budget := Nat.zero_le _

section Steps

variable {first : Nat} {l l' : AttemptLoop}

theorem finished_of_running (hs : l.stage ≠ .idle) : l.finished = l.runs - 1 := by
  unfold finished
  split
  · rename_i hidle
    exact absurd hidle hs
  · rfl

theorem finished_of_idle (hs : l.stage = .idle) : l.finished = l.runs := by
  rw [finished, hs]

/-- The run begins with its first attempt. -/
theorem Sound.begin (h : Sound retries outcomes first l) (hs : l.stage = .idle) :
    Sound retries outcomes first { l with
      runs := l.runs + 1
      stage := .queued 0
      milestones := l.milestones ++ [.performAction 1] } where
  first_le := Nat.le_succ_of_le h.first_le
  began _ := Nat.lt_succ_of_le h.first_le
  milestones := by
    have hbefore := h.milestones
    rw [hs, finished_of_idle hs, Stage.milestones, List.append_nil] at hbefore
    show l.milestones ++ [.performAction 1] = _
    rw [hbefore]
    rfl
  undecided i hpos hi := by
    have hle : i ≤ 0 := hi
    omega
  allowed := trivial
  ordinal := by
    show AttemptLoop.ordinal (l.milestones ++ [.performAction 1]) = 1
    rw [ordinal_append, h.ordinal, hs]
    rfl
  budget := by
    have hspent := h.budget
    have hpos := @attempts_pos retries (outcomes l.runs)
    show l.steps + (6 * (attempts retries (outcomes l.runs) - 1) + 5) ≤
      6 * totalAttempts retries outcomes first (l.runs + 1)
    rw [hs, Stage.budget] at hspent
    rw [totalAttempts_succ h.first_le]
    omega

/-- A step inside of a run. -/
theorem Sound.advance (h : Sound retries outcomes first l) {now stage : Stage}
    (hs : l.stage = now) (hnow : now ≠ .idle) {milestones : List Milestone}
    (hstage : stage ≠ .idle)
    (hmilestones : now.milestones retries (outcomes (l.runs - 1)) ++ milestones =
      stage.milestones retries (outcomes (l.runs - 1)))
    (hundecided : ∀ i, 1 ≤ i → i ≤ stage.failures →
      ¬ Decides retries (outcomes (l.runs - 1)) i)
    (hallowed : stage.Allowed retries (outcomes (l.runs - 1)))
    (hordinal : milestones.foldl noteAttempt now.attempt = stage.attempt)
    (hbudget : stage.budget (attempts retries (outcomes (l.runs - 1))) + 1 ≤
      now.budget (attempts retries (outcomes (l.runs - 1)))) :
    Sound retries outcomes first (l.advance stage milestones) := by
  subst hs
  refine
    { first_le := h.first_le, began := fun _ => h.began hnow, milestones := ?_,
      undecided := hundecided, allowed := hallowed, ordinal := ?_, budget := ?_ }
  · rw [finished_of_running hstage]
    show l.milestones ++ milestones = finishedRuns retries outcomes first (l.runs - 1) ++ _
    rw [h.milestones, finished_of_running hnow, List.append_assoc, hmilestones]
    rfl
  · show AttemptLoop.ordinal (l.milestones ++ milestones) = stage.attempt
    rw [ordinal_append, h.ordinal, hordinal]
  · have hspent := h.budget
    show l.steps + 1 + stage.budget (attempts retries (outcomes (l.runs - 1))) ≤
      6 * totalAttempts retries outcomes first l.runs
    omega

/-- The last step of a run: everything that belongs to the run has happened. -/
theorem Sound.conclude (h : Sound retries outcomes first l) {now : Stage} (hs : l.stage = now)
    (hnow : now ≠ .idle) {milestones : List Milestone}
    (hmilestones : now.milestones retries (outcomes (l.runs - 1)) ++ milestones =
      runMilestones retries (outcomes (l.runs - 1)) (l.runs - 1))
    (hordinal : milestones.foldl noteAttempt now.attempt = 0)
    (hbudget : 1 ≤ now.budget (attempts retries (outcomes (l.runs - 1)))) :
    Sound retries outcomes first (l.advance .idle milestones) := by
  subst hs
  refine
    { first_le := h.first_le, began := fun hidle => absurd rfl hidle, milestones := ?_,
      undecided := ?_, allowed := trivial, ordinal := ?_, budget := ?_ }
  · have hbegan := h.began hnow
    have hrun : l.runs = l.runs - 1 + 1 := by omega
    have hfinished : finishedRuns retries outcomes first l.runs =
        finishedRuns retries outcomes first (l.runs - 1) ++
          runMilestones retries (outcomes (l.runs - 1)) (l.runs - 1) := by
      rw [← finishedRuns_succ (by omega), ← hrun]
    show l.milestones ++ milestones = finishedRuns retries outcomes first l.runs ++ []
    rw [h.milestones, finished_of_running hnow, List.append_assoc, hmilestones, List.append_nil,
      hfinished]
  · intro i hpos hi
    have hle : i ≤ 0 := hi
    omega
  · show AttemptLoop.ordinal (l.milestones ++ milestones) = 0
    rw [ordinal_append, h.ordinal, hordinal]
  · have hspent := h.budget
    show l.steps + 1 + 0 ≤ 6 * totalAttempts retries outcomes first l.runs
    omega

/-- One step keeps the invariant. -/
theorem step_sound (h : Sound retries outcomes first l) (hstep : Step retries outcomes l l') :
    Sound retries outcomes first l' := by
  have hundecided := h.undecided
  have hallowed := h.allowed
  cases hstep with
  | begin hs => exact h.begin hs
  | @act n hs =>
    rw [hs] at hundecided
    exact h.advance hs (by simp) (by simp) (List.append_nil _) hundecided trivial rfl (le_refl _)
  | @report n hs =>
    rw [hs] at hundecided
    exact h.advance hs (by simp) (by simp) (List.append_assoc ..) hundecided trivial rfl
      (le_refl _)
  | @ask n hs htransient =>
    rw [hs] at hundecided
    exact h.advance hs (by simp) (by simp) (List.append_nil _) hundecided htransient rfl
      (le_refl _)
  | @finish n hs htransient =>
    rw [hs] at hundecided
    have hlast : (outcomes (l.runs - 1) (n + 1)).isTransient = false := htransient
    have hk : attempts retries (outcomes (l.runs - 1)) = n + 1 :=
      attempts_eq hundecided ⟨by omega, Or.inl htransient⟩
    refine h.conclude hs (by simp) ?_ rfl ?_
    · rw [runMilestones, hk, Nat.add_sub_cancel]
      simp [Stage.milestones, decided, hlast, outcome]
    · rw [Stage.budget]
      omega
  | @answer n hs =>
    rw [hs] at hundecided hallowed
    exact h.advance hs (by simp) (by simp) (List.append_assoc ..) hundecided hallowed rfl
      (le_refl _)
  | @stop n hs hmax =>
    rw [hs] at hundecided hallowed
    have hlast : (outcomes (l.runs - 1) (n + 1)).isTransient = true := hallowed
    have hk : attempts retries (outcomes (l.runs - 1)) = n + 1 :=
      attempts_eq hundecided ⟨by omega, Or.inr hmax⟩
    refine h.conclude hs (by simp) ?_ rfl ?_
    · rw [runMilestones, hk, Nat.add_sub_cancel]
      simp [Stage.milestones, decided, hlast, outcome, response, hmax]
    · rw [Stage.budget]
      omega
  | @retry n hs hmax =>
    rw [hs] at hundecided hallowed
    have hlast : (outcomes (l.runs - 1) (n + 1)).isTransient = true := hallowed
    -- attempt `n + 1` did not decide either
    have hnext : ∀ i, 1 ≤ i → i ≤ n + 1 → ¬ Decides retries (outcomes (l.runs - 1)) i := by
      intro i hpos hi
      by_cases heq : i = n + 1
      · rw [heq, Decides, hlast]
        simp only [Bool.true_eq_false, false_or, not_and]
        omega
      · exact hundecided i hpos (show i ≤ n by omega)
    refine h.advance hs (by simp) (by simp) ?_ hnext hmax rfl (le_refl _)
    simp [Stage.milestones, retried, response, Nat.not_le.mpr hmax]
  | @resume n hs =>
    rw [hs] at hundecided
    have hlt : n < attempts retries (outcomes (l.runs - 1)) := lt_attempts hundecided
    refine h.advance hs (by simp) (by simp) rfl hundecided trivial rfl ?_
    rw [Stage.budget, Stage.budget]
    omega

/-- A run that is not over has done a part of what it does, and not all of it. -/
theorem Sound.current (h : Sound retries outcomes first l) (hs : l.stage ≠ .idle) :
    ∃ current rest, rest ≠ [] ∧
      current ++ rest = runMilestones retries (outcomes (l.runs - 1)) (l.runs - 1) ∧
      l.milestones = finishedRuns retries outcomes first (l.runs - 1) ++ current := by
  have hlt := lt_attempts h.undecided
  obtain ⟨rest, hne, hrun, htransient⟩ := runMilestones_of_lt hlt (l.runs - 1)
  have hallowed := h.allowed
  have hmilestones := h.milestones
  rw [finished_of_running hs] at hmilestones
  -- it is enough to say what is left at each stage
  suffices hleft : ∃ left, left ≠ [] ∧
      l.stage.milestones retries (outcomes (l.runs - 1)) ++ left =
        runMilestones retries (outcomes (l.runs - 1)) (l.runs - 1) by
    obtain ⟨left, hleft, heq⟩ := hleft
    exact ⟨_, left, hleft, heq, hmilestones⟩
  rw [hrun]
  cases hstage : l.stage with
  | idle => exact absurd hstage hs
  | queued n =>
    refine ⟨.continuation (n + 1) (outcomes (l.runs - 1) (n + 1)).report :: rest, by simp, ?_⟩
    simp [Stage.milestones, Stage.failures]
  | running n =>
    refine ⟨.continuation (n + 1) (outcomes (l.runs - 1) (n + 1)).report :: rest, by simp, ?_⟩
    simp [Stage.milestones, Stage.failures]
  | reported n => exact ⟨rest, hne, by simp [Stage.milestones, Stage.failures]⟩
  | asked n => exact ⟨rest, hne, by simp [Stage.milestones, Stage.failures]⟩
  | answered n =>
    rw [hstage] at hallowed htransient
    obtain ⟨rest', hne', hrest'⟩ := htransient hallowed
    refine ⟨rest', hne', ?_⟩
    rw [hrest']
    simp [Stage.milestones, Stage.failures]
  | waiting n =>
    refine ⟨.performAction (n + 1) ::
      .continuation (n + 1) (outcomes (l.runs - 1) (n + 1)).report :: rest, by simp, ?_⟩
    simp [Stage.milestones, Stage.failures]

end Steps

end AttemptLoop

end BromiumCoreUtils
