import BromiumCoreUtils.FileMonitor.Sessions
import Mathlib.Data.List.Induction

/-!
# The callbacks of a session

`edgeEffects` is what a session is to do, as a function of the evaluations alone: what
`lstat` answered to each of them, and the path of its event.  The evaluations are read off
from the events of the run.  The first one is that of the start, and then the blocks of the
`syncQueue` come in the order in which they were queued, so that each answer of `lstat`
belongs to the next of them.

`effects_of_session` says that a session does what `edgeEffects` says, no matter how its
evaluations come about.  An effect that the running block has still to bring about is in
`remaining`.
-/

namespace BromiumCoreUtils

open Machine
open FileStat (st_ino)

/-- What an evaluation can bring about: a block for the completion queue, new sources, a
resync on the `syncQueue`. -/
inductive MonitorEffect (Cb : Type) where
  | callback (callback : Option Cb)
  | rebuild
  | resync
deriving DecidableEq, Repr

/-- An evaluation: the path of its event, and the inode number that `lstat` has found. -/
abbrev Evaluated (P : Type) := Option P × Option Nat

section Effects

variable {P Cb : Type}

/-- The effects among the entries of a log. -/
def effects (log : List (MonitorEntry P Cb)) : List (MonitorEffect Cb) :=
  log.filterMap fun
    | .dispatched callback _ => some (.callback callback)
    | .rebuilt => some .rebuild
    | .resyncQueued => some .resync
    | _ => none

@[simp] theorem effects_append (log rest : List (MonitorEntry P Cb)) :
    effects (log ++ rest) = effects log ++ effects rest :=
  List.filterMap_append

@[simp] theorem effects_map_built (srcs : List (VnodeSource P Nat)) :
    effects (srcs.map (@MonitorEntry.built P Cb)) = [] := by
  simp [effects]

variable [DecidableEq P]

/-- What one evaluation is to bring about when `previous` is the answer before it. -/
def edgeEffect (callback : Cb) (path : P) (previous : Option Nat) (evaluation : Evaluated P) :
    List (MonitorEffect Cb) :=
  if evaluation.2 ≠ previous then [.callback (some callback), .rebuild, .resync]
  else if evaluation.2.isSome = true ∧ evaluation.1 = some path then [.callback (some callback)]
  else []

/-- What a sequence of evaluations is to bring about, one after the other. -/
def edgeEffects (callback : Cb) (path : P) :
    Option Nat → List (Evaluated P) → List (MonitorEffect Cb)
  | _, [] => []
  | previous, evaluation :: rest =>
    edgeEffect callback path previous evaluation ++ edgeEffects callback path evaluation.2 rest

/-- The answer before the next evaluation. -/
def lastAnswer (first : Option Nat) (evaluated : List (Evaluated P)) : Option Nat :=
  (evaluated.map (·.2)).getLastD first

omit [DecidableEq P] in
@[simp] theorem lastAnswer_concat (first : Option Nat) (evaluated : List (Evaluated P))
    (evaluation : Evaluated P) :
    lastAnswer first (evaluated ++ [evaluation]) = evaluation.2 := by
  simp [lastAnswer]

theorem edgeEffects_concat (callback : Cb) (path : P) (first : Option Nat)
    (evaluated : List (Evaluated P)) (evaluation : Evaluated P) :
    edgeEffects callback path first (evaluated ++ [evaluation]) =
      edgeEffects callback path first evaluated ++
        edgeEffect callback path (lastAnswer first evaluated) evaluation := by
  induction evaluated generalizing first with
  | nil => simp [edgeEffects, lastAnswer]
  | cons head rest ih =>
    have hlast : lastAnswer first (head :: rest) = lastAnswer head.2 rest := by
      unfold lastAnswer
      rw [List.map_cons, List.getLastD_cons]
    rw [List.cons_append, edgeEffects, ih, edgeEffects, hlast, List.append_assoc]

omit [DecidableEq P] in
/-- Paths that go on after the evaluated ones, with the answers so far. -/
theorem zip_evaluated (evaluated : List (Evaluated P)) (rest : List (Option P)) :
    (evaluated.map (·.1) ++ rest).zip (evaluated.map (·.2)) = evaluated := by
  induction evaluated with
  | nil => simp
  | cons head evaluated ih => simp [ih]

end Effects

namespace MonitorPlace

variable {P Cb : Type}

/-- What the running block has still to do. -/
def remaining : MonitorPlace P → List (MonitorEffect Cb)
  | .rebuild => [.rebuild, .resync]
  | .queueResync => [.resync]
  | _ => []

/-- The path that the running block is going to evaluate. -/
def coming : MonitorPlace P → List (Option P)
  | .build => [none]
  | .evaluate origin => [origin.map (·.subPath)]
  | _ => []

end MonitorPlace

namespace MonitorSessions

variable {P S Cb : Type}

/-- The event is no call of `startWithError:callback:` or `stop:`. -/
def Event.inSession : Event P S Cb → Prop
  | .start _ _ | .stop => False
  | _ => True

/-- The paths of the blocks that are queued on the `syncQueue`.  The event block of a source
has its `subPath`, and a resync has none. -/
def queuedPaths (events : List (Event P S Cb)) : List (Option P) :=
  events.filterMap fun
    | .dispatch src => some (some src.subPath)
    | .queueResync => some none
    | _ => none

theorem queuedPaths_concat (events : List (Event P S Cb)) (e : Event P S Cb) :
    queuedPaths (events ++ [e]) = queuedPaths events ++ queuedPaths [e] :=
  List.filterMap_append

/-- The paths of the evaluations of a session that begins with these blocks on the
`syncQueue`, the ones to come included. -/
def evaluationPaths (waiting : List (Option (VnodeSource P Nat)))
    (events : List (Event P S Cb)) : List (Option P) :=
  none :: (waiting.map (Option.map (·.subPath)) ++ queuedPaths events)

variable [FileStat S]

/-- The inode numbers that `lstat` has found, in order. -/
def lstatAnswers (events : List (Event P S Cb)) : List (Option Nat) :=
  events.filterMap fun
    | .lstat post => some (post.map st_ino)
    | _ => none

theorem lstatAnswers_concat (events : List (Event P S Cb)) (e : Event P S Cb) :
    lstatAnswers (events ++ [e]) = lstatAnswers events ++ lstatAnswers [e] :=
  List.filterMap_append

/-- The evaluations of a session. -/
def sessionEvaluations (waiting : List (Option (VnodeSource P Nat)))
    (events : List (Event P S Cb)) : List (Evaluated P) :=
  (evaluationPaths waiting events).zip (lstatAnswers events)

/-- A session that has begun in `first`, where `lstat` has found `pre`, after the events
`events`. -/
structure EdgeTriggered (first : MonitorSessions P S Cb) (callback : Cb) (path : P)
    (pre : Option Nat) (events : List (Event P S Cb)) (s : MonitorSessions P S Cb)
    (since : List (MonitorEntry P Cb)) [DecidableEq P] : Prop where
  log : s.log = first.log ++ since
  /-- Every answer of `lstat` belongs to an evaluation. -/
  answers : (sessionEvaluations first.syncQueue events).map (·.2) = lstatAnswers events
  recorded : s.monitor.recorded = lastAnswer pre (sessionEvaluations first.syncQueue events)
  effects : effects since ++ s.place.remaining =
    edgeEffects callback path pre (sessionEvaluations first.syncQueue events)

/-- The evaluations so far are `done`, and the running block and the queue have the others. -/
structure Accounts (first : MonitorSessions P S Cb) (callback : Cb) (path : P)
    (pre : Option Nat) (events : List (Event P S Cb)) (s : MonitorSessions P S Cb)
    (since : List (MonitorEntry P Cb)) (done : List (Evaluated P)) [DecidableEq P] : Prop where
  log : s.log = first.log ++ since
  paths : evaluationPaths first.syncQueue events =
    done.map (·.1) ++ (s.place.coming ++ s.syncQueue.map (Option.map (·.subPath)))
  answers : done.map (·.2) = lstatAnswers events
  recorded : s.monitor.recorded = lastAnswer pre done
  effects : effects since ++ s.place.remaining = edgeEffects callback path pre done

variable [DecidableEq P] {first s t : MonitorSessions P S Cb} {e : Event P S Cb}
  {events : List (Event P S Cb)} {callback : Cb} {path : P} {pre : Option Nat}
  {since : List (MonitorEntry P Cb)} {done : List (Evaluated P)}

theorem Accounts.edgeTriggered (hs : Accounts first callback path pre events s since done) :
    EdgeTriggered first callback path pre events s since := by
  have hdone : sessionEvaluations first.syncQueue events = done := by
    unfold sessionEvaluations
    rw [hs.paths, ← hs.answers, zip_evaluated]
  exact
    { log := hs.log
      answers := by rw [hdone, hs.answers]
      recorded := by rw [hdone, hs.recorded]
      effects := by rw [hdone, hs.effects] }

/-- The effects of an evaluation are those that it has and those that it leaves to do. -/
theorem effects_evaluate (hcallback : s.monitor.eventCallback = some callback)
    (hpath : s.monitor.path = path) (origin : Option (VnodeSource P Nat)) (post : Option S) :
    ∃ rest, (s.evaluate origin post).log = s.log ++ rest ∧
      BromiumCoreUtils.effects rest ++ (s.evaluate origin post).place.remaining =
        edgeEffect callback path s.monitor.recorded
          (origin.map (·.subPath), post.map st_ino) := by
  refine ⟨_, by rw [evaluate_log, List.append_assoc, List.append_assoc], ?_⟩
  rw [evaluate_place, hcallback, hpath]
  unfold edgeEffect
  have hfound : (post.map st_ino).isSome = post.isSome := Option.isSome_map
  rw [hfound]
  by_cases hsame : s.monitor.recorded = post.map st_ino
  · by_cases hown : post.isSome = true ∧ origin.map (·.subPath) = some path
    · rw [if_pos (Or.inr hown), if_neg (not_not_intro hsame), if_neg (not_not_intro hsame.symm),
        if_pos hown]
      rfl
    · have hsilent : ¬ (s.monitor.recorded ≠ post.map st_ino ∨
          post.isSome = true ∧ origin.map (·.subPath) = some path) := by
        rintro (hchanged | howned)
        · exact hchanged hsame
        · exact hown howned
      rw [if_neg hsilent, if_neg (not_not_intro hsame), if_neg (not_not_intro hsame.symm),
        if_neg hown]
      rfl
  · have hchanged : post.map st_ino ≠ s.monitor.recorded := fun h => hsame h.symm
    rw [if_pos (Or.inl hsame), if_pos hsame, if_pos hchanged]
    rfl

/-- A step that is no evaluation.  What it queues comes last. -/
theorem Accounts.frame {rest : List (MonitorEntry P Cb)}
    (hs : Accounts first callback path pre events s since done) (hlog : t.log = s.log ++ rest)
    (hrecorded : t.monitor.recorded = s.monitor.recorded) (hanswers : lstatAnswers [e] = [])
    (hpaths : s.place.coming ++ s.syncQueue.map (Option.map (·.subPath)) ++ queuedPaths [e] =
      t.place.coming ++ t.syncQueue.map (Option.map (·.subPath)))
    (heffects : BromiumCoreUtils.effects rest ++ t.place.remaining =
      (s.place.remaining : List (MonitorEffect Cb))) :
    Accounts first callback path pre (events ++ [e]) t (since ++ rest) done := by
  refine ⟨by rw [hlog, hs.log, List.append_assoc], ?_, ?_, ?_, ?_⟩
  · have hbefore := hs.paths
    unfold evaluationPaths at hbefore ⊢
    rw [queuedPaths_concat, ← List.append_assoc, ← List.cons_append, hbefore, ← hpaths,
      List.append_assoc]
  · rw [lstatAnswers_concat, hanswers, List.append_nil]
    exact hs.answers
  · rw [hrecorded]
    exact hs.recorded
  · rw [effects_append, List.append_assoc, heffects]
    exact hs.effects

/-- The callback and the path are those of the start, as long as there is no other call, and
there are sources once the start has built them. -/
structure SameSession (callback : Cb) (path : P) (s : MonitorSessions P S Cb) : Prop where
  eventCallback : s.monitor.eventCallback = some callback
  path : s.monitor.path = path
  sources : s.monitor.dispatch_source_list = none → s.place = .build

theorem sameSession_step (hs : SameSession callback path s) (he : e.inSession)
    (h : s.step e = .ok t) : SameSession callback path t := by
  have hsources := hs.sources
  cases step_transition h with
  | startNil | startFailed | started | stopFailed | stopped => exact he.elim
  | lstat origin post hplace =>
    refine ⟨by simpa using hs.eventCallback, by simpa using hs.path, fun hnone => ?_⟩
    have hbuild := hsources (by simpa using hnone)
    rw [hplace] at hbuild
    cases hbuild
  | runBlock origin rest hplace hqueue hstarted =>
    refine ⟨hs.eventCallback, hs.path, fun hnone => ?_⟩
    have hnone : s.monitor.dispatch_source_list = none := hnone
    rw [hnone] at hstarted
    cases hstarted
  | build | rebuild =>
    exact ⟨hs.eventCallback, hs.path, fun hnone => by cases hnone⟩
  | queueResync hplace =>
    refine ⟨hs.eventCallback, hs.path, fun hnone => ?_⟩
    have hbuild := hsources hnone
    rw [hplace] at hbuild
    cases hbuild
  | fire | dispatch | skipBlock | cancelHandler => exact ⟨hs.eventCallback, hs.path, hsources⟩

theorem accounts_step (hsession : SameSession callback path s)
    (hs : Accounts first callback path pre events s since done) (he : e.inSession)
    (h : s.step e = .ok t) : ∃ rest evaluated,
      Accounts first callback path pre (events ++ [e]) t (since ++ rest) (done ++ evaluated) := by
  -- every step but an evaluation leaves `done` as it is
  have hkeep {rest : List (MonitorEntry P Cb)}
      (hnext : Accounts first callback path pre (events ++ [e]) t (since ++ rest) done) :
      ∃ rest evaluated, Accounts first callback path pre (events ++ [e]) t (since ++ rest)
        (done ++ evaluated) := ⟨rest, [], by rw [List.append_nil]; exact hnext⟩
  cases step_transition h with
  | startNil | startFailed | started | stopFailed | stopped => exact he.elim
  | fire | cancelHandler =>
    exact hkeep (hs.frame (List.append_nil _).symm rfl rfl (List.append_nil _) rfl)
  | dispatch src hmem =>
    refine hkeep (hs.frame (List.append_nil _).symm rfl rfl ?_ rfl)
    simp [queuedPaths]
  | runBlock origin rest hplace hqueue hstarted =>
    refine hkeep (hs.frame (List.append_nil _).symm rfl rfl ?_ (by rw [hplace]; rfl))
    simp [queuedPaths, MonitorPlace.coming, hplace, hqueue]
  | skipBlock origin rest hplace hqueue hstopped =>
    -- in a session there are sources whenever no block runs
    have hbuild := hsession.sources hstopped
    rw [hplace] at hbuild
    cases hbuild
  | build outcomes srcs hplace hstopped hsrcs =>
    refine hkeep (hs.frame rfl rfl rfl ?_ ?_)
    · simp [queuedPaths, MonitorPlace.coming, hplace]
    · rw [hplace]
      simp [MonitorPlace.remaining]
  | lstat origin post hplace =>
    obtain ⟨rest, hlog, heffect⟩ :=
      effects_evaluate hsession.eventCallback hsession.path origin post
    refine ⟨rest, [(origin.map (·.subPath), post.map st_ino)],
      by rw [hlog, hs.log, List.append_assoc], ?_, ?_, ?_, ?_⟩
    · have hbefore := hs.paths
      have hidle : (s.evaluate origin post).place.coming = [] := by
        rw [evaluate_place]
        split <;> rfl
      unfold evaluationPaths at hbefore ⊢
      rw [queuedPaths_concat, hidle, evaluate_syncQueue, ← List.append_assoc,
        ← List.cons_append, hbefore, hplace]
      simp [queuedPaths, MonitorPlace.coming]
    · rw [List.map_append, hs.answers, lstatAnswers_concat]
      rfl
    · rw [lastAnswer_concat]
      simp
    · have hbefore := hs.effects
      simp only [hplace, MonitorPlace.remaining, List.append_nil] at hbefore
      rw [effects_append, edgeEffects_concat, ← hs.recorded, List.append_assoc, heffect, hbefore]
  | rebuild outcomes old srcs hplace hstarted hsrcs =>
    refine hkeep (hs.frame (List.append_assoc _ _ _) rfl rfl ?_ ?_)
    · simp [queuedPaths, MonitorPlace.coming, hplace]
    · rw [hplace]
      simp [BromiumCoreUtils.effects, MonitorPlace.remaining]
  | queueResync hplace =>
    refine hkeep (hs.frame rfl rfl rfl ?_ (by rw [hplace]; rfl))
    simp [queuedPaths, MonitorPlace.coming, hplace]

/-- For every session and all that can happen in it: the record is the answer to the last
evaluation, and the effects are those that the evaluations are to bring about, in order,
but for what the running block has still to do. -/
theorem effects_of_session {stat : Option S} (hstopped : s.monitor.dispatch_source_list = none)
    (hstart : s.step (.start (some callback) stat) = .ok first)
    (hevents : ∀ e ∈ events, e.inSession) (hrun : run step first events = .ok t) :
    ∃ since, EdgeTriggered first callback s.monitor.path (stat.map st_ino) events t since := by
  obtain ⟨hsession, hrecorded, hplace⟩ : SameSession callback s.monitor.path first ∧
      first.monitor.recorded = stat.map st_ino ∧ first.place = .build := by
    cases step_transition hstart with
    | startFailed callback pre hplace hstarted => simp [hstopped] at hstarted
    | started callback pre hplace hstopped =>
      exact ⟨⟨rfl, s.monitor.path_storeStat stat, fun _ => rfl⟩,
        s.monitor.recorded_storeStat stat, rfl⟩
  have hfirst : Accounts first callback s.monitor.path (stat.map st_ino) [] first [] [] := by
    refine ⟨(List.append_nil _).symm, ?_, rfl, hrecorded, by rw [hplace]; rfl⟩
    rw [hplace]
    simp [evaluationPaths, queuedPaths, MonitorPlace.coming]
  have hall := run_history
    (I := fun es m => (∀ e ∈ es, e.inSession) → SameSession callback s.monitor.path m ∧
      ∃ since done, Accounts first callback s.monitor.path (stat.map st_ino) es m since done)
    (fun _ => ⟨hsession, [], [], hfirst⟩) ?_ hrun
  · obtain ⟨-, since, done, ht⟩ := hall hevents
    exact ⟨since, ht.edgeTriggered⟩
  · intro es m e n _ hm h hes
    obtain ⟨hsession, since, done, hs⟩ := hm fun e' he' => hes e' (List.mem_append_left _ he')
    have he := hes e (by simp)
    obtain ⟨rest, evaluated, hnext⟩ := accounts_step hsession hs he h
    exact ⟨sameSession_step hsession he h, _, _, hnext⟩

/-- The file appears, is written to, and disappears.  The resync after each rebuild finds
nothing new. -/
theorem effects_of_session_appearing :
    ∃ (first t : MonitorSessions Nat Nat Nat) (since : List (MonitorEntry Nat Nat)),
      run step first
        [.build [true, false], .lstat none, .fire ⟨0, 0⟩, .dispatch ⟨0, 0⟩, .runBlock,
          .lstat (some 5), .rebuild [true, true], .queueResync, .runBlock, .lstat (some 5),
          .fire ⟨1, 2⟩, .dispatch ⟨1, 2⟩, .runBlock, .lstat (some 5), .fire ⟨1, 2⟩,
          .dispatch ⟨1, 2⟩, .runBlock, .lstat none] = .ok t ∧
      EdgeTriggered first 7 1 none
        [.build [true, false], .lstat none, .fire ⟨0, 0⟩, .dispatch ⟨0, 0⟩, .runBlock,
          .lstat (some 5), .rebuild [true, true], .queueResync, .runBlock, .lstat (some 5),
          .fire ⟨1, 2⟩, .dispatch ⟨1, 2⟩, .runBlock, .lstat (some 5), .fire ⟨1, 2⟩,
          .dispatch ⟨1, 2⟩, .runBlock, .lstat none] t since ∧
      t.place.remaining = [@MonitorEffect.rebuild Nat, .resync] := by
  obtain ⟨first, hstart, t, hrun, hplace⟩ : ∃ first : MonitorSessions Nat Nat Nat,
      (initial 1 [0, 1]).step (.start (some 7) none) = .ok first ∧ ∃ t, run step first
        [.build [true, false], .lstat none, .fire ⟨0, 0⟩, .dispatch ⟨0, 0⟩, .runBlock,
          .lstat (some 5), .rebuild [true, true], .queueResync, .runBlock, .lstat (some 5),
          .fire ⟨1, 2⟩, .dispatch ⟨1, 2⟩, .runBlock, .lstat (some 5), .fire ⟨1, 2⟩,
          .dispatch ⟨1, 2⟩, .runBlock, .lstat none] = .ok t ∧ t.place = .rebuild :=
    ⟨_, rfl, _, rfl, rfl⟩
  obtain ⟨since, htriggered⟩ :=
    effects_of_session (s := initial 1 [0, 1]) rfl hstart (by simp [Event.inSession]) hrun
  refine ⟨first, t, since, hrun, htriggered, ?_⟩
  rw [hplace]
  rfl

end MonitorSessions

end BromiumCoreUtils
