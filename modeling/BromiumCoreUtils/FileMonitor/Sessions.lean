import BromiumCoreUtils.FileMonitor.Basic
import BromiumCoreUtils.Lib.Log

/-!
# The sessions of a file monitor

A monitor is started and stopped any number of times.  Each start builds sources, each
change that an evaluation finds builds them again, and their descriptors are closed
by the cancel handlers, later and on another queue.  `MonitorSessions` is a monitor with
all of this: the block that runs on the `syncQueue` and how far it is, the blocks behind
it, the event handlers and cancel handlers that have not run, and the descriptors.

`lstat` and `open` may answer anything.  The descriptors are numbered in the order in
which `open` has given them, so that a number which the kernel gives out again is
another descriptor.  The log says what has happened, and why a callback was dispatched.
It is read by the properties only.

`Transition` lists the steps, as in the model of `BRURetry`.
-/

namespace BromiumCoreUtils

open Machine
open FileStat (st_ino)

/-! ## The loop of `buildMonitors`, turn by turn -/

/-- The sources that the loop makes when `outcomes` says of each `open` whether it
succeeds.  The path may name one `subPath` twice, which gives two sources. -/
def openSources {P : Type} (first : Nat) : List P → List Bool → List (VnodeSource P Nat)
  | subPath :: subPaths, true :: outcomes =>
    ⟨subPath, first⟩ :: openSources (first + 1) subPaths outcomes
  | _ :: subPaths, false :: outcomes => openSources first subPaths outcomes
  | _, _ => []

section OpenSources

variable {P : Type} {first : Nat} {subPaths : List P} {outcomes : List Bool}

/-- The descriptors are the next ones, each in one source. -/
theorem fd_openSources :
    (openSources first subPaths outcomes).map (·.fd) =
      List.range' first (openSources first subPaths outcomes).length := by
  fun_induction openSources first subPaths outcomes with
  | case1 first subPath subPaths outcomes ih =>
    rw [List.map_cons, ih, List.length_cons, List.range'_succ]
  | case2 first subPath subPaths outcomes ih => exact ih
  | case3 first subPaths outcomes _ _ => rfl

theorem first_le_of_mem_openSources {src : VnodeSource P Nat}
    (h : src ∈ openSources first subPaths outcomes) :
    first ≤ src.fd ∧ src.fd < first + (openSources first subPaths outcomes).length := by
  have hfd := List.mem_map_of_mem (f := (·.fd)) h
  rw [fd_openSources, List.mem_range'_1] at hfd
  exact hfd

/-- Where no `subPath` comes twice, these are the sources of the loop for a file system
that answers path by path. -/
theorem openSources_eq_sources (hnodup : subPaths.Nodup) :
    ∃ openPath, openSources first subPaths outcomes =
      BRUFileMonitor.sources openPath subPaths := by
  classical
  fun_induction openSources first subPaths outcomes with
  | case1 first subPath subPaths outcomes ih =>
    obtain ⟨hnew, hnodup⟩ := List.nodup_cons.mp hnodup
    obtain ⟨openPath, ih⟩ := ih hnodup
    refine ⟨fun p => if p = subPath then some first else openPath p, ?_⟩
    rw [ih]
    unfold BRUFileMonitor.sources
    rw [List.filterMap_cons_some (b := ⟨subPath, first⟩) (by simp)]
    congr 1
    refine List.filterMap_congr fun p hp => ?_
    have hne : p ≠ subPath := fun heq => hnew (heq ▸ hp)
    simp only [hne, if_false]
  | case2 first subPath subPaths outcomes ih =>
    obtain ⟨hnew, hnodup⟩ := List.nodup_cons.mp hnodup
    obtain ⟨openPath, ih⟩ := ih hnodup
    refine ⟨fun p => if p = subPath then none else openPath p, ?_⟩
    rw [ih]
    unfold BRUFileMonitor.sources
    rw [List.filterMap_cons_none (by simp)]
    refine List.filterMap_congr fun p hp => ?_
    have hne : p ≠ subPath := fun heq => hnew (heq ▸ hp)
    simp only [hne, if_false]
  | case3 first subPaths outcomes _ _ =>
    refine ⟨fun _ => none, ?_⟩
    unfold BRUFileMonitor.sources
    simp

end OpenSources

/-! ## The monitor with its queues -/

/-- Why an evaluation invokes the callback. -/
inductive DispatchCause (P : Type) where
  | event (src : VnodeSource P Nat)
  | changed (old new : Option Nat)
deriving DecidableEq, Repr

/-- What happens to a monitor.  `recorded` is an answer of `lstat` that the monitor has
stored.  A failed `start` or `stop` has the error that it returns. -/
inductive MonitorEntry (P Cb : Type) where
  | started (callback : Cb)
  | startFailed (error : NSError)
  | stopped
  | stopFailed (error : NSError)
  | recorded (st_ino : Option Nat)
  | built (src : VnodeSource P Nat)
  | evaluated (path : Option P) (post : Option Nat)
  | dispatched (callback : Option Cb) (cause : DispatchCause P)
  | rebuilt
  | resyncQueued
deriving DecidableEq, Repr

/-- What the block that runs on the `syncQueue` does next.  The evaluation of an event
knows its source, those of a start and of a resync have none. -/
inductive MonitorPlace (P : Type) where
  | idle
  | build
  | evaluate (origin : Option (VnodeSource P Nat))
  | rebuild
  | queueResync
deriving DecidableEq, Repr

/-- A monitor, its queues and its descriptors.  `sessionFirst` is the first descriptor
that a source of the last session can have. -/
structure MonitorSessions (P S Cb : Type) where
  monitor : BRUFileMonitor P Nat S Cb
  place : MonitorPlace P := .idle
  /-- The blocks behind the running one: an event of a source, or a resync. -/
  syncQueue : List (Option (VnodeSource P Nat)) := []
  /-- Event handlers that have begun. -/
  handlers : List (VnodeSource P Nat) := []
  /-- Cancelled sources whose cancel handler has not run. -/
  cancelling : List (VnodeSource P Nat) := []
  /-- How many descriptors `open` has given. -/
  opened : Nat := 0
  closed : List Nat := []
  sessionFirst : Nat := 0
  log : List (MonitorEntry P Cb) := []

namespace BRUFileMonitor

variable {P O S Cb : Type}

/-- `BRUParameterNotNil(callback, error)`, when it fails. -/
def callbackNilError : NSError where
  domain := NSPOSIXErrorDomain
  code := EINVAL
  userInfo := [(BRUErrorReasonKey,
    "Parameter 'callback' in '-[BRUFileMonitor startWithError:callback:]' should be non-nil")]

/-- The block of `stop:`. -/
def stopBlock (m : BRUFileMonitor P O S Cb) :
    Exec Assertion (BRUFileMonitor P O S Cb × Option NSError) :=
  match m.dispatch_source_list with
  | none => pure (m, some {
      domain := NSPOSIXErrorDomain
      code := ENOTSUP
      userInfo := [(BRUErrorReasonKey, "Can't stop already stopped monitor.")] })
  | some _ => do
    let m ← m.destroyMonitors
    pure ({ m with eventCallback := none, isStatValid := false }, none)

/-- The first lines of the block of `startWithError:callback:`. -/
def storeStat (pre : Option S) (m : BRUFileMonitor P O S Cb) : BRUFileMonitor P O S Cb :=
  match pre with
  | none => { m with isStatValid := false }
  | some pre => { m with isStatValid := true, stat := pre }

section StoreStat

variable (pre : Option S) (m : BRUFileMonitor P O S Cb)

@[simp] theorem recorded_storeStat [FileStat S] :
    (m.storeStat pre).recorded = pre.map st_ino := by
  cases pre <;> simp [storeStat, recorded]

@[simp] theorem dispatch_source_list_storeStat :
    (m.storeStat pre).dispatch_source_list = m.dispatch_source_list := by
  cases pre <;> rfl

@[simp] theorem eventCallback_storeStat :
    (m.storeStat pre).eventCallback = m.eventCallback := by
  cases pre <;> rfl

@[simp] theorem path_storeStat : (m.storeStat pre).path = m.path := by
  cases pre <;> rfl

end StoreStat

/-- The error of a start that finds the monitor started. -/
def alreadyStartedError : NSError where
  domain := NSPOSIXErrorDomain
  code := ENOTSUP
  userInfo := [(BRUErrorReasonKey, "Can't start already started monitor.")]

theorem startBlock_started {m : BRUFileMonitor P O S Cb}
    (h : m.dispatch_source_list.isSome = true) (pre : Option S) (callback : Cb) :
    m.startBlock pre callback = (m.storeStat pre, some alreadyStartedError) := by
  obtain ⟨srcs, h⟩ := Option.isSome_iff_exists.mp h
  cases pre <;> simp [startBlock, storeStat, alreadyStartedError, h]

theorem startBlock_stopped {m : BRUFileMonitor P O S Cb} (h : m.dispatch_source_list = none)
    (pre : Option S) (callback : Cb) :
    m.startBlock pre callback =
      ({ m.storeStat pre with eventCallback := some callback }, none) := by
  cases pre <;> simp [startBlock, storeStat, h]

/-- The error of a stop that finds the monitor stopped. -/
def alreadyStoppedError : NSError where
  domain := NSPOSIXErrorDomain
  code := ENOTSUP
  userInfo := [(BRUErrorReasonKey, "Can't stop already stopped monitor.")]

theorem stopBlock_stopped {m : BRUFileMonitor P O S Cb} (h : m.dispatch_source_list = none) :
    m.stopBlock = .ok (m, some alreadyStoppedError) := by
  unfold stopBlock
  rw [h]
  rfl

/-- The test of `stop:` is the assertion of `destroyMonitors`. -/
theorem stopBlock_started {m : BRUFileMonitor P O S Cb}
    (h : m.dispatch_source_list.isSome = true) :
    m.stopBlock = .ok ({ m with
      dispatch_source_list := none
      eventCallback := none
      isStatValid := false }, none) := by
  obtain ⟨srcs, hsrcs⟩ := Option.isSome_iff_exists.mp h
  unfold stopBlock destroyMonitors assertThat
  simp only [hsrcs]
  rfl

end BRUFileMonitor

namespace MonitorSessions

variable {P S Cb : Type}

/-- A new monitor. -/
def initial [FileStat S] (path : P) (subPaths : List P) : MonitorSessions P S Cb where
  monitor := { path := path, subPaths := subPaths, stat := FileStat.zero }

/-- A call, a step of the block that runs on the `syncQueue`, or a step of another
queue.  `outcomes`, `pre` and `post` are the answers of the system. -/
inductive Event (P S Cb : Type) where
  | start (callback : Option Cb) (pre : Option S)
  | stop
  | fire (src : VnodeSource P Nat)
  | dispatch (src : VnodeSource P Nat)
  | runBlock
  | build (outcomes : List Bool)
  | lstat (post : Option S)
  | rebuild (outcomes : List Bool)
  | queueResync
  | cancelHandler (src : VnodeSource P Nat)
deriving DecidableEq, Repr

/-- The sources that are not cancelled. -/
def currentSources (s : MonitorSessions P S Cb) : List (VnodeSource P Nat) :=
  s.monitor.dispatch_source_list.getD []

/-- `buildMonitors`. -/
def buildMonitors (outcomes : List Bool) (s : MonitorSessions P S Cb) :
    Exec Assertion (MonitorSessions P S Cb) := do
  assertThat (s.monitor.dispatch_source_list.isNone = true) .monitorsAlreadyBuilt
  let srcs := openSources s.opened s.monitor.subPaths outcomes
  pure { s with
    monitor := { s.monitor with dispatch_source_list := some srcs }
    opened := s.opened + srcs.length
    log := s.log ++ srcs.map .built }

/-- `destroyMonitors`: the sources are cancelled. -/
def destroyMonitors (s : MonitorSessions P S Cb) :
    Exec Assertion (MonitorSessions P S Cb) := do
  let monitor ← s.monitor.destroyMonitors
  pure { s with monitor := monitor, cancelling := s.cancelling ++ s.currentSources }

/-- Why the evaluation of a block dispatches the callback, if it does. -/
def dispatchCause (origin : Option (VnodeSource P Nat)) (old new : Option Nat) :
    DispatchCause P :=
  match origin with
  | some src => if old = new then .event src else .changed old new
  | none => .changed old new

/-- `evaluateForPath:` from `lstat` to the choice whether to rebuild. -/
def evaluate [DecidableEq P] [FileStat S] (origin : Option (VnodeSource P Nat)) (post : Option S)
    (s : MonitorSessions P S Cb) : MonitorSessions P S Cb :=
  let path := origin.map (·.subPath)
  let evaluation := s.monitor.evaluateForPath post path
  let found := post.map st_ino
  let cause := dispatchCause origin s.monitor.recorded found
  { s with
    monitor := evaluation.monitor
    place := if evaluation.rebuilds then .rebuild else .idle
    log := s.log ++ [.evaluated path found] ++
      evaluation.completionBlocks.map (.dispatched · cause) ++ [.recorded found] }

def step [DecidableEq P] [FileStat S] (s : MonitorSessions P S Cb) :
    Event P S Cb → Exec Assertion (MonitorSessions P S Cb)
  | .start none _ =>
    -- `BRUParameterNotNil` answers before the `syncQueue` is asked for
    pure { s with log := s.log ++ [.startFailed BRUFileMonitor.callbackNilError] }
  | .start (some callback) pre => do
    enabledIf (s.place = .idle)
    match s.monitor.startBlock pre callback with
    | (monitor, some error) =>
      pure { s with
        monitor := monitor
        log := s.log ++ [.recorded monitor.recorded, .startFailed error] }
    | (monitor, none) =>
      pure { s with
        monitor := monitor
        place := .build
        sessionFirst := s.opened
        log := s.log ++ [.started callback, .recorded monitor.recorded] }
  | .stop => do
    enabledIf (s.place = .idle)
    match ← s.monitor.stopBlock with
    | (_, some error) => pure { s with log := s.log ++ [.stopFailed error] }
    | (monitor, none) =>
      pure { s with
        monitor := monitor
        cancelling := s.cancelling ++ s.currentSources
        log := s.log ++ [.stopped] }
  | .fire src => do
    -- a cancelled source begins no handler
    enabledIf (src ∈ s.currentSources)
    pure { s with handlers := s.handlers ++ [src] }
  | .dispatch src => do
    enabledIf (src ∈ s.handlers)
    pure { s with
      handlers := s.handlers.erase src
      syncQueue := s.syncQueue ++ [some src] }
  | .runBlock => do
    enabledIf (s.place = .idle)
    match s.syncQueue with
    | [] => .error .disabled
    | origin :: syncQueue =>
      -- the test of an event block and of a resync is the same
      pure { s with
        syncQueue := syncQueue
        place := if s.monitor.dispatch_source_list.isSome then .evaluate origin else .idle }
  | .build outcomes => do
    enabledIf (s.place = .build)
    let s ← s.buildMonitors outcomes
    pure { s with place := .evaluate none }
  | .lstat post =>
    match s.place with
    | .evaluate origin => pure (s.evaluate origin post)
    | _ => .error .disabled
  | .rebuild outcomes => do
    enabledIf (s.place = .rebuild)
    let s ← s.destroyMonitors
    let s ← s.buildMonitors outcomes
    pure { s with place := .queueResync, log := s.log ++ [.rebuilt] }
  | .queueResync => do
    enabledIf (s.place = .queueResync)
    pure { s with
      syncQueue := s.syncQueue ++ [none]
      place := .idle
      log := s.log ++ [.resyncQueued] }
  | .cancelHandler src => do
    enabledIf (src ∈ s.cancelling)
    pure { s with
      cancelling := s.cancelling.erase src
      closed := s.closed ++ [src.fd] }

/-! ## What a step does -/

section Evaluate

variable [DecidableEq P] [FileStat S] (s : MonitorSessions P S Cb)
  (origin : Option (VnodeSource P Nat)) (post : Option S)

@[simp] theorem evaluate_monitor : (s.evaluate origin post).monitor =
    (s.monitor.evaluateForPath post (origin.map (·.subPath))).monitor := rfl

@[simp] theorem evaluate_currentSources :
    (s.evaluate origin post).currentSources = s.currentSources := by
  simp [currentSources]

@[simp] theorem evaluate_cancelling : (s.evaluate origin post).cancelling = s.cancelling := rfl

@[simp] theorem evaluate_closed : (s.evaluate origin post).closed = s.closed := rfl

@[simp] theorem evaluate_opened : (s.evaluate origin post).opened = s.opened := rfl

@[simp] theorem evaluate_syncQueue : (s.evaluate origin post).syncQueue = s.syncQueue := rfl

@[simp] theorem evaluate_handlers : (s.evaluate origin post).handlers = s.handlers := rfl

@[simp] theorem evaluate_sessionFirst :
    (s.evaluate origin post).sessionFirst = s.sessionFirst := rfl

theorem evaluate_place : (s.evaluate origin post).place =
    if s.monitor.recorded ≠ post.map st_ino then .rebuild else .idle := by
  unfold evaluate
  simp only [BRUFileMonitor.rebuilds_evaluateForPath]

/-- The callback of an evaluation, if it dispatches one. -/
theorem evaluate_log : (s.evaluate origin post).log =
    s.log ++ [.evaluated (origin.map (·.subPath)) (post.map st_ino)] ++
      (if s.monitor.recorded ≠ post.map st_ino ∨
          post.isSome = true ∧ origin.map (·.subPath) = some s.monitor.path then
        [.dispatched s.monitor.eventCallback
          (dispatchCause origin s.monitor.recorded (post.map st_ino))]
      else []) ++ [.recorded (post.map st_ino)] := by
  unfold evaluate
  simp only [BRUFileMonitor.completionBlocks_evaluateForPath]
  split <;> rfl

end Evaluate

/-- The sources are built as `BRUFileMonitor` builds them, where no `subPath` comes twice. -/
theorem monitor_buildMonitors {s t : MonitorSessions P S Cb} {outcomes : List Bool}
    (hnodup : s.monitor.subPaths.Nodup) (h : s.buildMonitors outcomes = .ok t) :
    ∃ openPath, s.monitor.buildMonitors openPath = .ok t.monitor := by
  simp only [buildMonitors, bind_eq_ok, assertThat_eq_ok, pure_eq_ok] at h
  obtain ⟨_, hnone, rfl⟩ := h
  obtain ⟨openPath, hsources⟩ : ∃ openPath, openSources s.opened s.monitor.subPaths outcomes =
      BRUFileMonitor.sources openPath s.monitor.subPaths := openSources_eq_sources hnodup
  refine ⟨openPath, ?_⟩
  simp only [BRUFileMonitor.buildMonitors, assertThat, if_pos hnone, hsources]
  rfl

/-- The steps, one constructor for each branch. -/
inductive Transition [DecidableEq P] [FileStat S] (s : MonitorSessions P S Cb) :
    Event P S Cb → MonitorSessions P S Cb → Prop where
  | startNil (pre : Option S) :
    Transition s (.start none pre)
      { s with log := s.log ++ [.startFailed BRUFileMonitor.callbackNilError] }
  | startFailed (callback : Cb) (pre : Option S) (hplace : s.place = .idle)
      (hstarted : s.monitor.dispatch_source_list.isSome = true) :
    Transition s (.start (some callback) pre)
      { s with
        monitor := s.monitor.storeStat pre
        log := s.log ++
          [.recorded (pre.map st_ino), .startFailed BRUFileMonitor.alreadyStartedError] }
  | started (callback : Cb) (pre : Option S) (hplace : s.place = .idle)
      (hstopped : s.monitor.dispatch_source_list = none) :
    Transition s (.start (some callback) pre)
      { s with
        monitor := { s.monitor.storeStat pre with eventCallback := some callback }
        place := .build
        sessionFirst := s.opened
        log := s.log ++ [.started callback, .recorded (pre.map st_ino)] }
  | stopFailed (hplace : s.place = .idle) (hstopped : s.monitor.dispatch_source_list = none) :
    Transition s .stop
      { s with log := s.log ++ [.stopFailed BRUFileMonitor.alreadyStoppedError] }
  | stopped (srcs : List (VnodeSource P Nat)) (hplace : s.place = .idle)
      (hstarted : s.monitor.dispatch_source_list = some srcs) :
    Transition s .stop
      { s with
        monitor := { s.monitor with
          dispatch_source_list := none
          eventCallback := none
          isStatValid := false }
        cancelling := s.cancelling ++ srcs
        log := s.log ++ [.stopped] }
  | fire (src : VnodeSource P Nat) (hmem : src ∈ s.currentSources) :
    Transition s (.fire src) { s with handlers := s.handlers ++ [src] }
  | dispatch (src : VnodeSource P Nat) (hmem : src ∈ s.handlers) :
    Transition s (.dispatch src)
      { s with handlers := s.handlers.erase src, syncQueue := s.syncQueue ++ [some src] }
  | runBlock (origin : Option (VnodeSource P Nat)) (rest : List (Option (VnodeSource P Nat)))
      (hplace : s.place = .idle) (hqueue : s.syncQueue = origin :: rest)
      (hstarted : s.monitor.dispatch_source_list.isSome = true) :
    Transition s .runBlock { s with syncQueue := rest, place := .evaluate origin }
  | skipBlock (origin : Option (VnodeSource P Nat)) (rest : List (Option (VnodeSource P Nat)))
      (hplace : s.place = .idle) (hqueue : s.syncQueue = origin :: rest)
      (hstopped : s.monitor.dispatch_source_list = none) :
    Transition s .runBlock { s with syncQueue := rest }
  | build (outcomes : List Bool) (srcs : List (VnodeSource P Nat)) (hplace : s.place = .build)
      (hstopped : s.monitor.dispatch_source_list = none)
      (hsrcs : srcs = openSources s.opened s.monitor.subPaths outcomes) :
    Transition s (.build outcomes)
      { s with
        monitor := { s.monitor with dispatch_source_list := some srcs }
        place := .evaluate none
        opened := s.opened + srcs.length
        log := s.log ++ srcs.map .built }
  | lstat (origin : Option (VnodeSource P Nat)) (post : Option S)
      (hplace : s.place = .evaluate origin) :
    Transition s (.lstat post) (s.evaluate origin post)
  | rebuild (outcomes : List Bool) (old srcs : List (VnodeSource P Nat))
      (hplace : s.place = .rebuild) (hstarted : s.monitor.dispatch_source_list = some old)
      (hsrcs : srcs = openSources s.opened s.monitor.subPaths outcomes) :
    Transition s (.rebuild outcomes)
      { s with
        monitor := { s.monitor with dispatch_source_list := some srcs }
        place := .queueResync
        cancelling := s.cancelling ++ old
        opened := s.opened + srcs.length
        log := s.log ++ srcs.map .built ++ [.rebuilt] }
  | queueResync (hplace : s.place = .queueResync) :
    Transition s .queueResync
      { s with
        syncQueue := s.syncQueue ++ [none]
        place := .idle
        log := s.log ++ [.resyncQueued] }
  | cancelHandler (src : VnodeSource P Nat) (hmem : src ∈ s.cancelling) :
    Transition s (.cancelHandler src)
      { s with cancelling := s.cancelling.erase src, closed := s.closed ++ [src.fd] }

variable [DecidableEq P] [FileStat S] {s t : MonitorSessions P S Cb} {e : Event P S Cb}

/-- The list is complete. -/
theorem step_transition (h : s.step e = .ok t) : Transition s e t := by
  cases e with
  | start callback pre =>
    cases callback with
    | none =>
      obtain rfl := pure_eq_ok.mp h
      exact .startNil pre
    | some callback =>
      simp only [step, bind_eq_ok, enabledIf_eq_ok] at h
      obtain ⟨-, hplace, h⟩ := h
      cases hlist : s.monitor.dispatch_source_list with
      | none =>
        rw [BRUFileMonitor.startBlock_stopped hlist] at h
        obtain rfl := pure_eq_ok.mp h
        have hrecorded : { s.monitor.storeStat pre with
            eventCallback := some callback }.recorded = pre.map st_ino :=
          s.monitor.recorded_storeStat pre
        rw [hrecorded]
        exact .started callback pre hplace hlist
      | some srcs =>
        have hstarted : s.monitor.dispatch_source_list.isSome = true := by rw [hlist]; rfl
        rw [BRUFileMonitor.startBlock_started hstarted] at h
        obtain rfl := pure_eq_ok.mp h
        rw [BRUFileMonitor.recorded_storeStat]
        exact .startFailed callback pre hplace hstarted
  | stop =>
    simp only [step, bind_eq_ok, enabledIf_eq_ok] at h
    obtain ⟨-, hplace, answer, hstop, h⟩ := h
    cases hlist : s.monitor.dispatch_source_list with
    | none =>
      rw [BRUFileMonitor.stopBlock_stopped hlist] at hstop
      injection hstop with hanswer
      subst hanswer
      obtain rfl := pure_eq_ok.mp h
      exact .stopFailed hplace hlist
    | some srcs =>
      rw [BRUFileMonitor.stopBlock_started (by rw [hlist]; rfl)] at hstop
      injection hstop with hanswer
      subst hanswer
      obtain rfl := pure_eq_ok.mp h
      have hcurrent : s.currentSources = srcs := by simp [currentSources, hlist]
      rw [hcurrent]
      exact .stopped srcs hplace hlist
  | fire src =>
    simp only [step, bind_eq_ok, enabledIf_eq_ok, pure_eq_ok] at h
    obtain ⟨-, hmem, rfl⟩ := h
    exact .fire src hmem
  | dispatch src =>
    simp only [step, bind_eq_ok, enabledIf_eq_ok, pure_eq_ok] at h
    obtain ⟨-, hmem, rfl⟩ := h
    exact .dispatch src hmem
  | runBlock =>
    simp only [step, bind_eq_ok, enabledIf_eq_ok] at h
    obtain ⟨-, hplace, h⟩ := h
    cases hqueue : s.syncQueue with
    | nil => simp [hqueue] at h
    | cons origin rest =>
      simp only [hqueue, pure_eq_ok] at h
      subst h
      cases hlist : s.monitor.dispatch_source_list with
      | none =>
        simp only [Option.isSome_none, Bool.false_eq_true, if_false]
        rw [← hplace]
        exact .skipBlock origin rest hplace hqueue hlist
      | some srcs => exact .runBlock origin rest hplace hqueue (by rw [hlist]; rfl)
  | build outcomes =>
    simp only [step, bind_eq_ok, enabledIf_eq_ok, buildMonitors, assertThat_eq_ok, pure_eq_ok]
      at h
    obtain ⟨-, hplace, _, ⟨-, hlist, rfl⟩, rfl⟩ := h
    exact .build outcomes _ hplace (Option.isNone_iff_eq_none.mp hlist) rfl
  | lstat post =>
    simp only [step] at h
    cases hplace : s.place <;> rw [hplace] at h <;> cases h
    exact .lstat _ post hplace
  | rebuild outcomes =>
    simp only [step, bind_eq_ok, enabledIf_eq_ok, destroyMonitors, buildMonitors,
      BRUFileMonitor.destroyMonitors, assertThat_eq_ok, pure_eq_ok] at h
    obtain ⟨-, hplace, _, ⟨_, ⟨-, hlist, rfl⟩, rfl⟩, _, ⟨-, -, rfl⟩, rfl⟩ := h
    obtain ⟨old, hlist⟩ := Option.isSome_iff_exists.mp hlist
    have hcurrent : s.currentSources = old := by simp [currentSources, hlist]
    rw [hcurrent]
    exact .rebuild outcomes old _ hplace hlist rfl
  | queueResync =>
    simp only [step, bind_eq_ok, enabledIf_eq_ok, pure_eq_ok] at h
    obtain ⟨-, hplace, rfl⟩ := h
    exact .queueResync hplace
  | cancelHandler src =>
    simp only [step, bind_eq_ok, enabledIf_eq_ok, pure_eq_ok] at h
    obtain ⟨-, hmem, rfl⟩ := h
    exact .cancelHandler src hmem

/-- Each of the steps on the list can be made. -/
theorem Transition.step_eq (h : Transition s e t) : s.step e = .ok t := by
  cases h with
  | startNil pre => rfl
  | startFailed callback pre hplace hstarted =>
    simp only [step, bind_eq_ok, enabledIf_eq_ok]
    refine ⟨(), hplace, ?_⟩
    rw [BRUFileMonitor.startBlock_started hstarted]
    simp
  | started callback pre hplace hstopped =>
    simp only [step, bind_eq_ok, enabledIf_eq_ok]
    refine ⟨(), hplace, ?_⟩
    rw [BRUFileMonitor.startBlock_stopped hstopped]
    have hrecorded : { s.monitor.storeStat pre with
        eventCallback := some callback }.recorded = pre.map st_ino :=
      s.monitor.recorded_storeStat pre
    show Except.ok _ = Except.ok _
    rw [hrecorded]
  | stopFailed hplace hstopped =>
    simp only [step, bind_eq_ok, enabledIf_eq_ok]
    exact ⟨(), hplace, _, BRUFileMonitor.stopBlock_stopped hstopped, rfl⟩
  | stopped srcs hplace hstarted =>
    simp only [step, bind_eq_ok, enabledIf_eq_ok]
    refine ⟨(), hplace, _, BRUFileMonitor.stopBlock_started (by rw [hstarted]; rfl), ?_⟩
    have hcurrent : s.currentSources = srcs := by simp [currentSources, hstarted]
    rw [hcurrent]
    rfl
  | fire src hmem | dispatch src hmem | cancelHandler src hmem =>
    simp only [step, bind_eq_ok, enabledIf_eq_ok]
    exact ⟨(), hmem, rfl⟩
  | runBlock origin rest hplace hqueue hstarted =>
    simp only [step, bind_eq_ok, enabledIf_eq_ok, hqueue, hstarted]
    exact ⟨(), hplace, rfl⟩
  | skipBlock origin rest hplace hqueue hstopped =>
    simp only [step, bind_eq_ok, enabledIf_eq_ok, hqueue, hstopped]
    refine ⟨(), hplace, ?_⟩
    rw [hplace]
    rfl
  | build outcomes srcs hplace hstopped hsrcs =>
    simp only [step, bind_eq_ok, enabledIf_eq_ok, buildMonitors, assertThat_eq_ok]
    exact ⟨(), hplace, _, ⟨(), by rw [hstopped]; rfl, rfl⟩, by rw [hsrcs]; rfl⟩
  | lstat origin post hplace =>
    simp only [step, hplace]
    rfl
  | rebuild outcomes old srcs hplace hstarted hsrcs =>
    simp only [step, bind_eq_ok, enabledIf_eq_ok, destroyMonitors,
      BRUFileMonitor.destroyMonitors, buildMonitors, assertThat_eq_ok]
    refine ⟨(), hplace, _, ⟨_, ⟨(), by rw [hstarted]; rfl, rfl⟩, rfl⟩, _, ⟨(), rfl, rfl⟩, ?_⟩
    have hcurrent : s.currentSources = old := by simp [currentSources, hstarted]
    rw [hcurrent, hsrcs]
    rfl
  | queueResync hplace =>
    simp only [step, bind_eq_ok, enabledIf_eq_ok]
    exact ⟨(), hplace, rfl⟩

/-- An assertion can fail in two places. -/
theorem step_failed {a : Assertion} (h : s.step e = .error (.failed a)) :
    s.place = .build ∧ s.monitor.dispatch_source_list.isSome = true ∨
      s.place = .rebuild ∧ s.monitor.dispatch_source_list = none := by
  cases e with
  | start callback pre =>
    cases callback with
    | none => exact absurd h pure_ne_failed
    | some callback =>
      simp only [step, bind_eq_failed, enabledIf_ne_failed, false_or] at h
      obtain ⟨-, -, h⟩ := h
      split at h <;> exact absurd h pure_ne_failed
  | stop =>
    simp only [step, bind_eq_failed, enabledIf_ne_failed, false_or] at h
    obtain ⟨-, -, h | ⟨⟨monitor, error⟩, -, h⟩⟩ := h
    · cases hlist : s.monitor.dispatch_source_list with
      | none =>
        rw [BRUFileMonitor.stopBlock_stopped hlist] at h
        cases h
      | some srcs =>
        rw [BRUFileMonitor.stopBlock_started (by rw [hlist]; rfl)] at h
        cases h
    · split at h <;> exact absurd h pure_ne_failed
  | runBlock =>
    simp only [step, bind_eq_failed, enabledIf_ne_failed, false_or] at h
    obtain ⟨-, -, h⟩ := h
    split at h
    · cases h
    · exact absurd h pure_ne_failed
  | build outcomes =>
    simp only [step, bind_eq_failed, enabledIf_ne_failed, false_or, enabledIf_eq_ok,
      buildMonitors, assertThat_eq_failed, pure_ne_failed, or_false, and_false, exists_false] at h
    obtain ⟨-, hplace, hlist, -⟩ := h
    exact Or.inl ⟨hplace, by simpa [Option.isSome_iff_ne_none] using hlist⟩
  | lstat post =>
    simp only [step] at h
    split at h
    · exact absurd h pure_ne_failed
    · cases h
  | rebuild outcomes =>
    simp only [step, bind_eq_failed, enabledIf_ne_failed, false_or, enabledIf_eq_ok,
      destroyMonitors, BRUFileMonitor.destroyMonitors, buildMonitors, assertThat_eq_failed,
      bind_eq_ok, assertThat_eq_ok, pure_eq_ok, pure_ne_failed, or_false, and_false,
      exists_false] at h
    obtain ⟨-, hplace, ⟨hlist, -⟩ | ⟨_, ⟨_, ⟨-, -, rfl⟩, rfl⟩, hlist, -⟩⟩ := h
    · exact Or.inr ⟨hplace, by simpa using hlist⟩
    · -- the list has just been destroyed
      exact absurd rfl hlist
  | fire src | dispatch src | queueResync | cancelHandler src =>
    simp only [step, bind_eq_failed, enabledIf_ne_failed, false_or] at h
    obtain ⟨-, -, h⟩ := h
    exact absurd h pure_ne_failed

end MonitorSessions

end BromiumCoreUtils
