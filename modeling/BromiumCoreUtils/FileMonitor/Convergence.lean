import BromiumCoreUtils.FileMonitor.Basic
import BromiumCoreUtils.Lib.PathObjects

/-!
# A monitor and its file system

The file system changes while the monitor starts, while events are on their way to
the `syncQueue`, and while a block runs there.  A change is told to the sources that
watch one of the objects it touches.  The event waits in the source, then in the
handler on the `monitorQueue`, then as a block on the `syncQueue`.  A rebuild cancels
the sources and what waits in them.

An evaluation rebuilds the sources only when the answer of `lstat` has changed, so a
directory that appears while the file is still missing is not watched.
`converged_iff` says which changes are noticed, and `converged_of_directory` that
all of them are when the directory of the file stays.
-/

namespace BromiumCoreUtils

open Machine

/-- A block on the `syncQueue`. -/
inductive SyncBlock where
  | event (subPath : Nat)
  | resync
deriving DecidableEq, Repr

/-- The argument of its `evaluateForPath:`. -/
def SyncBlock.path : SyncBlock → Option Nat
  | .event subPath => some subPath
  | .resync => none

/-- What the block that runs on the `syncQueue` does next. -/
inductive SyncPlace (Cb : Type) where
  | idle
  | start (callback : Cb)
  | build
  | evaluate (path : Option Nat)
  | rebuild
deriving DecidableEq, Repr

/-- The start has not yet built the sources. -/
def SyncPlace.starting {Cb : Type} : SyncPlace Cb → Bool
  | .start _ | .build => true
  | _ => false

/-- A monitor of a path with `depth` components.  A beginning of the path is named by
the number of its components. -/
structure WatchedPath (depth : Nat) (Cb : Type) where
  monitor : BRUFileMonitor Nat Nat Nat Cb
  files : PathObjects depth
  /-- Sources with an event that their handler has not seen. -/
  events : List (VnodeSource Nat Nat)
  /-- Handlers that run on the `monitorQueue`, by their `subPath`. -/
  handlers : List Nat
  syncQueue : List SyncBlock
  place : SyncPlace Cb
  completionQueue : List (Option Cb)

namespace WatchedPath

variable {depth : Nat} {Cb : Type}

/-- A start that has got the `syncQueue`.  An earlier use has left a value in `stat`,
and handlers of its sources may still run. -/
def initial (files : PathObjects depth) (stat : Nat) (handlers : List Nat) (callback : Cb) :
    WatchedPath depth Cb where
  monitor := { path := depth, subPaths := List.range (depth + 1), stat := stat }
  files := files
  events := []
  handlers := handlers
  syncQueue := []
  place := .start callback
  completionQueue := []

/-- A change of the file system, the way of an event, or a step on the `syncQueue`.
`otherEvent` is an event that no change of the path has caused. -/
inductive Event where
  | change (c : PathChange)
  | deliver (src : VnodeSource Nat Nat)
  | otherEvent (src : VnodeSource Nat Nat)
  | dispatch (subPath : Nat)
  | runBlock
  | goOn
deriving DecidableEq, Repr

/-- The sources that are not cancelled. -/
def currentSources (s : WatchedPath depth Cb) : List (VnodeSource Nat Nat) :=
  s.monitor.dispatch_source_list.getD []

/-- The current sources that watch one of these objects. -/
def watching (s : WatchedPath depth Cb) (touched : List Nat) : List (VnodeSource Nat Nat) :=
  s.currentSources.filter fun src => src.fd ∈ touched

/-- A step of the block that runs. -/
def goOn (s : WatchedPath depth Cb) : Exec Assertion (WatchedPath depth Cb) :=
  match s.place with
  | .idle => .error .disabled
  | .start callback =>
    let (monitor, error) := s.monitor.startBlock s.files.lstat callback
    pure { s with monitor := monitor, place := if error.isSome then .idle else .build }
  | .build => do
    let monitor ← s.monitor.buildMonitors s.files.openPath
    pure { s with monitor := monitor, place := .evaluate none }
  | .evaluate path =>
    let evaluation := s.monitor.evaluateForPath s.files.lstat path
    pure { s with
      monitor := evaluation.monitor
      place := if evaluation.rebuilds then .rebuild else .idle
      completionQueue := s.completionQueue ++ evaluation.completionBlocks }
  | .rebuild => do
    let monitor ← s.monitor.destroyMonitors
    let monitor ← monitor.buildMonitors s.files.openPath
    pure { s with
      monitor := monitor
      events := []
      syncQueue := s.syncQueue ++ [.resync]
      place := .idle }

def step (s : WatchedPath depth Cb) : Event → Exec Assertion (WatchedPath depth Cb)
  | .change c =>
    match s.files.change c with
    | some files =>
      pure { s with files := files, events := s.events ++ s.watching (c.touched s.files) }
    | none => .error .disabled
  | .deliver src => do
    enabledIf (src ∈ s.events)
    -- a source has one event at a time, for all that has happened
    pure { s with
      events := s.events.filter (· ≠ src)
      handlers := s.handlers ++ [src.subPath] }
  | .otherEvent src => do
    enabledIf (src ∈ s.currentSources)
    pure { s with handlers := s.handlers ++ [src.subPath] }
  | .dispatch subPath => do
    enabledIf (subPath ∈ s.handlers)
    pure { s with
      handlers := s.handlers.erase subPath
      syncQueue := s.syncQueue ++ [.event subPath] }
  | .runBlock => do
    enabledIf (s.place matches .idle)
    match s.syncQueue with
    | [] => .error .disabled
    | block :: syncQueue =>
      pure { s with
        syncQueue := syncQueue
        place := if s.monitor.dispatch_source_list.isSome then .evaluate block.path else .idle }
  | .goOn => s.goOn

/-! ## What is to hold -/

/-- Nothing is on its way to the `syncQueue` or left to do there. -/
structure Quiet (s : WatchedPath depth Cb) : Prop where
  place : s.place = .idle
  syncQueue : s.syncQueue = []
  handlers : s.handlers = []
  events : s.events = []

/-- Once everything is evaluated, the monitor knows what `lstat` would say. -/
def Converged (s : WatchedPath depth Cb) : Prop :=
  s.Quiet → s.monitor.recorded = s.files.lstat

/-- A change that is made while nothing is left to do is told to a source, or makes no
difference to `lstat`. -/
def Noticed (s : WatchedPath depth Cb) : Event → Prop
  | .change c => s.Quiet →
    (∃ src ∈ s.currentSources, src.fd ∈ c.touched s.files) ∨
      ∀ files, s.files.change c = some files → files.lstat = s.files.lstat
  | _ => True

/-! ## The sources and the running block -/

variable {s t : WatchedPath depth Cb} {e : Event}

/-- The monitor has its sources once the start has built them. -/
structure Started (s : WatchedPath depth Cb) : Prop where
  sources : s.monitor.dispatch_source_list.isSome = !s.place.starting
  subPaths : s.monitor.subPaths = List.range (depth + 1)

theorem started_initial (files : PathObjects depth) (stat : Nat) (handlers : List Nat)
    (callback : Cb) : Started (initial files stat handlers callback) where
  sources := rfl
  subPaths := rfl

/-- A step of the start stores the answer of `lstat` and the callback, or builds the
sources.  A step of an evaluation stores what `lstat` says, and a rebuild puts new
sources and a resync in the place of what was waiting. -/
theorem goOn_cases (hs : Started s) (h : s.goOn = .ok t) :
    (∃ callback, s.place = .start callback ∧ t.place = .build ∧
      t.monitor.dispatch_source_list = none ∧ t.monitor.subPaths = s.monitor.subPaths ∧
      t.monitor.recorded = s.files.lstat ∧ t.files = s.files ∧ t.events = s.events ∧
      t.handlers = s.handlers ∧ t.syncQueue = s.syncQueue) ∨
    (∃ path, s.place = .evaluate path ∧
      t = { s with
        monitor := (s.monitor.evaluateForPath s.files.lstat path).monitor
        place := if s.monitor.recorded ≠ s.files.lstat then .rebuild else .idle
        completionQueue := s.completionQueue ++
          (s.monitor.evaluateForPath s.files.lstat path).completionBlocks }) ∨
    ((s.place = .build ∧ t.place = .evaluate none ∧ t.syncQueue = s.syncQueue ∧
        t.events = s.events ∨
      s.place = .rebuild ∧ t.place = .idle ∧ t.syncQueue = s.syncQueue ++ [.resync] ∧
        t.events = []) ∧
      t.monitor.dispatch_source_list =
        some (BRUFileMonitor.sources s.files.openPath s.monitor.subPaths) ∧
      t.monitor.subPaths = s.monitor.subPaths ∧ t.monitor.recorded = s.monitor.recorded ∧
      t.files = s.files ∧ t.handlers = s.handlers) := by
  have hsources := hs.sources
  unfold goOn at h
  split at h <;> rename_i hplace <;> rw [hplace] at hsources
  · cases h
  · rename_i callback
    have hnone : s.monitor.dispatch_source_list = none := by
      cases hlist : s.monitor.dispatch_source_list with
      | none => rfl
      | some list =>
        rw [hlist] at hsources
        cases hsources
    obtain ⟨started, hstart, hlist, hsubPaths, hrecorded⟩ :=
      BRUFileMonitor.startBlock_of_stopped hnone s.files.lstat callback
    simp only [hstart] at h
    obtain rfl := pure_eq_ok.mp h
    rw [map_st_ino_nat] at hrecorded
    exact Or.inl ⟨callback, hplace, rfl, hlist, hsubPaths, hrecorded, rfl, rfl, rfl, rfl⟩
  · simp only [bind_eq_ok, BRUFileMonitor.buildMonitors, assertThat_eq_ok, pure_eq_ok] at h
    obtain ⟨monitor, ⟨-, -, rfl⟩, rfl⟩ := h
    exact Or.inr (Or.inr ⟨Or.inl ⟨hplace, rfl, rfl, rfl⟩, rfl, rfl, rfl, rfl, rfl⟩)
  · rename_i path
    refine Or.inr (Or.inl ⟨path, hplace, ?_⟩)
    obtain rfl := pure_eq_ok.mp h
    simp only [BRUFileMonitor.rebuilds_evaluateForPath, map_st_ino_nat]
  · simp only [bind_eq_ok, BRUFileMonitor.destroyMonitors, BRUFileMonitor.buildMonitors,
      assertThat_eq_ok, pure_eq_ok] at h
    obtain ⟨monitor, ⟨-, -, rfl⟩, monitor, ⟨-, -, rfl⟩, rfl⟩ := h
    exact Or.inr (Or.inr ⟨Or.inr ⟨hplace, rfl, rfl, rfl⟩, rfl, rfl, rfl, rfl, rfl⟩)

/-- A step is a change, brings an event closer to the `syncQueue`, takes a block from
it, or goes on with one. -/
theorem step_cases (h : s.step e = .ok t) :
    (∃ c files, e = .change c ∧ s.files.change c = some files ∧
      t = { s with files := files, events := s.events ++ s.watching (c.touched s.files) }) ∨
    ((∀ c, e ≠ .change c) ∧ t.monitor = s.monitor ∧ t.files = s.files ∧ t.place = s.place ∧
      (t.handlers ≠ [] ∨ t.syncQueue ≠ [])) ∨
    (e = .runBlock ∧ s.place = .idle ∧ ∃ block syncQueue, s.syncQueue = block :: syncQueue ∧
      t = { s with
        syncQueue := syncQueue
        place := if s.monitor.dispatch_source_list.isSome then .evaluate block.path
          else .idle }) ∨
    (e = .goOn ∧ s.goOn = .ok t) := by
  cases e with
  | change c =>
    simp only [step] at h
    split at h
    · rename_i files hfiles
      exact Or.inl ⟨c, files, rfl, hfiles, (pure_eq_ok.mp h).symm⟩
    · cases h
  | deliver src =>
    simp only [step, bind_eq_ok, enabledIf_eq_ok, pure_eq_ok] at h
    obtain ⟨-, -, rfl⟩ := h
    exact Or.inr (Or.inl ⟨by simp, rfl, rfl, rfl, Or.inl (by simp)⟩)
  | otherEvent src =>
    simp only [step, bind_eq_ok, enabledIf_eq_ok, pure_eq_ok] at h
    obtain ⟨-, -, rfl⟩ := h
    exact Or.inr (Or.inl ⟨by simp, rfl, rfl, rfl, Or.inl (by simp)⟩)
  | dispatch subPath =>
    simp only [step, bind_eq_ok, enabledIf_eq_ok, pure_eq_ok] at h
    obtain ⟨-, -, rfl⟩ := h
    exact Or.inr (Or.inl ⟨by simp, rfl, rfl, rfl, Or.inr (by simp)⟩)
  | runBlock =>
    simp only [step, bind_eq_ok, enabledIf_eq_ok] at h
    obtain ⟨-, hidle, h⟩ := h
    have hplace : s.place = .idle := by
      split at hidle
      · assumption
      · cases hidle
    split at h
    · cases h
    · rename_i block syncQueue hqueue
      exact Or.inr (Or.inr (Or.inl
        ⟨rfl, hplace, block, syncQueue, hqueue, (pure_eq_ok.mp h).symm⟩))
  | goOn => exact Or.inr (Or.inr (Or.inr ⟨rfl, h⟩))

theorem started_step (hs : Started s) (h : s.step e = .ok t) : Started t := by
  rcases step_cases h with ⟨c, files, -, -, rfl⟩ | ⟨-, hmonitor, -, hplace, -⟩ |
    ⟨-, hplace, block, syncQueue, -, rfl⟩ | ⟨-, hgoOn⟩
  · exact { sources := hs.sources, subPaths := hs.subPaths }
  · refine { sources := ?_, subPaths := ?_ }
    · rw [hmonitor, hplace]
      exact hs.sources
    · rw [hmonitor]
      exact hs.subPaths
  · have hsome := hs.sources
    rw [hplace] at hsome
    have hsome : s.monitor.dispatch_source_list.isSome = true := hsome
    refine { sources := ?_, subPaths := hs.subPaths }
    simp only [hsome, if_true]
    rfl
  · rcases goOn_cases hs hgoOn with
      ⟨callback, -, hplace, hlist, hsubPaths, -⟩ | ⟨path, hplace, rfl⟩ |
      ⟨hplace, hlist, hsubPaths, -⟩
    · refine { sources := ?_, subPaths := hsubPaths.trans hs.subPaths }
      rw [hlist, hplace]
      rfl
    · have hsome := hs.sources
      rw [hplace] at hsome
      refine { sources := ?_, subPaths := ?_ }
      · simp only [BRUFileMonitor.dispatch_source_list_evaluateForPath, hsome]
        split <;> rfl
      · exact (BRUFileMonitor.subPaths_evaluateForPath ..).trans hs.subPaths
    · refine { sources := ?_, subPaths := hsubPaths.trans hs.subPaths }
      rw [hlist]
      rcases hplace with ⟨-, hplace, -⟩ | ⟨-, hplace, -⟩ <;> rw [hplace] <;> rfl

/-! ## Convergence -/

theorem watching_eq_nil {touched : List Nat} (h : s.watching touched = []) :
    ¬ ∃ src ∈ s.currentSources, src.fd ∈ touched := by
  rintro ⟨src, hmem, htouched⟩
  have hnot := List.filter_eq_nil_iff.mp h src hmem
  exact hnot (decide_eq_true htouched)

/-- While a block runs or waits, the monitor may still find out what it has missed.
Otherwise it has noticed the last change. -/
theorem converged_step (hs : Started s) (hconv : s.Converged) (hnoticed : s.Noticed e)
    (h : s.step e = .ok t) : t.Converged := by
  intro hquiet
  rcases step_cases h with ⟨c, files, rfl, hfiles, rfl⟩ |
    ⟨-, -, -, -, hhandlers | hqueue⟩ | ⟨-, hplace, block, syncQueue, -, rfl⟩ | ⟨-, hgoOn⟩
  · obtain ⟨hevents, hwatching⟩ := List.append_eq_nil_iff.mp hquiet.events
    have hbefore : s.Quiet :=
      { place := hquiet.place, syncQueue := hquiet.syncQueue, handlers := hquiet.handlers,
        events := hevents }
    rcases hnoticed hbefore with htold | hsame
    · exact absurd htold (watching_eq_nil hwatching)
    · exact (hconv hbefore).trans (hsame files hfiles).symm
  · exact absurd hquiet.handlers hhandlers
  · exact absurd hquiet.syncQueue hqueue
  · have hsome := hs.sources
    rw [hplace] at hsome
    have hidle := hquiet.place
    simp only [hsome] at hidle
    cases hidle
  · rcases goOn_cases hs hgoOn with
      ⟨callback, -, hplace, -⟩ | ⟨path, -, rfl⟩ |
      ⟨⟨-, hplace, -⟩ | ⟨-, -, hqueue, -⟩, -⟩
    · rw [hquiet.place] at hplace
      cases hplace
    · exact (BRUFileMonitor.recorded_evaluateForPath ..).trans (map_st_ino_nat _)
    · rw [hquiet.place] at hplace
      cases hplace
    · rw [hquiet.syncQueue] at hqueue
      exact absurd hqueue (by simp)

/-- After a change that is not noticed, nothing is left to do and the monitor is
wrong. -/
theorem noticed_of_converged (hconv : s.Converged) (h : s.step e = .ok t)
    (hafter : t.Converged) : s.Noticed e := by
  cases e with
  | change c =>
    intro hquiet
    rcases step_cases h with ⟨c', files, hc, hfiles, rfl⟩ | ⟨hnot, -⟩ | ⟨hnot, -⟩ | ⟨hnot, -⟩
    · obtain rfl : c = c' := by injection hc
      by_cases htold : ∃ src ∈ s.currentSources, src.fd ∈ c.touched s.files
      · exact Or.inl htold
      · refine Or.inr ?_
        intro files' hfiles'
        obtain rfl : files = files' := by
          rw [hfiles] at hfiles'
          exact Option.some.inj hfiles'
        have hwatching : s.watching (c.touched s.files) = [] := by
          refine List.filter_eq_nil_iff.mpr ?_
          intro src hmem htouched
          exact htold ⟨src, hmem, of_decide_eq_true htouched⟩
        have hstill := hafter
          { place := hquiet.place, syncQueue := hquiet.syncQueue,
            handlers := hquiet.handlers, events := by simp [hquiet.events, hwatching] }
        exact hstill.symm.trans (hconv hquiet)
    · exact absurd rfl (hnot c)
    · cases hnot
    · cases hnot
  | deliver src => trivial
  | otherEvent src => trivial
  | dispatch subPath => trivial
  | runBlock => trivial
  | goOn => trivial

/-! ## Coming to rest -/

/-- The work of the running block, without the evaluation of a new answer of
`lstat`. -/
def SyncPlace.work : SyncPlace Cb → Nat
  | .idle => 0
  | .start _ => 3
  | .build => 2
  | .evaluate _ => 1
  | .rebuild => 3

/-- What is left to do while the file system does not change.  An event becomes a
handler, a block and an evaluation, and a new answer of `lstat` costs a rebuild. -/
def work (s : WatchedPath depth Cb) : Nat :=
  4 * s.events.length + 3 * s.handlers.length + 2 * s.syncQueue.length +
    SyncPlace.work s.place + if s.monitor.recorded = s.files.lstat then 0 else 3

theorem goOn_enabled (hs : Started s) (hplace : s.place ≠ .idle) : ∃ t, s.goOn = .ok t := by
  have hsources := hs.sources
  unfold goOn
  split <;> rename_i hat <;> rw [hat] at hsources
  · exact absurd hat hplace
  · exact ⟨_, rfl⟩
  · have hnone : s.monitor.dispatch_source_list.isNone = true := by
      rw [← Option.not_isSome, hsources]
      rfl
    simp only [BRUFileMonitor.buildMonitors, assertThat, hnone, if_true]
    exact ⟨_, rfl⟩
  · exact ⟨_, rfl⟩
  · have hsome : s.monitor.dispatch_source_list.isSome = true := hsources
    simp only [BRUFileMonitor.destroyMonitors, BRUFileMonitor.buildMonitors, assertThat, hsome,
      if_true]
    exact ⟨_, rfl⟩

theorem work_goOn (hs : Started s) (h : s.goOn = .ok t) : t.work < s.work := by
  unfold work
  rcases goOn_cases hs h with
    ⟨callback, hplace, hplace', -, -, hrecorded, hfiles, hevents, hhandlers, hqueue⟩ |
    ⟨path, hplace, rfl⟩ |
    ⟨⟨hplace, hplace', hqueue, hevents⟩ | ⟨hplace, hplace', hqueue, hevents⟩, -, -,
      hrecorded, hfiles, hhandlers⟩
  · rw [hplace, hplace', hrecorded, hfiles, hevents, hhandlers, hqueue]
    simp [SyncPlace.work]
    omega
  · rw [hplace]
    by_cases hsame : s.monitor.recorded = s.files.lstat
    · simp [SyncPlace.work, hsame]
    · simp [SyncPlace.work, hsame]
  · rw [hplace, hplace', hrecorded, hfiles, hevents, hhandlers, hqueue]
    simp [SyncPlace.work]
  · rw [hplace, hplace', hrecorded, hfiles, hevents, hhandlers, hqueue]
    simp [SyncPlace.work]
    omega

/-- As long as something is left to do, a step that is not a change does some of it. -/
theorem progress (hs : Started s) (hbusy : ¬ s.Quiet) :
    ∃ e t, (∀ c, e ≠ .change c) ∧ s.step e = .ok t ∧ t.work < s.work := by
  by_cases hplace : s.place = .idle
  · cases hqueue : s.syncQueue with
    | cons block syncQueue =>
      have hsome := hs.sources
      rw [hplace] at hsome
      have hsome : s.monitor.dispatch_source_list.isSome = true := hsome
      refine ⟨.runBlock, _, by simp, by simp only [step, hplace, hqueue]; rfl, ?_⟩
      simp only [work, hplace, hqueue, hsome, SyncPlace.work, List.length_cons, if_true]
      omega
    | nil =>
      cases hhandlers : s.handlers with
      | cons subPath handlers =>
        have hmem : subPath ∈ s.handlers := by rw [hhandlers]; exact List.mem_cons_self
        refine ⟨.dispatch subPath, _, by simp, by simp only [step, enabledIf, if_pos hmem]; rfl,
          ?_⟩
        simp only [work, hhandlers, List.erase_cons_head, List.length_cons, List.length_append,
          List.length_nil]
        omega
      | nil =>
        cases hevents : s.events with
        | cons src events =>
          have hmem : src ∈ s.events := by rw [hevents]; exact List.mem_cons_self
          have hlt : (s.events.filter (· ≠ src)).length < s.events.length :=
            List.length_filter_lt_length_iff_exists.mpr ⟨src, hmem, by simp⟩
          refine ⟨.deliver src, _, by simp, by simp only [step, enabledIf, if_pos hmem]; rfl,
            ?_⟩
          simp only [work, List.length_append, List.length_cons, List.length_nil]
          omega
        | nil => exact absurd ⟨hplace, hqueue, hhandlers, hevents⟩ hbusy
  · obtain ⟨t, ht⟩ := goOn_enabled hs hplace
    exact ⟨.goOn, t, by simp, ht, work_goOn hs ht⟩

/-- When the file system does not change any more, everything that is left is
evaluated after finitely many steps. -/
theorem comes_to_rest (hs : Started s) :
    ∃ events t, (∀ e ∈ events, ∀ c, e ≠ .change c) ∧ run step s events = .ok t ∧ t.Quiet := by
  have hrest : ∃ events t, AllSteps step (fun _ e => ∀ c, e ≠ .change c) s events ∧
      run step s events = .ok t ∧ t.Quiet := by
    refine exists_run_to (I := fun work s => Started s ∧ s.work = work) ?_ ⟨hs, rfl⟩
    rintro work s ⟨hs, rfl⟩ hbusy
    obtain ⟨e, t, hnot, hstep, hlt⟩ := progress hs hbusy
    exact ⟨e, t, t.work, hnot, hstep, hlt, started_step hs hstep, rfl⟩
  obtain ⟨events, t, hall, hrun, hquiet⟩ := hrest
  exact ⟨events, t, hall.forall_mem hrun, hrun, hquiet⟩

/-! ## Which changes are noticed -/

theorem started_run {files : PathObjects depth} {stat : Nat} {handlers : List Nat}
    {callback : Cb} {events : List Event}
    (hrun : run step (initial files stat handlers callback) events = .ok t) : Started t :=
  run_invariant (fun _ _ _ hs h => started_step hs h)
    (started_initial files stat handlers callback) hrun

/-- In every state of a run in which nothing is left to do, the monitor knows what
`lstat` says, if and only if every change of the run is noticed. -/
theorem converged_iff {files : PathObjects depth} {stat : Nat} {handlers : List Nat}
    {callback : Cb} {events : List Event}
    (hrun : run step (initial files stat handlers callback) events = .ok t) :
    (∃ more u, (∀ e ∈ more, ∀ c, e ≠ .change c) ∧ run step t more = .ok u ∧ u.Quiet) ∧
      (Throughout step Converged (initial files stat handlers callback) events ↔
        AllSteps step Noticed (initial files stat handlers callback) events) := by
  refine ⟨comes_to_rest (started_run hrun), ?_⟩
  refine throughout_iff_allSteps (J := Started) (fun _ _ _ hs h => started_step hs h)
    (fun _ _ _ hs hconv hnoticed h => converged_step hs hconv hnoticed h)
    (fun _ _ _ _ hconv h hafter => noticed_of_converged hconv h hafter)
    (started_initial files stat handlers callback) ?_ hrun
  intro hquiet
  cases hquiet.place

/-- The path `/a/b`, of which only `/` and `/a` exist. -/
def missingFile : PathObjects 2 where
  inodes := [2, 10]
  used := [2, 10]
  deleted := []
  nonempty := by decide
  fits := by decide

/-- The file `/a/b` is created, and the event of `/a` is evaluated. -/
theorem converged_iff_created :
    ∃ t : WatchedPath 2 Unit,
      run step (initial missingFile 0 [] ())
        [.goOn, .goOn, .goOn, .change (.create 11), .deliver ⟨1, 10⟩, .dispatch 1, .runBlock,
          .goOn, .goOn, .runBlock, .goOn] = .ok t ∧
      Throughout step Converged (initial missingFile 0 [] ())
        [.goOn, .goOn, .goOn, .change (.create 11), .deliver ⟨1, 10⟩, .dispatch 1, .runBlock,
          .goOn, .goOn, .runBlock, .goOn] := by
  refine ⟨_, rfl, (converged_iff rfl).2.mpr ?_⟩
  refine .cons trivial rfl (.cons trivial rfl (.cons trivial rfl (.cons ?_ rfl
    (.cons trivial rfl (.cons trivial rfl (.cons trivial rfl (.cons trivial rfl
      (.cons trivial rfl (.cons trivial rfl (.cons trivial rfl trivial))))))))))
  intro _
  exact Or.inl ⟨⟨1, 10⟩, by decide, by decide⟩

/-- The path `/a/b/c`, of which only `/` and `/a` exist. -/
def missingDirectory : PathObjects 3 where
  inodes := [2, 10]
  used := [2, 10]
  deleted := []
  nonempty := by decide
  fits := by decide

/-- The directory `/a/b` is created and evaluated, and then the file `/a/b/c`.  No
source watches `/a/b`, and the monitor does not learn of the file. -/
theorem file_in_new_directory_missed :
    ∃ t : WatchedPath 3 Unit,
      run step (initial missingDirectory 0 [] ())
        [.goOn, .goOn, .goOn, .change (.create 11), .deliver ⟨1, 10⟩, .dispatch 1, .runBlock,
          .goOn, .change (.create 12)] = .ok t ∧
      t.Quiet ∧ t.files.lstat = some 12 ∧ t.monitor.recorded = none ∧
      t.completionQueue = [] ∧ ¬ t.Converged := by
  refine ⟨_, rfl, ⟨rfl, rfl, rfl, rfl⟩, rfl, rfl, rfl, ?_⟩
  intro hconv
  have hknown := hconv ⟨rfl, rfl, rfl, rfl⟩
  cases hknown

/-! ## A directory that stays -/

/-- Only the file itself is created, deleted or renamed. -/
def ChangesFile (s : WatchedPath depth Cb) : Event → Prop
  | .change c => c.position s.files = depth
  | _ => True

/-- The directory of the file exists, and the sources, once they are built, watch
it. -/
structure WatchesDirectory (s : WatchedPath depth Cb) : Prop where
  directory : depth ≤ s.files.inodes.length
  watched : ∀ list, s.monitor.dispatch_source_list = some list →
    ∃ src ∈ list, s.files.inodes[depth - 1]? = some src.fd

theorem mem_sources_directory (hdepth : 0 < depth) (hs : Started s)
    (hdir : depth ≤ s.files.inodes.length) :
    ∃ src ∈ BRUFileMonitor.sources s.files.openPath s.monitor.subPaths,
      s.files.inodes[depth - 1]? = some src.fd := by
  have hlt : depth - 1 < s.files.inodes.length := by omega
  refine ⟨⟨depth - 1, s.files.inodes[depth - 1]⟩, ?_, List.getElem?_eq_getElem hlt⟩
  rw [BRUFileMonitor.mem_sources, hs.subPaths]
  have hrange : depth - 1 < depth + 1 := by omega
  exact ⟨List.mem_range.mpr hrange, List.getElem?_eq_getElem hlt⟩

theorem watchesDirectory_step (hdepth : 0 < depth) (hs : Started s)
    (hw : WatchesDirectory s) (hfile : s.ChangesFile e) (h : s.step e = .ok t) :
    WatchesDirectory t := by
  rcases step_cases h with ⟨c, files, rfl, hfiles, rfl⟩ | ⟨-, hmonitor, hfiles, -⟩ |
    ⟨-, -, block, syncQueue, -, rfl⟩ | ⟨-, hgoOn⟩
  · have hposition : c.position s.files = depth := hfile
    obtain ⟨hvalid, hinodes⟩ := PathObjects.inodes_change hfiles
    refine { directory := ?_, watched := ?_ }
    · have hbounds := hvalid.position_bounds
      show depth ≤ files.inodes.length
      rw [hinodes, List.length_append, List.length_take]
      omega
    · intro list hlist
      obtain ⟨src, hmem, hsrc⟩ := hw.watched list hlist
      refine ⟨src, hmem, ?_⟩
      rw [← hsrc]
      exact PathObjects.getElem?_change hfiles (by omega)
  · refine { directory := ?_, watched := ?_ }
    · rw [hfiles]
      exact hw.directory
    · rw [hmonitor, hfiles]
      exact hw.watched
  · exact { directory := hw.directory, watched := hw.watched }
  · rcases goOn_cases hs hgoOn with
      ⟨callback, -, -, hlist, -, -, hfiles, -⟩ | ⟨path, -, rfl⟩ |
      ⟨-, hlist, -, -, hfiles, -⟩
    · refine { directory := by rw [hfiles]; exact hw.directory, watched := ?_ }
      intro list hlist'
      rw [hlist] at hlist'
      cases hlist'
    · refine { directory := hw.directory, watched := ?_ }
      intro list hlist
      refine hw.watched list ?_
      rw [← hlist]
      exact (BRUFileMonitor.dispatch_source_list_evaluateForPath ..).symm
    · refine { directory := by rw [hfiles]; exact hw.directory, watched := ?_ }
      intro list hlist'
      rw [hlist] at hlist'
      rw [← Option.some.inj hlist', hfiles]
      exact mem_sources_directory hdepth hs hw.directory

theorem noticed_of_watchesDirectory (hs : Started s) (hw : WatchesDirectory s)
    (hfile : s.ChangesFile e) : s.Noticed e := by
  cases e with
  | change c =>
    intro hquiet
    have hposition : c.position s.files = depth := hfile
    by_cases hvalid : c.Valid s.files
    · have hsome := hs.sources
      rw [hquiet.place] at hsome
      obtain ⟨list, hlist⟩ := Option.isSome_iff_exists.mp hsome
      obtain ⟨src, hmem, hsrc⟩ := hw.watched list hlist
      refine Or.inl ⟨src, ?_, PathObjects.directory_mem_touched hvalid ?_⟩
      · rw [currentSources, hlist]
        exact hmem
      · rw [hposition]
        exact hsrc
    · refine Or.inr ?_
      intro files hfiles
      exact absurd (PathObjects.inodes_change hfiles).1 hvalid
  | deliver src => trivial
  | otherEvent src => trivial
  | dispatch subPath => trivial
  | runBlock => trivial
  | goOn => trivial

/-- When the directory of the file exists at the start and stays, the monitor follows
the file. -/
theorem converged_of_directory (hdepth : 0 < depth) {files : PathObjects depth} {stat : Nat}
    {handlers : List Nat} {callback : Cb} {events : List Event}
    (hdir : depth ≤ files.inodes.length)
    (hfile : AllSteps step ChangesFile (initial files stat handlers callback) events)
    (hrun : run step (initial files stat handlers callback) events = .ok t) : t.Converged := by
  have hinit : Started (initial files stat handlers callback) ∧
      WatchesDirectory (initial files stat handlers callback) ∧
      Converged (initial files stat handlers callback) := by
    refine ⟨started_initial files stat handlers callback,
      { directory := hdir, watched := ?_ }, ?_⟩
    · intro list hlist
      cases hlist
    · intro hquiet
      cases hquiet.place
  refine (run_invariant_of_allSteps (P := ChangesFile)
    (I := fun s => Started s ∧ WatchesDirectory s ∧ Converged s) ?_ hinit hfile hrun).2.2
  rintro s e t hP ⟨hs, hw, hconv⟩ h
  exact ⟨started_step hs h, watchesDirectory_step hdepth hs hw hP h,
    converged_step hs hconv (noticed_of_watchesDirectory hs hw hP) h⟩

end WatchedPath

end BromiumCoreUtils
