import BromiumCoreUtils.FileMonitor.Sessions
import Mathlib.Data.List.Nodup

/-!
# The sources and descriptors of a file monitor

The sources are built and destroyed from a start, from a stop and from inside of
evaluations.  Two invariants hold in every state of every run:

* `Running`: a callback is stored exactly while the last call that succeeded was a start,
  and so are the sources, except before the first `buildMonitors` of the start.
* `Descriptors`: a descriptor that has been opened is closed, or in a cancelled source, or
  in a current one, and only one of these, and once.

`resources` puts them together.  Both invariants are used for the sessions as well.
-/

namespace BromiumCoreUtils

open Machine
open FileStat (st_ino)

/-- The last `start` or `stop` that has succeeded is a start. -/
def LastStarted {P Cb : Type} (log : List (MonitorEntry P Cb)) : Prop :=
  Log.Since (fun entry => ∃ callback, entry = .started callback) (fun entry => entry ≠ .stopped)
    log

/-- The sources that `buildMonitors` has made, in order. -/
def builtSources {P Cb : Type} (log : List (MonitorEntry P Cb)) : List (VnodeSource P Nat) :=
  log.filterMap fun
    | .built src => some src
    | _ => none

section Entries

variable {P Cb : Type} {log : List (MonitorEntry P Cb)}

@[simp] theorem mem_builtSources {src : VnodeSource P Nat} :
    src ∈ builtSources log ↔ .built src ∈ log := by
  unfold builtSources
  rw [List.mem_filterMap]
  constructor
  · rintro ⟨entry, hmem, hentry⟩
    cases entry <;> cases hentry
    exact hmem
  · intro hmem
    exact ⟨_, hmem, rfl⟩

@[simp] theorem builtSources_append (rest : List (MonitorEntry P Cb)) :
    builtSources (log ++ rest) = builtSources log ++ builtSources rest :=
  List.filterMap_append

@[simp] theorem builtSources_map_built (srcs : List (VnodeSource P Nat)) :
    builtSources (srcs.map (@MonitorEntry.built P Cb)) = srcs := by
  unfold builtSources
  rw [List.filterMap_map]
  exact List.filterMap_some

/-- Entries of other things do not end a session or begin one. -/
theorem lastStarted_append {rest : List (MonitorEntry P Cb)}
    (hrest : ∀ entry ∈ rest, (∀ callback, entry ≠ .started callback) ∧ entry ≠ .stopped) :
    LastStarted (log ++ rest) ↔ LastStarted log := by
  apply Log.since_append_iff
  intro entry hmem
  obtain ⟨hstarted, hstopped⟩ := hrest entry hmem
  exact ⟨fun ⟨callback, h⟩ => hstarted callback h, hstopped⟩

end Entries

namespace MonitorSessions

variable {P S Cb : Type}

/-! ## Who is running -/

/-- The callback and the sources of a monitor, and the last call that succeeded. -/
structure Running (s : MonitorSessions P S Cb) : Prop where
  sources : s.monitor.dispatch_source_list.isSome = true ↔
    s.monitor.eventCallback.isSome = true ∧ s.place ≠ .build
  callback : s.place ≠ .idle → s.monitor.eventCallback.isSome = true
  session : s.monitor.eventCallback.isSome = true ↔ LastStarted s.log

theorem running_initial [FileStat S] (path : P) (subPaths : List P) :
    Running (initial path subPaths : MonitorSessions P S Cb) where
  sources := by simp [initial]
  callback := by simp [initial]
  session := by
    constructor
    · intro h
      cases h
    · rintro ⟨pre, entry, post, hlog, -⟩
      simp [initial] at hlog

variable [DecidableEq P] [FileStat S] {s t : MonitorSessions P S Cb} {e : Event P S Cb}

theorem running_step (hs : Running s) (h : s.step e = .ok t) : Running t := by
  have hsources := hs.sources
  have hcallback := hs.callback
  have hsession := hs.session
  cases step_transition h with
  | startNil pre =>
    refine ⟨hsources, hcallback, ?_⟩
    rw [lastStarted_append (by simp)]
    exact hsession
  | startFailed callback pre hplace hstarted =>
    refine ⟨by simpa using hsources, by simpa using hcallback, ?_⟩
    rw [lastStarted_append (by simp)]
    simpa using hsession
  | started callback pre hplace hstopped =>
    refine ⟨by simp [hstopped], by simp, ?_⟩
    refine iff_of_true rfl ?_
    exact ⟨s.log, .started callback, [.recorded (pre.map st_ino)], rfl, ⟨callback, rfl⟩, by simp⟩
  | stopFailed hplace hstopped =>
    refine ⟨hsources, hcallback, ?_⟩
    rw [lastStarted_append (by simp)]
    exact hsession
  | stopped srcs hplace hstarted =>
    refine ⟨by simp, by simp [hplace], ?_⟩
    refine iff_of_false (by simp) ?_
    intro hlast
    rcases Log.since_concat_iff.mp hlast with ⟨callback, hstop⟩ | ⟨hne, -⟩
    · cases hstop
    · exact hne rfl
  | fire src hmem => exact ⟨hsources, hcallback, hsession⟩
  | dispatch src hmem => exact ⟨hsources, hcallback, hsession⟩
  | runBlock origin rest hplace hqueue hstarted =>
    have hsome := (hsources.mp hstarted).1
    exact ⟨iff_of_true hstarted ⟨hsome, by simp⟩, fun _ => hsome, hsession⟩
  | skipBlock origin rest hplace hqueue hstopped => exact ⟨hsources, hcallback, hsession⟩
  | build outcomes srcs hplace hstopped hsrcs =>
    have hsome := hcallback (by simp [hplace])
    refine ⟨iff_of_true rfl ⟨hsome, by simp⟩, fun _ => hsome, ?_⟩
    rw [lastStarted_append (by simp)]
    exact hsession
  | lstat origin post hplace =>
    have hsome := hcallback (by simp [hplace])
    have hlist := hsources.mpr ⟨hsome, by simp [hplace]⟩
    refine ⟨iff_of_true (by simpa using hlist) ⟨by simpa using hsome, ?_⟩,
      fun _ => by simpa using hsome, ?_⟩
    · rw [evaluate_place]
      split <;> simp
    · rw [evaluate_log, List.append_assoc, List.append_assoc, lastStarted_append]
      · simpa using hsession
      · intro entry hmem
        split at hmem <;> simp at hmem
        · rcases hmem with rfl | rfl | rfl <;> simp
        · rcases hmem with rfl | rfl <;> simp
  | rebuild outcomes old srcs hplace hstarted hsrcs =>
    have hsome := hcallback (by simp [hplace])
    refine ⟨iff_of_true rfl ⟨hsome, by simp⟩, fun _ => hsome, ?_⟩
    rw [List.append_assoc, lastStarted_append]
    · exact hsession
    · intro entry hmem
      rcases List.mem_append.mp hmem with hmem | hmem
      · obtain ⟨src, -, rfl⟩ := List.mem_map.mp hmem
        simp
      · simp at hmem
        simp [hmem]
  | queueResync hplace =>
    have hsome := hcallback (by simp [hplace])
    have hlist := hsources.mpr ⟨hsome, by simp [hplace]⟩
    refine ⟨iff_of_true hlist ⟨hsome, by simp⟩, fun _ => hsome, ?_⟩
    rw [lastStarted_append (by simp)]
    exact hsession
  | cancelHandler src hmem => exact ⟨hsources, hcallback, hsession⟩

/-! ## Who holds a descriptor -/

/-- How often the descriptor has been closed, is going to be closed by a cancel handler,
and belongs to a current source. -/
def holders (s : MonitorSessions P S Cb) (fd : Nat) : Nat :=
  s.closed.count fd + (s.cancelling.map (·.fd)).count fd + (s.currentSources.map (·.fd)).count fd

/-- Every descriptor has one source, and one holder. -/
structure Descriptors (s : MonitorSessions P S Cb) : Prop where
  built : (builtSources s.log).map (·.fd) = List.range s.opened
  held : ∀ fd, s.holders fd = if fd < s.opened then 1 else 0
  known : ∀ src ∈ s.cancelling ++ s.currentSources, .built src ∈ s.log

omit [DecidableEq P] in
theorem descriptors_initial (path : P) (subPaths : List P) :
    Descriptors (initial path subPaths : MonitorSessions P S Cb) where
  built := rfl
  held := fun fd => by simp [holders, initial, currentSources]
  known := by simp [initial, currentSources]

theorem count_fd_erase {src : VnodeSource P Nat} {srcs : List (VnodeSource P Nat)}
    (hmem : src ∈ srcs) (fd : Nat) :
    (srcs.map (·.fd)).count fd =
      [src.fd].count fd + ((srcs.erase src).map (·.fd)).count fd := by
  rw [((List.perm_cons_erase hmem).map _).count_eq, List.map_cons, ← List.singleton_append,
    List.count_append]

omit [DecidableEq P] [FileStat S] in
/-- A step that builds sources in the place of the current ones. -/
theorem Descriptors.build {outcomes : List Bool} {srcs : List (VnodeSource P Nat)}
    (hs : Descriptors s) (hsrcs : srcs = openSources s.opened s.monitor.subPaths outcomes)
    (ht : t.opened = s.opened + srcs.length)
    (hlog : builtSources t.log = builtSources s.log ++ srcs)
    (hcurrent : t.currentSources = srcs) (hclosed : t.closed = s.closed)
    (hcancelling : t.cancelling = s.cancelling ++ s.currentSources) : Descriptors t := by
  have hfd : srcs.map (·.fd) = List.range' s.opened srcs.length := by
    rw [hsrcs]
    exact fd_openSources
  refine ⟨?_, ?_, ?_⟩
  · rw [hlog, List.map_append, hs.built, hfd, ht, List.range_add, List.range'_eq_map_range]
  · intro fd
    have hheld := hs.held fd
    have hnew : (srcs.map (·.fd)).count fd =
        if s.opened ≤ fd ∧ fd < s.opened + srcs.length then 1 else 0 := by
      rw [hfd, List.count_range_1']
    unfold holders at hheld ⊢
    rw [hclosed, hcancelling, hcurrent, ht, List.map_append, List.count_append]
    split at hnew <;> split at hheld <;> split <;> omega
  · intro src hmem
    rw [← mem_builtSources, hlog, List.mem_append]
    rw [hcancelling, hcurrent, List.mem_append] at hmem
    rcases hmem with hmem | hmem
    · exact Or.inl (mem_builtSources.mpr (hs.known src hmem))
    · exact Or.inr hmem

omit [DecidableEq P] [FileStat S] in
/-- A step that opens nothing and closes nothing. -/
theorem Descriptors.frame (hs : Descriptors s) (hopened : t.opened = s.opened)
    (hlog : builtSources t.log = builtSources s.log) (hclosed : t.closed = s.closed)
    (hholders : t.cancelling ++ t.currentSources = s.cancelling ++ s.currentSources) :
    Descriptors t := by
  refine ⟨by rw [hlog, hopened, hs.built], ?_, ?_⟩
  · intro fd
    have hcount := congrArg (fun srcs => (srcs.map (·.fd)).count fd) hholders
    simp only [List.map_append, List.count_append] at hcount
    have hheld := hs.held fd
    unfold holders at hheld ⊢
    rw [hopened, hclosed]
    omega
  · intro src hmem
    rw [hholders] at hmem
    rw [← mem_builtSources, hlog, mem_builtSources]
    exact hs.known src hmem

theorem descriptors_step (hs : Descriptors s) (h : s.step e = .ok t) :
    Descriptors t := by
  cases step_transition h with
  | startNil pre => exact hs.frame rfl (by simp [builtSources]) rfl rfl
  | startFailed callback pre hplace hstarted =>
    exact hs.frame rfl (by simp [builtSources]) rfl (by simp [currentSources])
  | started callback pre hplace hstopped =>
    exact hs.frame rfl (by simp [builtSources]) rfl (by simp [currentSources])
  | stopFailed hplace hstopped => exact hs.frame rfl (by simp [builtSources]) rfl rfl
  | stopped srcs hplace hstarted =>
    exact hs.frame rfl (by simp [builtSources]) rfl (by simp [currentSources, hstarted])
  | fire src hmem => exact hs.frame rfl rfl rfl rfl
  | dispatch src hmem => exact hs.frame rfl rfl rfl rfl
  | runBlock origin rest hplace hqueue hstarted => exact hs.frame rfl rfl rfl rfl
  | skipBlock origin rest hplace hqueue hstopped => exact hs.frame rfl rfl rfl rfl
  | build outcomes srcs hplace hstopped hsrcs =>
    exact hs.build hsrcs rfl (by simp) rfl rfl (by simp [currentSources, hstopped])
  | lstat origin post hplace =>
    refine hs.frame rfl ?_ rfl (by simp)
    rw [evaluate_log]
    split <;> simp [builtSources]
  | rebuild outcomes old srcs hplace hstarted hsrcs =>
    refine hs.build hsrcs rfl ?_ rfl rfl (by simp [currentSources, hstarted])
    simp [builtSources]
  | queueResync hplace => exact hs.frame rfl (by simp [builtSources]) rfl rfl
  | cancelHandler src hmem =>
    refine ⟨hs.built, ?_, ?_⟩
    · intro fd
      have hheld := hs.held fd
      have herase := count_fd_erase hmem fd
      unfold holders at hheld ⊢
      show (s.closed ++ [src.fd]).count fd + ((s.cancelling.erase src).map (·.fd)).count fd +
        (s.currentSources.map (·.fd)).count fd = _
      rw [List.count_append]
      show _ = if fd < s.opened then 1 else 0
      omega
    · intro src' hmem'
      apply hs.known
      rcases List.mem_append.mp hmem' with hmem' | hmem'
      · exact List.mem_append_left _ (List.mem_of_mem_erase hmem')
      · exact List.mem_append_right _ hmem'

/-- The cancel handlers run, one after the other. -/
theorem run_cancelHandlers {srcs : List (VnodeSource P Nat)} (hsrcs : s.cancelling = srcs) :
    run step s (srcs.map .cancelHandler) =
      .ok { s with cancelling := [], closed := s.closed ++ srcs.map (·.fd) } := by
  induction srcs generalizing s with
  | nil =>
    rw [List.map_nil, run_nil, List.map_nil, List.append_nil, ← hsrcs]
  | cons src srcs ih =>
    have hstep : s.step (.cancelHandler src) =
        .ok { s with cancelling := srcs, closed := s.closed ++ [src.fd] } := by
      simp [step, hsrcs, enabledIf, bind, Except.bind, pure, Except.pure]
    rw [List.map_cons, run_cons, hstep]
    show run step _ (srcs.map .cancelHandler) = _
    rw [ih rfl]
    simp

/-! ## The contract -/

/-- `dispatch_source_cancel` has been called for the source. -/
def Cancelled (s : MonitorSessions P S Cb) (src : VnodeSource P Nat) : Prop :=
  src ∈ s.cancelling ∨ src.fd ∈ s.closed

/-- What holds of the sources and descriptors in a state of a monitor. -/
structure ResourceContract (s : MonitorSessions P S Cb) : Prop where
  monitoring : s.place = .idle →
    (s.monitor.dispatch_source_list.isSome = true ↔ s.monitor.eventCallback.isSome = true)
  session : s.place = .idle → (s.monitor.eventCallback.isSome = true ↔ LastStarted s.log)
  assertions : ∀ e a, s.step e ≠ .error (.failed a)
  current : ∀ src, .built src ∈ s.log → ¬ s.Cancelled src → src ∈ s.currentSources
  /-- The descriptors of all sources are the opened ones, each of them once. -/
  owner : (builtSources s.log).map (·.fd) = List.range s.opened
  closed : ∀ fd, s.closed.count fd ≤ if fd < s.opened then 1 else 0
  /-- After a stop, nothing is left open but for cancel handlers that have not run. -/
  drained : s.monitor.dispatch_source_list = none → s.cancelling = [] →
    ∀ fd < s.opened, s.closed.count fd = 1
  /-- The cancel handlers can always run. -/
  cancelHandlers : ∃ t, run step s (s.cancelling.map .cancelHandler) = .ok t ∧
    t.cancelling = [] ∧ t.monitor = s.monitor ∧ t.opened = s.opened

theorem not_failed (hrunning : Running s) (e : Event P S Cb) (a : Assertion) :
    s.step e ≠ .error (.failed a) := by
  intro h
  rcases step_failed h with ⟨hplace, hlist⟩ | ⟨hplace, hlist⟩
  · exact (hrunning.sources.mp hlist).2 hplace
  · have hcallback := hrunning.callback (by simp [hplace])
    have hsome := hrunning.sources.mpr ⟨hcallback, by simp [hplace]⟩
    simp [hlist] at hsome

omit [DecidableEq P] [FileStat S] in
/-- The descriptor tells the source. -/
theorem Descriptors.eq_of_fd (hs : Descriptors s) {src src' : VnodeSource P Nat}
    (hsrc : .built src ∈ s.log) (hsrc' : .built src' ∈ s.log) (hfd : src.fd = src'.fd) :
    src = src' := by
  have hnodup : ((builtSources s.log).map (·.fd)).Nodup := by
    rw [hs.built]
    exact List.nodup_range
  exact List.inj_on_of_nodup_map hnodup (mem_builtSources.mpr hsrc)
    (mem_builtSources.mpr hsrc') hfd

omit [DecidableEq P] [FileStat S] in
theorem Descriptors.fd_lt (hs : Descriptors s) {src : VnodeSource P Nat}
    (hsrc : .built src ∈ s.log) : src.fd < s.opened := by
  have hmem := List.mem_map_of_mem (f := (·.fd)) (mem_builtSources.mpr hsrc)
  rw [hs.built] at hmem
  exact List.mem_range.mp hmem

theorem resourceContract (hrunning : Running s) (hs : Descriptors s) : ResourceContract s := by
  refine ⟨?_, fun _ => hrunning.session, not_failed hrunning, ?_, hs.built, ?_, ?_, ?_⟩
  · intro hplace
    rw [hrunning.sources]
    simp [hplace]
  · intro src hbuilt hcancelled
    have hheld := hs.held src.fd
    rw [if_pos (hs.fd_lt hbuilt)] at hheld
    unfold holders at hheld
    have hopen : s.closed.count src.fd = 0 := by
      rw [List.count_eq_zero]
      exact fun hmem => hcancelled (Or.inr hmem)
    by_cases hcancelling : src.fd ∈ s.cancelling.map (·.fd)
    · obtain ⟨src', hmem, hfd⟩ := List.mem_map.mp hcancelling
      obtain rfl := hs.eq_of_fd (hs.known src' (by simp [hmem])) hbuilt hfd
      exact absurd (Or.inl hmem) hcancelled
    · rw [← List.count_eq_zero] at hcancelling
      have hcurrent : 0 < (s.currentSources.map (·.fd)).count src.fd := by omega
      obtain ⟨src', hmem, hfd⟩ := List.mem_map.mp (List.count_pos_iff.mp hcurrent)
      obtain rfl := hs.eq_of_fd (hs.known src' (by simp [hmem])) hbuilt hfd
      exact hmem
  · intro fd
    have hheld := hs.held fd
    unfold holders at hheld
    omega
  · intro hstopped hdone fd hfd
    have hheld := hs.held fd
    rw [if_pos hfd] at hheld
    simpa [holders, hdone, currentSources, hstopped] using hheld
  · exact ⟨_, run_cancelHandlers rfl, rfl, rfl, rfl⟩

theorem running_run {path : P} {subPaths : List P} {events : List (Event P S Cb)}
    (hrun : run step (initial path subPaths) events = .ok s) : Running s ∧ Descriptors s :=
  run_invariant (I := fun s => Running s ∧ Descriptors s)
    (fun _ _ _ hs h => ⟨running_step hs.1 h, descriptors_step hs.2 h⟩)
    ⟨running_initial path subPaths, descriptors_initial path subPaths⟩ hrun

/-- For every interleaving and all answers of `lstat` and `open`, a monitor runs exactly
from a start to the next stop, fails no assertion and leaks no descriptor. -/
theorem resources {path : P} {subPaths : List P} {events : List (Event P S Cb)}
    (hrun : run step (initial path subPaths) events = .ok s) : ResourceContract s := by
  obtain ⟨hrunning, hdescriptors⟩ := running_run hrun
  exact resourceContract hrunning hdescriptors

/-- A start, a file that appears and a stop: four descriptors are opened, and the cancel
handlers of the first two have run. -/
theorem resources_rebuilt :
    ∃ s : MonitorSessions Nat Nat Nat,
      run step (initial 1 [0, 1])
        [.start (some 7) none, .build [true, true], .lstat (some 5), .rebuild [true, true],
          .queueResync, .stop, .cancelHandler ⟨0, 0⟩, .cancelHandler ⟨1, 1⟩] = .ok s ∧
      s.opened = 4 ∧ s.closed = [0, 1] ∧ ResourceContract s := by
  obtain ⟨s, hrun, hopened, hclosed⟩ : ∃ s : MonitorSessions Nat Nat Nat,
      run step (initial 1 [0, 1])
        [.start (some 7) none, .build [true, true], .lstat (some 5), .rebuild [true, true],
          .queueResync, .stop, .cancelHandler ⟨0, 0⟩, .cancelHandler ⟨1, 1⟩] = .ok s ∧
      s.opened = 4 ∧ s.closed = [0, 1] := ⟨_, rfl, rfl, rfl⟩
  exact ⟨s, hrun, hopened, hclosed, resources hrun⟩

end MonitorSessions

end BromiumCoreUtils
