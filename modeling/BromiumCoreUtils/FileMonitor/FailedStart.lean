import BromiumCoreUtils.FileMonitor.Sessions
import Mathlib.Data.Option.Basic

/-!
# A start that finds the monitor started

`startWithError:callback:` calls `lstat` and stores the answer before it looks whether
the monitor is started, where `stop:` looks first.  A start that fails so has replaced
the record of a running monitor.  Nothing of this is seen as long as the file is the
recorded one.  After the file has changed, the record is the new file, and the
evaluation that the change has queued finds no difference.

The fields of the monitor stay as they are if the whole `struct stat` is the recorded one.
For the callbacks it is enough that the file is, since nothing else of the record is read.
Both are cases of a relation on `struct stat` that is not coarser than `st_ino`.
-/

namespace BromiumCoreUtils

open Machine
open FileStat (st_ino)

/-- The callbacks that have been dispatched, in order. -/
def dispatches {P Cb : Type} (log : List (MonitorEntry P Cb)) : List (Option Cb) :=
  log.filterMap fun
    | .dispatched callback _ => some callback
    | _ => none

@[simp] theorem dispatches_append {P Cb : Type} (log rest : List (MonitorEntry P Cb)) :
    dispatches (log ++ rest) = dispatches log ++ dispatches rest :=
  List.filterMap_append

namespace BRUFileMonitor

variable {P O S Cb : Type} {pre : Option S} {m : BRUFileMonitor P O S Cb}

/-- The `struct stat` that is recorded, if there was a file. -/
def recordedStat (m : BRUFileMonitor P O S Cb) : Option S :=
  if m.isStatValid then some m.stat else none

theorem map_recordedStat [FileStat S] : m.recordedStat.map st_ino = m.recorded := by
  unfold recordedStat recorded
  split <;> rfl

/-- The two fields of the record stay as they are when `lstat` answers what is
recorded. -/
theorem storeStat_fields_iff :
    (m.storeStat pre).isStatValid = m.isStatValid ∧ (m.storeStat pre).stat = m.stat ↔
      pre = m.recordedStat := by
  unfold storeStat recordedStat
  cases pre with
  | none =>
    cases hvalid : m.isStatValid with
    | false => simp
    | true => simp
  | some pre =>
    cases hvalid : m.isStatValid with
    | false => simp
    | true => simp

theorem storeStat_eq_self (h : pre = m.recordedStat) : m.storeStat pre = m := by
  have hfields := storeStat_fields_iff.mpr h
  cases pre with
  | none =>
    show { m with isStatValid := false } = m
    rw [show false = m.isStatValid from hfields.1]
  | some pre =>
    show { m with isStatValid := true, stat := pre } = m
    rw [show true = m.isStatValid from hfields.1, show pre = m.stat from hfields.2]

theorem storeStat_eq (pre : Option S) (m : BRUFileMonitor P O S Cb) : m.storeStat pre =
    { m with isStatValid := pre.isSome, stat := pre.getD m.stat } := by
  cases pre <;> rfl

/-- Another record of the same file makes no difference to an evaluation. -/
theorem evaluateForPath_withStat [DecidableEq P] [FileStat S] {R : S → S → Prop}
    (hrefl : ∀ a, R a a) {stat : S} (hR : R m.stat stat) (hsame : st_ino m.stat = st_ino stat)
    (post : Option S) (path : Option P) :
    ∃ stat', R (m.evaluateForPath post path).monitor.stat stat' ∧
      evaluateForPath post path { m with stat := stat } =
        { m.evaluateForPath post path with
          monitor := { (m.evaluateForPath post path).monitor with stat := stat' } } := by
  unfold evaluateForPath
  simp only [hsame]
  split
  · split
    · exact ⟨stat, hR, rfl⟩
    · exact ⟨stat, hR, rfl⟩
  · rename_i post
    split
    · split
      · exact ⟨post, hrefl post, rfl⟩
      · split
        · exact ⟨stat, hR, rfl⟩
        · exact ⟨stat, hR, rfl⟩
    · exact ⟨post, hrefl post, rfl⟩

end BRUFileMonitor

namespace MonitorSessions

variable {P S Cb : Type} [DecidableEq P] [FileStat S]

omit [DecidableEq P] [FileStat S] in
/-- The event is a start that fails since the monitor is started. -/
def startFails (s : MonitorSessions P S Cb) : Event P S Cb → Bool
  | .start (some _) _ => s.place = .idle ∧ s.monitor.dispatch_source_list.isSome = true
  | _ => false

/-- A failing start changes none of the four fields. -/
def FailedStartAtomic (s : MonitorSessions P S Cb) (e : Event P S Cb) : Prop :=
  s.startFails e = true → ∀ t, s.step e = .ok t →
    t.monitor.isStatValid = s.monitor.isStatValid ∧ t.monitor.stat = s.monitor.stat ∧
      t.monitor.dispatch_source_list = s.monitor.dispatch_source_list ∧
      t.monitor.eventCallback = s.monitor.eventCallback

/-- A failing start finds the `struct stat` that is recorded. -/
def FindsRecorded (s : MonitorSessions P S Cb) (e : Event P S Cb) : Prop :=
  s.startFails e = true → ∀ callback pre, e = .start callback pre →
    pre = s.monitor.recordedStat

/-- A failing start finds the file that is recorded. -/
def FindsSameFile (s : MonitorSessions P S Cb) (e : Event P S Cb) : Prop :=
  s.startFails e = true → ∀ callback pre, e = .start callback pre →
    pre.map st_ino = s.monitor.recorded

/-- The failing starts of a run change no field, and the run without them dispatches the
same callbacks. -/
structure FailedStartsHarmless (first : MonitorSessions P S Cb) (events : List (Event P S Cb))
    (last : MonitorSessions P S Cb) : Prop where
  atomic : AllSteps step FailedStartAtomic first events
  sameCallbacks : ∃ t, run step first (eventsWithout step startFails first events) = .ok t ∧
    t.monitor = last.monitor ∧ dispatches t.log = dispatches last.log

variable {s s' t : MonitorSessions P S Cb} {e : Event P S Cb}

/-- What a failing start does. -/
theorem step_of_startFails (hfails : s.startFails e = true) (h : s.step e = .ok t) :
    ∃ callback pre, e = .start (some callback) pre ∧
      t = { s with
        monitor := s.monitor.storeStat pre
        log := s.log ++
          [.recorded (pre.map st_ino), .startFailed BRUFileMonitor.alreadyStartedError] } := by
  cases step_transition h with
  | startFailed callback pre hplace hstarted => exact ⟨callback, pre, rfl, rfl⟩
  | started callback pre hplace hstopped => simp [startFails, hstopped] at hfails
  | _ => cases hfails

theorem failedStartAtomic_iff (s : MonitorSessions P S Cb) (e : Event P S Cb) :
    s.FailedStartAtomic e ↔ s.FindsRecorded e := by
  constructor
  · rintro hatomic hfails callback pre rfl
    cases callback with
    | none => cases hfails
    | some callback =>
      have hstate : s.place = .idle ∧ s.monitor.dispatch_source_list.isSome = true := by
        simpa [startFails] using hfails
      obtain ⟨hvalid, hstat, -⟩ := hatomic hfails _
        (Transition.startFailed callback pre hstate.1 hstate.2).step_eq
      exact BRUFileMonitor.storeStat_fields_iff.mp ⟨hvalid, hstat⟩
  · intro hfinds hfails t h
    obtain ⟨callback, pre, rfl, rfl⟩ := step_of_startFails hfails h
    have hsame := BRUFileMonitor.storeStat_eq_self (hfinds hfails _ pre rfl)
    show (s.monitor.storeStat pre).isStatValid = _ ∧ (s.monitor.storeStat pre).stat = _ ∧
      (s.monitor.storeStat pre).dispatch_source_list = _ ∧
      (s.monitor.storeStat pre).eventCallback = _
    rw [hsame]
    exact ⟨rfl, rfl, rfl, rfl⟩

/-! ## The run without the failing starts -/

/-- The states agree but for entries of the log that are not callbacks, and a record that is
related. -/
structure Agrees (R : S → S → Prop) (s s' : MonitorSessions P S Cb) : Prop where
  state : s' = { s with log := s'.log, monitor := { s.monitor with stat := s'.monitor.stat } }
  stat : R s.monitor.stat s'.monitor.stat
  callbacks : dispatches s'.log = dispatches s.log

/-- A failing start finds a record that is related. -/
def Finds (R : S → S → Prop) (s : MonitorSessions P S Cb) (e : Event P S Cb) : Prop :=
  s.startFails e = true → ∀ callback pre, e = .start callback pre →
    Option.Rel R pre s.monitor.recordedStat

section Agrees

variable {R : S → S → Prop}

/-- No step reads the log, and of the record only `st_ino`. -/
theorem step_withRecord (hrefl : ∀ a, R a a) (hino : ∀ a b, R a b → st_ino a = st_ino b)
    (h : s.step e = .ok t) {stat : S} (hR : R s.monitor.stat stat) :
    ∃ rest stat', t.log = s.log ++ rest ∧ R t.monitor.stat stat' ∧ ∀ log,
      step { s with log := log, monitor := { s.monitor with stat := stat } } e =
        .ok { t with log := log ++ rest, monitor := { t.monitor with stat := stat' } } := by
  -- what a start stores replaces the record
  have hstore (pre : Option S) : R (s.monitor.storeStat pre).stat (pre.getD stat) := by
    cases pre with
    | none => exact hR
    | some pre => exact hrefl pre
  cases step_transition h with
  | startNil pre => exact ⟨_, stat, rfl, hR, fun log => rfl⟩
  | startFailed callback pre hplace hstarted =>
    refine ⟨_, pre.getD stat, rfl, hstore pre, fun log => ?_⟩
    have hstep : step { s with log := log, monitor := { s.monitor with stat := stat } }
        (.start (some callback) pre) = .ok _ :=
      Transition.step_eq (.startFailed callback pre hplace hstarted)
    rw [hstep]
    simp only [BRUFileMonitor.storeStat_eq]
  | started callback pre hplace hstopped =>
    refine ⟨_, pre.getD stat, rfl, hstore pre, fun log => ?_⟩
    have hstep : step { s with log := log, monitor := { s.monitor with stat := stat } }
        (.start (some callback) pre) = .ok _ :=
      Transition.step_eq (.started callback pre hplace hstopped)
    rw [hstep]
    simp only [BRUFileMonitor.storeStat_eq]
  | stopFailed hplace hstopped =>
    exact ⟨_, stat, rfl, hR, fun log => Transition.step_eq (.stopFailed hplace hstopped)⟩
  | stopped srcs hplace hstarted =>
    exact ⟨_, stat, rfl, hR, fun log => Transition.step_eq (.stopped srcs hplace hstarted)⟩
  | fire src hmem =>
    refine ⟨[], stat, (List.append_nil _).symm, hR, fun log => ?_⟩
    rw [List.append_nil]
    exact Transition.step_eq (.fire src hmem)
  | dispatch src hmem =>
    refine ⟨[], stat, (List.append_nil _).symm, hR, fun log => ?_⟩
    rw [List.append_nil]
    exact Transition.step_eq (.dispatch src hmem)
  | runBlock origin rest hplace hqueue hstarted =>
    refine ⟨[], stat, (List.append_nil _).symm, hR, fun log => ?_⟩
    rw [List.append_nil]
    exact Transition.step_eq (.runBlock origin rest hplace hqueue hstarted)
  | skipBlock origin rest hplace hqueue hstopped =>
    refine ⟨[], stat, (List.append_nil _).symm, hR, fun log => ?_⟩
    rw [List.append_nil]
    exact Transition.step_eq (.skipBlock origin rest hplace hqueue hstopped)
  | build outcomes srcs hplace hstopped hsrcs =>
    exact ⟨_, stat, rfl, hR,
      fun log => Transition.step_eq (.build outcomes srcs hplace hstopped hsrcs)⟩
  | lstat origin post hplace =>
    obtain ⟨stat', hstat', hevaluation⟩ := BRUFileMonitor.evaluateForPath_withStat hrefl hR
      (hino _ _ hR) post (origin.map (·.subPath))
    refine ⟨_, stat', by rw [evaluate, List.append_assoc, List.append_assoc], hstat',
      fun log => ?_⟩
    have hstep : step { s with log := log, monitor := { s.monitor with stat := stat } }
        (.lstat post) = .ok (evaluate origin post _) :=
      Transition.step_eq (.lstat origin post hplace)
    rw [hstep]
    simp [evaluate, hevaluation, BRUFileMonitor.recorded, hino _ _ hR]
  | rebuild outcomes old srcs hplace hstarted hsrcs =>
    refine ⟨_, stat, List.append_assoc _ _ _, hR, fun log => ?_⟩
    rw [← List.append_assoc]
    exact Transition.step_eq (.rebuild outcomes old srcs hplace hstarted hsrcs)
  | queueResync hplace =>
    exact ⟨_, stat, rfl, hR, fun log => Transition.step_eq (.queueResync hplace)⟩
  | cancelHandler src hmem =>
    refine ⟨[], stat, (List.append_nil _).symm, hR, fun log => ?_⟩
    rw [List.append_nil]
    exact Transition.step_eq (.cancelHandler src hmem)

theorem agrees_step (hrefl : ∀ a, R a a) (hino : ∀ a b, R a b → st_ino a = st_ino b)
    (hs : Agrees R s s') (h : s.step e = .ok t) : ∃ t', s'.step e = .ok t' ∧ Agrees R t t' := by
  obtain ⟨rest, stat', hlog, hstat', hany⟩ := step_withRecord hrefl hino h hs.stat
  refine ⟨{ t with log := s'.log ++ rest, monitor := { t.monitor with stat := stat' } }, ?_,
    rfl, hstat', ?_⟩
  · rw [hs.state]
    exact hany s'.log
  · rw [hlog, dispatches_append, dispatches_append, hs.callbacks]

/-- A failing start that finds a related record leaves a run that has not made it no
difference. -/
theorem agrees_startFails (htrans : ∀ a b c, R a b → R b c → R a c) (hs : Agrees R s s')
    (hfails : s.startFails e = true) (hfinds : s.Finds R e) (h : s.step e = .ok t) :
    Agrees R t s' := by
  obtain ⟨callback, pre, rfl, rfl⟩ := step_of_startFails hfails h
  have hrelated := hfinds hfails _ pre rfl
  have hvalid : pre.isSome = s.monitor.isStatValid := by
    unfold BRUFileMonitor.recordedStat at hrelated
    cases hvalid : s.monitor.isStatValid <;> rw [hvalid] at hrelated <;> cases hrelated <;> rfl
  refine ⟨?_, ?_, ?_⟩
  · show s' = { s with
      log := s'.log, monitor := { s.monitor.storeStat pre with stat := s'.monitor.stat } }
    rw [BRUFileMonitor.storeStat_eq, hvalid]
    exact hs.state
  · show R (s.monitor.storeStat pre).stat s'.monitor.stat
    rw [BRUFileMonitor.storeStat_eq]
    unfold BRUFileMonitor.recordedStat at hrelated
    cases pre with
    | none => exact hs.stat
    | some pre =>
      have htrue : s.monitor.isStatValid = true := hvalid.symm
      rw [if_pos htrue] at hrelated
      cases hrelated with
      | some hpre => exact htrans _ _ _ hpre hs.stat
  · rw [hs.callbacks, dispatches_append]
    exact (List.append_nil _).symm

theorem agrees_run (hR : Equivalence R) (hino : ∀ a b, R a b → st_ino a = st_ino b)
    {events : List (Event P S Cb)} (hfinds : AllSteps step (Finds R) s events)
    (hrun : run step s events = .ok t) :
    ∃ t', run step s (eventsWithout step startFails s events) = .ok t' ∧ Agrees R t t' :=
  run_eventsWithout (R := Agrees R) (P := Finds R)
    (fun _ _ _ _ hs hfails hfinds h =>
      agrees_startFails (fun _ _ _ => hR.trans) hs hfails hfinds h)
    (fun _ _ _ _ hs h => agrees_step hR.refl hino hs h) ⟨rfl, hR.refl _, rfl⟩ hfinds hrun

end Agrees

omit [FileStat S] in
theorem FindsRecorded.finds (h : s.FindsRecorded e) : s.Finds Eq e := by
  intro hfails callback pre heq
  rw [h hfails callback pre heq]
  cases s.monitor.recordedStat with
  | none => exact .none
  | some stat => exact .some rfl

theorem FindsSameFile.finds (h : s.FindsSameFile e) :
    s.Finds (fun a b => st_ino a = st_ino b) e := by
  intro hfails callback pre heq
  have hsame := h hfails callback pre heq
  rw [← BRUFileMonitor.map_recordedStat] at hsame
  cases hstat : s.monitor.recordedStat <;> cases hpre : pre <;> rw [hstat, hpre] at hsame
  · exact .none
  · cases hsame
  · cases hsame
  · exact .some (Option.some.inj hsame)

theorem sameCallbacks {events : List (Event P S Cb)}
    (hfinds : AllSteps step FindsRecorded s events) (hrun : run step s events = .ok t) :
    ∃ t', run step s (eventsWithout step startFails s events) = .ok t' ∧
      t'.monitor = t.monitor ∧ dispatches t'.log = dispatches t.log := by
  obtain ⟨t', hrun', hagrees⟩ := agrees_run (R := Eq) eq_equivalence
    (fun _ _ h => congrArg st_ino h) (hfinds.mono fun _ _ h => h.finds) hrun
  refine ⟨t', hrun', ?_, hagrees.callbacks⟩
  rw [hagrees.state, ← hagrees.stat]

theorem sameCallbacks_of_sameFile {events : List (Event P S Cb)}
    (hfinds : AllSteps step FindsSameFile s events) (hrun : run step s events = .ok t) :
    ∃ t', run step s (eventsWithout step startFails s events) = .ok t' ∧
      t'.monitor.recorded = t.monitor.recorded ∧ dispatches t'.log = dispatches t.log := by
  obtain ⟨t', hrun', hagrees⟩ := agrees_run (R := fun a b => st_ino a = st_ino b)
    ⟨fun _ => rfl, fun h => h.symm, fun h h' => h.trans h'⟩ (fun _ _ h => h)
    (hfinds.mono fun _ _ h => h.finds) hrun
  refine ⟨t', hrun', ?_, hagrees.callbacks⟩
  rw [hagrees.state]
  simp only [BRUFileMonitor.recorded, hagrees.stat]

/-- For every run: the starts that fail change nothing exactly when each of them finds what
is recorded.  Then the run without them dispatches the same callbacks, and so it does when
each of them finds the recorded file. -/
theorem failedStartsHarmless_iff {path : P} {subPaths : List P} {events : List (Event P S Cb)}
    (hrun : run step (initial path subPaths) events = .ok s) :
    (FailedStartsHarmless (initial path subPaths) events s ↔
        AllSteps step FindsRecorded (initial path subPaths) events) ∧
      (AllSteps step FindsSameFile (initial path subPaths) events →
        ∃ t, run step (initial path subPaths)
            (eventsWithout step startFails (initial path subPaths) events) = .ok t ∧
          t.monitor.recorded = s.monitor.recorded ∧ dispatches t.log = dispatches s.log) := by
  have hatomic : AllSteps step FailedStartAtomic (initial path subPaths) events ↔
      AllSteps step FindsRecorded (initial path subPaths) events :=
    allSteps_iff_of_invariant (I := fun _ => True)
      (fun s e _ => failedStartAtomic_iff s e) (fun _ _ _ _ _ _ => trivial) trivial
  refine ⟨⟨?_, ?_⟩, fun hfinds => sameCallbacks_of_sameFile hfinds hrun⟩
  · intro h
    exact hatomic.mp h.atomic
  · intro hfinds
    exact ⟨hatomic.mpr hfinds, sameCallbacks hfinds hrun⟩

/-- A second start finds the same file.  The event of the directory, which comes after the
file is replaced, dispatches the first callback. -/
theorem failedStartsHarmless_sameFile :
    ∃ s : MonitorSessions Nat Nat Nat,
      run step (initial 1 [0, 1])
        [.start (some 7) (some 5), .build [true, true], .lstat (some 5),
          .start (some 8) (some 5), .fire ⟨0, 0⟩, .dispatch ⟨0, 0⟩, .runBlock,
          .lstat (some 6)] = .ok s ∧
      dispatches s.log = [some 7] ∧
      FailedStartsHarmless (initial 1 [0, 1])
        [.start (some 7) (some 5), .build [true, true], .lstat (some 5),
          .start (some 8) (some 5), .fire ⟨0, 0⟩, .dispatch ⟨0, 0⟩, .runBlock,
          .lstat (some 6)] s := by
  obtain ⟨s, hrun, hdispatches⟩ : ∃ s : MonitorSessions Nat Nat Nat,
      run step (initial 1 [0, 1])
        [.start (some 7) (some 5), .build [true, true], .lstat (some 5),
          .start (some 8) (some 5), .fire ⟨0, 0⟩, .dispatch ⟨0, 0⟩, .runBlock,
          .lstat (some 6)] = .ok s ∧ dispatches s.log = [some 7] := ⟨_, rfl, rfl⟩
  refine ⟨s, hrun, hdispatches, (failedStartsHarmless_iff hrun).1.mpr ?_⟩
  have hother : ∀ (s : MonitorSessions Nat Nat Nat) e, s.startFails e = false →
      s.FindsRecorded e := by
    intro s e hfails htrue
    rw [hfails] at htrue
    cases htrue
  refine .cons (hother _ _ rfl) rfl (.cons (hother _ _ rfl) rfl (.cons (hother _ _ rfl) rfl
    (.cons ?_ rfl (.cons (hother _ _ rfl) rfl (.cons (hother _ _ rfl) rfl
      (.cons (hother _ _ rfl) rfl (.cons (hother _ _ rfl) rfl trivial)))))))
  rintro - callback pre heq
  cases heq
  rfl

/-- The file is replaced, and a second start is made before the event of the directory is
evaluated.  The event finds nothing new, and no callback is dispatched. -/
theorem not_failedStartsHarmless :
    ∃ s t : MonitorSessions Nat Nat Nat,
      run step (initial 1 [0, 1])
        [.start (some 7) (some 5), .build [true, true], .lstat (some 5), .fire ⟨0, 0⟩,
          .start (some 8) (some 6), .dispatch ⟨0, 0⟩, .runBlock, .lstat (some 6)] = .ok s ∧
      run step (initial 1 [0, 1])
        [.start (some 7) (some 5), .build [true, true], .lstat (some 5), .fire ⟨0, 0⟩,
          .dispatch ⟨0, 0⟩, .runBlock, .lstat (some 6)] = .ok t ∧
      dispatches s.log = [] ∧ dispatches t.log = [some 7] ∧
      ¬ FailedStartsHarmless (initial 1 [0, 1])
        [.start (some 7) (some 5), .build [true, true], .lstat (some 5), .fire ⟨0, 0⟩,
          .start (some 8) (some 6), .dispatch ⟨0, 0⟩, .runBlock, .lstat (some 6)] s := by
  refine ⟨_, _, rfl, rfl, rfl, rfl, ?_⟩
  rintro ⟨-, t, hrun, -, hcallbacks⟩
  obtain rfl := Except.ok.inj hrun
  cases hcallbacks

end MonitorSessions

end BromiumCoreUtils
