import BromiumCoreUtils.FileMonitor.Resources

/-!
# What a session of a file monitor is told of

A stop cancels the sources and clears the fields, but a handler that has begun still
queues its block, and a block that waits stays in the queue.  The block looks whether
there are sources.  There are none after a stop, but there are again after the next
start, and they say nothing of whose source has sent the block.

So an event of an earlier session is evaluated in a later one.  `lstat` is compared
with what the later session has recorded, which is right, but an event of the whole
path is taken for a change of the file.  `isolated_iff` says that nothing else goes
wrong.
-/

namespace BromiumCoreUtils

open Machine
open FileStat (st_ino)

section Causes

variable {P Cb : Type}

/-- A session begins or ends. -/
def MonitorEntry.bounds : MonitorEntry P Cb → Prop
  | .started _ | .stopped => True
  | _ => False

/-- The cause lies in this part of the log. -/
def DispatchCause.Within (since : List (MonitorEntry P Cb)) : DispatchCause P → Prop
  | .event src => .built src ∈ since
  | .changed old new => old ≠ new ∧ .recorded old ∈ since

/-- A callback is dispatched in the session that it was passed for, and for a cause that
lies in this session. -/
def OwnCause (log : List (MonitorEntry P Cb)) : MonitorEntry P Cb → Prop
  | .dispatched (some callback) cause => ∃ pre since,
    log = pre ++ .started callback :: since ∧ (∀ entry ∈ since, ¬ entry.bounds) ∧
      cause.Within since
  | _ => True

theorem DispatchCause.Within.append {since : List (MonitorEntry P Cb)} {cause : DispatchCause P}
    (h : cause.Within since) (rest : List (MonitorEntry P Cb)) :
    cause.Within (since ++ rest) := by
  cases cause with
  | event src => exact List.mem_append_left rest h
  | changed old new => exact ⟨h.1, List.mem_append_left rest h.2⟩

end Causes

namespace MonitorSessions

variable {P S Cb : Type} [FileStat S]

/-- Every callback that has been dispatched belongs to the session. -/
def Isolated (s : MonitorSessions P S Cb) : Prop := Log.Justified OwnCause s.log

/-- The evaluation is not one of an earlier session's event of the whole path, with the
file as it was recorded. -/
def NotStale (s : MonitorSessions P S Cb) : Event P S Cb → Prop
  | .lstat post => ∀ src, s.place = .evaluate (some src) → src.fd < s.sessionFirst →
    s.monitor.recorded = post.map st_ino → post.isSome = true → src.subPath ≠ s.monitor.path
  | _ => True

/-! ## The log of the session that is on -/

/-- The entries of the log before and after the last start. -/
structure Session (s : MonitorSessions P S Cb) (callback : Cb)
    (pre since : List (MonitorEntry P Cb)) : Prop where
  log : s.log = pre ++ .started callback :: since
  inside : ∀ entry ∈ since, ¬ entry.bounds
  recorded : .recorded s.monitor.recorded ∈ since
  earlier : ∀ src, .built src ∈ pre → src.fd < s.sessionFirst
  later : ∀ src, .built src ∈ since → s.sessionFirst ≤ src.fd

/-- A monitor with a callback has a session, and the events on their way come from
sources of this or of an earlier one. -/
structure Known (s : MonitorSessions P S Cb) : Prop where
  session : ∀ callback, s.monitor.eventCallback = some callback → ∃ pre since,
    s.Session callback pre since
  first : s.sessionFirst ≤ s.opened
  handlers : ∀ src ∈ s.handlers, .built src ∈ s.log
  syncQueue : ∀ src, some src ∈ s.syncQueue → .built src ∈ s.log
  place : ∀ src, s.place = .evaluate (some src) → .built src ∈ s.log

theorem known_initial (path : P) (subPaths : List P) :
    Known (initial path subPaths : MonitorSessions P S Cb) where
  session := fun callback h => by cases h
  first := Nat.le_refl 0
  handlers := by simp [initial]
  syncQueue := by simp [initial]
  place := by simp [initial]

variable {s t : MonitorSessions P S Cb}

/-- The session goes on. -/
theorem Session.extend {callback : Cb} {pre since rest : List (MonitorEntry P Cb)}
    (h : s.Session callback pre since) (hlog : t.log = s.log ++ rest)
    (hfirst : t.sessionFirst = s.sessionFirst) (hinside : ∀ entry ∈ rest, ¬ entry.bounds)
    (hrecorded : t.monitor.recorded = s.monitor.recorded ∨
      .recorded t.monitor.recorded ∈ rest)
    (hlater : ∀ src, .built src ∈ rest → s.sessionFirst ≤ src.fd) :
    t.Session callback pre (since ++ rest) := by
  refine ⟨by rw [hlog, h.log]; simp, ?_, ?_, ?_, ?_⟩
  · intro entry hmem
    rcases List.mem_append.mp hmem with hmem | hmem
    · exact h.inside entry hmem
    · exact hinside entry hmem
  · rcases hrecorded with hsame | hnew
    · rw [hsame]
      exact List.mem_append_left _ h.recorded
    · exact List.mem_append_right _ hnew
  · rw [hfirst]
    exact h.earlier
  · intro src hmem
    rw [hfirst]
    rcases List.mem_append.mp hmem with hmem | hmem
    · exact h.later src hmem
    · exact hlater src hmem

/-- The session that a dispatched callback is justified by is the last one. -/
theorem Session.unique {callback callback' : Cb}
    {pre pre' since since' : List (MonitorEntry P Cb)} (h : s.Session callback pre since)
    (hlog : s.log = pre' ++ .started callback' :: since')
    (hinside : ∀ entry ∈ since', ¬ entry.bounds) : since' = since := by
  rw [h.log] at hlog
  exact (Log.cut_at_last hlog trivial trivial h.inside hinside).2.2.symm

/-- A step that begins no session and ends none. -/
theorem Known.extend {rest : List (MonitorEntry P Cb)} (hs : Known s)
    (hlog : t.log = s.log ++ rest) (hcallback : t.monitor.eventCallback = s.monitor.eventCallback)
    (hfirst : t.sessionFirst = s.sessionFirst) (hopened : s.opened ≤ t.opened)
    (hinside : ∀ entry ∈ rest, ¬ entry.bounds)
    (hrecorded : t.monitor.recorded = s.monitor.recorded ∨
      .recorded t.monitor.recorded ∈ rest)
    (hlater : ∀ src, .built src ∈ rest → s.sessionFirst ≤ src.fd)
    (hhandlers : ∀ src ∈ t.handlers, .built src ∈ s.log)
    (hsyncQueue : ∀ src, some src ∈ t.syncQueue → .built src ∈ s.log)
    (hplace : ∀ src, t.place = .evaluate (some src) → .built src ∈ s.log) : Known t := by
  have hmono : ∀ src, .built src ∈ s.log → .built src ∈ t.log := by
    intro src hmem
    rw [hlog]
    exact List.mem_append_left _ hmem
  refine ⟨?_, ?_, fun src hmem => hmono src (hhandlers src hmem),
    fun src hmem => hmono src (hsyncQueue src hmem), fun src h => hmono src (hplace src h)⟩
  · intro callback h
    rw [hcallback] at h
    obtain ⟨pre, since, hsession⟩ := hs.session callback h
    exact ⟨pre, _, hsession.extend hlog hfirst hinside hrecorded hlater⟩
  · rw [hfirst]
    exact Nat.le_trans hs.first hopened

/-- A step that writes nothing down. -/
theorem Known.quiet (hs : Known s) (hlog : t.log = s.log) (hmonitor : t.monitor = s.monitor)
    (hfirst : t.sessionFirst = s.sessionFirst) (hopened : t.opened = s.opened)
    (hhandlers : ∀ src ∈ t.handlers, .built src ∈ s.log)
    (hsyncQueue : ∀ src, some src ∈ t.syncQueue → .built src ∈ s.log)
    (hplace : ∀ src, t.place = .evaluate (some src) → .built src ∈ s.log) : Known t := by
  have hrest : t.log = s.log ++ [] := by rw [hlog, List.append_nil]
  refine hs.extend hrest ?_ hfirst (Nat.le_of_eq hopened.symm) (by simp) (Or.inl ?_) (by simp)
    hhandlers hsyncQueue hplace
  · rw [hmonitor]
  · rw [hmonitor]

/-- A source that is built now belongs to the session. -/
theorem Known.first_le_of_built (hs : Known s) {subPaths : List P} {outcomes : List Bool}
    {src : VnodeSource P Nat}
    (hmem : .built src ∈ (openSources s.opened subPaths outcomes).map (@MonitorEntry.built P Cb)) :
    s.sessionFirst ≤ src.fd := by
  obtain ⟨src', hmem', heq⟩ := List.mem_map.mp hmem
  injection heq with heq
  rw [heq] at hmem'
  exact Nat.le_trans hs.first (first_le_of_mem_openSources hmem').1

variable [DecidableEq P] {e : Event P S Cb}

theorem known_step (hdescriptors : Descriptors s) (hs : Known s) (h : s.step e = .ok t) :
    Known t := by
  cases step_transition h with
  | startNil pre =>
    exact hs.extend rfl rfl rfl (Nat.le_refl _) (by simp [MonitorEntry.bounds]) (Or.inl rfl)
      (by simp) hs.handlers hs.syncQueue hs.place
  | startFailed callback pre hplace hstarted =>
    exact hs.extend rfl (by simp) rfl (Nat.le_refl _) (by simp [MonitorEntry.bounds])
      (Or.inr (by simp)) (by simp) hs.handlers hs.syncQueue hs.place
  | started callback pre hplace hstopped =>
    refine ⟨?_, Nat.le_refl _, ?_, ?_, by simp⟩
    · intro callback' hcallback
      obtain rfl : callback = callback' := Option.some.inj hcallback
      refine ⟨s.log, [.recorded (pre.map st_ino)], rfl, by simp [MonitorEntry.bounds], ?_, ?_,
        by simp⟩
      · rw [List.mem_singleton]
        exact congrArg _ (s.monitor.recorded_storeStat pre)
      · intro src hmem
        exact hdescriptors.fd_lt hmem
    · intro src hmem
      exact List.mem_append_left _ (hs.handlers src hmem)
    · intro src hmem
      exact List.mem_append_left _ (hs.syncQueue src hmem)
  | stopFailed hplace hstopped =>
    exact hs.extend rfl rfl rfl (Nat.le_refl _) (by simp [MonitorEntry.bounds]) (Or.inl rfl)
      (by simp) hs.handlers hs.syncQueue hs.place
  | stopped srcs hplace hstarted =>
    refine ⟨by simp, hs.first, ?_, ?_, ?_⟩
    · intro src hmem
      exact List.mem_append_left _ (hs.handlers src hmem)
    · intro src hmem
      exact List.mem_append_left _ (hs.syncQueue src hmem)
    · intro src hsrc
      exact List.mem_append_left _ (hs.place src hsrc)
  | fire src hmem =>
    refine hs.quiet rfl rfl rfl rfl ?_ hs.syncQueue hs.place
    intro src' hmem'
    rcases List.mem_append.mp hmem' with hmem' | hmem'
    · exact hs.handlers src' hmem'
    · rw [List.mem_singleton.mp hmem']
      exact hdescriptors.known src (List.mem_append_right _ hmem)
  | dispatch src hmem =>
    refine hs.quiet rfl rfl rfl rfl
      (fun src' hmem' => hs.handlers src' (List.mem_of_mem_erase hmem')) ?_ hs.place
    intro src' hmem'
    rcases List.mem_append.mp hmem' with hmem' | hmem'
    · exact hs.syncQueue src' hmem'
    · obtain rfl := Option.some.inj (List.mem_singleton.mp hmem')
      exact hs.handlers src' hmem
  | runBlock origin rest hplace hqueue hstarted =>
    have hsyncQueue := hs.syncQueue
    rw [hqueue] at hsyncQueue
    refine hs.quiet rfl rfl rfl rfl hs.handlers
      (fun src hmem => hsyncQueue src (List.mem_cons_of_mem _ hmem)) ?_
    intro src hsrc
    injection hsrc with horigin
    exact hsyncQueue src (by simp [horigin])
  | skipBlock origin rest hplace hqueue hstopped =>
    have hsyncQueue := hs.syncQueue
    rw [hqueue] at hsyncQueue
    exact hs.quiet rfl rfl rfl rfl hs.handlers
      (fun src hmem => hsyncQueue src (List.mem_cons_of_mem _ hmem)) hs.place
  | build outcomes srcs hplace hstopped hsrcs =>
    refine hs.extend rfl rfl rfl (Nat.le_add_right _ _) (by simp [MonitorEntry.bounds])
      (Or.inl rfl) ?_ hs.handlers hs.syncQueue (by simp)
    intro src hmem
    rw [hsrcs] at hmem
    exact hs.first_le_of_built hmem
  | lstat origin post hplace =>
    refine hs.extend (by rw [evaluate_log, List.append_assoc, List.append_assoc]) (by simp) rfl
      (Nat.le_refl _) ?_ (Or.inr (by simp)) ?_ hs.handlers hs.syncQueue ?_
    · intro entry hmem
      split at hmem <;> simp at hmem
      · rcases hmem with rfl | rfl | rfl <;> exact id
      · rcases hmem with rfl | rfl <;> exact id
    · intro src hmem
      split at hmem <;> simp at hmem
    · intro src hsrc
      rw [evaluate_place] at hsrc
      split at hsrc <;> cases hsrc
  | rebuild outcomes old srcs hplace hstarted hsrcs =>
    refine hs.extend (List.append_assoc _ _ _) rfl rfl (Nat.le_add_right _ _) ?_
      (Or.inl rfl) ?_ hs.handlers hs.syncQueue (by simp)
    · intro entry hmem
      rcases List.mem_append.mp hmem with hmem | hmem
      · obtain ⟨src, -, rfl⟩ := List.mem_map.mp hmem
        exact id
      · rw [List.mem_singleton.mp hmem]
        exact id
    · intro src hmem
      rcases List.mem_append.mp hmem with hmem | hmem
      · rw [hsrcs] at hmem
        exact hs.first_le_of_built hmem
      · cases List.mem_singleton.mp hmem
  | queueResync hplace =>
    refine hs.extend rfl rfl rfl (Nat.le_refl _) (by simp [MonitorEntry.bounds]) (Or.inl rfl)
      (by simp) hs.handlers ?_ (by simp)
    intro src hmem
    rcases List.mem_append.mp hmem with hmem | hmem
    · exact hs.syncQueue src hmem
    · cases List.mem_singleton.mp hmem
  | cancelHandler src hmem =>
    exact hs.quiet rfl rfl rfl rfl hs.handlers hs.syncQueue hs.place

/-! ## Isolation -/

/-- Callbacks are dispatched by evaluations. -/
theorem log_step (h : s.step e = .ok t) :
    (∃ origin post, e = .lstat post ∧ s.place = .evaluate origin ∧
      t = s.evaluate origin post) ∨
    (∀ post, e ≠ .lstat post) ∧ ∃ rest, t.log = s.log ++ rest ∧
      ∀ entry ∈ rest, ∀ log, OwnCause log entry := by
  cases step_transition h with
  | lstat origin post hplace => exact Or.inl ⟨origin, post, rfl, hplace, rfl⟩
  | build outcomes srcs hplace hstopped hsrcs =>
    refine Or.inr ⟨by simp, _, rfl, ?_⟩
    intro entry hmem log
    obtain ⟨src, -, rfl⟩ := List.mem_map.mp hmem
    trivial
  | rebuild outcomes old srcs hplace hstarted hsrcs =>
    refine Or.inr ⟨by simp, _, List.append_assoc _ _ _, ?_⟩
    intro entry hmem log
    rcases List.mem_append.mp hmem with hmem | hmem
    · obtain ⟨src, -, rfl⟩ := List.mem_map.mp hmem
      trivial
    · rw [List.mem_singleton.mp hmem]
      trivial
  | startNil | startFailed | started | stopFailed | stopped | queueResync =>
    exact Or.inr ⟨by simp, _, rfl, by simp [OwnCause]⟩
  | fire | dispatch | runBlock | skipBlock | cancelHandler =>
    exact Or.inr ⟨by simp, [], (List.append_nil _).symm, by simp⟩

/-- The entry of a callback is the one that has to be judged. -/
theorem isolated_evaluate_iff (origin : Option (VnodeSource P Nat)) (post : Option S) :
    (s.evaluate origin post).Isolated ↔ s.Isolated ∧
      (s.monitor.recorded ≠ post.map st_ino ∨
          post.isSome = true ∧ origin.map (·.subPath) = some s.monitor.path →
        OwnCause (s.log ++ [.evaluated (origin.map (·.subPath)) (post.map st_ino)])
          (.dispatched s.monitor.eventCallback
            (dispatchCause origin s.monitor.recorded (post.map st_ino)))) := by
  unfold Isolated
  rw [evaluate_log, Log.justified_concat_iff]
  split
  · rename_i hdispatched
    rw [Log.justified_concat_iff, Log.justified_concat_iff]
    constructor
    · rintro ⟨⟨⟨hlog, -⟩, hcause⟩, -⟩
      exact ⟨hlog, fun _ => hcause⟩
    · rintro ⟨hlog, hcause⟩
      exact ⟨⟨⟨hlog, trivial⟩, hcause hdispatched⟩, trivial⟩
  · rename_i hsilent
    rw [List.append_nil, Log.justified_concat_iff]
    constructor
    · rintro ⟨⟨hlog, -⟩, -⟩
      exact ⟨hlog, fun hdispatched => absurd hdispatched hsilent⟩
    · rintro ⟨hlog, -⟩
      exact ⟨⟨hlog, trivial⟩, trivial⟩

omit [DecidableEq P] in
/-- An evaluation belongs to the session. -/
theorem Session.evaluated {callback : Cb} {pre since : List (MonitorEntry P Cb)}
    (h : s.Session callback pre since) (path : Option P) (post : Option Nat) :
    Session { s with log := s.log ++ [.evaluated path post] } callback pre
      (since ++ [.evaluated path post]) :=
  h.extend rfl rfl (by simp [MonitorEntry.bounds]) (Or.inl rfl) (by simp)

omit [DecidableEq P] in
/-- The cause of a changed file lies in the session, whose last record it differs from. -/
theorem ownCause_changed {callback : Cb} {pre since : List (MonitorEntry P Cb)}
    (hsession : s.Session callback pre since) {origin : Option (VnodeSource P Nat)}
    {post : Option Nat} (hchanged : s.monitor.recorded ≠ post) (path : Option P) :
    OwnCause (s.log ++ [.evaluated path post])
      (.dispatched (some callback) (dispatchCause origin s.monitor.recorded post)) := by
  have hsession' := hsession.evaluated path post
  refine ⟨pre, since ++ [.evaluated path post], hsession'.log, hsession'.inside, ?_⟩
  have hcause : dispatchCause origin s.monitor.recorded post =
      .changed s.monitor.recorded post := by
    cases origin with
    | none => rfl
    | some src => simp [dispatchCause, hchanged]
  rw [hcause]
  apply DispatchCause.Within.append
  exact ⟨hchanged, hsession.recorded⟩

omit [DecidableEq P] in
/-- The cause of an event lies in the session if its source does. -/
theorem ownCause_event_iff {callback : Cb} {pre since : List (MonitorEntry P Cb)}
    (hsession : s.Session callback pre since) {src : VnodeSource P Nat}
    (hbuilt : .built src ∈ s.log) (path : Option P) (post : Option Nat) :
    OwnCause (s.log ++ [.evaluated path post]) (.dispatched (some callback) (.event src)) ↔
      ¬ src.fd < s.sessionFirst := by
  have hsession' := hsession.evaluated path post
  constructor
  · rintro ⟨pre', since', hlog, hinside, hmem⟩ hearlier
    rw [hsession'.unique hlog hinside] at hmem
    have hlater := hsession'.later src hmem
    exact absurd hearlier (Nat.not_lt.mpr hlater)
  · intro hlater
    refine ⟨pre, since ++ [.evaluated path post], hsession'.log, hsession'.inside, ?_⟩
    apply List.mem_append_left
    rw [hsession.log] at hbuilt
    rcases List.mem_append.mp hbuilt with hbuilt | hbuilt
    · exact absurd (hsession.earlier src hbuilt) hlater
    · simpa using hbuilt

/-- An evaluation dispatches the callback for a cause of its session, unless it is
stale. -/
theorem isolated_evaluate (hrunning : Running s) (hknown : Known s) (hs : s.Isolated)
    {origin : Option (VnodeSource P Nat)} (hplace : s.place = .evaluate origin)
    (post : Option S) : (s.evaluate origin post).Isolated ↔ s.NotStale (.lstat post) := by
  obtain ⟨callback, hcallback⟩ :=
    Option.isSome_iff_exists.mp (hrunning.callback (by simp [hplace]))
  obtain ⟨pre, since, hsession⟩ := hknown.session callback hcallback
  rw [isolated_evaluate_iff, hcallback]
  constructor
  · rintro ⟨-, hcause⟩ src hsrc hearlier hsame hsome hpath
    rw [hplace] at hsrc
    injection hsrc with hsrc
    have hbuilt := hknown.place src (by rw [hplace, hsrc])
    have hcause := hcause (Or.inr ⟨hsome, by rw [hsrc, Option.map_some, hpath]⟩)
    have hevent : dispatchCause origin s.monitor.recorded (post.map st_ino) = .event src := by
      rw [hsrc]
      exact if_pos hsame
    rw [hevent, ownCause_event_iff hsession hbuilt] at hcause
    exact hcause hearlier
  · intro hfresh
    refine ⟨hs, ?_⟩
    intro hdispatched
    by_cases hsame : s.monitor.recorded = post.map st_ino
    · -- an event of the whole path, and the file is the same
      obtain ⟨hsome, hpath⟩ := hdispatched.resolve_left (not_not_intro hsame)
      obtain ⟨src, hsrc, hpath⟩ := Option.map_eq_some_iff.mp hpath
      have hbuilt := hknown.place src (by rw [hplace, hsrc])
      have hevent : dispatchCause origin s.monitor.recorded (post.map st_ino) = .event src := by
        rw [hsrc]
        exact if_pos hsame
      rw [hevent, ownCause_event_iff hsession hbuilt]
      intro hearlier
      exact hfresh src (by rw [hplace, hsrc]) hearlier hsame hsome hpath
    · exact ownCause_changed hsession hsame _

theorem isolated_step (hrunning : Running s) (hknown : Known s) (hs : s.Isolated)
    (h : s.step e = .ok t) : t.Isolated ↔ s.NotStale e := by
  rcases log_step h with ⟨origin, post, rfl, hplace, rfl⟩ | ⟨hother, rest, hlog, hrest⟩
  · exact isolated_evaluate hrunning hknown hs hplace post
  · have hisolated : t.Isolated := by
      unfold Isolated
      rw [hlog]
      exact Log.Justified.append hs hrest
    refine iff_of_true hisolated ?_
    cases e with
    | lstat post => exact absurd rfl (hother post)
    | _ => trivial

theorem log_run {events : List (Event P S Cb)} (hrun : run step s events = .ok t) :
    ∃ rest, t.log = s.log ++ rest := by
  refine run_invariant (I := fun t => ∃ rest, t.log = s.log ++ rest) ?_
    ⟨[], (List.append_nil _).symm⟩ hrun
  rintro m e n ⟨rest, hm⟩ h
  rcases log_step h with ⟨origin, post, rfl, -, rfl⟩ | ⟨-, rest', hn, -⟩
  · exact ⟨_, by rw [evaluate_log, hm, List.append_assoc, List.append_assoc, List.append_assoc]⟩
  · exact ⟨_, by rw [hn, hm, List.append_assoc]⟩

/-- For every interleaving: each callback is dispatched in its own session and for a cause
of this session, exactly when no event of an earlier session's source is evaluated as a
change of the file. -/
theorem isolated_iff {path : P} {subPaths : List P} {events : List (Event P S Cb)}
    (hrun : run step (initial path subPaths) events = .ok s) :
    s.Isolated ↔ AllSteps step NotStale (initial path subPaths) events := by
  have hall := throughout_iff_allSteps
    (P := NotStale) (I := Isolated) (J := fun s => (Running s ∧ Descriptors s) ∧ Known s)
    (fun _ _ _ hs h => ⟨⟨running_step hs.1.1 h, descriptors_step hs.1.2 h⟩,
      known_step hs.1.2 hs.2 h⟩)
    (fun _ _ _ hs hi hP h => (isolated_step hs.1.1 hs.2 hi h).mpr hP)
    (fun _ _ _ hs hi h ht => (isolated_step hs.1.1 hs.2 hi h).mp ht)
    ⟨⟨running_initial path subPaths, descriptors_initial path subPaths⟩,
      known_initial path subPaths⟩
    (Log.justified_nil _) hrun
  rw [← hall]
  constructor
  · -- the log of an earlier state is a part of the last one
    intro hs pre post m hevents hm
    rw [hevents] at hrun
    obtain ⟨m', hm', hrest⟩ := run_append_eq_ok.mp hrun
    rw [hm] at hm'
    injection hm' with hsame
    obtain ⟨rest, hlog⟩ := log_run hrest
    unfold Isolated at hs ⊢
    rw [hlog, ← hsame] at hs
    exact hs.of_append
  · intro hs
    exact hs events [] s (List.append_nil _).symm hrun

/-- The handler of a source of the first session queues its block before the stop, and the
block runs before the monitor is started again. -/
theorem isolated_in_time :
    ∃ s : MonitorSessions Nat Nat Nat,
      run step (initial 1 [0, 1])
        [.start (some 7) (some 5), .build [true, true], .lstat (some 5), .fire ⟨1, 1⟩,
          .dispatch ⟨1, 1⟩, .stop, .runBlock, .start (some 8) (some 5)] = .ok s ∧
      s.Isolated := by
  obtain ⟨s, hrun⟩ : ∃ s : MonitorSessions Nat Nat Nat,
      run step (initial 1 [0, 1])
        [.start (some 7) (some 5), .build [true, true], .lstat (some 5), .fire ⟨1, 1⟩,
          .dispatch ⟨1, 1⟩, .stop, .runBlock, .start (some 8) (some 5)] = .ok s := ⟨_, rfl⟩
  refine ⟨s, hrun, (isolated_iff hrun).mpr ?_⟩
  refine .cons trivial rfl (.cons trivial rfl (.cons ?_ rfl (.cons trivial rfl (.cons trivial rfl
    (.cons trivial rfl (.cons trivial rfl (.cons trivial rfl trivial)))))))
  intro src hsrc
  cases hsrc

/-- The handler queues its block after the monitor is started again.  The new callback is
dispatched for an event from before the start, of a file that has not changed. -/
theorem not_isolated :
    ∃ s : MonitorSessions Nat Nat Nat,
      run step (initial 1 [0, 1])
        [.start (some 7) (some 5), .build [true, true], .lstat (some 5), .fire ⟨1, 1⟩, .stop,
          .start (some 8) (some 5), .build [true, true], .lstat (some 5), .dispatch ⟨1, 1⟩,
          .runBlock, .lstat (some 5)] = .ok s ∧
      .dispatched (some 8) (.event ⟨1, 1⟩) ∈ s.log ∧ ¬ s.Isolated := by
  refine ⟨_, rfl, by decide, ?_⟩
  intro hisolated
  obtain ⟨pre, since, hlog, hinside, hmem⟩ := hisolated
    [.started 7, .recorded (some 5), .built ⟨0, 0⟩, .built ⟨1, 1⟩, .evaluated none (some 5),
      .recorded (some 5), .stopped, .started 8, .recorded (some 5), .built ⟨0, 2⟩,
      .built ⟨1, 3⟩, .evaluated none (some 5), .recorded (some 5), .evaluated (some 1) (some 5)]
    (.dispatched (some 8) (.event ⟨1, 1⟩)) [.recorded (some 5)] rfl
  have hcut : [.started 7, .recorded (some 5), .built ⟨0, 0⟩, .built ⟨1, 1⟩,
      .evaluated none (some 5), .recorded (some 5), .stopped] ++ .started 8 ::
      [.recorded (some 5), .built ⟨0, 2⟩, .built ⟨1, 3⟩, .evaluated none (some 5),
        .recorded (some 5), .evaluated (some 1) (some 5)] = pre ++ .started 8 :: since := hlog
  obtain ⟨-, -, rfl⟩ := Log.cut_at_last hcut trivial trivial
    (by simp [MonitorEntry.bounds]) hinside
  simp [DispatchCause.Within] at hmem

end MonitorSessions

end BromiumCoreUtils
