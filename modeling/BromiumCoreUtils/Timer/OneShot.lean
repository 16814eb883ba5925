import BromiumCoreUtils.Lib.Log
import BromiumCoreUtils.Timer.Basic

/-!
# A timer that does not repeat

Many expiries may be pending at once, and several of them may carry the current
generation.  Still a one-shot timer fires at most once for a resume, for a fire
clears the running flag on the queue that tests it.

`OneShot` says what the log tells about a timer that is running, and `Numbered`
relates generations to the resumes in the log, as long as the counter has not
overflowed.
-/

namespace BromiumCoreUtils

open Machine

/-- The entry is the synchronised step of a resume. -/
def TimerObservation.isResumed {D : Type} : TimerObservation D → Bool
  | .resumed => true
  | _ => false

namespace BRUTimer

variable {D : Type} {t t' : BRUTimer D} {e : Event D}

/-- How often the timer was resumed. -/
def resumes (log : List (TimerObservation D)) : Nat :=
  log.countP TimerObservation.isResumed

@[simp] theorem resumes_append (log log' : List (TimerObservation D)) :
    resumes (log ++ log') = resumes log + resumes log' := by
  simp [resumes]

/-- Only a resume counts. -/
theorem resumes_concat_other (log : List (TimerObservation D)) {o : TimerObservation D}
    (ho : o.isResumed = false) : resumes (log ++ [o]) = resumes log := by
  rw [resumes_append]
  simp [resumes, ho]

/-! ## The fields that a block leaves alone -/

section Fields

variable (t : BRUTimer D)

@[simp] theorem hopBlock_repeats : (hopBlock t).repeats = t.repeats := by
  cases hmode : t.mode <;> cases hrep : t.repeats <;>
    simp [hopBlock, hmode, hrep, fireWithDate, setupTimer]

@[simp] theorem hopBlock_log : (hopBlock t).log = t.log := by
  cases hmode : t.mode <;> cases hrep : t.repeats <;>
    simp [hopBlock, hmode, hrep, fireWithDate, setupTimer]

@[simp] theorem registerExpiry_repeats (read : GenerationRead) :
    (t.registerExpiry read).repeats = t.repeats := by
  unfold registerExpiry
  split <;> rfl

@[simp] theorem registerExpiry_log (read : GenerationRead) :
    (t.registerExpiry read).log = t.log ++ [.armed read.setup.call t.currentInterval] := by
  unfold registerExpiry
  split <;> rfl

end Fields

/-- Without `repeat` no block calls `setupTimer` again. -/
theorem runPostFireBlock_once (hrep : t.repeats = false) (post : PostFireBlock) :
    t.runPostFireBlock post = t := by
  cases post <;> simp [runPostFireBlock, setupTimerBlock, hrep]

/-! ## The running flag -/

/-- A one-shot timer that is running was resumed, and has neither fired nor
been suspended since. -/
structure OneShot (t : BRUTimer D) : Prop where
  repeats : t.repeats = false
  running : t.running = true →
    Log.Since (fun o => o = .resumed) (fun o => o ≠ .suspended ∧ ∀ call, o ≠ .fired call) t.log

/-- The flag survives a step that logs no fire and no suspend. -/
theorem OneShot.congr (h : OneShot t) (hrep : t'.repeats = t.repeats)
    (hrunning : t'.running = t.running)
    (hlog : t'.log = t.log ∨ ∃ o, t'.log = t.log ++ [o] ∧ o ≠ .suspended ∧
      ∀ call, o ≠ .fired call) : OneShot t' := by
  refine { repeats := by rw [hrep, h.repeats], running := ?_ }
  intro hr
  have hsince := h.running (hrunning ▸ hr)
  rcases hlog with hlog | ⟨o, hlog, ho⟩
  · rw [hlog]
    exact hsince
  · rw [hlog]
    exact Log.since_concat_iff.mpr (Or.inr ⟨ho, hsince⟩)

/-- One step keeps the flag and the log together. -/
theorem step_oneShot (h : OneShot t) (hstep : step t e = .ok t') : OneShot t' := by
  cases step_transition hstep with
  | start _ => exact h
  | resume interval _ =>
    refine { repeats := h.repeats, running := ?_ }
    intro _
    exact Log.since_concat_iff.mpr (Or.inl rfl)
  | suspend => exact h.congr rfl rfl (Or.inl rfl)
  | fire => exact h.congr rfl rfl (Or.inl rfl)
  | readGeneration _ => exact h.congr rfl rfl (Or.inr ⟨_, rfl, by simp, by simp⟩)
  | @registerExpiry read _ =>
    exact h.congr (registerExpiry_repeats t read) (registerExpiry_running read t)
      (Or.inr ⟨_, registerExpiry_log t read, by simp, by simp⟩)
  | dropped _ _ _ _ => exact h.congr rfl rfl (Or.inl rfl)
  | fired _ _ _ _ =>
    refine { repeats := h.repeats, running := ?_ }
    intro hr
    simp [h.repeats] at hr
  | hopBlock _ =>
    exact h.congr (hopBlock_repeats _) (hopBlock_running _) (Or.inl (hopBlock_log _))
  | beginFire _ => exact h.congr rfl rfl (Or.inl rfl)
  | @endFire post _ =>
    rw [runPostFireBlock_once (t := { t with executing := t.executing.erase post }) h.repeats]
    exact h.congr rfl rfl (Or.inl rfl)
  | runSuspend _ =>
    refine { repeats := h.repeats, running := ?_ }
    intro hr
    cases hr

/-! ## The generations -/

/-- The `setupTimer` of `call` has read `generation`: not before the first
resume, and if it is the number of resumes then after the last one. -/
structure Tracked (log : List (TimerObservation D)) (call generation : Nat) : Prop where
  pos : 0 < resumes log
  le : generation ≤ resumes log
  current : generation = resumes log →
    Log.Since (fun o => o = .generationRead call) (fun o => o ≠ .resumed) log

theorem Tracked.concat {log : List (TimerObservation D)} {call generation : Nat}
    (h : Tracked log call generation) (o : TimerObservation D) :
    Tracked (log ++ [o]) call generation := by
  by_cases ho : o = .resumed
  · -- a later resume leaves the read behind
    have hone : resumes [o] = 1 := by rw [ho]; rfl
    refine { pos := ?_, le := ?_, current := ?_ }
    · rw [resumes_append]
      have := h.pos
      omega
    · rw [resumes_append]
      have := h.le
      omega
    · intro heq
      rw [resumes_append, hone] at heq
      have := h.le
      omega
  · have hsame : resumes (log ++ [o]) = resumes log := by
      apply resumes_concat_other
      cases o with
      | resumed => exact absurd rfl ho
      | _ => rfl
    refine { pos := by rw [hsame]; exact h.pos, le := by rw [hsame]; exact h.le, current := ?_ }
    intro heq
    rw [hsame] at heq
    exact Log.since_concat_iff.mpr (Or.inr ⟨ho, h.current heq⟩)

/-- The generation counts the resumes, and what was read is tracked. -/
structure Counted (t : BRUTimer D) : Prop where
  generation : t.generation = resumes t.log
  due : t.due ≠ [] → 0 < resumes t.log
  reads : ∀ read ∈ t.reads, Tracked t.log read.setup.call read.generation
  pending : ∀ expiry ∈ t.pending, Tracked t.log expiry.call expiry.generation

/-- A one-shot timer that has not overflowed its generation. -/
def Numbered (t : BRUTimer D) : Prop :=
  resumes t.log < 2 ^ 64 → Counted t

/-- The counts survive a step that appends one entry at most and adds no
work. -/
theorem Counted.congr (h : Counted t) (hgen : t'.generation = resumes t'.log)
    (hdue : t'.due ⊆ t.due) (hreads : t'.reads ⊆ t.reads) (hpending : t'.pending ⊆ t.pending)
    (hlog : t'.log = t.log ∨ ∃ o, t'.log = t.log ++ [o]) : Counted t' := by
  have htracked : ∀ call generation, Tracked t.log call generation →
      Tracked t'.log call generation := by
    intro call generation htr
    rcases hlog with hlog | ⟨o, hlog⟩
    · rw [hlog]
      exact htr
    · rw [hlog]
      exact htr.concat o
  refine
    { generation := hgen, due := ?_, reads := ?_, pending := ?_ }
  · intro hne
    have hne' : t.due ≠ [] := by
      intro hnil
      rw [hnil] at hdue
      exact hne (List.subset_nil.mp hdue)
    have hpos := h.due hne'
    rcases hlog with hlog | ⟨o, hlog⟩
    · rw [hlog]
      exact hpos
    · rw [hlog, resumes_append]
      omega
  · intro read hmem
    exact htracked _ _ (h.reads read (hreads hmem))
  · intro expiry hmem
    exact htracked _ _ (h.pending expiry (hpending hmem))

theorem Counted.resume (h : Counted t) (hlt : resumes t.log + 1 < 2 ^ 64)
    (interval : Option D) : Counted (t.resumeWithUpdateInterval interval) := by
  have hsucc : resumes (t.log ++ [.resumed]) = resumes t.log + 1 := by
    rw [resumes_append]
    rfl
  refine { generation := ?_, due := ?_, reads := ?_, pending := ?_ }
  · show (t.generation + 1) % 2 ^ 64 = resumes (t.log ++ [.resumed])
    rw [hsucc, h.generation, Nat.mod_eq_of_lt hlt]
  · intro _
    show 0 < resumes (t.log ++ [.resumed])
    omega
  · intro read hmem
    exact (h.reads read hmem).concat .resumed
  · intro expiry hmem
    exact (h.pending expiry hmem).concat .resumed

/-- What is read is the generation of the last resume. -/
theorem Counted.readGeneration (h : Counted t) {setup : SetupCall} (hmem : setup ∈ t.due) :
    Counted (t.readGeneration setup) := by
  have hsame : resumes (t.log ++ [.generationRead setup.call]) = resumes t.log :=
    resumes_concat_other t.log rfl
  have hpos := h.due (List.ne_nil_of_mem hmem)
  refine { generation := ?_, due := ?_, reads := ?_, pending := ?_ }
  · exact h.generation.trans hsame.symm
  · intro _
    exact hsame ▸ hpos
  · intro read hread
    rcases List.mem_append.mp hread with hread | hread
    · exact (h.reads read hread).concat _
    · rw [List.mem_singleton.mp hread]
      refine { pos := hsame ▸ hpos, le := ?_, current := ?_ }
      · exact Nat.le_of_eq (h.generation.trans hsame.symm)
      · intro _
        exact Log.since_concat_iff.mpr (Or.inl rfl)
  · intro expiry hexpiry
    exact (h.pending expiry hexpiry).concat _

/-- The expiry takes over what its call has read. -/
theorem Counted.registerExpiry (h : Counted t) {read : GenerationRead}
    (hmem : read ∈ t.reads) : Counted (t.registerExpiry read) := by
  have hregistered : Counted
      { t with
        reads := t.reads.erase read
        pending := t.pending ++ [⟨read.setup.call, read.generation⟩]
        log := t.log ++ [.armed read.setup.call t.currentInterval] } := by
    refine { generation := ?_, due := ?_, reads := ?_, pending := ?_ }
    · rw [resumes_concat_other t.log rfl]
      exact h.generation
    · intro hne
      rw [resumes_concat_other t.log rfl]
      exact h.due hne
    · intro other hother
      exact (h.reads other (List.mem_of_mem_erase hother)).concat _
    · intro expiry hexpiry
      rcases List.mem_append.mp hexpiry with hexpiry | hexpiry
      · exact (h.pending expiry hexpiry).concat _
      · rw [List.mem_singleton.mp hexpiry]
        exact (h.reads read hmem).concat _
  unfold BRUTimer.registerExpiry
  split
  · exact hregistered.congr hregistered.generation (fun _ hm => hm) (fun _ hm => hm)
      (fun _ hm => hm) (Or.inl rfl)
  · exact hregistered

/-- One step keeps the counts. -/
theorem step_numbered (hone : OneShot t) (h : Numbered t) (hstep : step t e = .ok t') :
    Numbered t' := by
  intro hlt
  cases step_transition hstep with
  | start _ => exact h hlt
  | resume interval _ =>
    have hlt' : resumes t.log + resumes [(.resumed : TimerObservation D)] < 2 ^ 64 := by
      rw [← resumes_append]
      exact hlt
    exact (h (by omega)).resume hlt' interval
  | suspend =>
    have hc := h hlt
    exact hc.congr hc.generation (fun _ hm => hm) (fun _ hm => hm) (fun _ hm => hm) (Or.inl rfl)
  | fire =>
    have hc := h hlt
    exact hc.congr hc.generation (fun _ hm => hm) (fun _ hm => hm) (fun _ hm => hm) (Or.inl rfl)
  | @readGeneration setup hmem =>
    have hsame : resumes (t.readGeneration setup).log = resumes t.log :=
      resumes_concat_other t.log rfl
    exact (h (hsame ▸ hlt)).readGeneration hmem
  | @registerExpiry read hmem =>
    have hsame : resumes (t.registerExpiry read).log = resumes t.log := by
      rw [registerExpiry_log]
      exact resumes_concat_other t.log rfl
    exact (h (hsame ▸ hlt)).registerExpiry hmem
  | dropped _ _ _ _ =>
    have hc := h hlt
    exact hc.congr hc.generation (fun _ hm => hm) (fun _ hm => hm)
      (fun _ hm => List.mem_of_mem_erase hm) (Or.inl rfl)
  | @fired expiry _ _ _ _ =>
    have hsame : resumes (t.log ++ [.fired expiry.call]) = resumes t.log :=
      resumes_concat_other t.log rfl
    have hc := h (hsame ▸ hlt)
    exact hc.congr (hc.generation.trans hsame.symm) (fun _ hm => hm) (fun _ hm => hm)
      (fun _ hm => List.mem_of_mem_erase hm) (Or.inr ⟨_, rfl⟩)
  | hopBlock _ =>
    obtain ⟨post, heq⟩ := hopBlock_once (t := { t with hops := t.hops - 1 }) hone.repeats
    rw [heq] at hlt ⊢
    have hc := h hlt
    exact hc.congr hc.generation (fun _ hm => hm) (fun _ hm => hm) (fun _ hm => hm) (Or.inl rfl)
  | beginFire _ =>
    have hc := h hlt
    exact hc.congr hc.generation (fun _ hm => hm) (fun _ hm => hm) (fun _ hm => hm) (Or.inl rfl)
  | @endFire post _ =>
    rw [runPostFireBlock_once (t := { t with executing := t.executing.erase post }) hone.repeats]
      at hlt ⊢
    have hc := h hlt
    exact hc.congr hc.generation (fun _ hm => hm) (fun _ hm => hm) (fun _ hm => hm) (Or.inl rfl)
  | runSuspend _ =>
    have hsame : resumes (t.log ++ [.suspended]) = resumes t.log :=
      resumes_concat_other t.log rfl
    have hc := h (hsame ▸ hlt)
    exact hc.congr (hc.generation.trans hsame.symm) (fun _ hm => hm) (fun _ hm => hm)
      (fun _ hm => hm) (Or.inr ⟨_, rfl⟩)

/-! ## The calls of `setupTimer` -/

/-- Every call of `setupTimer` reads the generation once. -/
structure Fresh (t : BRUTimer D) : Prop where
  due : ∀ setup ∈ t.due, setup.call < t.calls ∧ .generationRead setup.call ∉ t.log
  nodup : (t.due.map fun setup => setup.call).Nodup
  read : ∀ call, .generationRead call ∈ t.log → call < t.calls

/-- The call has not read the generation before. -/
def ReadsOnce (before : List (TimerObservation D)) (o : TimerObservation D) : Prop :=
  ∀ call, o = .generationRead call → .generationRead call ∉ before

theorem Fresh.setupTimer (h : Fresh t) (caller : SetupCaller) :
    Fresh (t.setupTimer caller) := by
  refine { due := ?_, nodup := ?_, read := ?_ }
  · intro setup hmem
    rcases List.mem_append.mp hmem with hmem | hmem
    · obtain ⟨hlt, hunread⟩ := h.due setup hmem
      exact ⟨Nat.lt_succ_of_lt hlt, hunread⟩
    · rw [List.mem_singleton.mp hmem]
      refine ⟨Nat.lt_succ_self _, ?_⟩
      intro hread
      exact absurd (h.read _ hread) (Nat.lt_irrefl _)
  · show ((t.due ++ [(⟨t.calls, caller⟩ : SetupCall)]).map fun setup => setup.call).Nodup
    rw [List.map_append, List.nodup_append]
    refine ⟨h.nodup, by simp, ?_⟩
    intro a ha b hb
    obtain ⟨setup, hmem, rfl⟩ := List.mem_map.mp ha
    have hlt := (h.due setup hmem).1
    have hb' : b = t.calls := by simpa using hb
    omega
  · intro call hread
    exact Nat.lt_succ_of_lt (h.read call hread)

theorem Fresh.setupTimerBlock (h : Fresh t) (caller : SetupCaller) :
    Fresh (t.setupTimerBlock caller) := by
  unfold BRUTimer.setupTimerBlock
  split
  · exact h.setupTimer caller
  · exact h

/-- Other entries and other work do not matter. -/
theorem Fresh.congr (h : Fresh t) (hcalls : t'.calls = t.calls) (hdue : t'.due = t.due)
    (hlog : t'.log = t.log ∨ ∃ o, t'.log = t.log ++ [o] ∧ ∀ call, o ≠ .generationRead call) :
    Fresh t' := by
  have hmem : ∀ call, .generationRead call ∈ t'.log ↔ .generationRead call ∈ t.log := by
    intro call
    rcases hlog with hlog | ⟨o, hlog, ho⟩
    · rw [hlog]
    · rw [hlog, List.mem_append, List.mem_singleton]
      exact or_iff_left (Ne.symm (ho call))
  refine { due := ?_, nodup := by rw [hdue]; exact h.nodup, read := ?_ }
  · intro setup hsetup
    rw [hcalls, hmem]
    exact h.due setup (hdue ▸ hsetup)
  · intro call hread
    rw [hcalls]
    exact h.read call ((hmem call).mp hread)

theorem Fresh.readGeneration (h : Fresh t) {setup : SetupCall} (hmem : setup ∈ t.due) :
    Fresh (t.readGeneration setup) := by
  have hperm := (List.perm_cons_erase hmem).map fun setup => setup.call
  have hnodup := hperm.nodup_iff.mp h.nodup
  rw [List.map_cons, List.nodup_cons] at hnodup
  refine { due := ?_, nodup := hnodup.2, read := ?_ }
  · intro other hother
    obtain ⟨hlt, hunread⟩ := h.due other (List.mem_of_mem_erase hother)
    refine ⟨hlt, ?_⟩
    intro hread
    rcases List.mem_append.mp hread with hread | hread
    · exact hunread hread
    · have heq : other.call = setup.call := by simpa using hread
      exact hnodup.1 (heq ▸ List.mem_map_of_mem hother)
  · intro call hread
    rcases List.mem_append.mp hread with hread | hread
    · exact h.read call hread
    · have heq : call = setup.call := by simpa using hread
      rw [heq]
      exact (h.due setup hmem).1

theorem step_fresh (h : Fresh t) (hstep : step t e = .ok t') : Fresh t' := by
  cases step_transition hstep with
  | start _ => exact h
  | resume interval _ =>
    apply Fresh.setupTimer
    exact h.congr rfl rfl (Or.inr ⟨_, rfl, by simp⟩)
  | suspend => exact h.congr rfl rfl (Or.inl rfl)
  | fire => exact h.congr rfl rfl (Or.inl rfl)
  | readGeneration hmem => exact h.readGeneration hmem
  | @registerExpiry read _ =>
    refine h.congr ?_ ?_ (Or.inr ⟨_, registerExpiry_log t read, by simp⟩)
    · unfold BRUTimer.registerExpiry
      split <;> rfl
    · unfold BRUTimer.registerExpiry
      split <;> rfl
  | dropped _ _ _ _ => exact h.congr rfl rfl (Or.inl rfl)
  | fired _ _ _ _ => exact h.congr rfl rfl (Or.inr ⟨_, rfl, by simp⟩)
  | hopBlock _ =>
    have hhop : Fresh { t with hops := t.hops - 1 } := h.congr rfl rfl (Or.inl rfl)
    by_cases hrep : t.repeats = true
    · have hmode : t.mode = .intervalBetweenBlockExecutions ∨
          t.mode = .intervalClockedOnWallClockTime := by
        cases t.mode <;> simp
      rcases hmode with hmode | hmode
      · rw [hopBlock_between (t := { t with hops := t.hops - 1 }) hmode]
        exact hhop.congr rfl rfl (Or.inl rfl)
      · rw [hopBlock_wallClock (t := { t with hops := t.hops - 1 }) hmode hrep]
        exact hhop.setupTimer .preFireBlock
    · have hrep' : t.repeats = false := by simpa using hrep
      obtain ⟨post, heq⟩ := hopBlock_once (t := { t with hops := t.hops - 1 }) hrep'
      rw [heq]
      exact hhop.congr rfl rfl (Or.inl rfl)
  | beginFire _ => exact h.congr rfl rfl (Or.inl rfl)
  | @endFire post _ =>
    have hend : Fresh { t with executing := t.executing.erase post } :=
      h.congr rfl rfl (Or.inl rfl)
    cases post with
    | empty => exact hend
    | setupTimerBlock => exact hend.setupTimerBlock .postFireBlock
  | runSuspend _ => exact h.congr rfl rfl (Or.inr ⟨_, rfl, by simp⟩)

/-! ## What the log may hold -/

/-- An entry of a one-shot timer: an automatic fire finds the timer running and
its generation read since the last resume, and every call reads once. -/
structure EntryJustified (before : List (TimerObservation D)) (o : TimerObservation D) :
    Prop where
  running : ∀ call, o = .fired call →
    Log.Since (fun o => o = .resumed) (fun o => o ≠ .suspended ∧ ∀ call, o ≠ .fired call) before
  current : ∀ call, o = .fired call → resumes before < 2 ^ 64 →
    Log.Since (fun o => o = .generationRead call) (fun o => o ≠ .resumed) before
  once : ReadsOnce before o

/-- An entry that is neither a fire nor a read needs no justification. -/
theorem entryJustified_other {o : TimerObservation D} (hfired : ∀ call, o ≠ .fired call)
    (hread : ∀ call, o ≠ .generationRead call) (before : List (TimerObservation D)) :
    EntryJustified before o where
  running call heq := absurd heq (hfired call)
  current call heq := absurd heq (hfired call)
  once call heq := absurd heq (hread call)

/-- One step adds justified entries only. -/
theorem step_entryJustified (hone : OneShot t) (hnum : Numbered t) (hfresh : Fresh t)
    (h : Log.Justified EntryJustified t.log) (hstep : step t e = .ok t') :
    Log.Justified EntryJustified t'.log := by
  cases step_transition hstep with
  | start _ => exact h
  | resume interval _ =>
    exact Log.justified_concat_iff.mpr ⟨h, entryJustified_other (by simp) (by simp) _⟩
  | suspend => exact h
  | fire => exact h
  | @readGeneration setup hmem =>
    refine Log.justified_concat_iff.mpr ⟨h, ?_⟩
    refine { running := ?_, current := ?_, once := ?_ }
    · intro call heq
      cases heq
    · intro call heq
      cases heq
    · intro call heq
      have hcall : setup.call = call := by simpa using heq
      rw [← hcall]
      exact (hfresh.due setup hmem).2
  | @registerExpiry read _ =>
    rw [registerExpiry_log]
    exact Log.justified_concat_iff.mpr ⟨h, entryJustified_other (by simp) (by simp) _⟩
  | dropped _ _ _ _ => exact h
  | @fired expiry hmem _ hgen hrunning =>
    refine Log.justified_concat_iff.mpr ⟨h, ?_⟩
    refine { running := ?_, current := ?_, once := ?_ }
    · intro call _
      exact hone.running hrunning
    · intro call heq hlt
      have hcall : expiry.call = call := by simpa using heq
      have hc := hnum hlt
      rw [← hcall]
      exact (hc.pending expiry hmem).current (hgen.trans hc.generation)
    · intro call heq
      cases heq
  | hopBlock _ =>
    rw [hopBlock_log]
    exact h
  | beginFire _ => exact h
  | @endFire post _ =>
    rw [runPostFireBlock_once (t := { t with executing := t.executing.erase post }) hone.repeats]
    exact h
  | runSuspend _ =>
    exact Log.justified_concat_iff.mpr ⟨h, entryJustified_other (by simp) (by simp) _⟩

/-- Everything that is known of a one-shot timer. -/
structure OneShotInvariant (t : BRUTimer D) : Prop where
  oneShot : OneShot t
  numbered : Numbered t
  fresh : Fresh t
  justified : Log.Justified EntryJustified t.log

theorem oneShotInvariant_of_run {interval : D} {mode : BRUTimerMode}
    {adjustInterval : Option (D → D)} {events : List (Event D)}
    (hrun : run step (initWithInterval interval false mode adjustInterval) events = .ok t) :
    OneShotInvariant t := by
  refine run_invariant ?_ ?_ hrun
  · intro s e s' h hstep
    exact
      { oneShot := step_oneShot h.oneShot hstep
        numbered := step_numbered h.oneShot h.numbered hstep
        fresh := step_fresh h.fresh hstep
        justified := step_entryJustified h.oneShot h.numbered h.fresh h.justified hstep }
  · exact
      { oneShot := { repeats := rfl, running := fun h => by cases h }
        numbered := fun _ =>
          { generation := rfl
            due := fun hne => absurd rfl hne
            reads := fun _ hmem => by cases hmem
            pending := fun _ hmem => by cases hmem }
        fresh :=
          { due := fun _ hmem => by cases hmem
            nodup := List.nodup_nil
            read := fun _ hmem => by cases hmem }
        justified := Log.justified_nil _ }

/-! ## The contract -/

/-- At most one automatic fire for each resume. -/
structure OneShotContract (t : BRUTimer D) : Prop where
  /-- Between two fires there is a resume, -/
  between : ∀ pre first mid second post,
    t.log = pre ++ .fired first :: mid ++ .fired second :: post → .resumed ∈ mid
  /-- before the first fire there is one, -/
  before : ∀ pre call post, t.log = pre ++ .fired call :: post → .resumed ∈ pre
  /-- and after a suspend there is one before the next fire. -/
  suspended : ∀ pre mid call post,
    t.log = pre ++ .suspended :: mid ++ .fired call :: post → .resumed ∈ mid
  /-- An expiry whose generation was read before a resume does not fire after
  it, -/
  stale : resumes t.log < 2 ^ 64 → ∀ pre call mid post,
    t.log = pre ++ .generationRead call :: mid ++ .fired call :: post → .resumed ∉ mid
  /-- every expiry that fires has read the generation, -/
  read : resumes t.log < 2 ^ 64 → ∀ pre call post,
    t.log = pre ++ .fired call :: post → .generationRead call ∈ pre
  /-- and the assertion of the expiry never fails. -/
  assertion : resumes t.log < 2 ^ 64 → ∀ expiry a,
    step t (.expiryBlock expiry) ≠ .error (.failed a)

/-- The resumes of a part of the log. -/
theorem resumes_prefix_lt {log pre post : List (TimerObservation D)} {o : TimerObservation D}
    (hlt : resumes log < 2 ^ 64) (hlog : log = pre ++ o :: post) : resumes pre < 2 ^ 64 := by
  rw [hlog, resumes_append] at hlt
  omega

/-- A fire follows a resume that comes after every earlier fire and suspend. -/
theorem resumed_between {log pre mid post : List (TimerObservation D)}
    {o : TimerObservation D} {call : Nat} (h : Log.Justified EntryJustified log)
    (hlog : log = pre ++ o :: mid ++ .fired call :: post)
    (ho : o = .suspended ∨ ∃ first, o = .fired first) : .resumed ∈ mid := by
  have hsince := (h (pre ++ o :: mid) (.fired call) post hlog).running call rfl
  obtain ⟨x, hx, heq⟩ := hsince.exists_after
    (by rcases ho with ho | ⟨first, ho⟩ <;> simp [ho])
    (by rcases ho with ho | ⟨first, ho⟩ <;> simp [ho])
  rw [← heq]
  exact hx

/-- An expiry whose generation was read before a resume does not fire after
it. -/
theorem no_resume_between {log pre mid post : List (TimerObservation D)} {call : Nat}
    (h : Log.Justified EntryJustified log) (hlt : resumes log < 2 ^ 64)
    (hlog : log = pre ++ .generationRead call :: mid ++ .fired call :: post) :
    .resumed ∉ mid := by
  intro hmem
  obtain ⟨mid', mid'', hmid⟩ := List.append_of_mem hmem
  have hbefore := resumes_prefix_lt hlt hlog
  have hsince := (h _ (.fired call) post hlog).current call rfl hbefore
  have hsplit : pre ++ .generationRead call :: mid =
      (pre ++ .generationRead call :: mid') ++ .resumed :: mid'' := by
    rw [hmid]
    simp
  rw [hsplit] at hsince
  -- the generation would be read a second time, after the resume
  obtain ⟨x, hx, heq⟩ := hsince.exists_after (by simp) (by simp)
  obtain ⟨last, rest, hlast⟩ := List.append_of_mem hx
  have hagain : log = (pre ++ .generationRead call :: mid' ++ .resumed :: last) ++
      x :: (rest ++ .fired call :: post) := by
    rw [hlog, hsplit, hlast]
    simp
  have honce := (h _ x _ hagain).once call heq
  exact honce (by simp)

/-- A one-shot timer fires at most once per resume, whatever the interleaving
of its callers and its expiries. -/
theorem one_shot_fires_once_per_resume {interval : D} {mode : BRUTimerMode}
    {adjustInterval : Option (D → D)} {events : List (Event D)}
    (hrun : run step (initWithInterval interval false mode adjustInterval) events = .ok t) :
    OneShotContract t := by
  have hinv := oneShotInvariant_of_run hrun
  refine
    { between := ?_, before := ?_, suspended := ?_, stale := ?_, read := ?_, assertion := ?_ }
  · intro pre first mid second post hlog
    exact resumed_between hinv.justified hlog (Or.inr ⟨first, rfl⟩)
  · intro pre call post hlog
    obtain ⟨x, hx, heq⟩ := ((hinv.justified pre _ post hlog).running call rfl).exists_mem
    rw [← heq]
    exact hx
  · intro pre mid call post hlog
    exact resumed_between hinv.justified hlog (Or.inl rfl)
  · intro hlt pre call mid post hlog
    exact no_resume_between hinv.justified hlt hlog
  · intro hlt pre call post hlog
    have hbefore := resumes_prefix_lt hlt hlog
    obtain ⟨x, hx, heq⟩ :=
      ((hinv.justified pre _ post hlog).current call rfl hbefore).exists_mem
    rw [← heq]
    exact hx
  · intro hlt expiry a hfail
    have hc := hinv.numbered hlt
    by_cases hmem : expiry ∈ t.pending
    · have htracked := hc.pending expiry hmem
      have hpos := htracked.pos
      have hle := htracked.le
      rw [← hc.generation] at hpos hle
      simp only [step, expiryBlock, bind_eq_failed, enabledIf_ne_failed, false_or,
        assertThat_eq_failed] at hfail
      obtain ⟨_, _, ⟨hnot, _⟩ | ⟨_, _, hfail⟩⟩ := hfail
      · exact hnot ⟨hpos, hle⟩
      · split at hfail <;> simp at hfail
    · simp [step, enabledIf, hmem, bind, Except.bind] at hfail

/-- Two concurrent resumes register two expiries of the same generation, and one
of them fires. -/
def concurrentResumes : List (Event Nat) :=
  [.resume, .resume, .readGeneration ⟨0, .resume⟩, .readGeneration ⟨1, .resume⟩,
    .registerExpiry ⟨⟨0, .resume⟩, 2⟩, .registerExpiry ⟨⟨1, .resume⟩, 2⟩,
    .expiryBlock ⟨0, 2⟩, .expiryBlock ⟨1, 2⟩]

theorem one_shot_fires_once_per_resume_concurrent : ∃ t : BRUTimer Nat,
    run step (initWithInterval 5 false .intervalBetweenBlockExecutions none)
        concurrentResumes = .ok t ∧
      t.log = [.resumed, .resumed, .generationRead 0, .generationRead 1, .armed 0 5,
        .armed 1 5, .fired 0] ∧ OneShotContract t := by
  obtain ⟨t, hrun, hlog⟩ : ∃ t : BRUTimer Nat,
      run step (initWithInterval 5 false .intervalBetweenBlockExecutions none)
          concurrentResumes = .ok t ∧
        t.log = [.resumed, .resumed, .generationRead 0, .generationRead 1, .armed 0 5,
          .armed 1 5, .fired 0] := ⟨_, rfl, rfl⟩
  exact ⟨t, hrun, hlog, one_shot_fires_once_per_resume hrun⟩

end BRUTimer

end BromiumCoreUtils
