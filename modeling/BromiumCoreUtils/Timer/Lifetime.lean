import BromiumCoreUtils.Lib.Refinement
import BromiumCoreUtils.Timer.Chain
import BromiumCoreUtils.Timer.OneShot

/-!
# The lifetime of a timer

"BRUTimer doesn't retain itself anywhere, i.e., retain it to make sure it fires."

The blocks of an expiry, of the global queue and of `targetQ` are queued with a weak reference,
so a timer does not live for what is only going to happen.  It is held by its owners, by a
`setupTimer` that is running, by the client's block while that block runs, and by the block that
`suspend` has queued.

* `OwnedContract` is what holds along every run: the timer is gone as soon as nothing holds it,
  and what was queued finds `self` gone and returns.
* A timer with one chain fires only while somebody outside of the chain holds it
  (`fired_while_held`).
* Where two executions of the block overlap, the chain holds its own timer.  Nobody has to own
  it any more, and it fires as often as one likes (`overlapping_blocks_keep_firing`).
-/

namespace BromiumCoreUtils

open Machine

namespace BRUTimer

variable {D : Type} {t t' : BRUTimer D} {e : Event D}

/-! ## Generations that have begun -/

/-- A call of `setupTimer` is to come. -/
inductive Awaited (t : BRUTimer D) : Prop where
  | due (h : t.due ≠ [])
  | hop (h : 0 < t.hops)
  | fire (h : .setupTimerBlock ∈ t.fires)
  | executing (h : .setupTimerBlock ∈ t.executing)

/-- What was registered belongs to a generation that has begun, as long as the counter does not
overflow. -/
structure Begun (t : BRUTimer D) : Prop where
  generation : t.generation = resumes t.log
  awaited : Awaited t → 0 < t.generation
  reads : ∀ read ∈ t.reads, 0 < read.generation ∧ read.generation ≤ t.generation
  pending : ∀ expiry ∈ t.pending, 0 < expiry.generation ∧ expiry.generation ≤ t.generation

/-- A step that begins no generation and no call of `setupTimer`. -/
theorem Begun.congr (h : Begun t) (hgeneration : t'.generation = t.generation)
    (hlog : resumes t'.log = resumes t.log) (hawaited : Awaited t' → Awaited t)
    (hreads : ∀ read ∈ t'.reads, read ∈ t.reads)
    (hpending : ∀ expiry ∈ t'.pending, expiry ∈ t.pending) : Begun t' where
  generation := by rw [hgeneration, hlog, h.generation]
  awaited hawait := by
    rw [hgeneration]
    exact h.awaited (hawaited hawait)
  reads read hread := by
    rw [hgeneration]
    exact h.reads read (hreads read hread)
  pending expiry hexpiry := by
    rw [hgeneration]
    exact h.pending expiry (hpending expiry hexpiry)

/-- After a generation has begun there may be any calls of `setupTimer`. -/
theorem Begun.of_pos (h : Begun t) (hpos : 0 < t.generation)
    (hgeneration : t'.generation = t.generation) (hlog : resumes t'.log = resumes t.log)
    (hreads : ∀ read ∈ t'.reads, read ∈ t.reads)
    (hpending : ∀ expiry ∈ t'.pending, expiry ∈ t.pending) : Begun t' where
  generation := by rw [hgeneration, hlog, h.generation]
  awaited _ := by
    rw [hgeneration]
    exact hpos
  reads read hread := by
    rw [hgeneration]
    exact h.reads read (hreads read hread)
  pending expiry hexpiry := by
    rw [hgeneration]
    exact h.pending expiry (hpending expiry hexpiry)

theorem Begun.resume (h : Begun t) (hlt : resumes t.log + 1 < 2 ^ 64) (interval : Option D) :
    Begun (t.resumeWithUpdateInterval interval) := by
  have hgeneration : (t.resumeWithUpdateInterval interval).generation = t.generation + 1 := by
    show (t.generation + 1) % 2 ^ 64 = t.generation + 1
    rw [h.generation]
    exact Nat.mod_eq_of_lt hlt
  refine ⟨?_, ?_, ?_, ?_⟩
  · rw [hgeneration, h.generation]
    simp [resumeWithUpdateInterval, setupTimer, resumes, TimerObservation.isResumed]
  · intro _
    rw [hgeneration]
    exact Nat.succ_pos _
  · intro read hread
    obtain ⟨hpos, hle⟩ := h.reads read hread
    rw [hgeneration]
    exact ⟨hpos, by omega⟩
  · intro expiry hexpiry
    obtain ⟨hpos, hle⟩ := h.pending expiry hexpiry
    rw [hgeneration]
    exact ⟨hpos, by omega⟩

theorem Begun.readGeneration (h : Begun t) {setup : SetupCall} (hmem : setup ∈ t.due) :
    Begun (t.readGeneration setup) := by
  have hpos : 0 < t.generation := h.awaited (.due (List.ne_nil_of_mem hmem))
  refine ⟨?_, fun _ => hpos, ?_, h.pending⟩
  · show t.generation = resumes (t.log ++ [.generationRead setup.call])
    rw [resumes_concat_other _ rfl, h.generation]
  · intro read hread
    rcases List.mem_append.mp hread with hread | hread
    · exact h.reads read hread
    · obtain rfl := List.mem_singleton.mp hread
      exact ⟨hpos, Nat.le_refl _⟩

theorem Begun.registerExpiry (h : Begun t) {read : GenerationRead} (hmem : read ∈ t.reads) :
    Begun (t.registerExpiry read) := by
  have hpos : 0 < t.generation := by
    obtain ⟨hpos, hle⟩ := h.reads read hmem
    omega
  have hgeneration : (t.registerExpiry read).generation = t.generation := by
    unfold BRUTimer.registerExpiry
    split <;> rfl
  have hreads : (t.registerExpiry read).reads = t.reads.erase read := by
    unfold BRUTimer.registerExpiry
    split <;> rfl
  have hpending : (t.registerExpiry read).pending =
      t.pending ++ [⟨read.setup.call, read.generation⟩] := by
    unfold BRUTimer.registerExpiry
    split <;> rfl
  refine ⟨?_, ?_, ?_, ?_⟩
  · rw [hgeneration, registerExpiry_log, resumes_concat_other _ rfl, h.generation]
  · intro _
    rw [hgeneration]
    exact hpos
  · intro other hother
    rw [hreads] at hother
    rw [hgeneration]
    exact h.reads other (List.mem_of_mem_erase hother)
  · intro expiry hexpiry
    rw [hpending] at hexpiry
    rw [hgeneration]
    rcases List.mem_append.mp hexpiry with hexpiry | hexpiry
    · exact h.pending expiry hexpiry
    · obtain rfl := List.mem_singleton.mp hexpiry
      exact h.reads read hmem

@[simp] theorem hopBlock_generation : (hopBlock t).generation = t.generation := by
  cases hmode : t.mode <;> cases hrep : t.repeats <;>
    simp [hopBlock, hmode, hrep, fireWithDate, setupTimer]

@[simp] theorem hopBlock_reads : (hopBlock t).reads = t.reads := by
  cases hmode : t.mode <;> cases hrep : t.repeats <;>
    simp [hopBlock, hmode, hrep, fireWithDate, setupTimer]

@[simp] theorem hopBlock_pending : (hopBlock t).pending = t.pending := by
  cases hmode : t.mode <;> cases hrep : t.repeats <;>
    simp [hopBlock, hmode, hrep, fireWithDate, setupTimer]

theorem Begun.endFire (h : Begun t) {post : PostFireBlock} (hmem : post ∈ t.executing) :
    Begun (runPostFireBlock post { t with executing := t.executing.erase post }) := by
  cases post with
  | empty =>
    refine h.congr rfl rfl ?_ (fun _ hread => hread) (fun _ hexpiry => hexpiry)
    intro hawaited
    cases hawaited with
    | due hdue => exact .due hdue
    | hop hhop => exact .hop hhop
    | fire hfire => exact .fire hfire
    | executing hexecuting => exact .executing (List.mem_of_mem_erase hexecuting)
  | setupTimerBlock =>
    have hpos : 0 < t.generation := h.awaited (.executing hmem)
    cases hrep : t.repeats <;>
      simp only [runPostFireBlock, setupTimerBlock, Bool.false_eq_true, if_false, if_true] <;>
      exact h.of_pos hpos rfl rfl (fun _ hread => hread) (fun _ hexpiry => hexpiry)

/-- Every step keeps it, up to the overflow. -/
theorem step_begun (h : resumes t.log < 2 ^ 64 → Begun t) (hstep : step t e = .ok t') :
    resumes t'.log < 2 ^ 64 → Begun t' := by
  intro hlt
  cases step_transition hstep with
  | start _ => exact h hlt
  | resume interval _ =>
    have hlog : resumes (t.resumeWithUpdateInterval interval).log = resumes t.log + 1 := by
      simp [resumeWithUpdateInterval, setupTimer, resumes, TimerObservation.isResumed]
    rw [hlog] at hlt
    exact (h (by omega)).resume hlt interval
  | suspend =>
    refine (h hlt).congr rfl rfl ?_ (fun _ hread => hread) (fun _ hexpiry => hexpiry)
    rintro (hdue | hhop | hfire | hexecuting)
    exacts [.due hdue, .hop hhop, .fire hfire, .executing hexecuting]
  | fire =>
    refine (h hlt).congr rfl rfl ?_ (fun _ hread => hread) (fun _ hexpiry => hexpiry)
    rintro (hdue | hhop | hfire | hexecuting)
    · exact .due hdue
    · exact .hop hhop
    · exact .fire (by simpa [BRUTimer.fire, fireWithDate] using hfire)
    · exact .executing hexecuting
  | @readGeneration setup hmem =>
    have hlog : resumes (t.readGeneration setup).log = resumes t.log :=
      resumes_concat_other _ rfl
    rw [hlog] at hlt
    exact (h hlt).readGeneration hmem
  | @registerExpiry read hmem =>
    rw [registerExpiry_log, resumes_concat_other _ rfl] at hlt
    exact (h hlt).registerExpiry hmem
  | dropped _ _ _ _ =>
    refine (h hlt).congr rfl rfl ?_ (fun _ hread => hread)
      (fun _ hexpiry => List.mem_of_mem_erase hexpiry)
    rintro (hdue | hhop | hfire | hexecuting)
    exacts [.due hdue, .hop hhop, .fire hfire, .executing hexecuting]
  | @fired expiry _ hpos _ _ =>
    have hlog : resumes (t.log ++ [.fired expiry.call]) = resumes t.log :=
      resumes_concat_other _ rfl
    have hlt : resumes (t.log ++ [.fired expiry.call]) < 2 ^ 64 := hlt
    rw [hlog] at hlt
    exact (h hlt).of_pos hpos rfl hlog (fun _ hread => hread)
      (fun _ hexpiry => List.mem_of_mem_erase hexpiry)
  | hopBlock hpos =>
    rw [hopBlock_log] at hlt
    have hgeneration : 0 < t.generation := (h hlt).awaited (.hop hpos)
    refine (h hlt).of_pos hgeneration (by simp) (by simp) ?_ ?_
    · intro read hread
      simpa using hread
    · intro expiry hexpiry
      simpa using hexpiry
  | @beginFire post hmem =>
    refine (h hlt).congr rfl rfl ?_ (fun _ hread => hread) (fun _ hexpiry => hexpiry)
    rintro (hdue | hhop | hfire | hexecuting)
    · exact .due hdue
    · exact .hop hhop
    · exact .fire (List.mem_of_mem_erase hfire)
    · rcases List.mem_append.mp hexecuting with hexecuting | hpost
      · exact .executing hexecuting
      · exact .fire (List.mem_singleton.mp hpost ▸ hmem)
  | @endFire post hmem =>
    have hlog : (runPostFireBlock post { t with executing := t.executing.erase post }).log =
        t.log := by
      cases post with
      | empty => rfl
      | setupTimerBlock =>
        cases hrep : t.repeats <;> simp [runPostFireBlock, setupTimerBlock, setupTimer]
    rw [hlog] at hlt
    exact (h hlt).endFire hmem
  | runSuspend _ =>
    have hlog : resumes (t.log ++ [.suspended]) = resumes t.log := resumes_concat_other _ rfl
    have hlt : resumes (t.log ++ [.suspended]) < 2 ^ 64 := hlt
    rw [hlog] at hlt
    refine (h hlt).congr rfl hlog ?_ (fun _ hread => hread) (fun _ hexpiry => hexpiry)
    rintro (hdue | hhop | hfire | hexecuting)
    exacts [.due hdue, .hop hhop, .fire hfire, .executing hexecuting]

/-- What fails is a `start` of a timer that is running. -/
theorem step_failed (h : Begun t) {a : Assertion} (hfailed : step t e = .error (.failed a)) :
    e = .start ∧ t.running = true ∧ a = .alreadyRunning := by
  cases e with
  | start =>
    simp only [step, bind_eq_failed, assertThat_eq_failed, pure_ne_failed, and_false,
      exists_false, or_false, Bool.not_eq_false] at hfailed
    exact ⟨rfl, hfailed.1, hfailed.2.symm⟩
  | expiryBlock expiry =>
    simp only [step, BRUTimer.expiryBlock, bind_eq_failed, enabledIf_ne_failed, false_or,
      enabledIf_eq_ok, assertThat_eq_failed] at hfailed
    obtain ⟨_, hmem, ⟨hnot, _⟩ | ⟨_, _, hfailed⟩⟩ := hfailed
    · obtain ⟨hpos, hle⟩ := h.pending expiry hmem
      exact absurd ⟨by show 0 < t.generation; omega, hle⟩ hnot
    · split at hfailed <;> simp at hfailed
  | _ => simp [step] at hfailed

end BRUTimer

/-! ## What holds a timer -/

/-- A timer and its owners. -/
structure TimerLifetime (D : Type) where
  timer : BRUTimer D
  alive : Bool
  owners : Nat

namespace TimerLifetime

variable {D : Type}

def initWithInterval (interval : D) (repeats : Bool) (mode : BRUTimerMode)
    (adjustInterval : Option (D → D)) : TimerLifetime D where
  timer := .initWithInterval interval repeats mode adjustInterval
  alive := true
  owners := 1

/-- Something holds the timer.  The block of a fire has made its weak reference strong, and
the one of `suspend` has a strong reference. -/
def referenced (s : TimerLifetime D) : Bool :=
  0 < s.owners || !s.timer.due.isEmpty || !s.timer.reads.isEmpty ||
    !s.timer.executing.isEmpty || 0 < s.timer.suspends

/-- Somebody outside can call the timer: an owner, or the block of the client, which gets the
timer as an argument. -/
def Callable (s : TimerLifetime D) : Prop :=
  0 < s.owners ∨ s.timer.executing ≠ []

instance (s : TimerLifetime D) : Decidable s.Callable :=
  inferInstanceAs (Decidable (_ ∨ _))

/-- The calls of the client. -/
def isCall : BRUTimer.Event D → Bool
  | .start => true
  | .restart => true
  | .restartWithInterval _ => true
  | .resume => true
  | .suspend => true
  | .fire => true
  | _ => false

/-- A block that finds `self` gone returns.  The other blocks belong to calls that hold the
timer. -/
def selfGone (t : BRUTimer D) : BRUTimer.Event D → Exec Assertion (BRUTimer D)
  | .expiryBlock expiry => do
    enabledIf (expiry ∈ t.pending)
    pure { t with pending := t.pending.erase expiry }
  | .hopBlock => do
    enabledIf (0 < t.hops)
    pure { t with hops := t.hops - 1 }
  | .beginFire postFireBlock => do
    enabledIf (postFireBlock ∈ t.fires)
    pure { t with fires := t.fires.erase postFireBlock }
  | _ => .error .disabled

/-- What happens next. -/
inductive Event (D : Type) where
  | timer (e : BRUTimer.Event D)
  | retain
  | release
deriving Repr

/-- The step, before a reference that has gone has its effect. -/
def perform (s : TimerLifetime D) : Event D → Exec Assertion (TimerLifetime D)
  | .timer e => do
    enabledIf (isCall e = true → s.Callable)
    let timer ← if s.alive then BRUTimer.step s.timer e else selfGone s.timer e
    pure { s with timer := timer }
  | .retain => do
    enabledIf s.Callable
    pure { s with owners := s.owners + 1 }
  | .release => do
    enabledIf (0 < s.owners)
    pure { s with owners := s.owners - 1 }

/-- Take one step.  A timer has no `dealloc` of its own. -/
def step (s : TimerLifetime D) (e : Event D) : Exec Assertion (TimerLifetime D) := do
  let s ← s.perform e
  pure { s with alive := s.alive && s.referenced }

/-- The blocks that are queued with a weak reference. -/
def waiting (s : TimerLifetime D) : Nat :=
  s.timer.pending.length + s.timer.hops + s.timer.fires.length

end TimerLifetime

namespace TimerLifetime

open BRUTimer

variable {D : Type} {s s' : TimerLifetime D} {e : Event D}

theorem referenced_eq_false :
    s.referenced = false ↔ s.owners = 0 ∧ s.timer.due = [] ∧ s.timer.reads = [] ∧
      s.timer.executing = [] ∧ s.timer.suspends = 0 := by
  simp [referenced, and_assoc]

/-- A step of a timer that is alive is one of the timer, or of its owners. -/
theorem perform_alive (halive : s.alive = true) (h : s.perform e = .ok s') :
    s'.alive = true ∧
      (s'.timer = s.timer ∨ ∃ e', e = .timer e' ∧ BRUTimer.step s.timer e' = .ok s'.timer) := by
  cases e with
  | timer e' =>
    simp only [perform, halive, if_true, bind_eq_ok, enabledIf_eq_ok, pure_eq_ok] at h
    obtain ⟨_, _, t, ht, rfl⟩ := h
    exact ⟨rfl, Or.inr ⟨e', rfl, ht⟩⟩
  | retain =>
    simp only [perform, bind_eq_ok, pure_eq_ok] at h
    obtain ⟨_, _, rfl⟩ := h
    exact ⟨halive, Or.inl rfl⟩
  | release =>
    simp only [perform, bind_eq_ok, pure_eq_ok] at h
    obtain ⟨_, _, rfl⟩ := h
    exact ⟨halive, Or.inl rfl⟩

/-- A timer that is gone only lets its blocks return. -/
theorem perform_gone (halive : s.alive = false) (hreferenced : s.referenced = false)
    (h : s.perform e = .ok s') :
    s'.alive = false ∧ s'.referenced = false ∧ s'.timer.log = s.timer.log ∧
      s'.waiting + 1 = s.waiting := by
  obtain ⟨howners, hdue, hreads, hexecuting, hsuspends⟩ := referenced_eq_false.mp hreferenced
  cases e with
  | timer e' =>
    simp only [perform, halive, Bool.false_eq_true, if_false, bind_eq_ok, pure_eq_ok] at h
    obtain ⟨_, _, t, ht, rfl⟩ := h
    cases e' with
    | expiryBlock expiry =>
      simp only [selfGone, bind_eq_ok, enabledIf_eq_ok, pure_eq_ok] at ht
      obtain ⟨_, hmem, rfl⟩ := ht
      have hlength := Bag.length_erase_add hmem
      refine ⟨rfl, hreferenced, rfl, ?_⟩
      simp only [waiting]
      omega
    | hopBlock =>
      simp only [selfGone, bind_eq_ok, enabledIf_eq_ok, pure_eq_ok] at ht
      obtain ⟨_, hpos, rfl⟩ := ht
      refine ⟨rfl, hreferenced, rfl, ?_⟩
      simp only [waiting]
      omega
    | beginFire post =>
      simp only [selfGone, bind_eq_ok, enabledIf_eq_ok, pure_eq_ok] at ht
      obtain ⟨_, hmem, rfl⟩ := ht
      have hlength := Bag.length_erase_add hmem
      refine ⟨rfl, hreferenced, rfl, ?_⟩
      simp only [waiting]
      omega
    | _ => simp [selfGone] at ht
  | retain =>
    simp only [perform, bind_eq_ok, enabledIf_eq_ok] at h
    obtain ⟨_, howned | hexec, _⟩ := h
    · omega
    · exact absurd hexecuting hexec
  | release =>
    simp only [perform, bind_eq_ok, enabledIf_eq_ok] at h
    obtain ⟨_, hpos, _⟩ := h
    omega

/-- Each block of a timer that is gone can return. -/
theorem exists_step_gone (halive : s.alive = false) (hwaiting : 0 < s.waiting) :
    ∃ e s', s.step e = .ok s' := by
  have hsome : s.timer.pending ≠ [] ∨ 0 < s.timer.hops ∨ s.timer.fires ≠ [] := by
    by_contra hnone
    simp only [not_or, not_not, Nat.not_lt, Nat.le_zero] at hnone
    obtain ⟨hpending, hhops, hfires⟩ := hnone
    simp [waiting, hpending, hhops, hfires] at hwaiting
  have hreturns : ∃ e t, isCall e = false ∧ selfGone s.timer e = .ok t := by
    rcases hsome with hpending | hhops | hfires
    · obtain ⟨expiry, hmem⟩ := List.exists_mem_of_ne_nil _ hpending
      refine ⟨.expiryBlock expiry, { s.timer with pending := s.timer.pending.erase expiry },
        rfl, ?_⟩
      simp [selfGone, hmem]
    · refine ⟨.hopBlock, { s.timer with hops := s.timer.hops - 1 }, rfl, ?_⟩
      simp [selfGone, hhops]
    · obtain ⟨post, hmem⟩ := List.exists_mem_of_ne_nil _ hfires
      refine ⟨.beginFire post, { s.timer with fires := s.timer.fires.erase post }, rfl, ?_⟩
      simp [selfGone, hmem]
  obtain ⟨e, t, hcall, ht⟩ := hreturns
  refine ⟨.timer e, { s with timer := t, alive := false }, ?_⟩
  simp [step, perform, halive, hcall, ht]

/-! ## The contract -/

/-- Between two steps a timer lives exactly as long as something holds it, and what it did while
it was alive is what a timer does. -/
structure Settled (init : BRUTimer D) (s : TimerLifetime D) : Prop where
  alive : s.alive = s.referenced
  reachable : s.alive = true → Reachable BRUTimer.step init s.timer

theorem Settled.step {init : BRUTimer D} (h : Settled init s) (hstep : s.step e = .ok s') :
    Settled init s' := by
  simp only [TimerLifetime.step, bind_eq_ok, pure_eq_ok] at hstep
  obtain ⟨m, hperform, rfl⟩ := hstep
  cases halive : s.alive with
  | true =>
    obtain ⟨hm, hsame | ⟨e', _, ht⟩⟩ := perform_alive halive hperform
    · refine ⟨by rw [hm, Bool.true_and]; rfl, fun _ => ?_⟩
      show Reachable BRUTimer.step init m.timer
      rw [hsame]
      exact h.reachable halive
    · exact ⟨by rw [hm, Bool.true_and]; rfl, fun _ => (h.reachable halive).next ht⟩
  | false =>
    have hreferenced : s.referenced = false := by rw [← h.alive, halive]
    obtain ⟨hm, hmreferenced, _⟩ := perform_gone halive hreferenced hperform
    refine ⟨?_, by simp [hm]⟩
    show (m.alive && m.referenced) = m.referenced
    rw [hmreferenced, Bool.and_false]

/-- After a timer has gone, each step lets one block return. -/
theorem run_gone {init : BRUTimer D} (h : Settled init s) (halive : s.alive = false)
    {events : List (Event D)} (hrun : run step s events = .ok s') :
    s'.alive = false ∧ s'.timer.log = s.timer.log ∧ s'.waiting + events.length = s.waiting := by
  induction events generalizing s with
  | nil =>
    obtain rfl : s = s' := by simpa using hrun
    exact ⟨halive, rfl, rfl⟩
  | cons e events ih =>
    obtain ⟨m, hstep, hrest⟩ := run_cons_eq_ok.mp hrun
    have hm := h.step hstep
    have hreferenced : s.referenced = false := by rw [← h.alive, halive]
    simp only [step, bind_eq_ok, pure_eq_ok] at hstep
    obtain ⟨n, hperform, rfl⟩ := hstep
    obtain ⟨hn, _, hlog, hwaiting⟩ := perform_gone halive hreferenced hperform
    obtain ⟨halive', hlog', hwaiting'⟩ := ih hm (by simp [hn]) hrest
    have hsame : waiting { n with alive := n.alive && n.referenced } = n.waiting := rfl
    rw [hsame] at hwaiting'
    refine ⟨halive', hlog'.trans hlog, ?_⟩
    rw [List.length_cons]
    omega

/-- What holds of a timer and of those that own it. -/
structure OwnedContract (init : BRUTimer D) (s : TimerLifetime D) : Prop where
  /-- It is gone as soon as nothing holds it, -/
  alive_iff : s.alive = s.referenced
  /-- until then it is a timer, -/
  refines : s.alive = true → Reachable BRUTimer.step init s.timer
  /-- which has a chain while it is running. -/
  chain : s.alive = true → s.timer.running = true → Chain s.timer
  /-- Once it is gone it never fires again: all that is left to happen is that each block that
  was queued returns. -/
  silent : s.alive = false → ∀ events s', run step s events = .ok s' →
    s'.alive = false ∧ s'.timer.log = s.timer.log ∧ s'.waiting + events.length = s.waiting
  returns : s.alive = false → 0 < s.waiting → ∃ e s', step s e = .ok s'
  /-- What fails is a `start` of a timer that is running. -/
  assertions : resumes s.timer.log < 2 ^ 64 → ∀ e a, step s e = .error (.failed a) →
    s.alive = true ∧ e = .timer .start ∧ s.timer.running = true ∧ a = .alreadyRunning

theorem settled_init (interval : D) (repeats : Bool) (mode : BRUTimerMode)
    (adjustInterval : Option (D → D)) :
    Settled (.initWithInterval interval repeats mode adjustInterval)
      (initWithInterval interval repeats mode adjustInterval) where
  alive := rfl
  reachable _ := .refl _

/-- The blocks of a timer that is gone check nothing. -/
theorem perform_failed {a : Assertion} (hfailed : s.perform e = .error (.failed a)) :
    s.alive = true ∧ ∃ e', e = .timer e' ∧ BRUTimer.step s.timer e' = .error (.failed a) := by
  cases e with
  | timer e' =>
    simp only [perform, bind_eq_failed, enabledIf_ne_failed, false_or] at hfailed
    obtain ⟨_, _, hfailed⟩ := hfailed
    cases halive : s.alive with
    | true =>
      rw [if_pos halive] at hfailed
      simp only [bind_eq_failed, pure_ne_failed, and_false, exists_false, or_false] at hfailed
      exact ⟨rfl, e', rfl, hfailed⟩
    | false =>
      rw [if_neg (by simp [halive])] at hfailed
      cases e' <;> simp [selfGone] at hfailed
  | retain => simp [perform] at hfailed
  | release => simp [perform] at hfailed

theorem begun_init (interval : D) (repeats : Bool) (mode : BRUTimerMode)
    (adjustInterval : Option (D → D)) :
    Begun (.initWithInterval interval repeats mode adjustInterval) where
  generation := rfl
  awaited := by
    rintro (hdue | hhop | hfire | hexecuting)
    · exact absurd rfl hdue
    · exact absurd hhop (Nat.lt_irrefl 0)
    · cases hfire
    · cases hexecuting
  reads _ hread := by cases hread
  pending _ hexpiry := by cases hexpiry

/-- In every run of a timer, its owners and its client, the timer lives exactly as long as
something holds it. -/
theorem owned_contract {interval : D} {repeats : Bool} {mode : BRUTimerMode}
    {adjustInterval : Option (D → D)} {events : List (Event D)}
    (hrun : run step (initWithInterval interval repeats mode adjustInterval) events = .ok s) :
    s.OwnedContract (.initWithInterval interval repeats mode adjustInterval) := by
  have h := run_invariant (fun _ _ _ h hstep => Settled.step h hstep)
    (settled_init interval repeats mode adjustInterval) hrun
  refine
    { alive_iff := h.alive, refines := h.reachable, chain := ?_,
      silent := fun halive _ _ => run_gone h halive, returns := exists_step_gone,
      assertions := ?_ }
  · intro halive
    have hsupported : Supported s.timer := by
      refine (h.reachable halive).invariant ?_ fun _ _ _ _ hm hstep => step_supported hm hstep
      intro hrunning
      cases hrunning
    exact hsupported
  · intro hlt e a hfailed
    simp only [step, bind_eq_failed, pure_ne_failed, and_false, exists_false, or_false]
      at hfailed
    obtain ⟨halive, e', rfl, htimer⟩ := perform_failed hfailed
    have hbegun : resumes s.timer.log < 2 ^ 64 → Begun s.timer :=
      (h.reachable halive).invariant (fun _ => begun_init interval repeats mode adjustInterval)
        fun _ _ _ _ hm hstep => step_begun hm hstep
    obtain ⟨rfl, hrunning, rfl⟩ := BRUTimer.step_failed (hbegun hlt) htimer
    exact ⟨halive, rfl, hrunning, rfl⟩

/-- The owner lets a timer go whose expiry is registered. -/
def abandoned : List (Event Nat) :=
  [.timer .resume, .timer (.readGeneration ⟨0, .resume⟩),
    .timer (.registerExpiry ⟨⟨0, .resume⟩, 1⟩), .release]

theorem owned_contract_abandoned : ∃ s : TimerLifetime Nat,
    run step (initWithInterval 5 true .intervalBetweenBlockExecutions none) abandoned = .ok s ∧
      s.alive = false ∧ s.timer.running = true ∧ s.waiting = 1 ∧
      s.OwnedContract (.initWithInterval 5 true .intervalBetweenBlockExecutions none) := by
  obtain ⟨s, hrun, halive, hrunning, hwaiting⟩ : ∃ s : TimerLifetime Nat,
      run step (initWithInterval 5 true .intervalBetweenBlockExecutions none) abandoned = .ok s ∧
        s.alive = false ∧ s.timer.running = true ∧ s.waiting = 1 := ⟨_, rfl, rfl, rfl, rfl⟩
  exact ⟨s, hrun, halive, hrunning, hwaiting, owned_contract hrun⟩

/-! ## Timers that nobody owns -/

/-- The resumes of the timer are clean. -/
def Clean (s : TimerLifetime D) (e : Event D) : Prop :=
  ∀ e', e = .timer e' → ResumesClean s.timer e'

/-- While one chain is all there is, an expiry of it does not hold the timer. -/
theorem held_of_pending (h : SingleChain s.timer) (hreferenced : s.referenced = true)
    {expiry : Expiry} (hmem : expiry ∈ s.timer.pending)
    (hgen : expiry.generation = s.timer.generation) :
    0 < s.owners ∨ 0 < s.timer.resumesInProgress ∨ .empty ∈ s.timer.executing ∨
      0 < s.timer.suspends := by
  have hone : 0 < s.timer.pending.countP
      (fun expiry => expiry.generation == s.timer.generation) :=
    List.countP_pos_iff.mpr ⟨expiry, hmem, by simp [hgen]⟩
  have hsingle := h.single
  unfold chainCount at hsingle
  by_contra hnone
  simp only [not_or, Nat.not_lt, Nat.le_zero] at hnone
  obtain ⟨howners, hresumes, hempty, hsuspends⟩ := hnone
  have hdue : s.timer.due = [] := by
    apply List.length_eq_zero_iff.mp
    omega
  have hexecuting : s.timer.executing = [] := by
    rw [List.eq_nil_iff_forall_not_mem]
    intro post hpost
    cases post with
    | empty => exact hempty hpost
    | setupTimerBlock =>
      have hcount := List.count_pos_iff.mpr hpost
      omega
  have hreads : s.timer.reads = [] := by
    rw [List.eq_nil_iff_forall_not_mem]
    intro read hread
    have hleads : ¬ 0 < s.timer.reads.countP (leads s.timer.generation) := by omega
    have hold : read.generation ≠ s.timer.generation := by
      intro heq
      exact hleads (List.countP_pos_iff.mpr ⟨read, hread, by simp [leads, heq]⟩)
    have hnotResume : ¬ 0 < s.timer.reads.countP (fun read => read.setup.caller == .resume) := by
      unfold resumesInProgress at hresumes
      omega
    have hcaller : read.setup.caller ≠ .resume := by
      intro heq
      exact hnotResume (List.countP_pos_iff.mpr ⟨read, hread, by simp [heq]⟩)
    -- it re-arms the timer for an older generation, which takes a resume
    have houtdated : 0 < s.timer.reads.countP (outdated s.timer.generation) :=
      List.countP_pos_iff.mpr ⟨read, hread, by simp [BRUTimer.outdated, hold, hcaller]⟩
    have hprogress := h.outdated houtdated
    omega
  rw [referenced_eq_false.mpr ⟨howners, hdue, hreads, hexecuting, hsuspends⟩] at hreferenced
  cases hreferenced

/-- A clean step leaves a timer that is alive with at most one chain. -/
theorem step_singleChain_of_alive {init : BRUTimer D} (hsettled : Settled init s)
    (h : s.alive = true → SingleChain s.timer) (hclean : Clean s e) (hstep : s.step e = .ok s') :
    s'.alive = true → SingleChain s'.timer := by
  simp only [step, bind_eq_ok, pure_eq_ok] at hstep
  obtain ⟨m, hperform, rfl⟩ := hstep
  intro halive'
  cases halive : s.alive with
  | true =>
    obtain ⟨_, hsame | ⟨e', rfl, ht⟩⟩ := perform_alive halive hperform
    · show SingleChain m.timer
      rw [hsame]
      exact h halive
    · exact step_singleChain (hclean e' rfl) (h halive) ht
  | false =>
    have hreferenced : s.referenced = false := by rw [← hsettled.alive, halive]
    obtain ⟨hm, _⟩ := perform_gone halive hreferenced hperform
    simp [hm] at halive'

theorem singleChain_init (interval : D) (mode : BRUTimerMode) (adjustInterval : Option (D → D)) :
    SingleChain (.initWithInterval interval true mode adjustInterval) where
  repeats := rfl
  pending _ hmem := by cases hmem
  reads _ hmem := by cases hmem
  single := Nat.zero_le _
  outdated h := h

/-- A repeating timer whose resumes are clean fires only while something holds it that is not
its chain: an owner, a call of `resume`, a block of `suspend`, or the client's block of another
fire. -/
theorem fired_while_held {interval : D} {mode : BRUTimerMode} {adjustInterval : Option (D → D)}
    {events : List (Event D)} {expiry : Expiry}
    (hclean : AllSteps step Clean (initWithInterval interval true mode adjustInterval) events)
    (hrun : run step (initWithInterval interval true mode adjustInterval) events = .ok s)
    (hstep : step s (.timer (.expiryBlock expiry)) = .ok s')
    (hfired : s'.timer.log ≠ s.timer.log) :
    0 < s.owners ∨ 0 < s.timer.resumesInProgress ∨ .empty ∈ s.timer.executing ∨
      0 < s.timer.suspends := by
  obtain ⟨hsettled, hsingle⟩ : Settled (.initWithInterval interval true mode adjustInterval) s ∧
      (s.alive = true → SingleChain s.timer) := by
    refine run_invariant_of_allSteps
      (I := fun s => Settled (.initWithInterval interval true mode adjustInterval) s ∧
        (s.alive = true → SingleChain s.timer)) ?_ ?_ hclean hrun
    · rintro m e n hm ⟨hsettled, hsingle⟩ hstep
      exact ⟨hsettled.step hstep, step_singleChain_of_alive hsettled hsingle hm hstep⟩
    · exact ⟨settled_init interval true mode adjustInterval,
        fun _ => singleChain_init interval mode adjustInterval⟩
  simp only [step, bind_eq_ok, pure_eq_ok] at hstep
  obtain ⟨m, hperform, rfl⟩ := hstep
  cases halive : s.alive with
  | false =>
    have hreferenced : s.referenced = false := by rw [← hsettled.alive, halive]
    obtain ⟨_, _, hlog, _⟩ := perform_gone halive hreferenced hperform
    exact absurd hlog hfired
  | true =>
    have hreferenced : s.referenced = true := by rw [← hsettled.alive, halive]
    obtain ⟨_, hsame | ⟨e', he, ht⟩⟩ := perform_alive halive hperform
    · exact absurd (by rw [hsame]) hfired
    · injection he with he
      subst he
      generalize hnext : m.timer = t at ht hfired
      cases step_transition ht with
      | resume _ he => simp at he
      | dropped _ _ _ _ => exact absurd rfl hfired
      | fired hmem _ hgen _ => exact held_of_pending (hsingle halive) hreferenced hmem hgen

/-- The first fire of a timer on wall clock time. -/
def firstFire : List (Event Nat) :=
  [.timer .resume, .timer (.readGeneration ⟨0, .resume⟩),
    .timer (.registerExpiry ⟨⟨0, .resume⟩, 1⟩)]

theorem fired_while_held_owned : ∃ s s' : TimerLifetime Nat,
    run step (initWithInterval 5 true .intervalClockedOnWallClockTime none) firstFire = .ok s ∧
      step s (.timer (.expiryBlock ⟨0, 1⟩)) = .ok s' ∧
      (0 < s.owners ∨ 0 < s.timer.resumesInProgress ∨ .empty ∈ s.timer.executing ∨
        0 < s.timer.suspends) := by
  obtain ⟨s, s', hrun, hstep, hfired⟩ : ∃ s s' : TimerLifetime Nat,
      run step (initWithInterval 5 true .intervalClockedOnWallClockTime none) firstFire = .ok s ∧
        step s (.timer (.expiryBlock ⟨0, 1⟩)) = .ok s' ∧ s'.timer.log ≠ s.timer.log :=
    ⟨_, _, rfl, rfl, by decide⟩
  refine ⟨s, s', hrun, hstep, fired_while_held ?_ hrun hstep hfired⟩
  refine .cons ?_ rfl ?_
  · rintro e' ⟨⟩
    exact ⟨fun _ => ⟨rfl, rfl, by decide⟩, by simp⟩
  refine .cons ?_ rfl ?_
  · rintro e' ⟨⟩
    exact ⟨by simp, by simp⟩
  refine .cons ?_ rfl ?_
  · rintro e' ⟨⟩
    exact ⟨by simp, fun _ _ _ => rfl⟩
  trivial

/-! ## Overlapping blocks -/

/-- The fires of a log. -/
def fires (log : List (TimerObservation D)) : Nat :=
  log.countP fun
    | .fired _ => true
    | _ => false

/-- Nobody owns the timer any more.  The client's block of one fire is running, and the next
expiry is registered. -/
structure Overlapping (call : Nat) (s : TimerLifetime D) : Prop where
  alive : s.alive = true
  owners : s.owners = 0
  repeats : s.timer.repeats = true
  mode : s.timer.mode = .intervalClockedOnWallClockTime
  running : s.timer.running = true
  generation : s.timer.generation = 1
  calls : s.timer.calls = call + 1
  due : s.timer.due = []
  reads : s.timer.reads = []
  pending : s.timer.pending = [⟨call, 1⟩]
  hops : s.timer.hops = 0
  fires : s.timer.fires = []
  executing : s.timer.executing = [.empty]
  suspends : s.timer.suspends = 0

/-- The owner lets the timer go while the client's block runs for the first time. -/
def letGo : List (Event D) :=
  [.timer .resume, .timer (.readGeneration ⟨0, .resume⟩),
    .timer (.registerExpiry ⟨⟨0, .resume⟩, 1⟩), .timer (.expiryBlock ⟨0, 1⟩), .timer .hopBlock,
    .timer (.readGeneration ⟨1, .preFireBlock⟩),
    .timer (.registerExpiry ⟨⟨1, .preFireBlock⟩, 1⟩), .timer (.beginFire .empty), .release]

/-- The next fire.  Its block begins before the one that is running ends. -/
def nextFire (call : Nat) : List (Event D) :=
  [.timer (.expiryBlock ⟨call, 1⟩), .timer .hopBlock,
    .timer (.readGeneration ⟨call + 1, .preFireBlock⟩),
    .timer (.registerExpiry ⟨⟨call + 1, .preFireBlock⟩, 1⟩), .timer (.beginFire .empty),
    .timer (.endFire .empty)]

/-- Between the two nothing but the client's block holds the timer. -/
theorem Overlapping.nextFire {call : Nat} (h : Overlapping call s) :
    ∃ s', run step s (nextFire call) = .ok s' ∧ Overlapping (call + 1) s' ∧
      TimerLifetime.fires s'.timer.log = TimerLifetime.fires s.timer.log + 1 := by
  obtain ⟨⟨initialInterval, adjustFun, repeats, mode, running, generation, currentInterval, calls,
    due, reads, pending, hops, fires, executing, suspends, log⟩, alive, owners⟩ := s
  obtain ⟨halive, howners, hrepeats, hmode, hrunning, hgeneration, hcalls, hdue, hreads, hpending,
    hhops, hfires, hexecuting, hsuspends⟩ := h
  dsimp only at *
  subst halive howners hrepeats hmode hrunning hgeneration hcalls hdue hreads hpending hhops
    hfires hexecuting hsuspends
  refine ⟨⟨⟨initialInterval, adjustFun, true, .intervalClockedOnWallClockTime, true, 1,
    adjustFun currentInterval, call + 1 + 1, [], [], [⟨call + 1, 1⟩], 0, [], [.empty], 0,
    log ++ [.fired call] ++ [.generationRead (call + 1)] ++
      [.armed (call + 1) (adjustFun currentInterval)]⟩, true, 0⟩, ?_, ?_, ?_⟩
  · simp [TimerLifetime.nextFire, run_cons, step, perform, referenced, Callable, isCall,
      enabledIf, BRUTimer.step, expiryBlock, hopBlock, BRUTimer.setupTimer, readGeneration,
      registerExpiry, fireWithDate, runPostFireBlock, assertThat, bind, Except.bind, pure,
      Except.pure]
  · exact ⟨rfl, rfl, rfl, rfl, rfl, rfl, rfl, rfl, rfl, rfl, rfl, rfl, rfl, rfl⟩
  · simp [TimerLifetime.fires]

/-- No call of the client, and nobody takes the timer over. -/
def ByItself (e : Event D) : Prop :=
  ∃ e', e = .timer e' ∧ isCall e' = false

theorem byItself_nextFire (call : Nat) : ∀ e ∈ nextFire (D := D) call, ByItself e := by
  simp [TimerLifetime.nextFire, ByItself, isCall]

theorem Overlapping.keep_firing {call : Nat} (h : Overlapping call s) (n : Nat) :
    ∃ events s', run step s events = .ok s' ∧ (∀ e ∈ events, ByItself e) ∧
      Overlapping (call + n) s' ∧
      TimerLifetime.fires s'.timer.log = TimerLifetime.fires s.timer.log + n := by
  induction n with
  | zero => exact ⟨[], s, rfl, by simp, h, rfl⟩
  | succ n ih =>
    obtain ⟨events, m, hrun, hevents, hm, hfires⟩ := ih
    obtain ⟨s', hnext, hs', hfires'⟩ := hm.nextFire
    refine ⟨events ++ TimerLifetime.nextFire (call + n), s', ?_, ?_, hs', ?_⟩
    · exact run_append_eq_ok.mpr ⟨m, hrun, hnext⟩
    · intro e he
      rcases List.mem_append.mp he with he | he
      · exact hevents e he
      · exact byItself_nextFire _ e he
    · rw [hfires', hfires]
      omega

/-- On wall clock time, with a block that takes longer than the interval and a queue that runs
blocks concurrently, a timer that nobody owns any more holds itself: it fires `n` more times,
whatever `n` is, without anyone calling it. -/
theorem overlapping_blocks_keep_firing (interval : D) (adjustInterval : Option (D → D)) (n : Nat) :
    ∃ s events s', run step (initWithInterval interval true .intervalClockedOnWallClockTime
        adjustInterval) letGo = .ok s ∧
      s.owners = 0 ∧ run step s events = .ok s' ∧ (∀ e ∈ events, ByItself e) ∧
      s'.alive = true ∧ fires s'.timer.log = fires s.timer.log + n := by
  obtain ⟨s, hrun, hs⟩ : ∃ s, run step (initWithInterval interval true
      .intervalClockedOnWallClockTime adjustInterval) letGo = .ok s ∧ Overlapping 1 s :=
    ⟨_, rfl, rfl, rfl, rfl, rfl, rfl, rfl, rfl, rfl, rfl, rfl, rfl, rfl, rfl, rfl⟩
  obtain ⟨events, s', hevents, hbyItself, hs', hfires⟩ := hs.keep_firing n
  exact ⟨s, events, s', hrun, hs.owners, hevents, hbyItself, hs'.alive, hfires⟩

end TimerLifetime

end BromiumCoreUtils
