import BromiumCoreUtils.Lib.Bag
import BromiumCoreUtils.Timer.Basic

/-!
# The chains of a timer

A running timer is kept going by a chain: an expiry fires, the fire runs its
course, and its `setupTimer` registers the next expiry.

* `Supported` says that a running timer has a chain.  Every step keeps it.
* `liveChains` counts the chains of a repeating timer.  A resume begins a chain
  and does not end the one of a fire that is on its way, so there can be two.
  `SingleChain` is kept by the resumes that meet `ResumesClean`.
-/

namespace BromiumCoreUtils

open Machine

namespace BRUTimer

variable {D : Type} {t t' : BRUTimer D} {e : Event D}

/-! ## The chain of a running timer -/

/-- Something that has registered, or is going to register, an expiry for the
current generation. -/
inductive Chain (t : BRUTimer D) : Prop where
  /-- An expiry. -/
  | pending (expiry : Expiry) (hmem : expiry ∈ t.pending)
      (hgen : expiry.generation = t.generation)
  /-- A `setupTimer` that has not read the generation yet. -/
  | due (setup : SetupCall) (hmem : setup ∈ t.due)
  /-- The fire of a repeating timer, whose `setupTimer` is still to come. -/
  | fire (hrep : t.repeats = true)
      (hfire : 0 < t.hops ∨ .setupTimerBlock ∈ t.fires ∨ .setupTimerBlock ∈ t.executing)
  /-- A `setupTimer` that has read the generation. -/
  | read (read : GenerationRead) (hmem : read ∈ t.reads)
      (hgen : read.generation = t.generation)

/-- A running timer has a chain. -/
def Supported (t : BRUTimer D) : Prop :=
  t.running = true → Chain t

/-- A call of `setupTimer` is a chain of its own. -/
theorem chain_setupTimer (caller : SetupCaller) (t : BRUTimer D) :
    Chain (t.setupTimer caller) :=
  .due ⟨t.calls, caller⟩ (by simp [setupTimer])

/-- A fire that ends with `setupTimer` is a chain of a repeating timer. -/
theorem chain_fireWithDate (hrep : t.repeats = true) :
    Chain (t.fireWithDate .setupTimerBlock) :=
  .fire hrep (Or.inr (Or.inl (by simp [fireWithDate])))

/-- A step that takes nothing away keeps the chain. -/
theorem Chain.mono (h : Chain t) (hgen : t'.generation = t.generation)
    (hrep : t'.repeats = t.repeats) (hpending : t.pending ⊆ t'.pending)
    (hdue : t.due ⊆ t'.due) (hreads : t.reads ⊆ t'.reads) (hhops : t.hops ≤ t'.hops)
    (hfires : t.fires ⊆ t'.fires) (hexec : t.executing ⊆ t'.executing) : Chain t' := by
  cases h with
  | pending expiry hmem hcur => exact .pending expiry (hpending hmem) (hcur.trans hgen.symm)
  | due setup hmem => exact .due setup (hdue hmem)
  | fire hr hfire =>
    refine .fire (hrep.trans hr) ?_
    rcases hfire with hhop | hfire | hrunning
    · exact Or.inl (by omega)
    · exact Or.inr (Or.inl (hfires hfire))
    · exact Or.inr (Or.inr (hexec hrunning))
  | read read hmem hcur => exact .read read (hreads hmem) (hcur.trans hgen.symm)

/-- A further fire takes nothing away. -/
theorem Chain.fireWithDate (h : Chain t) (postFireBlock : PostFireBlock) :
    Chain (t.fireWithDate postFireBlock) := by
  refine h.mono rfl rfl (fun _ hm => hm) (fun _ hm => hm) (fun _ hm => hm) (Nat.le_refl _)
    ?_ (fun _ hm => hm)
  intro post hm
  exact List.mem_append_left _ hm

theorem chain_registerExpiry (h : Chain t) (read : GenerationRead) :
    Chain (t.registerExpiry read) := by
  have hregistered : Chain
      { t with
        reads := t.reads.erase read
        pending := t.pending ++ [⟨read.setup.call, read.generation⟩]
        log := t.log ++ [.armed read.setup.call t.currentInterval] } := by
    cases h with
    | pending expiry hmem hgen => exact .pending expiry (List.mem_append_left _ hmem) hgen
    | due setup hmem => exact .due setup hmem
    | fire hrep hfire => exact .fire hrep hfire
    | read other hmem hgen =>
      rcases Bag.mem_erase_or_eq hmem read with hother | heq
      · exact .read other hother hgen
      · exact .pending ⟨read.setup.call, read.generation⟩ (by simp) (heq ▸ hgen)
  unfold registerExpiry
  split
  · exact hregistered.fireWithDate .empty
  · exact hregistered

/-- The block on the global queue hands the chain of a repeating timer on. -/
theorem chain_hopBlock (hrep : t.repeats = true) : Chain (hopBlock t) := by
  cases hmode : t.mode with
  | intervalBetweenBlockExecutions =>
    rw [hopBlock_between hmode]
    exact chain_fireWithDate hrep
  | intervalClockedOnWallClockTime =>
    rw [hopBlock_wallClock hmode hrep]
    exact chain_setupTimer .preFireBlock t

/-- The block on `targetQ` calls `setupTimer`, or it was no part of the
chain. -/
theorem chain_endFire (h : Chain t) (postFireBlock : PostFireBlock) :
    Chain (runPostFireBlock postFireBlock
      { t with executing := t.executing.erase postFireBlock }) := by
  cases postFireBlock with
  | empty =>
    cases h with
    | pending expiry hmem hgen => exact .pending expiry hmem hgen
    | due setup hmem => exact .due setup hmem
    | fire hrep hfire =>
      refine .fire hrep ?_
      rcases hfire with hhop | hfire | hexec
      · exact Or.inl hhop
      · exact Or.inr (Or.inl hfire)
      · exact Or.inr (Or.inr ((List.mem_erase_of_ne (by simp)).mpr hexec))
    | read read hmem hgen => exact .read read hmem hgen
  | setupTimerBlock =>
    by_cases hrep : t.repeats = true
    · simp only [runPostFireBlock, setupTimerBlock, if_pos hrep]
      exact chain_setupTimer .postFireBlock _
    · simp only [runPostFireBlock, setupTimerBlock, if_neg hrep]
      cases h with
      | pending expiry hmem hgen => exact .pending expiry hmem hgen
      | due setup hmem => exact .due setup hmem
      | fire hr _ => exact absurd hr hrep
      | read read hmem hgen => exact .read read hmem hgen

/-- One step keeps a running timer supported. -/
theorem step_supported (h : Supported t) (hstep : step t e = .ok t') : Supported t' := by
  intro hrunning
  cases step_transition hstep with
  | start _ => exact h hrunning
  | resume interval _ => exact chain_setupTimer .resume _
  | suspend =>
    exact (h hrunning).mono rfl rfl (fun _ hm => hm) (fun _ hm => hm) (fun _ hm => hm)
      (Nat.le_refl _) (fun _ hm => hm) (fun _ hm => hm)
  | fire => exact (h hrunning).fireWithDate .empty
  | @readGeneration setup hmem =>
    -- what is read is the current generation
    exact .read ⟨setup, t.generation⟩ (by simp [BRUTimer.readGeneration]) rfl
  | @registerExpiry read hmem =>
    refine chain_registerExpiry (h ?_) read
    rw [← hrunning, registerExpiry_running]
  | @dropped expiry hmem hpos hle hguard =>
    have hold : expiry.generation ≠ t.generation := by
      rcases hguard with hne | hstopped
      · exact hne
      · rw [show t.running = true from hrunning] at hstopped
        cases hstopped
    cases h hrunning with
    | pending other hother hgen =>
      rcases Bag.mem_erase_or_eq hother expiry with hother | heq
      · exact .pending other hother hgen
      · rw [heq] at hgen
        exact absurd hgen hold
    | due setup hmem => exact .due setup hmem
    | fire hrep hfire => exact .fire hrep hfire
    | read read hmem hgen => exact .read read hmem hgen
  | @fired expiry hmem hpos hgen hr =>
    -- only a repeating timer is still running
    have hrep : t.repeats = true := by
      by_contra hrep
      simp [hrep] at hrunning
    exact .fire hrep (Or.inl (Nat.succ_pos _))
  | hopBlock hpos =>
    by_cases hrep : t.repeats = true
    · exact chain_hopBlock hrep
    · -- without `repeat` the fire is no chain
      have hrep' : t.repeats = false := by simpa using hrep
      have hrun : t.running = true := by
        rw [← hrunning, hopBlock_running]
      obtain ⟨post, heq⟩ := hopBlock_once (t := { t with hops := t.hops - 1 }) hrep'
      rw [heq]
      cases h hrun with
      | pending expiry hmem hgen => exact .pending expiry hmem hgen
      | due setup hmem => exact .due setup hmem
      | fire hr _ => exact absurd hr hrep
      | read read hmem hgen => exact .read read hmem hgen
  | @beginFire post hmem =>
    cases h hrunning with
    | pending expiry hmem hgen => exact .pending expiry hmem hgen
    | due setup hmem => exact .due setup hmem
    | fire hrep hfire =>
      refine .fire hrep ?_
      rcases hfire with hhop | hfire | hexec
      · exact Or.inl hhop
      · rcases Bag.mem_erase_or_eq hfire post with hfire | heq
        · exact Or.inr (Or.inl hfire)
        · exact Or.inr (Or.inr (by simp [heq]))
      · exact Or.inr (Or.inr (List.mem_append_left _ hexec))
    | read read hmem hgen => exact .read read hmem hgen
  | @endFire post hmem =>
    apply chain_endFire
    apply h
    rw [← hrunning, runPostFireBlock_running]
  | runSuspend _ => cases hrunning

/-- A timer that says it is running has a chain, in every state that any
interleaving reaches: it never runs without being going to fire again. -/
theorem running_timer_has_chain {interval : D} {repeats : Bool} {mode : BRUTimerMode}
    {adjustInterval : Option (D → D)} {events : List (Event D)}
    (hrun : run step (initWithInterval interval repeats mode adjustInterval) events = .ok t)
    (hrunning : t.running = true) :
    (∃ expiry ∈ t.pending, expiry.generation = t.generation) ∨
      (∃ setup, setup ∈ t.due) ∨
      (t.repeats = true ∧
        (0 < t.hops ∨ .setupTimerBlock ∈ t.fires ∨ .setupTimerBlock ∈ t.executing)) ∨
      ∃ read ∈ t.reads, read.generation = t.generation := by
  have hsupported : Supported t := by
    refine run_invariant (fun _ _ _ => step_supported) ?_ hrun
    intro h
    cases h
  cases hsupported hrunning with
  | pending expiry hmem hgen => exact Or.inl ⟨expiry, hmem, hgen⟩
  | due setup hmem => exact Or.inr (Or.inl ⟨setup, hmem⟩)
  | fire hrep hfire => exact Or.inr (Or.inr (Or.inl ⟨hrep, hfire⟩))
  | read read hmem hgen => exact Or.inr (Or.inr (Or.inr ⟨read, hmem, hgen⟩))

/-- A timer whose fire has just been queued on the global queue. -/
theorem running_timer_has_chain_fired : ∃ t : BRUTimer Nat,
    run step (initWithInterval 5 true .intervalClockedOnWallClockTime none)
      [.resume, .readGeneration ⟨0, .resume⟩, .registerExpiry ⟨⟨0, .resume⟩, 1⟩,
        .expiryBlock ⟨0, 1⟩] = .ok t ∧
      ((∃ expiry ∈ t.pending, expiry.generation = t.generation) ∨
        (∃ setup, setup ∈ t.due) ∨
        (t.repeats = true ∧
          (0 < t.hops ∨ .setupTimerBlock ∈ t.fires ∨ .setupTimerBlock ∈ t.executing)) ∨
        ∃ read ∈ t.reads, read.generation = t.generation) := by
  obtain ⟨t, hrun, hrunning⟩ : ∃ t : BRUTimer Nat,
      run step (initWithInterval 5 true .intervalClockedOnWallClockTime none)
        [.resume, .readGeneration ⟨0, .resume⟩, .registerExpiry ⟨⟨0, .resume⟩, 1⟩,
          .expiryBlock ⟨0, 1⟩] = .ok t ∧ t.running = true := ⟨_, rfl, rfl⟩
  exact ⟨t, hrun, running_timer_has_chain hrun hrunning⟩

/-! ## Counting chains -/

/-- The fires that have passed the guard and whose `setupTimer` has not read the
generation. -/
def unread (t : BRUTimer D) : Nat :=
  t.hops + t.fires.count .setupTimerBlock + t.executing.count .setupTimerBlock +
    t.due.countP (fun setup => setup.caller != .resume)

/-- The fires that have passed the guard and have not executed the `setupTimer`
that re-arms the timer. -/
def rearming (t : BRUTimer D) : Nat :=
  t.unread + t.reads.countP (fun read => read.setup.caller != .resume)

/-- The live chains: the expiries of the current generation, and these
fires. -/
def liveChains (t : BRUTimer D) : Nat :=
  t.pending.countP (fun expiry => expiry.generation == t.generation) + t.rearming

/-- The calls of `resume` and of its siblings that have made their increment
and not registered their expiry. -/
def resumesInProgress (t : BRUTimer D) : Nat :=
  t.due.countP (fun setup => setup.caller == .resume) +
    t.reads.countP (fun read => read.setup.caller == .resume)

/-- A read that leads to a chain. -/
def leads (generation : Nat) (read : GenerationRead) : Bool :=
  read.generation == generation

/-- A fire is re-arming the timer for an older generation. -/
def outdated (generation : Nat) (read : GenerationRead) : Bool :=
  read.setup.caller != .resume && read.generation != generation

/-- A resume is clean if it makes its increment while no fire has still to read
the generation, no other resume has still to read it and the counter does not
overflow, and if it registers its expiry when no fire is re-arming the timer for
an older generation. -/
def ResumesClean (t : BRUTimer D) (e : Event D) : Prop :=
  ((e = .resume ∨ e = .restart ∨ ∃ v, e = .restartWithInterval v) →
    t.unread = 0 ∧ t.due.countP (fun setup => setup.caller == .resume) = 0 ∧
      t.generation + 1 < 2 ^ 64) ∧
  ∀ read, e = .registerExpiry read → read.setup.caller = .resume →
    t.reads.countP (outdated t.generation) = 0

/-- The chains that are alive or about to begin. -/
def chainCount (t : BRUTimer D) : Nat :=
  t.pending.countP (fun expiry => expiry.generation == t.generation) + t.hops +
    t.fires.count .setupTimerBlock + t.executing.count .setupTimerBlock + t.due.length +
    t.reads.countP (leads t.generation)

/-- At most one chain is alive or about to begin, and a fire re-arms the timer
for an older generation while a resume is in progress only. -/
structure SingleChain (t : BRUTimer D) : Prop where
  repeats : t.repeats = true
  pending : ∀ expiry ∈ t.pending, expiry.generation ≤ t.generation
  reads : ∀ read ∈ t.reads, read.generation ≤ t.generation
  single : t.chainCount ≤ 1
  outdated : 0 < t.reads.countP (outdated t.generation) → 0 < t.resumesInProgress

/-- Every `setupTimer` that is due is called by a resume or re-arms the
timer. -/
theorem due_length (due : List SetupCall) :
    due.length = due.countP (fun setup => setup.caller == .resume) +
      due.countP (fun setup => setup.caller != .resume) := by
  rw [List.length_eq_countP_add_countP (fun setup => setup.caller == .resume)]
  congr 2
  funext setup
  cases setup.caller <;> rfl

/-- A read that re-arms the timer leads to a chain or is outdated. -/
theorem rearming_reads_le (generation : Nat) (reads : List GenerationRead) :
    reads.countP (fun read => read.setup.caller != .resume) ≤
      reads.countP (leads generation) + reads.countP (outdated generation) := by
  induction reads with
  | nil => exact Nat.le_refl 0
  | cons read reads ih =>
    simp only [List.countP_cons, leads, BRUTimer.outdated]
    by_cases hcur : read.generation = generation
    · simp only [hcur, beq_self_eq_true, if_true]
      split <;> omega
    · have hne : (read.generation != generation) = true := by simpa using hcur
      simp only [hne, Bool.and_true]
      split <;> omega

theorem liveChains_le (h : SingleChain t) (hresumes : t.resumesInProgress = 0) :
    t.liveChains ≤ 1 := by
  have hdue := due_length t.due
  have hreads := rearming_reads_le t.generation t.reads
  have hsingle := h.single
  have houtdated := h.outdated
  unfold chainCount at hsingle
  unfold liveChains rearming unread
  omega

/-- The increment of a clean resume leaves the chain of that resume only. -/
theorem SingleChain.resume (h : SingleChain t) (hunread : t.unread = 0)
    (hdue : t.due.countP (fun setup => setup.caller == .resume) = 0)
    (hgen : t.generation + 1 < 2 ^ 64) (interval : Option D) :
    SingleChain (t.resumeWithUpdateInterval interval) := by
  have hsucc : (t.generation + 1) % 2 ^ 64 = t.generation + 1 := Nat.mod_eq_of_lt hgen
  have hpending : t.pending.countP
      (fun expiry => expiry.generation == t.generation + 1) = 0 := by
    rw [List.countP_eq_zero]
    intro expiry hmem heq
    have hle := h.pending expiry hmem
    have : expiry.generation = t.generation + 1 := by simpa using heq
    omega
  have hreads : t.reads.countP (leads (t.generation + 1)) = 0 := by
    rw [List.countP_eq_zero]
    intro read hmem hleads
    have hle := h.reads read hmem
    have : read.generation = t.generation + 1 := by simpa [leads] using hleads
    omega
  have hlen := due_length t.due
  unfold unread at hunread
  refine { repeats := h.repeats, pending := ?_, reads := ?_, single := ?_, outdated := ?_ }
  · intro expiry hmem
    have hle := h.pending expiry hmem
    show expiry.generation ≤ (t.generation + 1) % 2 ^ 64
    omega
  · intro read hmem
    have hle := h.reads read hmem
    show read.generation ≤ (t.generation + 1) % 2 ^ 64
    omega
  · simp only [chainCount, resumeWithUpdateInterval, setupTimer, hsucc, hpending, hreads,
      List.length_append, List.length_singleton]
    omega
  · intro _
    simp only [resumesInProgress, resumeWithUpdateInterval, setupTimer, List.countP_append,
      List.countP_singleton, beq_self_eq_true, if_true]
    omega

/-- Work that registers no expiry is not counted. -/
theorem SingleChain.congr (h : SingleChain t) (hrep : t'.repeats = t.repeats)
    (hgen : t'.generation = t.generation) (hpending : t'.pending = t.pending)
    (hhops : t'.hops = t.hops)
    (hfires : t'.fires.count .setupTimerBlock = t.fires.count .setupTimerBlock)
    (hexec : t'.executing = t.executing) (hdue : t'.due = t.due)
    (hreads : t'.reads = t.reads) : SingleChain t' where
  repeats := by rw [hrep, h.repeats]
  pending := by rw [hpending, hgen]; exact h.pending
  reads := by rw [hreads, hgen]; exact h.reads
  single := by
    rw [chainCount, hpending, hgen, hhops, hfires, hexec, hdue, hreads]
    exact h.single
  outdated := by
    rw [resumesInProgress, hdue, hreads, hgen]
    exact h.outdated

/-- A read of the current generation takes the place of its call. -/
theorem SingleChain.readGeneration (h : SingleChain t) {setup : SetupCall}
    (hmem : setup ∈ t.due) : SingleChain (t.readGeneration setup) := by
  have hdue := Bag.length_erase_add hmem
  have hresume := Bag.countP_erase_add (fun setup => setup.caller == .resume) hmem
  have hsingle := h.single
  have houtdated := h.outdated
  refine { repeats := h.repeats, pending := h.pending, reads := ?_, single := ?_,
           outdated := ?_ }
  · intro read hread
    rcases List.mem_append.mp hread with hread | hread
    · exact h.reads read hread
    · rw [List.mem_singleton.mp hread]
      exact Nat.le_refl _
  · have hleads : leads t.generation ⟨setup, t.generation⟩ = true := by
      simp [leads]
    unfold chainCount at hsingle
    simp only [chainCount, BRUTimer.readGeneration, List.countP_append, List.countP_singleton,
      hleads, if_true]
    omega
  · have hnot : BRUTimer.outdated t.generation ⟨setup, t.generation⟩ = false := by
      simp [BRUTimer.outdated]
    unfold resumesInProgress at houtdated
    simp only [resumesInProgress, BRUTimer.readGeneration, List.countP_append,
      List.countP_singleton, hnot, Bool.false_eq_true, if_false]
    omega

/-- A read becomes an expiry of the same generation. -/
theorem SingleChain.registerExpiry (h : SingleChain t) {read : GenerationRead}
    (hmem : read ∈ t.reads) (hclean : read.setup.caller = .resume →
      t.reads.countP (BRUTimer.outdated t.generation) = 0) :
    SingleChain (t.registerExpiry read) := by
  have hreads := Bag.countP_erase_add (leads t.generation) hmem
  have hold := Bag.countP_erase_add (BRUTimer.outdated t.generation) hmem
  have hresume := Bag.countP_erase_add (fun read => read.setup.caller == .resume) hmem
  have hsingle := h.single
  have houtdated := h.outdated
  have hregistered : SingleChain
      { t with
        reads := t.reads.erase read
        pending := t.pending ++ [⟨read.setup.call, read.generation⟩]
        log := t.log ++ [.armed read.setup.call t.currentInterval] } := by
    refine { repeats := h.repeats, pending := ?_, reads := ?_, single := ?_, outdated := ?_ }
    · intro expiry hexpiry
      rcases List.mem_append.mp hexpiry with hexpiry | hexpiry
      · exact h.pending expiry hexpiry
      · rw [List.mem_singleton.mp hexpiry]
        exact h.reads read hmem
    · intro other hother
      exact h.reads other (List.mem_of_mem_erase hother)
    · unfold chainCount at hsingle
      simp only [chainCount, List.countP_append, List.countP_singleton]
      by_cases hcur : read.generation = t.generation
      · -- the read leads to the expiry that is registered
        have hleads : leads t.generation read = true := by simp [leads, hcur]
        simp only [hleads, if_true] at hreads
        simp only [hcur, beq_self_eq_true, if_true]
        omega
      · simp only [beq_eq_false_iff_ne.mpr hcur, Bool.false_eq_true, if_false]
        omega
    · unfold resumesInProgress at houtdated
      simp only [resumesInProgress]
      by_cases hcaller : read.setup.caller = .resume
      · have hzero := hclean hcaller
        omega
      · simp only [beq_eq_false_iff_ne.mpr hcaller, Bool.false_eq_true, if_false] at hresume
        omega
  unfold BRUTimer.registerExpiry
  split
  · exact hregistered.congr rfl rfl rfl rfl (by simp [fireWithDate]) rfl rfl rfl
  · exact hregistered

/-- A `setupTimer` that is called takes over the one chain. -/
theorem SingleChain.setupTimer (h : SingleChain t) (hnone : t.chainCount = 0)
    (caller : SetupCaller) : SingleChain (t.setupTimer caller) := by
  refine { repeats := h.repeats, pending := h.pending, reads := h.reads, single := ?_,
           outdated := ?_ }
  · unfold chainCount at hnone
    simp only [chainCount, BRUTimer.setupTimer, List.length_append, List.length_singleton]
    omega
  · intro hpos
    have hresumes := h.outdated hpos
    unfold resumesInProgress at hresumes
    simp only [resumesInProgress, BRUTimer.setupTimer, List.countP_append]
    omega

/-- The block on the global queue hands its chain on. -/
theorem SingleChain.hopBlock (h : SingleChain t) (hpos : 0 < t.hops) :
    SingleChain (hopBlock { t with hops := t.hops - 1 }) := by
  have hsingle := h.single
  unfold chainCount at hsingle
  have hmode : t.mode = .intervalBetweenBlockExecutions ∨
      t.mode = .intervalClockedOnWallClockTime := by
    cases t.mode <;> simp
  rcases hmode with hmode | hmode
  · rw [hopBlock_between (t := { t with hops := t.hops - 1 }) hmode]
    refine { repeats := h.repeats, pending := h.pending, reads := h.reads, single := ?_,
             outdated := h.outdated }
    simp only [chainCount, fireWithDate, List.count_append, List.count_singleton_self]
    omega
  · have hnone : chainCount { t with hops := t.hops - 1 } = 0 := by
      simp only [chainCount]
      omega
    rw [hopBlock_wallClock (t := { t with hops := t.hops - 1 }) hmode h.repeats]
    refine SingleChain.setupTimer ?_ hnone .preFireBlock
    exact { repeats := h.repeats, pending := h.pending, reads := h.reads,
            single := by omega, outdated := h.outdated }

/-- A fire that begins is the same chain. -/
theorem SingleChain.beginFire (h : SingleChain t) {post : PostFireBlock}
    (hmem : post ∈ t.fires) :
    SingleChain
      { t with
        fires := t.fires.erase post
        executing := t.executing ++ [post] } := by
  have hsingle := h.single
  unfold chainCount at hsingle
  have hfires := Bag.count_erase_add hmem .setupTimerBlock
  refine { repeats := h.repeats, pending := h.pending, reads := h.reads, single := ?_,
           outdated := h.outdated }
  simp only [chainCount, List.count_append, List.count_singleton, beq_iff_eq]
  omega

/-- The client's block returns, and a `setupTimerBlock` hands its chain on. -/
theorem SingleChain.endFire (h : SingleChain t) {post : PostFireBlock}
    (hmem : post ∈ t.executing) :
    SingleChain (runPostFireBlock post { t with executing := t.executing.erase post }) := by
  have hsingle := h.single
  unfold chainCount at hsingle
  have hexec := Bag.count_erase_add hmem .setupTimerBlock
  have hended : SingleChain { t with executing := t.executing.erase post } := by
    refine { repeats := h.repeats, pending := h.pending, reads := h.reads, single := ?_,
             outdated := h.outdated }
    simp only [chainCount]
    omega
  cases post with
  | empty => exact hended
  | setupTimerBlock =>
    simp only [if_true] at hexec
    have hnone : chainCount { t with executing := t.executing.erase .setupTimerBlock } = 0 := by
      simp only [chainCount]
      omega
    have heq : runPostFireBlock .setupTimerBlock
        { t with executing := t.executing.erase .setupTimerBlock } =
        BRUTimer.setupTimer .postFireBlock
          { t with executing := t.executing.erase .setupTimerBlock } := by
      simp only [runPostFireBlock, setupTimerBlock, if_pos h.repeats]
    rw [heq]
    exact hended.setupTimer hnone .postFireBlock

/-- One clean step keeps a single chain. -/
theorem step_singleChain (hclean : ResumesClean t e) (h : SingleChain t)
    (hstep : step t e = .ok t') : SingleChain t' := by
  have hsingle := h.single
  unfold chainCount at hsingle
  cases step_transition hstep with
  | start _ => exact h
  | resume interval he =>
    obtain ⟨hunread, hdue, hgen⟩ := hclean.1 (by
      rcases he with ⟨he, _⟩ | ⟨he, _⟩ | ⟨v, he, _⟩
      · exact Or.inl he
      · exact Or.inr (Or.inl he)
      · exact Or.inr (Or.inr ⟨v, he⟩))
    exact h.resume hunread hdue hgen interval
  | suspend => exact h.congr rfl rfl rfl rfl rfl rfl rfl rfl
  | fire => exact h.congr rfl rfl rfl rfl (by simp [fire, fireWithDate]) rfl rfl rfl
  | readGeneration hmem => exact h.readGeneration hmem
  | registerExpiry hmem => exact h.registerExpiry hmem (hclean.2 _ rfl)
  | @dropped expiry hmem _ _ _ =>
    have hpending := Bag.countP_erase_add
      (fun expiry => expiry.generation == t.generation) hmem
    refine { repeats := h.repeats, pending := ?_, reads := h.reads, single := ?_,
             outdated := h.outdated }
    · intro other hother
      exact h.pending other (List.mem_of_mem_erase hother)
    · simp only [chainCount]
      omega
  | @fired expiry hmem _ hgen _ =>
    have hpending := Bag.countP_erase_add
      (fun expiry => expiry.generation == t.generation) hmem
    simp only [hgen, beq_self_eq_true, if_true] at hpending
    refine { repeats := h.repeats, pending := ?_, reads := h.reads, single := ?_,
             outdated := h.outdated }
    · intro other hother
      exact h.pending other (List.mem_of_mem_erase hother)
    · simp only [chainCount]
      omega
  | hopBlock hpos => exact h.hopBlock hpos
  | beginFire hmem => exact h.beginFire hmem
  | endFire hmem => exact h.endFire hmem
  | runSuspend _ => exact h.congr rfl rfl rfl rfl rfl rfl rfl rfl

/-- A repeating timer whose resumes are all clean has at most one live chain
whenever no resume is in progress. -/
theorem clean_timer_has_one_chain {interval : D} {mode : BRUTimerMode}
    {adjustInterval : Option (D → D)} {events : List (Event D)}
    (hclean : AllSteps step ResumesClean (initWithInterval interval true mode adjustInterval)
      events)
    (hrun : run step (initWithInterval interval true mode adjustInterval) events = .ok t)
    (hresumes : t.resumesInProgress = 0) : t.liveChains ≤ 1 := by
  refine liveChains_le ?_ hresumes
  refine run_invariant_of_allSteps ?_ ?_ hclean hrun
  · intro s e s' hs hinv hstep
    exact step_singleChain hs hinv hstep
  · exact
      { repeats := rfl
        pending := fun _ hmem => by cases hmem
        reads := fun _ hmem => by cases hmem
        single := Nat.zero_le _
        outdated := fun h => h }

/-- A restart between two fires. -/
def restarted : List (Event Nat) :=
  [.resume, .readGeneration ⟨0, .resume⟩, .registerExpiry ⟨⟨0, .resume⟩, 1⟩, .restart,
    .readGeneration ⟨1, .resume⟩, .registerExpiry ⟨⟨1, .resume⟩, 2⟩]

theorem clean_timer_has_one_chain_restarted : ∃ t : BRUTimer Nat,
    run step (initWithInterval 5 true .intervalBetweenBlockExecutions none) restarted = .ok t ∧
      t.pending = [⟨0, 1⟩, ⟨1, 2⟩] ∧ t.liveChains ≤ 1 := by
  obtain ⟨t, hrun, hpending, hresumes⟩ : ∃ t : BRUTimer Nat,
      run step (initWithInterval 5 true .intervalBetweenBlockExecutions none) restarted = .ok t ∧
        t.pending = [⟨0, 1⟩, ⟨1, 2⟩] ∧ t.resumesInProgress = 0 := ⟨_, rfl, rfl, rfl⟩
  refine ⟨t, hrun, hpending, clean_timer_has_one_chain ?_ hrun hresumes⟩
  refine .cons ⟨fun _ => ⟨rfl, rfl, by decide⟩, by simp⟩ rfl ?_
  refine .cons ⟨by simp, by simp⟩ rfl ?_
  refine .cons ⟨by simp, fun _ _ _ => rfl⟩ rfl ?_
  refine .cons ⟨fun _ => ⟨rfl, rfl, by decide⟩, by simp⟩ rfl ?_
  refine .cons ⟨by simp, by simp⟩ rfl ?_
  refine .cons ⟨by simp, fun _ _ _ => rfl⟩ rfl ?_
  trivial

/-- The block of a repeating timer restarts its timer.  The restart and the
fire that is running register an expiry each. -/
def restartedFromBlock : List (Event Nat) :=
  [.resume, .readGeneration ⟨0, .resume⟩, .registerExpiry ⟨⟨0, .resume⟩, 1⟩,
    .expiryBlock ⟨0, 1⟩, .hopBlock, .beginFire .setupTimerBlock, .restart,
    .readGeneration ⟨1, .resume⟩, .registerExpiry ⟨⟨1, .resume⟩, 2⟩,
    .endFire .setupTimerBlock, .readGeneration ⟨2, .postFireBlock⟩,
    .registerExpiry ⟨⟨2, .postFireBlock⟩, 2⟩]

theorem restart_from_block_makes_two_chains : ∃ t : BRUTimer Nat,
    run step (initWithInterval 5 true .intervalBetweenBlockExecutions none)
        restartedFromBlock = .ok t ∧
      t.pending = [⟨1, 2⟩, ⟨2, 2⟩] ∧ t.generation = 2 ∧ t.running = true ∧
      t.resumesInProgress = 0 ∧ t.liveChains = 2 :=
  ⟨_, rfl, rfl, rfl, rfl, rfl, rfl⟩

end BRUTimer

end BromiumCoreUtils
