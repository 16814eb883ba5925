import BromiumCoreUtils.Retry.Completion

/-!
# The lifetime of a `BRURetry`

`BRURetry.Basic` is about an object that stays alive.  Here it lives as long as something holds
it: its owners, the blocks that call the action and the policy, the block that brings the answer
of the policy back, and the then-blocks.

The block that `startWithCompletionBlock:` gives to `then:` asserts its queue before it strongifies
`self`, so that it holds the retry from the start to its own end.  It is with the deferred until
the run is resolved, and the retry holds the deferred of the current run.  A retry with a
completion block to call is therefore never let go in the middle of a run: nobody needs to own it.

The continuation block and the block of the timer are weak.  A retry without a completion block
that nobody owns is gone as soon as its action returns, or in Delay, and its run has no end.
-/

namespace BromiumCoreUtils

open Machine

/-- A block of `syncQueue` that holds the retry while it is queued. -/
def RetrySyncBlock.holdsRetry {D : Type} : RetrySyncBlock D → Bool
  | .continuation .. => false
  | .policyResult .. => true

/-- A then-block is with the deferred of a run: queued there, or stored while something holds
the deferred, which its queued blocks do, and the retry for the current run. -/
def BRURetry.holdsThenBlock {U D K : Type} (r : BRURetry U D K) (run : Nat) : Bool :=
  !(BRUDeferred.queuedBlocks (r.deferreds run).syncQueue).isEmpty ||
    (r.deferred == some run || !(r.deferreds run).syncQueue.isEmpty) &&
      !(r.deferreds run).thenBlocks.isEmpty

/-- A `BRURetry` and what holds it. -/
structure RetryLifetime (U D K : Type) where
  retry : BRURetry U D K
  alive : Bool
  owners : Nat
  /-- A block of `targetQueue` that holds the retry is running the client's code. -/
  busy : Bool

namespace RetryLifetime

variable {U D K : Type}

def initWithActionBlock [NSTimeInterval D] (delay : D) : RetryLifetime U D K where
  retry := .initWithActionBlock delay
  alive := true
  owners := 1
  busy := false

/-- Something holds the retry.  Each block of `targetQueue` does. -/
def referenced (s : RetryLifetime U D K) : Bool :=
  0 < s.owners || s.busy || !s.retry.targetQueue.isEmpty ||
    s.retry.syncQueue.any RetrySyncBlock.holdsRetry ||
    (List.range s.retry.runs).any s.retry.holdsThenBlock

/-- The calls of an owner. -/
def isCall : BRURetry.Event U D K → Bool
  | .start .. => true
  | .cancel _ => true
  | _ => false

/-- The blocks of `targetQueue`, which is serial. -/
def onTargetQueue : BRURetry.Event U D K → Bool
  | .runAction => true
  | .runPolicy .. => true
  | .runCompletion => true
  | _ => false

/-- What begins a block that goes on until `endBlock`. -/
def begins : BRURetry.Event U D K → Bool
  | .runAction => true
  | .runCompletion => true
  | _ => false

/-- What happens next. -/
inductive Event (U D K : Type) where
  | retry (e : BRURetry.Event U D K)
  /-- The block that calls the action, or a completion block, returns. -/
  | endBlock
  | retain
  | release
deriving Repr

variable [DecidableEq U] [ToString U] [NSTimeInterval D]

/-- A block that finds `self` gone returns.  The deferred of a run works as before. -/
def selfGone (r : BRURetry U D K) : BRURetry.Event U D K → Exec Assertion (BRURetry U D K)
  | .continuation attempt _ => do
    enabledIf (attempt ∈ r.continuations)
    pure { r with continuations := r.continuations.erase attempt }
  | .runSync =>
    match r.syncQueue with
    | .continuation _ _ :: rest => pure { r with syncQueue := rest }
    | _ => .error .disabled
  | .timerCallback => do
    enabledIf (r.timer.isSome = true)
    pure { r with timer := none }
  | .runDeferred run => BRURetry.step r (.runDeferred run)
  | _ => .error .disabled

/-- The step, before a reference that has gone has its effect. -/
def perform (s : RetryLifetime U D K) : Event U D K → Exec Assertion (RetryLifetime U D K)
  | .retry e => do
    enabledIf (isCall e = true → 0 < s.owners)
    enabledIf (onTargetQueue e = true → s.busy = false)
    let retry ← if s.alive then BRURetry.step s.retry e else selfGone s.retry e
    pure { s with retry := retry, busy := s.busy || s.alive && begins e }
  | .endBlock => do
    enabledIf (s.busy = true)
    pure { s with busy := false }
  | .retain => do
    enabledIf (0 < s.owners)
    pure { s with owners := s.owners + 1 }
  | .release => do
    enabledIf (0 < s.owners)
    pure { s with owners := s.owners - 1 }

/-- Take one step. -/
def step (s : RetryLifetime U D K) (e : Event U D K) :
    Exec Assertion (RetryLifetime U D K) := do
  let s ← s.perform e
  pure { s with alive := s.alive && s.referenced }

variable {s s' : RetryLifetime U D K} {e : Event U D K}

/-! ## What a step does -/

omit [DecidableEq U] [ToString U] [NSTimeInterval D] in
theorem referenced_eq_false :
    s.referenced = false ↔ s.owners = 0 ∧ s.busy = false ∧ s.retry.targetQueue = [] ∧
      (∀ block ∈ s.retry.syncQueue, block.holdsRetry = false) ∧
      ∀ run < s.retry.runs, s.retry.holdsThenBlock run = false := by
  simp [referenced, and_assoc]

/-- A step of a retry that is alive is one of the retry, or of those that hold it. -/
theorem perform_alive (halive : s.alive = true) (h : s.perform e = .ok s') :
    s'.alive = true ∧ (s'.retry = s.retry ∨
      ∃ e', e = .retry e' ∧ BRURetry.step s.retry e' = .ok s'.retry ∧
        (isCall e' = true → 0 < s.owners)) := by
  cases e with
  | retry e' =>
    simp only [perform, halive, if_true, bind_eq_ok, enabledIf_eq_ok, pure_eq_ok] at h
    obtain ⟨_, hcall, _, _, r, hr, rfl⟩ := h
    exact ⟨rfl, Or.inr ⟨e', rfl, hr, hcall⟩⟩
  | endBlock =>
    simp only [perform, bind_eq_ok, pure_eq_ok] at h
    obtain ⟨_, _, rfl⟩ := h
    exact ⟨halive, Or.inl rfl⟩
  | retain =>
    simp only [perform, bind_eq_ok, pure_eq_ok] at h
    obtain ⟨_, _, rfl⟩ := h
    exact ⟨halive, Or.inl rfl⟩
  | release =>
    simp only [perform, bind_eq_ok, pure_eq_ok] at h
    obtain ⟨_, _, rfl⟩ := h
    exact ⟨halive, Or.inl rfl⟩

/-- What a block of a retry that is gone may do. -/
inductive Returns : BRURetry U D K → BRURetry U D K → Prop where
  | continuation {r : BRURetry U D K} (attempt : Nat) :
      Returns r { r with continuations := r.continuations.erase attempt }
  | sync {r : BRURetry U D K} {block : RetrySyncBlock D} {rest : List (RetrySyncBlock D)}
      (hq : r.syncQueue = block :: rest) : Returns r { r with syncQueue := rest }
  | timer {r : BRURetry U D K} : Returns r { r with timer := none }
  | deferred {r r' : BRURetry U D K} {run : Nat}
      (hstep : BRURetry.step r (.runDeferred run) = .ok r') : Returns r r'

theorem returns_of_selfGone {r r' : BRURetry U D K} {e : BRURetry.Event U D K}
    (h : selfGone r e = .ok r') : Returns r r' := by
  cases e with
  | continuation attempt result =>
    simp only [selfGone, bind_eq_ok, pure_eq_ok] at h
    obtain ⟨_, _, rfl⟩ := h
    exact .continuation attempt
  | runSync =>
    simp only [selfGone] at h
    split at h
    · rename_i hq
      rw [← pure_eq_ok.mp h]
      exact .sync hq
    · cases h
  | timerCallback =>
    simp only [selfGone, bind_eq_ok, pure_eq_ok] at h
    obtain ⟨_, _, rfl⟩ := h
    exact .timer
  | runDeferred run => exact .deferred h
  | _ => simp [selfGone] at h

/-- A retry that is gone only lets its blocks return. -/
theorem perform_gone (halive : s.alive = false) (hreferenced : s.referenced = false)
    (h : s.perform e = .ok s') :
    Returns s.retry s'.retry ∧ s' = { s with retry := s'.retry } := by
  obtain ⟨howners, hbusy, -⟩ := referenced_eq_false.mp hreferenced
  cases e with
  | retry e' =>
    simp only [perform, halive, Bool.false_eq_true, if_false, bind_eq_ok, pure_eq_ok] at h
    obtain ⟨_, _, _, _, r, hr, rfl⟩ := h
    refine ⟨returns_of_selfGone hr, ?_⟩
    simp [halive]
  | endBlock => simp [perform, hbusy, enabledIf, bind, Except.bind] at h
  | retain => simp [perform, howners, enabledIf, bind, Except.bind] at h
  | release => simp [perform, howners, enabledIf, bind, Except.bind] at h

/-! ## No block is left that holds the retry -/

/-- No block of the retry, and none that waits for a run, holds it. -/
structure Gone (r : BRURetry U D K) : Prop where
  target : r.targetQueue = []
  sync : ∀ block ∈ r.syncQueue, block.holdsRetry = false
  thenBlocks : ∀ run, (r.deferreds run).thenBlocks = []
  queuedBlocks : ∀ run, BRUDeferred.queuedBlocks (r.deferreds run).syncQueue = []

omit [DecidableEq U] [ToString U] [NSTimeInterval D] in
theorem Gone.not_referenced (h : Gone s.retry) (howners : s.owners = 0) (hbusy : s.busy = false) :
    s.referenced = false := by
  refine referenced_eq_false.mpr ⟨howners, hbusy, h.target, h.sync, ?_⟩
  intro run _
  simp [BRURetry.holdsThenBlock, h.thenBlocks run, h.queuedBlocks run]

omit [DecidableEq U] [ToString U] [NSTimeInterval D] in
/-- A stored then-block that is not held belongs to a deferred that has dispatched it. -/
theorem gone_of_not_referenced (hacc : s.retry.ledger.Accounted)
    (hreferenced : s.referenced = false) : Gone s.retry := by
  obtain ⟨_, _, htarget, hsync, hthen⟩ := referenced_eq_false.mp hreferenced
  have hnone (run : Nat) : (s.retry.deferreds run).thenBlocks = [] ∧
      BRUDeferred.queuedBlocks (s.retry.deferreds run).syncQueue = [] := by
    by_cases hrun : run < s.retry.runs
    · obtain ⟨hqueued, hheld⟩ : BRUDeferred.queuedBlocks (s.retry.deferreds run).syncQueue = [] ∧
          (s.retry.deferred = some run ∨ (s.retry.deferreds run).syncQueue ≠ [] →
            (s.retry.deferreds run).thenBlocks = []) := by
        simpa [BRURetry.holdsThenBlock, imp_iff_not_or] using hthen run hrun
      refine ⟨?_, hqueued⟩
      by_cases hdeferred : s.retry.deferred = some run ∨ (s.retry.deferreds run).syncQueue ≠ []
      · exact hheld hdeferred
      · simp only [not_or, not_not] at hdeferred
        obtain ⟨resolution, hres, hdel⟩ := hacc.account run
        have hended := hacc.ended run hrun hdeferred.1
        cases resolution with
        | none => exact absurd hres hended
        | some result => exact hdel.thenBlocks_eq_nil hdeferred.2
    · have hfresh : s.retry.deferreds run = .init := hacc.fresh run (Nat.le_of_not_lt hrun)
      rw [hfresh]
      exact ⟨rfl, rfl⟩
  exact ⟨htarget, hsync, fun run => (hnone run).1, fun run => (hnone run).2⟩

omit [DecidableEq U] [ToString U] [NSTimeInterval D] in
/-- Then every then-block has been called. -/
theorem Gone.completions_eq {r : BRURetry U D K} (h : Gone r) (hacc : r.ledger.Accounted)
    (run : Nat) : ofRun run (BRURetry.completions r.log) =
      ofRun run (BRURetry.registrations r.log) := by
  obtain ⟨_, _, hdel⟩ := hacc.account run
  have hall := hdel.done_eq_all_of_nil (h.thenBlocks run) (h.queuedBlocks run)
  have hdispatched : ofRun run r.ledger.dispatched = [] := by
    simp [BRURetry.ledger, BRURetry.dispatched, h.target]
  rw [hdispatched, List.append_nil] at hall
  exact hall

/-- What returns logs nothing, and no block comes that holds the retry. -/
theorem Returns.gone {r r' : BRURetry U D K} (h : Returns r r') (hgone : Gone r) :
    r'.log = r.log ∧ Gone r' := by
  cases h with
  | continuation attempt =>
    exact ⟨rfl, hgone.target, hgone.sync, hgone.thenBlocks, hgone.queuedBlocks⟩
  | sync hq =>
    refine ⟨rfl, hgone.target, ?_, hgone.thenBlocks, hgone.queuedBlocks⟩
    intro block hblock
    exact hgone.sync block (by rw [hq]; exact List.mem_cons_of_mem _ hblock)
  | timer => exact ⟨rfl, hgone.target, hgone.sync, hgone.thenBlocks, hgone.queuedBlocks⟩
  | @deferred _ run hstep =>
    cases BRURetry.step_transition hstep with
    | @runDeferred _ deferred blocks hrun =>
      obtain ⟨hnone, hthen, hqueued⟩ :=
        BRUDeferred.runSync_of_nil (hgone.thenBlocks run) (hgone.queuedBlocks run) hrun
      refine ⟨rfl, ?_, hgone.sync, ?_, ?_⟩
      · simp [hnone, hgone.target]
      · intro other
        by_cases hother : other = run
        · simp [hother, hthen]
        · simp [hother, hgone.thenBlocks other]
      · intro other
        by_cases hother : other = run
        · simp [hother, hqueued]
        · simp [hother, hgone.queuedBlocks other]

/-! ## What waits for the end of a run -/

/-- A completion block that has been registered and is still to be called. -/
def Awaited (log : List (RetryObservation U D K)) : Prop :=
  ∃ entry ∈ BRURetry.registrations log, entry ∉ BRURetry.completions log

omit [DecidableEq U] [ToString U] [NSTimeInterval D] in
theorem awaited_of_dispatched {r : BRURetry U D K} (hacc : r.ledger.Accounted) {run : Nat}
    {block : RetryThenBlock K} (hmem : .completion run block ∈ r.targetQueue) :
    Awaited r.log := by
  have hdispatched : (run, block) ∈ r.ledger.dispatched :=
    List.mem_filterMap.mpr ⟨_, hmem, rfl⟩
  refine ⟨(run, block), hacc.registered_of_done (Or.inr hdispatched), ?_⟩
  intro hcalled
  exact hacc.not_called hdispatched (List.mem_map_of_mem hcalled)

omit [DecidableEq U] [ToString U] [NSTimeInterval D] in
theorem awaited_of_holdsThenBlock {r : BRURetry U D K} (hacc : r.ledger.Accounted) {run : Nat}
    (h : r.holdsThenBlock run = true) : Awaited r.log := by
  obtain ⟨_, _, hdel⟩ := hacc.account run
  have hsome : (r.deferreds run).thenBlocks ++
      BRUDeferred.queuedBlocks (r.deferreds run).syncQueue ≠ [] := by
    intro hnil
    obtain ⟨hthen, hqueued⟩ := List.append_eq_nil_iff.mp hnil
    simp [BRURetry.holdsThenBlock, hthen, hqueued] at h
  obtain ⟨block, hblock⟩ := List.exists_mem_of_ne_nil _ hsome
  have horder := hdel.order
  rw [List.append_assoc] at horder
  refine ⟨(run, block), mem_ofRun.mp ?_, ?_⟩
  · show block ∈ ofRun run r.ledger.registrations
    rw [← horder]
    exact List.mem_append_right _ hblock
  · -- the run's own list would hold the block twice
    intro hcalled
    have hnodup := hacc.nodup_ofRun run
    rw [← horder, List.nodup_append] at hnodup
    exact hnodup.2.2 block (List.mem_append_left _ (mem_ofRun.mpr hcalled)) block hblock rfl

/-! ## Attempts -/

/-- The attempts that began. -/
def attempts (log : List (RetryObservation U D K)) : List Nat :=
  log.filterMap fun
    | .performAction attempt => some attempt
    | _ => none

omit [DecidableEq U] [ToString U] [NSTimeInterval D] in
/-- Between two attempts only then-blocks are queued. -/
theorem of_attemptWork {r : BRURetry U D K} (h : r.attemptWork = 0) :
    (∀ block ∈ r.targetQueue, ∃ run then_, block = .completion run then_) ∧
      ∀ block ∈ r.syncQueue, block.holdsRetry = false := by
  rw [BRURetry.attemptWork_eq] at h
  constructor
  · intro block hblock
    cases block with
    | action attempt =>
      have hpos : 0 < r.targetQueue.countP RetryTargetBlock.isAction :=
        List.countP_pos_iff.mpr ⟨_, hblock, rfl⟩
      omega
    | policy success error attempt nextDelay =>
      have hpos : 0 < r.targetQueue.countP RetryTargetBlock.isPolicy :=
        List.countP_pos_iff.mpr ⟨_, hblock, rfl⟩
      omega
    | completion run block => exact ⟨run, block, rfl⟩
  · intro block hblock
    have hpos : 0 < r.syncQueue.length := List.length_pos_of_mem hblock
    omega

/-- An attempt begins in a start or in the callback of the timer. -/
theorem attempts_eq {r r' : BRURetry U D K} {e : BRURetry.Event U D K}
    (hstep : BRURetry.step r e = .ok r') (hcall : isCall e = false) (he : e ≠ .timerCallback) :
    attempts r'.log = attempts r.log := by
  obtain ⟨entries, hlog, hentries⟩ := BRURetry.step_log hstep
  have hnone : attempts entries = [] := by
    rw [attempts, List.filterMap_eq_nil_iff]
    intro o ho
    have hlogs := hentries o ho
    cases o with
    | performAction attempt => cases e <;> simp_all [BRURetry.Event.logs, isCall]
    | _ => rfl
  have happend : attempts (r.log ++ entries) = attempts r.log ++ attempts entries :=
    List.filterMap_append ..
  rw [hlog, happend, hnone, List.append_nil]

/-! ## The contract -/

/-- Between two steps a retry lives exactly as long as something holds it. -/
structure Settled (delay : D) (s : RetryLifetime U D K) : Prop where
  alive : s.alive = s.referenced
  /-- What it did, it did while it was alive. -/
  logged : ∃ r : BRURetry U D K, Reachable BRURetry.step (.initWithActionBlock delay) r ∧
    r.log = s.retry.log ∧ (s.alive = true → s.retry = r)
  /-- Then it called every then-block, and no block of it is left that holds it. -/
  gone : s.alive = false → Gone s.retry ∧
    ∀ run, ofRun run (BRURetry.completions s.retry.log) =
      ofRun run (BRURetry.registrations s.retry.log)
  /-- The deferreds go on as if it were alive. -/
  deferreds : ∃ r : BRURetry U D K, Reachable BRURetry.step (.initWithActionBlock delay) r ∧
    r.deferreds = s.retry.deferreds

theorem Settled.reachable {delay : D} (h : Settled delay s) (halive : s.alive = true) :
    Reachable BRURetry.step (.initWithActionBlock delay) s.retry := by
  obtain ⟨r, hreach, _, heq⟩ := h.logged
  rw [heq halive]
  exact hreach

theorem settled_of_reachable {delay : D}
    (hreach : Reachable BRURetry.step (.initWithActionBlock delay) s.retry)
    (halive : s.alive = s.referenced) : Settled delay s where
  alive := halive
  logged := ⟨s.retry, hreach, rfl, fun _ => rfl⟩
  gone hgone := by
    have hacc := BRURetry.accounted_of_reachable hreach
    have hnone := gone_of_not_referenced hacc (halive.symm.trans hgone)
    exact ⟨hnone, hnone.completions_eq hacc⟩
  deferreds := ⟨s.retry, hreach, rfl⟩

/-- The deferreds of a retry that is gone do what those of one that is alive would do. -/
theorem Returns.deferreds {delay : D} {r r' l : BRURetry U D K} (h : Returns r r')
    (hreach : Reachable BRURetry.step (.initWithActionBlock delay) l)
    (hdeferreds : l.deferreds = r.deferreds) :
    ∃ l' : BRURetry U D K, Reachable BRURetry.step (.initWithActionBlock delay) l' ∧
      l'.deferreds = r'.deferreds := by
  cases h with
  | continuation | sync | timer => exact ⟨l, hreach, hdeferreds⟩
  | @deferred _ run hstep =>
    cases BRURetry.step_transition hstep with
    | @runDeferred _ deferred blocks hrun =>
      have hl : BRURetry.step l (.runDeferred run) = .ok
          { l with
            deferreds := Function.update l.deferreds run deferred
            targetQueue := l.targetQueue ++ blocks.map (.completion run) } := by
        simp [BRURetry.step, hdeferreds, hrun]
      exact ⟨_, hreach.next hl, by rw [hdeferreds]⟩

theorem Settled.step {delay : D} (h : Settled delay s) (hstep : s.step e = .ok s') :
    Settled delay s' := by
  simp only [RetryLifetime.step, bind_eq_ok, pure_eq_ok] at hstep
  obtain ⟨m, hperform, rfl⟩ := hstep
  cases halive : s.alive with
  | true =>
    obtain ⟨hm, hretry⟩ := perform_alive halive hperform
    refine settled_of_reachable ?_ (by rw [hm, Bool.true_and]; rfl)
    rcases hretry with hsame | ⟨e', _, hr, _⟩
    · show Reachable BRURetry.step (.initWithActionBlock delay) m.retry
      rw [hsame]
      exact h.reachable halive
    · exact (h.reachable halive).next hr
  | false =>
    have hreferenced : s.referenced = false := by rw [← h.alive, halive]
    obtain ⟨howners, hbusy, -⟩ := referenced_eq_false.mp hreferenced
    obtain ⟨hreturns, hm⟩ := perform_gone halive hreferenced hperform
    obtain ⟨hgone, hcalled⟩ := h.gone halive
    obtain ⟨hlog, hgone'⟩ := hreturns.gone hgone
    obtain ⟨r, hreach, hrlog, _⟩ := h.logged
    obtain ⟨l, hlreach, hdeferreds⟩ := h.deferreds
    have hmalive : m.alive = false := by
      rw [hm]
      exact halive
    have hmreferenced : m.referenced = false := by
      apply hgone'.not_referenced
      · rw [hm]
        exact howners
      · rw [hm]
        exact hbusy
    refine ⟨?_, ⟨r, hreach, hrlog.trans hlog.symm, by simp [hmalive]⟩, fun _ => ⟨hgone', ?_⟩,
      hreturns.deferreds hlreach hdeferreds⟩
    · show (m.alive && m.referenced) = m.referenced
      rw [hmreferenced, Bool.and_false]
    · show ∀ run, ofRun run (BRURetry.completions m.retry.log) =
        ofRun run (BRURetry.registrations m.retry.log)
      rw [hlog]
      exact hcalled

theorem settled_init (delay : D) :
    Settled delay (initWithActionBlock delay : RetryLifetime U D K) :=
  settled_of_reachable (.refl _) rfl

/-- A retry that is gone stays gone, and logs nothing. -/
theorem step_gone {delay : D} (h : Settled delay s) (halive : s.alive = false)
    (hstep : s.step e = .ok s') : s'.alive = false ∧ s'.retry.log = s.retry.log := by
  have hreferenced : s.referenced = false := by rw [← h.alive, halive]
  simp only [step, bind_eq_ok, pure_eq_ok] at hstep
  obtain ⟨m, hperform, rfl⟩ := hstep
  obtain ⟨hreturns, hm⟩ := perform_gone halive hreferenced hperform
  refine ⟨?_, (hreturns.gone (h.gone halive).1).1⟩
  rw [hm]
  simp [halive]

theorem run_gone {delay : D} (h : Settled delay s) (halive : s.alive = false)
    {events : List (Event U D K)} (hrun : run step s events = .ok s') :
    s'.alive = false ∧ s'.retry.log = s.retry.log := by
  have hinv : Settled delay s' ∧ s'.alive = false ∧ s'.retry.log = s.retry.log := by
    refine run_invariant
      (I := fun m => Settled delay m ∧ m.alive = false ∧ m.retry.log = s.retry.log)
      ?_ ⟨h, halive, rfl⟩ hrun
    rintro m e n ⟨hm, hgone, hlog⟩ hstep
    obtain ⟨hgone', hlog'⟩ := step_gone hm hgone hstep
    exact ⟨hm.step hstep, hgone', hlog'.trans hlog⟩
  exact hinv.2

/-- In Delay no block of an attempt holds the retry. -/
theorem held_of_delay {delay : D} (h : Settled delay s) (halive : s.alive = true)
    (htimer : s.retry.timer ≠ none) :
    0 < s.owners ∨ s.busy = true ∨ Awaited s.retry.log := by
  have hreach := h.reachable halive
  have hacc := BRURetry.accounted_of_reachable hreach
  have hwork := ((BRURetry.invariants_of_reachable hreach).1.delay_of_timer htimer).2
  obtain ⟨htarget, hsync⟩ := of_attemptWork hwork
  by_contra hnone
  simp only [not_or, Nat.not_lt, Nat.le_zero, Bool.not_eq_true] at hnone
  obtain ⟨howners, hbusy, hawaited⟩ := hnone
  have hreferenced : s.referenced = false := by
    refine referenced_eq_false.mpr ⟨howners, hbusy, ?_, hsync, ?_⟩
    · rw [List.eq_nil_iff_forall_not_mem]
      intro block hblock
      obtain ⟨run, then_, rfl⟩ := htarget block hblock
      exact hawaited (awaited_of_dispatched hacc hblock)
    · intro run _
      rw [← Bool.not_eq_true]
      intro hheld
      exact hawaited (awaited_of_holdsThenBlock hacc hheld)
  rw [← h.alive, halive] at hreferenced
  cases hreferenced

/-- An attempt begins only while there is an owner, or while a block of the client runs, or
while a completion block is still to be called. -/
theorem held_of_attempt {delay : D} (h : Settled delay s) (hstep : s.step e = .ok s')
    (hmore : attempts s'.retry.log ≠ attempts s.retry.log) :
    0 < s.owners ∨ s.busy = true ∨ Awaited s.retry.log := by
  cases halive : s.alive with
  | false =>
    rw [(step_gone h halive hstep).2] at hmore
    exact absurd rfl hmore
  | true =>
    simp only [step, bind_eq_ok, pure_eq_ok] at hstep
    obtain ⟨m, hperform, rfl⟩ := hstep
    obtain ⟨_, hsame | ⟨e', _, hr, hcall⟩⟩ := perform_alive halive hperform
    · exact absurd (by rw [hsame]) hmore
    · by_cases hcalled : isCall e' = true
      · exact Or.inl (hcall hcalled)
      · by_cases he : e' = .timerCallback
        · rw [he] at hr
          generalize m.retry = r at hr
          cases BRURetry.step_transition hr with
          | timerCallback htimer _ => exact held_of_delay h halive (by rw [htimer]; simp)
        · exact absurd (attempts_eq hr (by simpa using hcalled) he) hmore

/-- What holds of a retry and of those that own it. -/
structure RetryLifetimeContract (delay : D) (s : RetryLifetime U D K) : Prop where
  /-- It is gone as soon as nothing holds it, -/
  alive_iff : s.alive = s.referenced
  /-- and until then it is a retry. -/
  refines : s.alive = true → Reachable BRURetry.step (.initWithActionBlock delay) s.retry
  /-- An attempt begins only while there is an owner, or while a block of the client runs, or
  while a completion block is still to be called. -/
  begun : ∀ e s', step s e = .ok s' → attempts s'.retry.log ≠ attempts s.retry.log →
    0 < s.owners ∨ s.busy = true ∨ Awaited s.retry.log
  /-- No completion block is called twice, or before its run was resolved, or out of order, -/
  called_once : ((BRURetry.completions s.retry.log).map fun entry => entry.2.address).Nodup
  after_resolution : Log.Justified BRURetry.AfterResolution s.retry.log
  in_order : ∀ run, ofRun run (BRURetry.completions s.retry.log) <+:
    ofRun run (BRURetry.registrations s.retry.log)
  /-- and the retry is not gone before all of them have been called. -/
  delivered : s.alive = false → ∀ run, ofRun run (BRURetry.completions s.retry.log) =
    ofRun run (BRURetry.registrations s.retry.log)
  /-- Once it is gone, it does nothing. -/
  silent : s.alive = false → ∀ events s', run step s events = .ok s' →
    s'.alive = false ∧ s'.retry.log = s.retry.log
  /-- What fails is `checkInvariants`, or a continuation block that was given inconsistent
  results, and nothing fails once it is gone. -/
  assertions : ∀ e a, step s e = .error (.failed a) →
    s.alive = true ∧ (a = .invalidState ∨ a = .inconsistentResults)

theorem perform_failed {a : Assertion} (hfailed : s.perform e = .error (.failed a)) :
    (s.alive = true ∧ ∃ e', BRURetry.step s.retry e' = .error (.failed a)) ∨
      ∃ run, (s.retry.deferreds run).runSync = .error (.failed a) := by
  cases e with
  | retry e' =>
    simp only [perform, bind_eq_failed, enabledIf_ne_failed, false_or] at hfailed
    obtain ⟨_, _, _, _, hfailed⟩ := hfailed
    cases halive : s.alive with
    | true =>
      rw [if_pos halive] at hfailed
      simp only [bind_eq_failed, pure_ne_failed, and_false, exists_false, or_false] at hfailed
      exact Or.inl ⟨rfl, e', hfailed⟩
    | false =>
      rw [if_neg (by simp [halive])] at hfailed
      simp only [bind_eq_failed, pure_ne_failed, and_false, exists_false, or_false] at hfailed
      cases e' with
      | runDeferred run =>
        simp only [selfGone, BRURetry.step, bind_eq_failed, pure_ne_failed, and_false,
          exists_false, or_false] at hfailed
        exact Or.inr ⟨run, hfailed⟩
      | runSync =>
        simp only [selfGone] at hfailed
        split at hfailed <;> simp at hfailed
      | _ => simp [selfGone] at hfailed
  | _ => simp [perform] at hfailed

/-- In every run of a retry, its owners and its client, the retry lives exactly as long as
something holds it, and it does not leave before the completion blocks that were passed to it
have been called. -/
theorem retry_lifetime {delay : D} {events : List (Event U D K)}
    (hrun : run step (initWithActionBlock delay) events = .ok s) :
    s.RetryLifetimeContract delay := by
  have h : Settled delay s := run_invariant (fun _ _ _ h hstep => h.step hstep)
    (settled_init delay) hrun
  obtain ⟨r, hreach, hlog, _⟩ := h.logged
  have hacc := BRURetry.accounted_of_reachable hreach
  refine
    { alive_iff := h.alive, refines := h.reachable, begun := fun _ _ => held_of_attempt h,
      called_once := ?_, after_resolution := ?_, in_order := ?_,
      delivered := fun halive => (h.gone halive).2, silent := fun halive _ _ => run_gone h halive,
      assertions := ?_ }
  · rw [← hlog]
    exact hacc.called
  · rw [← hlog]
    exact BRURetry.afterResolution_of_reachable hreach
  · intro run
    rw [← hlog]
    exact (List.prefix_append _ _).trans (hacc.done_prefix run)
  · intro e a hfailed
    simp only [step, bind_eq_failed, pure_ne_failed, and_false, exists_false, or_false]
      at hfailed
    rcases perform_failed hfailed with ⟨halive, e', hstep⟩ | ⟨run, hdeferred⟩
    · exact ⟨halive, BRURetry.step_failed_of_reachable (h.reachable halive) hstep⟩
    · -- a deferred is resolved once, so this does not happen
      obtain ⟨l, hlreach, hdeferreds⟩ := h.deferreds
      obtain ⟨_, _, hdel⟩ := (BRURetry.accounted_of_reachable hlreach).account run
      rw [← hdeferreds] at hdeferred
      exact absurd hdeferred (hdel.runSync_ne_failed a)

/-- A retry is started with a completion block or without, and then nobody owns it.  Its first
attempt fails, and the policy wants another one. -/
def abandoned (completionBlock : Option Nat) : List (Event Nat Nat Nat) :=
  [.retry (.start 7 completionBlock), .release, .retry .runAction,
    .retry (.continuation 1 ⟨false, some ⟨"d", 1, []⟩, .transient⟩), .retry .runSync, .endBlock,
    .retry (.runPolicy .retry 0), .retry .runSync]

/-- The second attempt, the end of the run, and the call of the completion block. -/
def secondAttempt : List (Event Nat Nat Nat) :=
  [.retry .timerCallback, .retry .runAction, .retry (.continuation 2 ⟨true, none, .final⟩),
    .endBlock, .retry (.runDeferred 0), .retry .runSync, .retry (.runDeferred 0),
    .retry .runCompletion, .endBlock]

/-- The completion block keeps the retry until it has been called. -/
theorem retry_lifetime_abandoned : ∃ s : RetryLifetime Nat Nat Nat,
    run step (initWithActionBlock 0) (abandoned (some 100) ++ secondAttempt) = .ok s ∧
      s.alive = false ∧ BRURetry.completions s.retry.log = [(0, ⟨0, 100⟩)] ∧
      s.RetryLifetimeContract 0 := by
  obtain ⟨s, hrun, halive, hcalled⟩ : ∃ s : RetryLifetime Nat Nat Nat,
      run step (initWithActionBlock 0) (abandoned (some 100) ++ secondAttempt) = .ok s ∧
        s.alive = false ∧ BRURetry.completions s.retry.log = [(0, ⟨0, 100⟩)] :=
    ⟨_, rfl, rfl, rfl⟩
  exact ⟨s, hrun, halive, hcalled, retry_lifetime hrun⟩

/-- Without one, nothing holds the retry in Delay, and its run is never resolved. -/
example : ∃ s : RetryLifetime Nat Nat Nat,
    run step (initWithActionBlock 0) (abandoned none) = .ok s ∧ s.alive = false ∧
      BRURetry.resolutions s.retry.log = [] := ⟨_, rfl, rfl, rfl⟩

end RetryLifetime

end BromiumCoreUtils
