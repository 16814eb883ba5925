import BromiumCoreUtils.Lib.Log
import BromiumCoreUtils.RateLimiter.Conflation

/-!
# Deliveries never overlap

`syncQueue` is serial, but a delivery is not over when its block returns: it is
over when its completion block is called.  The queue is suspended for as long,
and `Exclusive` ties the suspend count, the property `completionBlock`, the
completion blocks that were made and the running block together.

`Answered` says that every call of `resultBlock` is still the awaited one or
has its completion after it in the log, so no two of them overlap
(`deliveries_never_overlap`).
-/

namespace BromiumCoreUtils

open Machine Log

namespace BRURateLimiter

variable {T : Type} {l l' : BRURateLimiter T} {e : Event T}

/-- The completion block was made and has not been called. -/
def Awaited (l : BRURateLimiter T) (completionBlock : Nat) : Prop :=
  completionBlock < l.completionBlocks ∧ l.completionBlockDidRun completionBlock = false

/-- The calls of `resultBlock` whose completion block has not been called. -/
def awaiting (l : BRURateLimiter T) : List Nat :=
  l.given.filter fun completionBlock => !l.completionBlockDidRun completionBlock

/-! ## One completion block at a time -/

/-- The property holds the one completion block that is awaited, and the queue
is suspended as long as it does. -/
structure Exclusive (l : BRURateLimiter T) : Prop where
  suspended : l.suspendCount = if l.completionBlock.isSome then 1 else 0
  awaited : ∀ c, l.Awaited c ↔ l.completionBlock = some c
  given : ∀ c ∈ l.given, c < l.completionBlocks
  nodup : l.given.Nodup
  taking : l.delivery = some .take → l.completionBlock = none
  taken : ∀ result, l.delivery = some (.performSetResult result) → l.completionBlock = none
  calling : ∀ result c, l.delivery = some (.resultBlock result c) →
    l.completionBlock = some c ∧ c ∉ l.given

/-- A step that leaves the queue, the property and the completion blocks
alone. -/
theorem Exclusive.congr (h : Exclusive l) (hsuspend : l'.suspendCount = l.suspendCount)
    (hblock : l'.completionBlock = l.completionBlock)
    (hblocks : l'.completionBlocks = l.completionBlocks)
    (hdidRun : l'.completionBlockDidRun = l.completionBlockDidRun)
    (hgiven : l'.given = l.given) (hdelivery : l'.delivery = l.delivery) :
    Exclusive l' where
  suspended := by rw [hsuspend, hblock]; exact h.suspended
  awaited c := by
    unfold Awaited
    rw [hblocks, hdidRun, hblock]
    exact h.awaited c
  given := by rw [hgiven, hblocks]; exact h.given
  nodup := by rw [hgiven]; exact h.nodup
  taking := by rw [hdelivery, hblock]; exact h.taking
  taken := by rw [hdelivery, hblock]; exact h.taken
  calling := by rw [hdelivery, hblock, hgiven]; exact h.calling

/-- With the queue running, nothing is awaited. -/
theorem Exclusive.completionBlock_eq_none (h : Exclusive l) (hsuspend : l.suspendCount = 0) :
    l.completionBlock = none := by
  have hsuspended := h.suspended
  cases hblock : l.completionBlock with
  | none => rfl
  | some c =>
    rw [hblock, hsuspend] at hsuspended
    simp at hsuspended

/-- The new completion block is the awaited one. -/
theorem Exclusive.performSetResult (h : Exclusive l) {result : T}
    (hdelivery : l.delivery = some (.performSetResult result)) :
    Exclusive
      { l with
        completionBlock := some l.completionBlocks
        completionBlocks := l.completionBlocks + 1
        completionBlockDidRun :=
          Function.update l.completionBlockDidRun l.completionBlocks false
        suspendCount := l.suspendCount + 1
        delivery := some (.resultBlock result l.completionBlocks) } := by
  have hnone := h.taken result hdelivery
  have hfresh : l.completionBlocks ∉ l.given := by
    intro hmem
    have hlt := h.given _ hmem
    omega
  refine
    { suspended := ?_, awaited := ?_, given := ?_, nodup := h.nodup,
      taking := by simp, taken := by simp, calling := ?_ }
  · have hsuspended := h.suspended
    rw [hnone] at hsuspended
    simp [hsuspended]
  · intro c
    unfold Awaited
    by_cases hc : c = l.completionBlocks
    · simp [hc]
    · -- the older ones have been called
      have hold := h.awaited c
      rw [hnone] at hold
      unfold Awaited at hold
      simp only [Function.update_of_ne hc]
      constructor
      · rintro ⟨hlt, hrun⟩
        exact absurd (hold.mp ⟨by omega, hrun⟩) (by simp)
      · intro heq
        exact absurd (Option.some.inj heq).symm hc
  · intro c hmem
    have hlt := h.given c hmem
    show c < l.completionBlocks + 1
    omega
  · intro r c heq
    injection heq with heq
    injection heq with _ heq
    rw [← heq]
    exact ⟨rfl, hfresh⟩

/-- Calling the awaited completion block leaves none. -/
theorem Exclusive.completion (h : Exclusive l) {c : Nat} (hgiven : c ∈ l.given)
    (hfirst : l.completionBlockDidRun c = false) :
    Exclusive
      { l with
        completionBlockDidRun := Function.update l.completionBlockDidRun c true
        completionBlock := none
        suspendCount := l.suspendCount - 1
        log := l.log ++ [.completion c] } := by
  have hblock := (h.awaited c).mp ⟨h.given c hgiven, hfirst⟩
  have hsuspended := h.suspended
  rw [hblock] at hsuspended
  refine
    { suspended := ?_, awaited := ?_, given := h.given, nodup := h.nodup,
      taking := fun _ => rfl, taken := fun _ _ => rfl, calling := ?_ }
  · simp [hsuspended]
  · intro c'
    unfold Awaited
    by_cases hc : c' = c
    · simp [hc]
    · have hother := h.awaited c'
      rw [hblock] at hother
      unfold Awaited at hother
      simp only [Function.update_of_ne hc]
      constructor
      · intro hawaited
        exact absurd (Option.some.inj (hother.mp hawaited)).symm hc
      · intro heq
        cases heq
  · -- a block that has not been handed out cannot be called
    intro result c' hdelivery
    obtain ⟨hblock', hnot⟩ := h.calling result c' hdelivery
    rw [hblock] at hblock'
    rw [Option.some.inj hblock'] at hgiven
    exact absurd hgiven hnot

/-- One step keeps one completion block at a time. -/
theorem step_exclusive (h : Exclusive l) (hstep : step l e = .ok l') : Exclusive l' := by
  cases step_transition hstep with
  | setEmpty _ => exact h.congr rfl rfl rfl rfl rfl rfl
  | setFull _ => exact h.congr rfl rfl rfl rfl rfl rfl
  | enqueue _ => exact h.congr rfl rfl rfl rfl rfl rfl
  | beginDelivery _ hsuspend _ =>
    have hnone := h.completionBlock_eq_none hsuspend
    exact
      { suspended := h.suspended, awaited := h.awaited, given := h.given, nodup := h.nodup,
        taking := fun _ => hnone, taken := by simp, calling := by simp }
  | take hdelivery _ =>
    have hnone := h.taking hdelivery
    exact
      { suspended := h.suspended, awaited := h.awaited, given := h.given, nodup := h.nodup,
        taking := by simp, taken := fun _ _ => hnone, calling := by simp }
  | performSetResult hdelivery _ => exact h.performSetResult hdelivery
  | @callResultBlock result c hdelivery =>
    obtain ⟨hblock, hnot⟩ := h.calling result c hdelivery
    have hawaited := (h.awaited c).mpr hblock
    refine
      { suspended := h.suspended, awaited := h.awaited, given := ?_, nodup := ?_,
        taking := by simp, taken := by simp, calling := by simp }
    · intro c' hmem
      rcases List.mem_append.mp hmem with hmem | hmem
      · exact h.given c' hmem
      · rw [List.mem_singleton.mp hmem]
        exact hawaited.1
    · rw [List.nodup_append]
      refine ⟨h.nodup, by simp, ?_⟩
      intro c' hmem d hd heq
      rw [List.mem_singleton.mp hd] at heq
      rw [heq] at hmem
      exact hnot hmem
  | endDelivery _ =>
    exact
      { suspended := h.suspended, awaited := h.awaited, given := h.given, nodup := h.nodup,
        taking := by simp, taken := by simp, calling := by simp }
  | completion hgiven hfirst => exact h.completion hgiven hfirst

/-- At most one call of `resultBlock` awaits its completion. -/
theorem Exclusive.awaiting_length (h : Exclusive l) : l.awaiting.length ≤ 1 := by
  have hnodup : l.awaiting.Nodup := h.nodup.filter _
  have heq : ∀ c ∈ l.awaiting, l.completionBlock = some c := by
    intro c hmem
    obtain ⟨hgiven, hrun⟩ := List.mem_filter.mp hmem
    exact (h.awaited c).mp ⟨h.given c hgiven, by simpa using hrun⟩
  match hlist : l.awaiting with
  | [] => simp
  | [_] => simp
  | c :: d :: rest =>
    rw [hlist] at hnodup heq
    have hc := heq c (by simp)
    have hd := heq d (by simp)
    rw [hc] at hd
    simp [Option.some.inj hd] at hnodup

/-! ## The calls of `resultBlock` -/

/-- A call of `resultBlock` is the awaited one, or its completion block was
called after it. -/
def Answered (l : BRURateLimiter T) : Prop :=
  ∀ pre result c post, l.log = pre ++ .resultBlock result c :: post →
    (l.completionBlock = some c ∧ c ∈ l.given) ∨ .completion c ∈ post

/-- Before `resultBlock` is called, the completion block of each earlier call
was called after that one. -/
def AfterCompletion (pre : List (RateLimiterObservation T)) (o : RateLimiterObservation T) :
    Prop :=
  ∀ result c, o = .resultBlock result c →
    ∀ pre' result' c' mid, pre = pre' ++ .resultBlock result' c' :: mid →
      .completion c' ∈ mid

/-- A further entry keeps what was answered. -/
theorem Answered.concat (h : Answered l) {o : RateLimiterObservation T}
    (hlog : l'.log = l.log ++ [o]) (hkept : ∀ c, l.completionBlock = some c → c ∈ l.given →
      (l'.completionBlock = some c ∧ c ∈ l'.given) ∨ o = .completion c)
    (hnew : ∀ result c, o = .resultBlock result c →
      l'.completionBlock = some c ∧ c ∈ l'.given) : Answered l' := by
  intro pre result c post heq
  rw [hlog] at heq
  rcases append_singleton_eq_append_cons heq with ⟨_, ho, _⟩ | ⟨post', rfl, hold⟩
  · exact Or.inl (hnew result c ho.symm)
  · rcases h pre result c post' hold with ⟨hblock, hgiven⟩ | hmem
    · rcases hkept c hblock hgiven with hkept | rfl
      · exact Or.inl hkept
      · exact Or.inr (by simp)
    · exact Or.inr (List.mem_append_left _ hmem)

/-- One step keeps the calls answered. -/
theorem step_answered (hexcl : Exclusive l) (h : Answered l) (hstep : step l e = .ok l') :
    Answered l' := by
  cases step_transition hstep with
  | setEmpty _ =>
    exact h.concat rfl (fun _ hblock hgiven => Or.inl ⟨hblock, hgiven⟩) (by simp)
  | setFull _ =>
    exact h.concat rfl (fun _ hblock hgiven => Or.inl ⟨hblock, hgiven⟩) (by simp)
  | enqueue _ => exact h
  | beginDelivery _ _ _ => exact h
  | take _ _ => exact h
  | performSetResult _ hnil =>
    -- nothing was awaited, so every call is answered
    intro pre result c post heq
    rcases h pre result c post heq with ⟨hblock, _⟩ | hmem
    · rw [hnil] at hblock
      cases hblock
    · exact Or.inr hmem
  | @callResultBlock result c hdelivery =>
    refine h.concat rfl ?_ ?_
    · intro c' hblock hgiven
      exact Or.inl ⟨hblock, List.mem_append_left _ hgiven⟩
    · intro result' c' heq
      injection heq with _ heq
      rw [← heq]
      exact ⟨(hexcl.calling result c hdelivery).1, by simp⟩
  | endDelivery _ => exact h
  | @completion c hgiven hfirst =>
    refine h.concat rfl ?_ (by simp)
    intro c' hblock _
    have hc := (hexcl.awaited c).mp ⟨hexcl.given c hgiven, hfirst⟩
    rw [hc] at hblock
    exact Or.inr (by rw [Option.some.inj hblock])

/-- One step calls `resultBlock` only after the earlier calls were answered. -/
theorem step_afterCompletion (hexcl : Exclusive l) (hanswered : Answered l)
    (h : Justified AfterCompletion l.log) (hstep : step l e = .ok l') :
    Justified AfterCompletion l'.log := by
  cases step_transition hstep with
  | setEmpty _ => exact justified_concat_iff.mpr ⟨h, by simp [AfterCompletion]⟩
  | setFull _ => exact justified_concat_iff.mpr ⟨h, by simp [AfterCompletion]⟩
  | enqueue _ => exact h
  | beginDelivery _ _ _ => exact h
  | take _ _ => exact h
  | performSetResult _ _ => exact h
  | @callResultBlock result c hdelivery =>
    refine justified_concat_iff.mpr ⟨h, ?_⟩
    intro _ _ _ pre result' c' mid hlog
    obtain ⟨hblock, hnot⟩ := hexcl.calling result c hdelivery
    rcases hanswered pre result' c' mid hlog with ⟨hblock', hgiven⟩ | hmem
    · -- the awaited block has not been handed out yet
      rw [hblock] at hblock'
      rw [← Option.some.inj hblock'] at hgiven
      exact absurd hgiven hnot
    · exact hmem
  | endDelivery _ => exact h
  | completion _ _ => exact justified_concat_iff.mpr ⟨h, by simp [AfterCompletion]⟩

/-! ## The contract -/

/-- The deliveries of a rate limiter neither overlap nor block. -/
structure DeliveryContract (l : BRURateLimiter T) : Prop where
  /-- At most one delivery is owed: by a setter, by the queue, or by the running
  block until it takes its value. -/
  owed_once : l.owed ≤ 1
  /-- The box is full if and only if one is owed. -/
  full_iff : l.concurrentBox.value.isSome = true ↔ l.owed = 1
  /-- The `take` of a delivery finds a value. -/
  take_finds : l.delivery = some .take → ∃ l', step l .take = .ok l'
  /-- At most one call of `resultBlock` awaits its completion. -/
  awaiting_once : l.awaiting.length ≤ 1
  /-- Between two calls of `resultBlock` the first one is completed. -/
  no_overlap : ∀ pre result c mid result' c' post,
    l.log = pre ++ .resultBlock result c :: mid ++ .resultBlock result' c' :: post →
      .completion c ∈ mid
  /-- The assertion of `performSetResult:` does not fail. -/
  assertion : ∀ e, step l e ≠ .error (.failed .completionBlockNotNil)
  /-- The queue is suspended once while a completion is awaited. -/
  suspended : (∃ c, l.Awaited c) → l.suspendCount = 1
  /-- Otherwise it is not suspended. -/
  resumed : (¬ ∃ c, l.Awaited c) → l.suspendCount = 0

theorem exclusive_of_reachable (h : Reachable step initWithTargetQueue l) :
    Exclusive l ∧ Answered l ∧ Justified AfterCompletion l.log := by
  refine h.invariant
    (I := fun l => Exclusive l ∧ Answered l ∧ Justified AfterCompletion l.log) ?_ ?_
  · refine ⟨?_, ?_, justified_nil _⟩
    · exact
        { suspended := rfl, awaited := by simp [Awaited, initWithTargetQueue],
          given := by simp [initWithTargetQueue], nodup := List.nodup_nil,
          taking := by simp [initWithTargetQueue], taken := by simp [initWithTargetQueue],
          calling := by simp [initWithTargetQueue] }
    · intro pre result c post hlog
      simp [initWithTargetQueue] at hlog
  · intro l e l' _ hinv hstep
    obtain ⟨hexcl, hanswered, hafter⟩ := hinv
    exact ⟨step_exclusive hexcl hstep, step_answered hexcl hanswered hstep,
      step_afterCompletion hexcl hanswered hafter hstep⟩

/-- Only `performSetResult:` has the assertion, and it finds no completion
block. -/
theorem Exclusive.step_ne_failed (h : Exclusive l) (e : Event T) :
    step l e ≠ .error (.failed .completionBlockNotNil) := by
  intro hfailed
  cases e with
  | performSetResult =>
    simp only [step] at hfailed
    split at hfailed
    · rename_i result hdelivery
      simp [BRURateLimiter.performSetResult, h.taken result hdelivery] at hfailed
    · cases hfailed
  | take =>
    simp only [step] at hfailed
    split at hfailed
    · split at hfailed <;> simp at hfailed
    · cases hfailed
  | callResultBlock =>
    simp only [step] at hfailed
    split at hfailed <;> simp at hfailed
  | endDelivery =>
    simp only [step] at hfailed
    split at hfailed <;> simp at hfailed
  | _ => simp [step, runCompletionBlock] at hfailed

/-- The assertion that can fail is the one about a completion block that is called again. -/
theorem Exclusive.step_failed (h : Exclusive l) {a : Assertion}
    (hfailed : step l e = .error (.failed a)) :
    a = .completionBlockDidRun ∧
      ∃ c ∈ l.given, e = .completion c ∧ l.completionBlockDidRun c = true := by
  cases e with
  | performSetResult =>
    simp only [step] at hfailed
    split at hfailed
    · rename_i result hdelivery
      simp [BRURateLimiter.performSetResult, h.taken result hdelivery] at hfailed
    · cases hfailed
  | completion c =>
    by_cases hgiven : c ∈ l.given
    · simp only [step, runCompletionBlock, bind_eq_failed, enabledIf_ne_failed,
        assertThat_eq_failed, pure_ne_failed, and_false, exists_false, or_false,
        false_or] at hfailed
      obtain ⟨_, _, hrun, heq⟩ := hfailed
      exact ⟨heq.symm, c, hgiven, rfl, by simpa using hrun⟩
    · simp [step, enabledIf, hgiven, bind, Except.bind] at hfailed
  | take =>
    simp only [step] at hfailed
    split at hfailed
    · split at hfailed <;> simp at hfailed
    · cases hfailed
  | callResultBlock =>
    simp only [step] at hfailed
    split at hfailed <;> simp at hfailed
  | endDelivery =>
    simp only [step] at hfailed
    split at hfailed <;> simp at hfailed
  | _ => simp [step] at hfailed

/-- In every reachable state the deliveries neither overlap nor block. -/
theorem deliveries_never_overlap (h : Reachable step initWithTargetQueue l) :
    DeliveryContract l := by
  obtain ⟨howed, _⟩ := invariants_of_reachable h
  obtain ⟨hexcl, _, hafter⟩ := exclusive_of_reachable h
  unfold Owed at howed
  refine
    { owed_once := ?_, full_iff := ?_, take_finds := ?_,
      awaiting_once := hexcl.awaiting_length, no_overlap := ?_,
      assertion := hexcl.step_ne_failed, suspended := ?_, resumed := ?_ }
  · rw [howed]
    split <;> omega
  · rw [howed]
    cases l.concurrentBox.value <;> simp
  · intro hdelivery
    have hpos : 0 < l.owed := by
      simp only [owed, hdelivery]
      omega
    cases hbox : l.concurrentBox.value with
    | none => simp [howed, hbox] at hpos
    | some value => simp [step, hdelivery, BRUConcurrentBox.take, hbox]
  · intro pre result c mid result' c' post hlog
    exact hafter _ _ post hlog result' c' rfl pre result c mid rfl
  · rintro ⟨c, hawaited⟩
    rw [hexcl.suspended, (hexcl.awaited c).mp hawaited]
    rfl
  · intro hnone
    have hblock : l.completionBlock = none := by
      cases hblock : l.completionBlock with
      | none => rfl
      | some c => exact absurd ⟨c, (hexcl.awaited c).mpr hblock⟩ hnone
    rw [hexcl.suspended, hblock]
    rfl

/-- A client that completes in `resultBlock`, while another value is set. -/
theorem deliveries_never_overlap_reentrant : ∃ l : BRURateLimiter Nat,
    run step initWithTargetQueue
        [.setResult 1, .enqueue, .beginDelivery, .take, .setResult 2, .enqueue,
          .performSetResult, .callResultBlock, .completion 0, .endDelivery,
          .beginDelivery] = .ok l ∧
      l.delivery = some .take ∧ DeliveryContract l := by
  obtain ⟨l, hrun, hdelivery⟩ : ∃ l : BRURateLimiter Nat,
      run step initWithTargetQueue
          [.setResult 1, .enqueue, .beginDelivery, .take, .setResult 2, .enqueue,
            .performSetResult, .callResultBlock, .completion 0, .endDelivery,
            .beginDelivery] = .ok l ∧
        l.delivery = some .take := ⟨_, rfl, rfl⟩
  exact ⟨l, hrun, hdelivery, deliveries_never_overlap ⟨_, hrun⟩⟩

end BRURateLimiter

end BromiumCoreUtils
