import BromiumCoreUtils.RateLimiter.Basic

/-!
# No final update is lost

`Owed` ties the box to the deliveries that are due: a value in the box has
exactly one delivery on its way, and an empty box has none.  `Conflated` ties
the log to the values that are still inside: what was delivered, what is being
delivered and what is in the box are values that were set, in their order, and
the last of them is the last one that was set.

With nothing left inside, the last value delivered is therefore the last one
set (`conflation_loses_no_final_update`).
-/

namespace BromiumCoreUtils

open Machine

namespace BRURateLimiter

variable {T : Type} {l l' : BRURateLimiter T} {e : Event T}

/-! ## The values -/

/-- The values that were set, in the order of the swaps. -/
def sets (log : List (RateLimiterObservation T)) : List T :=
  log.filterMap fun
    | .set result => some result
    | _ => none

/-- The values that `resultBlock` was called with. -/
def delivered (log : List (RateLimiterObservation T)) : List T :=
  log.filterMap fun
    | .resultBlock result _ => some result
    | _ => none

/-- The value that the running block has taken and not delivered. -/
def inHand : Option (Delivery T) → List T
  | some (.performSetResult result) => [result]
  | some (.resultBlock result _) => [result]
  | _ => []

/-- The values that were delivered or will be, if no other one is set. -/
def arriving (l : BRURateLimiter T) : List T :=
  delivered l.log ++ inHand l.delivery ++ l.concurrentBox.value.toList

/-! ## The invariants -/

/-- The deliveries that will take a value. -/
def owed (l : BRURateLimiter T) : Nat :=
  l.enqueues + l.syncQueue + (match l.delivery with | some .take => 1 | _ => 0)

/-- One delivery is owed if the box is full, and none if it is empty. -/
def Owed (l : BRURateLimiter T) : Prop :=
  l.owed = if l.concurrentBox.value.isSome then 1 else 0

/-- Values arrive in the order in which they were set, and the last one set
arrives. -/
structure Conflated (l : BRURateLimiter T) : Prop where
  sublist : l.arriving.Sublist (sets l.log)
  last : l.arriving.getLast? = (sets l.log).getLast?

/-- A step that sets nothing and keeps the values on their way. -/
theorem Conflated.congr (h : Conflated l) (harriving : l'.arriving = l.arriving)
    (hsets : sets l'.log = sets l.log) : Conflated l' where
  sublist := by rw [harriving, hsets]; exact h.sublist
  last := by rw [harriving, hsets]; exact h.last

/-- A value that is set takes the place of the one in the box. -/
theorem Conflated.set (h : Conflated l) (result : T)
    (hset : sets l'.log = sets l.log ++ [result])
    (harriving : l'.arriving = delivered l.log ++ inHand l.delivery ++ [result]) :
    Conflated l' := by
  have hkept : (delivered l.log ++ inHand l.delivery).Sublist l.arriving :=
    List.sublist_append_left _ _
  refine { sublist := ?_, last := ?_ }
  · rw [hset, harriving]
    exact (hkept.trans h.sublist).append (List.Sublist.refl [result])
  · rw [hset, harriving, List.getLast?_concat, List.getLast?_concat]

/-- One step keeps the values together. -/
theorem step_conflated (h : Conflated l) (hstep : step l e = .ok l') : Conflated l' := by
  cases step_transition hstep with
  | @setEmpty result _ =>
    refine h.set result ?_ ?_
    · simp [sets]
    · simp [arriving, delivered]
  | @setFull result _ _ =>
    refine h.set result ?_ ?_
    · simp [sets]
    · simp [arriving, delivered]
  | enqueue _ => exact h.congr rfl rfl
  | beginDelivery hdelivery _ _ =>
    refine h.congr ?_ rfl
    simp [arriving, hdelivery, inHand]
  | take hdelivery hbox =>
    -- the value moves from the box to the hand
    refine h.congr ?_ rfl
    simp [arriving, hdelivery, hbox, inHand, BRUConcurrentBox.emptyBox]
  | performSetResult hdelivery _ =>
    refine h.congr ?_ rfl
    simp [arriving, hdelivery, inHand]
  | callResultBlock hdelivery =>
    -- and from the hand to the log
    refine h.congr ?_ ?_
    · simp [arriving, hdelivery, inHand, delivered]
    · simp [sets]
  | endDelivery hdelivery =>
    refine h.congr ?_ rfl
    simp [arriving, hdelivery, inHand]
  | completion _ _ =>
    refine h.congr ?_ ?_
    · simp [arriving, delivered]
    · simp [sets]

/-- One step keeps one delivery for a full box. -/
theorem step_owed (h : Owed l) (hstep : step l e = .ok l') : Owed l' := by
  unfold Owed owed at h ⊢
  cases step_transition hstep with
  | setEmpty hbox =>
    simp only [hbox, Option.isSome_none, Bool.false_eq_true, if_false] at h
    simp only [Option.isSome_some, if_true]
    omega
  | setFull hbox =>
    simp only [hbox, Option.isSome_some, if_true] at h
    simp only [Option.isSome_some, if_true]
    exact h
  | enqueue hpos =>
    simp only
    rw [← h]
    omega
  | beginDelivery hdelivery _ hpos =>
    simp only [hdelivery] at h
    simp only
    rw [← h]
    omega
  | take hdelivery hbox =>
    simp only [hdelivery, hbox, Option.isSome_some, if_true] at h
    simp only [BRUConcurrentBox.emptyBox, Option.isSome_none, Bool.false_eq_true, if_false]
    omega
  | performSetResult hdelivery _ => simpa only [hdelivery] using h
  | callResultBlock hdelivery => simpa only [hdelivery] using h
  | endDelivery hdelivery => simpa only [hdelivery] using h
  | completion _ _ => exact h

/-- Both invariants hold in every reachable state. -/
theorem invariants_of_reachable (h : Reachable step initWithTargetQueue l) :
    Owed l ∧ Conflated l := by
  refine h.invariant (I := fun l => Owed l ∧ Conflated l) ?_ ?_
  · exact ⟨rfl, { sublist := List.Sublist.refl _, last := rfl }⟩
  · intro l e l' _ hinv hstep
    exact ⟨step_owed hinv.1 hstep, step_conflated hinv.2 hstep⟩

/-! ## The contract -/

/-- The values delivered are values that were set, in their order and each one
once.  With no setter between its swap and its enqueue, and no delivery queued
or running, the last value delivered is the last one set. -/
theorem conflation_loses_no_final_update (h : Reachable step initWithTargetQueue l) :
    (delivered l.log).Sublist (sets l.log) ∧
      (l.enqueues = 0 → l.syncQueue = 0 → l.delivery = none →
        (delivered l.log).getLast? = (sets l.log).getLast?) := by
  obtain ⟨howed, hconflated⟩ := invariants_of_reachable h
  constructor
  · have hleft : (delivered l.log).Sublist l.arriving := by
      rw [arriving, List.append_assoc]
      exact List.sublist_append_left _ _
    exact hleft.trans hconflated.sublist
  · intro henqueues hqueue hdelivery
    have hempty : l.concurrentBox.value = none := by
      unfold Owed owed at howed
      rw [henqueues, hqueue, hdelivery] at howed
      cases hbox : l.concurrentBox.value with
      | none => rfl
      | some value => simp [hbox] at howed
    have harriving : l.arriving = delivered l.log := by
      simp [arriving, hdelivery, hempty, inHand]
    rw [← harriving]
    exact hconflated.last

/-- Three values are set while the first one is being delivered. -/
theorem conflation_loses_no_final_update_slow_consumer : ∃ l : BRURateLimiter Nat,
    run step initWithTargetQueue
        [.setResult 1, .enqueue, .beginDelivery, .take, .setResult 2, .performSetResult,
          .callResultBlock, .setResult 3, .enqueue, .setResult 4, .endDelivery,
          .completion 0, .beginDelivery, .take, .performSetResult, .callResultBlock,
          .endDelivery] = .ok l ∧
      sets l.log = [1, 2, 3, 4] ∧ (delivered l.log).getLast? = some 4 := by
  obtain ⟨l, hrun, hsets, henqueues, hqueue, hdelivery⟩ : ∃ l : BRURateLimiter Nat,
      run step initWithTargetQueue
          [.setResult 1, .enqueue, .beginDelivery, .take, .setResult 2, .performSetResult,
            .callResultBlock, .setResult 3, .enqueue, .setResult 4, .endDelivery,
            .completion 0, .beginDelivery, .take, .performSetResult, .callResultBlock,
            .endDelivery] = .ok l ∧
        sets l.log = [1, 2, 3, 4] ∧ l.enqueues = 0 ∧ l.syncQueue = 0 ∧ l.delivery = none :=
    ⟨_, rfl, rfl, rfl, rfl, rfl⟩
  refine ⟨l, hrun, hsets, ?_⟩
  rw [(conflation_loses_no_final_update ⟨_, hrun⟩).2 henqueues hqueue hdelivery, hsets]
  rfl

end BRURateLimiter

end BromiumCoreUtils
