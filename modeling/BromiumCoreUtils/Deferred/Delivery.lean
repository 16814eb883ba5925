import BromiumCoreUtils.Deferred.Basic
import Mathlib.Data.List.Perm.Basic

/-!
# Every then-block is delivered once

`DeferredQueues` is a deferred with the two queues around it.  Calls of `then:`
and `resolve:` put blocks on `syncQueue`, which runs them one by one, and what
`processBlocks` dispatches waits on the completion queue.  That queue is
concurrent unless the client gave a serial one, so any waiting block may run
next.  It reads `self.value` when it runs.

`Accounted` carries the account of `Delivers` along a run in which `resolve:` is
called at most once.  What was dispatched is then a function of the blocks that
`syncQueue` has processed, and the place of the resolve among them does not
matter (`then_blocks_delivered_once`).
-/

namespace BromiumCoreUtils

open Machine

/-- A deferred, its completion queue, and what they have done. -/
structure DeferredQueues (B V : Type) where
  deferred : BRUDeferred B V
  /-- The blocks that were dispatched and have not run. -/
  completionQueue : List B
  -- the blocks that `syncQueue` has run, the dispatches, and the calls with
  -- their values, each in order
  processed : List (DeferredBlock B V)
  dispatched : List B
  calls : List (B × Option V)

namespace DeferredQueues

open BRUDeferred (queuedBlocks queuedValues Delivers)

variable {B V : Type}

/-- What happens next. -/
inductive Event (B V : Type) where
  | then_ (block : B)
  | resolve (value : Option V)
  /-- `syncQueue` runs its next block. -/
  | runSync
  /-- A block of the completion queue runs. -/
  | runCompletion (index : Nat)
deriving Repr

def init : DeferredQueues B V where
  deferred := BRUDeferred.init
  completionQueue := []
  processed := []
  dispatched := []
  calls := []

/-- Take one step. -/
def step (q : DeferredQueues B V) : Event B V → Exec Assertion (DeferredQueues B V)
  | .then_ block => pure { q with deferred := q.deferred.then_ block }
  | .resolve value => pure { q with deferred := q.deferred.resolve value }
  | .runSync => do
    let (deferred, blocks) ← q.deferred.runSync
    pure { q with
      deferred := deferred
      processed := q.processed ++ q.deferred.syncQueue.take 1
      completionQueue := q.completionQueue ++ blocks
      dispatched := q.dispatched ++ blocks }
  | .runCompletion index =>
    match q.completionQueue[index]? with
    | none => .error .disabled
    | some block =>
      pure { q with
        completionQueue := q.completionQueue.eraseIdx index
        calls := q.calls ++ [(block, q.deferred.value)] }

variable {q q' : DeferredQueues B V} {events : List (Event B V)}

/-- The values that `resolve:` is called with. -/
def resolves (events : List (Event B V)) : List (Option V) :=
  events.filterMap fun
    | .resolve value => some value
    | _ => none

/-- The blocks that were put on `syncQueue`. -/
def enqueued (q : DeferredQueues B V) : List (DeferredBlock B V) :=
  q.processed ++ q.deferred.syncQueue

theorem mem_queuedValues {value : Option V} {blocks : List (DeferredBlock B V)} :
    value ∈ queuedValues blocks ↔ .resolve value ∈ blocks := by
  simp only [queuedValues, List.mem_filterMap]
  constructor
  · rintro ⟨block, hmem, heq⟩
    cases block with
    | resolve v =>
      cases heq
      exact hmem
    | then_ b => cases heq
  · intro hmem
    exact ⟨_, hmem, rfl⟩

/-! ## The account of a run -/

/-- The account of the deferred, over all the blocks that were put on its queue,
and the dispatched blocks as the ones that have run and the ones that wait. -/
structure Accounted (q : DeferredQueues B V) : Prop where
  delivers : Delivers q.deferred (queuedBlocks q.enqueued) q.dispatched
    (queuedValues q.enqueued).head?
  once : (queuedValues q.enqueued).length ≤ 1
  perm : (q.calls.map Prod.fst ++ q.completionQueue).Perm q.dispatched
  values : ∀ call ∈ q.calls, .resolve call.2 ∈ q.processed

theorem accounted_init : Accounted (init : DeferredQueues B V) where
  delivers := BRUDeferred.delivers_init
  once := Nat.zero_le _
  perm := List.Perm.refl _
  values := by simp [init]

/-- Running a block of `syncQueue` puts no block on it. -/
theorem enqueued_runSync {d : BRUDeferred B V} {blocks : List B}
    (hrun : q.deferred.runSync = .ok (d, blocks)) :
    q.processed ++ q.deferred.syncQueue.take 1 ++ d.syncQueue = q.enqueued := by
  have hqueue : d.syncQueue = q.deferred.syncQueue.drop 1 := by
    unfold BRUDeferred.runSync at hrun
    split at hrun
    · cases hrun
    · rename_i value rest hq
      simp only [BRUDeferred.resolveBlock, BRUDeferred.processBlocks, bind_eq_ok,
        pure_eq_ok, Prod.mk.injEq] at hrun
      obtain ⟨_, _, hd, _⟩ := hrun
      rw [← hd, hq]
      rfl
    · rename_i block rest hq
      simp only [pure_eq_ok, BRUDeferred.thenBlock, BRUDeferred.processBlocks] at hrun
      rw [hq]
      split at hrun
      · rw [← (Prod.mk.inj hrun).1]
        rfl
      · rw [← (Prod.mk.inj hrun).1]
        rfl
  rw [hqueue, List.append_assoc, List.take_append_drop]
  rfl

/-- The one value that was put on the queue. -/
theorem Accounted.values_eq (h : Accounted q) :
    queuedValues q.processed ++ queuedValues q.deferred.syncQueue =
      (queuedValues q.enqueued).head?.toList := by
  have hone := h.once
  have happend : queuedValues q.enqueued =
      queuedValues q.processed ++ queuedValues q.deferred.syncQueue := by
    simp [enqueued, queuedValues]
  rw [← happend]
  cases hlist : queuedValues q.enqueued with
  | nil => rfl
  | cons value values =>
    rw [hlist, List.length_cons] at hone
    have hnil : values = [] := List.eq_nil_of_length_eq_zero (by omega)
    rw [hnil]
    rfl

/-- While the deferred is pending, its resolve has not been processed. -/
theorem Accounted.processed_of_pending (h : Accounted q)
    (hs : q.deferred.state = .pending) : queuedValues q.processed = [] := by
  have hvalues := h.values_eq
  rw [← (h.delivers.pending hs).2] at hvalues
  exact List.append_left_eq_self.mp hvalues

/-- A resolved deferred has processed its resolve. -/
theorem Accounted.processed_of_resolved (h : Accounted q)
    (hs : q.deferred.state = .resolved) :
    queuedValues q.processed = [q.deferred.value] := by
  obtain ⟨_, hqueue, hvalue⟩ := h.delivers.resolved hs
  have hvalues := h.values_eq
  rw [hqueue, hvalue, List.append_nil] at hvalues
  exact hvalues

/-- A resolve that was processed has resolved the deferred. -/
theorem Accounted.resolved_of_mem (h : Accounted q) {value : Option V}
    (hmem : .resolve value ∈ q.processed) :
    q.deferred.state = .resolved ∧ value = q.deferred.value := by
  rw [← mem_queuedValues] at hmem
  cases hs : q.deferred.state with
  | pending =>
    rw [h.processed_of_pending hs] at hmem
    cases hmem
  | resolved =>
    rw [h.processed_of_resolved hs, List.mem_singleton] at hmem
    exact ⟨rfl, hmem⟩

/-- A dispatched block reads the value of a resolve that was processed. -/
theorem Accounted.resolve_mem (h : Accounted q) (hdone : q.dispatched ≠ []) :
    .resolve q.deferred.value ∈ q.processed := by
  cases hs : q.deferred.state with
  | pending => exact absurd (h.delivers.pending hs).1 hdone
  | resolved =>
    rw [← mem_queuedValues, h.processed_of_resolved hs]
    exact List.mem_singleton_self _

/-- The resolves that were put on the queue and the ones still to come. -/
theorem resolves_cons (e : Event B V) (events : List (Event B V)) :
    resolves (e :: events) = resolves [e] ++ resolves events := by
  cases e <;> simp [resolves]

/-- One step keeps the account, as long as it resolves nothing twice. -/
theorem step_accounted {e : Event B V} (h : Accounted q)
    (hone : (queuedValues q.enqueued).length + (resolves [e]).length ≤ 1)
    (hstep : step q e = .ok q') :
    Accounted q' ∧ (queuedValues q'.enqueued).length =
      (queuedValues q.enqueued).length + (resolves [e]).length := by
  cases e with
  | then_ block =>
    simp only [step, pure_eq_ok] at hstep
    rw [← hstep]
    have hblocks : queuedBlocks (enqueued { q with deferred := q.deferred.then_ block }) =
        queuedBlocks q.enqueued ++ [block] := by
      simp [enqueued, BRUDeferred.then_, queuedBlocks]
    have hvalues : queuedValues (enqueued { q with deferred := q.deferred.then_ block }) =
        queuedValues q.enqueued := by
      simp [enqueued, BRUDeferred.then_, queuedValues]
    refine ⟨{ delivers := ?_, once := ?_, perm := h.perm, values := h.values }, ?_⟩
    · rw [hblocks, hvalues]
      exact h.delivers.then_ block
    · rw [hvalues]
      exact h.once
    · rw [hvalues]
      rfl
  | resolve value =>
    simp only [step, pure_eq_ok] at hstep
    rw [← hstep]
    have hnone : queuedValues q.enqueued = [] := by
      have hlen : (queuedValues q.enqueued).length + 1 ≤ 1 := hone
      exact List.eq_nil_of_length_eq_zero (by omega)
    have hblocks : queuedBlocks (enqueued { q with deferred := q.deferred.resolve value }) =
        queuedBlocks q.enqueued := by
      simp [enqueued, BRUDeferred.resolve, queuedBlocks]
    have hvalues : queuedValues (enqueued { q with deferred := q.deferred.resolve value }) =
        queuedValues q.enqueued ++ [value] := by
      simp [enqueued, BRUDeferred.resolve, queuedValues]
    have hdelivers := h.delivers
    rw [hnone] at hdelivers
    refine ⟨{ delivers := ?_, once := ?_, perm := h.perm, values := h.values }, ?_⟩
    · rw [hblocks, hvalues, hnone]
      exact hdelivers.resolve value
    · rw [hvalues, hnone]
      exact Nat.le_refl 1
    · rw [hvalues, hnone]
      rfl
  | runSync =>
    simp only [step, bind_eq_ok, pure_eq_ok] at hstep
    obtain ⟨⟨d, blocks⟩, hrun, hstep⟩ := hstep
    have henqueued := enqueued_runSync hrun
    rw [← hstep]
    refine ⟨{ delivers := ?_, once := ?_, perm := ?_, values := ?_ }, ?_⟩
    · simp only [enqueued, henqueued]
      exact h.delivers.runSync hrun
    · simp only [enqueued, henqueued]
      exact h.once
    · rw [← List.append_assoc]
      exact h.perm.append_right blocks
    · intro call hmem
      exact List.mem_append_left _ (h.values call hmem)
    · simp only [enqueued, henqueued]
      rfl
  | runCompletion index =>
    simp only [step] at hstep
    split at hstep
    · cases hstep
    · rename_i block hblock
      simp only [pure_eq_ok] at hstep
      rw [← hstep]
      obtain ⟨hlt, hget⟩ := List.getElem?_eq_some_iff.mp hblock
      have hdone : q.dispatched ≠ [] := by
        intro hnil
        have hlen := h.perm.length_eq
        rw [hnil, List.length_append, List.length_nil] at hlen
        omega
      refine ⟨{ delivers := h.delivers, once := h.once, perm := ?_, values := ?_ }, rfl⟩
      · have hperm := List.getElem_cons_eraseIdx_perm hlt
        rw [hget] at hperm
        simp only [List.map_append, List.map_cons, List.map_nil, List.append_assoc,
          List.singleton_append]
        exact (hperm.append_left _).trans h.perm
      · intro call hmem
        rcases List.mem_append.mp hmem with hmem | hmem
        · exact h.values call hmem
        · rw [List.mem_singleton.mp hmem]
          exact h.resolve_mem hdone

/-- A run with at most one resolve is accounted. -/
theorem accounted_of_run (h : Accounted q)
    (hone : (queuedValues q.enqueued).length + (resolves events).length ≤ 1)
    (hrun : run step q events = .ok q') : Accounted q' := by
  induction events generalizing q with
  | nil =>
    obtain rfl : q = q' := by simpa using hrun
    exact h
  | cons e events ih =>
    obtain ⟨m, hm, hrest⟩ := run_cons_eq_ok.mp hrun
    rw [resolves_cons, List.length_append] at hone
    obtain ⟨hacc, hlen⟩ := step_accounted h (by omega) hm
    exact ih hacc (by omega) hrest

/-! ## The contract -/

/-- What a deferred owes to its then-blocks. -/
structure DeliveryContract (q : DeferredQueues B V) : Prop where
  /-- Before the resolve is processed nothing is dispatched. -/
  before : (∀ value, .resolve value ∉ q.processed) → q.dispatched = []
  /-- After it, the blocks that were registered are, in their order. -/
  after : ∀ value, .resolve value ∈ q.processed → q.dispatched = queuedBlocks q.processed
  /-- Then none is pending. -/
  emptied : ∀ value, .resolve value ∈ q.processed → q.deferred.thenBlocks = []
  /-- `syncQueue` does not fail the assertion of `resolve:`. -/
  assertion : ∀ a, step q .runSync ≠ .error (.failed a)
  /-- A dispatched block has been called or waits for its call, once. -/
  called_once : (q.calls.map Prod.fst ++ q.completionQueue).Perm q.dispatched
  /-- It is called with the value that the deferred was resolved with. -/
  called_with : ∀ value, .resolve value ∈ q.processed → ∀ call ∈ q.calls, call.2 = value

theorem Accounted.contract (h : Accounted q) : DeliveryContract q := by
  refine
    { before := ?_, after := ?_, emptied := ?_, assertion := ?_, called_once := h.perm,
      called_with := ?_ }
  · intro hnone
    by_contra hdone
    exact hnone _ (h.resolve_mem hdone)
  · intro value hmem
    have horder := h.delivers.order
    have hnil := (h.delivers.resolved (h.resolved_of_mem hmem).1).1
    rw [hnil, List.append_nil] at horder
    simp only [enqueued, queuedBlocks, List.filterMap_append] at horder
    exact List.append_cancel_right horder
  · intro value hmem
    exact (h.delivers.resolved (h.resolved_of_mem hmem).1).1
  · intro a hfailed
    simp only [step, bind_eq_failed, pure_ne_failed, and_false, exists_false,
      or_false] at hfailed
    exact h.delivers.runSync_ne_failed a hfailed
  · intro value hmem call hcall
    rw [(h.resolved_of_mem hmem).2]
    exact (h.resolved_of_mem (h.values call hcall)).2

/-- In a run that resolves at most once, every then-block is delivered once.
Two such runs that process the same then-blocks dispatch the same, wherever
their resolves fall. -/
theorem then_blocks_delivered_once (hone : (resolves events).length ≤ 1)
    (hrun : run step init events = .ok q) :
    DeliveryContract q ∧
      ∀ events' (q' : DeferredQueues B V), (resolves events').length ≤ 1 →
        run step init events' = .ok q' →
        ∀ value value', .resolve value ∈ q.processed → .resolve value' ∈ q'.processed →
          queuedBlocks q.processed = queuedBlocks q'.processed →
            q.dispatched = q'.dispatched := by
  have hcontract : ∀ es r, (resolves es).length ≤ 1 → run step init es = .ok r →
      DeliveryContract (r : DeferredQueues B V) := by
    intro es r hes hr
    refine (accounted_of_run accounted_init ?_ hr).contract
    simpa [init, enqueued, queuedValues, BRUDeferred.init] using hes
  refine ⟨hcontract events q hone hrun, ?_⟩
  intro events' q' hone' hrun' value value' hmem hmem' hblocks
  rw [(hcontract events q hone hrun).after value hmem,
    (hcontract events' q' hone' hrun').after value' hmem', hblocks]

/-- A block on each side of a resolve with `nil`, called in the other order. -/
theorem then_blocks_delivered_once_nil : ∃ q : DeferredQueues Nat Nat,
    run step init
        [.then_ 1, .resolve none, .then_ 2, .runSync, .runSync, .runSync, .runCompletion 1,
          .runCompletion 0] = .ok q ∧
      q.calls = [(2, none), (1, none)] ∧ DeliveryContract q := by
  obtain ⟨q, hrun, hcalls⟩ : ∃ q : DeferredQueues Nat Nat,
      run step init
          [.then_ 1, .resolve none, .then_ 2, .runSync, .runSync, .runSync,
            .runCompletion 1, .runCompletion 0] = .ok q ∧
        q.calls = [(2, none), (1, none)] := ⟨_, rfl, rfl⟩
  exact ⟨q, hrun, hcalls, (then_blocks_delivered_once (by decide) hrun).1⟩

end DeferredQueues

end BromiumCoreUtils
