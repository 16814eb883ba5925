import BromiumCoreUtils.Foundation
import BromiumCoreUtils.Lib.Machine

/-!
# `BRUDeferred`

A deferred is a value that arrives once and the blocks that wait for it.
`resolve:` and `then:` only queue a block on the deferred's serial
`syncQueue`; `runSync` runs the block at the head of that queue.
`processBlocks` is the flush that both kinds of block end with.

The blocks that the flush dispatches are returned to the caller, in the order
of the dispatches, since the completion queue belongs to whoever made the
deferred.  Such a block reads `self.value` when it runs, not when it is
dispatched.

`Delivers` is the account of a deferred: the blocks handed to `then:` are the
dispatched ones, the pending ones and the queued ones, in this order.  Its
lemmas say what each operation does to that account.
-/

namespace BromiumCoreUtils

open Machine

/-- `BRUPromiseState`. -/
inductive BRUPromiseState where
  | pending
  | resolved
deriving DecidableEq, Repr

/-- A block on the `syncQueue` of a deferred. -/
inductive DeferredBlock (B V : Type) where
  /-- The block of `resolve:`. -/
  | resolve (value : Option V)
  /-- The block of `then:`. -/
  | then_ (block : B)
deriving Repr

/-- `BRUDeferred`, over any type `B` of then-blocks and any type `V` of
values.  A value may be `nil`. -/
structure BRUDeferred (B V : Type) where
  syncQueue : List (DeferredBlock B V)
  thenBlocks : List B
  value : Option V
  state : BRUPromiseState

namespace BRUDeferred

variable {B V : Type}

/-- `-initWithTargetQueue:`. -/
def init : BRUDeferred B V where
  syncQueue := []
  thenBlocks := []
  value := none
  state := .pending

/-- `-resolve:` queues its block. -/
def resolve (value : Option V) (d : BRUDeferred B V) : BRUDeferred B V :=
  { d with syncQueue := d.syncQueue ++ [.resolve value] }

/-- `-then:` queues its block. -/
def then_ (block : B) (d : BRUDeferred B V) : BRUDeferred B V :=
  { d with syncQueue := d.syncQueue ++ [.then_ block] }

/-- `-processBlocks`, with the blocks it dispatches to the completion
queue. -/
def processBlocks (d : BRUDeferred B V) : BRUDeferred B V × List B :=
  match d.state with
  | .pending => (d, [])
  | .resolved => ({ d with thenBlocks := [] }, d.thenBlocks)

/-- The block of `-resolve:`. -/
def resolveBlock (value : Option V) (d : BRUDeferred B V) :
    Exec Assertion (BRUDeferred B V × List B) := do
  assertThat (d.state = .pending) .resolveNotPending
  pure (processBlocks { d with state := .resolved, value := value })

/-- The block of `-then:`. -/
def thenBlock (block : B) (d : BRUDeferred B V) : BRUDeferred B V × List B :=
  processBlocks { d with thenBlocks := d.thenBlocks ++ [block] }

/-- Run the block at the head of `syncQueue`. -/
def runSync (d : BRUDeferred B V) : Exec Assertion (BRUDeferred B V × List B) :=
  match d.syncQueue with
  | [] => .error .disabled
  | .resolve value :: rest => resolveBlock value { d with syncQueue := rest }
  | .then_ block :: rest => pure (thenBlock block { d with syncQueue := rest })

/-- Only a second `resolve:` can fail. -/
theorem runSync_failed {d : BRUDeferred B V} {a : Assertion}
    (h : d.runSync = .error (.failed a)) : a = .resolveNotPending := by
  unfold runSync at h
  split at h
  · cases h
  · simp only [resolveBlock, bind_eq_failed, assertThat_eq_failed, pure_ne_failed,
      and_false, exists_false, or_false] at h
    exact h.2.symm
  · simp at h

/-! ## The account of a deferred -/

/-- The then-blocks among the queued blocks. -/
def queuedBlocks (queue : List (DeferredBlock B V)) : List B :=
  queue.filterMap fun
    | .then_ block => some block
    | .resolve _ => none

/-- The values of the queued resolves. -/
def queuedValues (queue : List (DeferredBlock B V)) : List (Option V) :=
  queue.filterMap fun
    | .then_ _ => none
    | .resolve value => some value

/-- The account of a deferred.  `all` are the blocks handed to `then:`, `done`
the ones dispatched so far, and `resolution` is what `resolve:` was called
with, if it was. -/
structure Delivers (d : BRUDeferred B V) (all done : List B)
    (resolution : Option (Option V)) : Prop where
  order : done ++ d.thenBlocks ++ queuedBlocks d.syncQueue = all
  pending : d.state = .pending →
    done = [] ∧ queuedValues d.syncQueue = resolution.toList
  resolved : d.state = .resolved →
    d.thenBlocks = [] ∧ queuedValues d.syncQueue = [] ∧ resolution = some d.value

theorem delivers_init : Delivers (init : BRUDeferred B V) [] [] none where
  order := rfl
  pending _ := ⟨rfl, rfl⟩
  resolved h := by simp [init] at h

variable {d d' : BRUDeferred B V} {all done : List B}
  {resolution : Option (Option V)}

theorem Delivers.then_ (h : Delivers d all done resolution) (block : B) :
    Delivers (d.then_ block) (all ++ [block]) done resolution where
  order := by
    rw [← h.order]
    simp [BRUDeferred.then_, queuedBlocks]
  pending hs := by
    have hp := h.pending hs
    simpa [BRUDeferred.then_, queuedValues] using hp
  resolved hs := by
    have hr := h.resolved hs
    simpa [BRUDeferred.then_, queuedValues] using hr

/-- The first `resolve:` settles the value that every block will get. -/
theorem Delivers.resolve (h : Delivers d all done none) (value : Option V) :
    Delivers (d.resolve value) all done (some value) where
  order := by
    rw [← h.order]
    simp [BRUDeferred.resolve, queuedBlocks]
  pending hs := by
    obtain ⟨hdone, hvalues⟩ := h.pending hs
    refine ⟨hdone, ?_⟩
    have hnone : queuedValues d.syncQueue = [] := by simpa using hvalues
    simp only [queuedValues] at hnone
    simp [BRUDeferred.resolve, queuedValues, hnone]
  resolved hs := by
    obtain ⟨_, _, hres⟩ := h.resolved hs
    simp at hres

/-- Running a queued block only moves blocks from pending to dispatched. -/
theorem Delivers.runSync {out : List B} (h : Delivers d all done resolution)
    (hrun : d.runSync = .ok (d', out)) :
    Delivers d' all (done ++ out) resolution := by
  unfold BRUDeferred.runSync at hrun
  split at hrun
  · cases hrun
  · -- the block of `resolve:` flushes what is pending
    rename_i value rest hq
    simp only [resolveBlock, bind_eq_ok, assertThat_eq_ok, pure_eq_ok] at hrun
    obtain ⟨_, hpending, hrun⟩ := hrun
    obtain ⟨hdone, hvalues⟩ := h.pending hpending
    have horder := h.order
    rw [hq] at horder hvalues
    simp only [queuedBlocks, queuedValues, List.filterMap_cons] at horder hvalues
    have hres : resolution = some value ∧ queuedValues rest = [] := by
      cases resolution with
      | none => simp at hvalues
      | some v =>
        obtain ⟨rfl, hrest⟩ : value = v ∧ queuedValues rest = [] := by
          simpa [queuedValues] using hvalues
        exact ⟨rfl, hrest⟩
    simp only [processBlocks, Prod.mk.injEq] at hrun
    obtain ⟨rfl, rfl⟩ := hrun
    exact
      { order := by simpa [queuedBlocks] using horder
        pending := by simp
        resolved := fun _ => ⟨rfl, hres.2, hres.1⟩ }
  · -- the block of `then:` adds one block and flushes if there is a value
    rename_i block rest hq
    simp only [pure_eq_ok, thenBlock, processBlocks] at hrun
    have horder := h.order
    rw [hq] at horder
    simp only [queuedBlocks, List.filterMap_cons] at horder
    split at hrun
    · rename_i hs
      have hs : d.state = .pending := hs
      obtain ⟨rfl, rfl⟩ := Prod.mk.injEq .. ▸ hrun
      obtain ⟨hdone, hvalues⟩ := h.pending hs
      rw [hq] at hvalues
      exact
        { order := by simpa [queuedBlocks] using horder
          pending := fun _ => ⟨by simpa using hdone, by simpa [queuedValues] using hvalues⟩
          resolved := fun hr => by simp [hs] at hr }
    · rename_i hs
      have hs : d.state = .resolved := hs
      obtain ⟨rfl, rfl⟩ := Prod.mk.injEq .. ▸ hrun
      obtain ⟨hnil, hvalues, hres⟩ := h.resolved hs
      rw [hq] at hvalues
      exact
        { order := by simpa [queuedBlocks] using horder
          pending := fun hp => by simp [hs] at hp
          resolved := fun _ => ⟨rfl, by simpa [queuedValues] using hvalues, hres⟩ }

/-- A deferred that is resolved at most once never fails its assertion. -/
theorem Delivers.runSync_ne_failed (h : Delivers d all done resolution)
    (a : Assertion) : d.runSync ≠ .error (.failed a) := by
  intro hrun
  unfold BRUDeferred.runSync at hrun
  split at hrun
  · cases hrun
  · rename_i value rest hq
    have hresolved : d.state = .resolved := by
      cases hs : d.state with
      | pending => simp [resolveBlock, hs] at hrun
      | resolved => rfl
    have hvalues := (h.resolved hresolved).2.1
    simp [hq, queuedValues] at hvalues
  · simp at hrun

/-- A block that was dispatched gets the value that the deferred was resolved
with. -/
theorem Delivers.value_of_done (h : Delivers d all done resolution)
    (hdone : done ≠ []) : resolution = some d.value := by
  cases hs : d.state with
  | pending => exact absurd (h.pending hs).1 hdone
  | resolved => exact (h.resolved hs).2.2

/-- The dispatched blocks are the first ones that were handed to `then:`. -/
theorem Delivers.done_prefix (h : Delivers d all done resolution) :
    done <+: all := by
  rw [← h.order, List.append_assoc]
  exact List.prefix_append _ _

/-- A resolved deferred that has run its queue keeps no block. -/
theorem Delivers.thenBlocks_eq_nil {value : Option V}
    (h : Delivers d all done (some value)) (hq : d.syncQueue = []) : d.thenBlocks = [] := by
  cases hs : d.state with
  | pending =>
    have hvalues := (h.pending hs).2
    simp [hq, queuedValues] at hvalues
  | resolved => exact (h.resolved hs).1

/-- When no block is with the deferred, every block is dispatched. -/
theorem Delivers.done_eq_all_of_nil (h : Delivers d all done resolution)
    (hthen : d.thenBlocks = []) (hq : queuedBlocks d.syncQueue = []) : done = all := by
  rw [← h.order, hthen, hq, List.append_nil, List.append_nil]

/-- Once a resolved deferred has run its queue, every block is dispatched. -/
theorem Delivers.done_eq_all {value : Option V}
    (h : Delivers d all done (some value)) (hq : d.syncQueue = []) :
    done = all :=
  h.done_eq_all_of_nil (h.thenBlocks_eq_nil hq) (by rw [hq]; rfl)

/-- A deferred without blocks dispatches none. -/
theorem runSync_of_nil {out : List B} (hthen : d.thenBlocks = [])
    (hq : queuedBlocks d.syncQueue = []) (hrun : d.runSync = .ok (d', out)) :
    out = [] ∧ d'.thenBlocks = [] ∧ queuedBlocks d'.syncQueue = [] := by
  unfold BRUDeferred.runSync at hrun
  split at hrun
  · cases hrun
  · rename_i value rest hqueue
    simp only [resolveBlock, processBlocks, bind_eq_ok, pure_eq_ok, Prod.mk.injEq] at hrun
    obtain ⟨_, _, rfl, rfl⟩ := hrun
    rw [hqueue] at hq
    exact ⟨hthen, rfl, hq⟩
  · rename_i block rest hqueue
    rw [hqueue] at hq
    cases hq

end BRUDeferred

end BromiumCoreUtils
