import BromiumCoreUtils.Foundation
import BromiumCoreUtils.Lib.Machine
import BromiumCoreUtils.Lib.Forest

/-!
# `BRUDispatchUtils`

A live dispatch queue has an address, a table of values for keys, and a target queue or none.
The key that identifies a queue is its address, and a queue that dies leaves its address to a
later one.

The invariant `Identified` says that an address is a key in the table of its own queue only.
`bruIsOnQueue_exact` says that a call finds a queue if and only if it is the current one or a
target above it, and that a call changes no answer.
-/

namespace BromiumCoreUtils

open Machine Forest

/-! ## Queues -/

/-- The address of an object: the allocator returns no `NULL`, and aligns what it returns. -/
structure ObjectAddress where
  pointer : UInt64
  nonNull : pointer ≠ 0
  aligned : pointer % 8 = 0
deriving DecidableEq

theorem ObjectAddress.pointer_inj {a b : ObjectAddress} (h : a.pointer = b.pointer) : a = b := by
  cases a
  cases b
  simpa using h

/-- The key of the name is the address of no object. -/
theorem ObjectAddress.pointer_ne_nameKey (a : ObjectAddress) : a.pointer ≠ 13 := by
  intro h
  have haligned := a.aligned
  rw [h] at haligned
  revert haligned
  decide

/-- A live queue.  A key without a value has `NULL`. -/
structure DispatchQueue where
  address : ObjectAddress
  specific : UInt64 → UInt64
  targetQueue : Option ObjectAddress

/-- The live queues. -/
structure DispatchQueues where
  queues : List DispatchQueue

namespace DispatchQueues

def find (s : DispatchQueues) (q : ObjectAddress) : Option DispatchQueue :=
  s.queues.find? fun queue => queue.address = q

def addresses (s : DispatchQueues) : List ObjectAddress :=
  s.queues.map (·.address)

def Live (s : DispatchQueues) (q : ObjectAddress) : Prop :=
  q ∈ s.addresses

instance (s : DispatchQueues) (q : ObjectAddress) : Decidable (s.Live q) :=
  inferInstanceAs (Decidable (q ∈ s.addresses))

def target (s : DispatchQueues) (q : ObjectAddress) : Option ObjectAddress :=
  (s.find q).bind (·.targetQueue)

/-- The current queue and its targets, from the bottom up. -/
def currentChain (s : DispatchQueues) : Option ObjectAddress → List ObjectAddress
  | none => []
  | some c => chain s.target (s.addresses.length + 1) c

/-- `q` is `c`, or lies on the chain of targets of `c`. -/
def OnChain (s : DispatchQueues) (c q : ObjectAddress) : Prop :=
  Above s.target c q

def modify (s : DispatchQueues) (q : ObjectAddress) (f : DispatchQueue → DispatchQueue) :
    DispatchQueues where
  queues := s.queues.map fun queue => if queue.address = q then f queue else queue

/-! ## Dispatch -/

/-- `dispatch_queue_create`, for an object at this address. -/
def dispatchQueueCreate (s : DispatchQueues) (q : ObjectAddress) (target : Option ObjectAddress) :
    DispatchQueues where
  queues := ⟨q, fun _ => 0, target⟩ :: s.queues

/-- `dispatch_set_target_queue`. -/
def dispatchSetTargetQueue (s : DispatchQueues) (q : ObjectAddress)
    (target : Option ObjectAddress) : DispatchQueues :=
  s.modify q fun queue => { queue with targetQueue := target }

/-- The deallocation of a queue, with its table. -/
def dispose (s : DispatchQueues) (q : ObjectAddress) : DispatchQueues where
  queues := s.queues.filter fun queue => queue.address ≠ q

/-- `dispatch_queue_set_specific`. -/
def dispatchQueueSetSpecific (s : DispatchQueues) (q : ObjectAddress) (key context : UInt64) :
    DispatchQueues :=
  s.modify q fun queue =>
    { queue with specific := fun k => if k = key then context else queue.specific k }

/-- `dispatch_queue_get_specific`. -/
def dispatchQueueGetSpecific (s : DispatchQueues) (q : ObjectAddress) (key : UInt64) : UInt64 :=
  match s.find q with
  | some queue => queue.specific key
  | none => 0

/-- `dispatch_get_specific`, on the current queue. -/
def dispatchGetSpecific (s : DispatchQueues) (current : Option ObjectAddress) (key : UInt64) :
    UInt64 :=
  (((s.currentChain current).map (s.dispatchQueueGetSpecific · key)).find? (· ≠ 0)).getD 0

/-! ## The functions -/

/-- `_bru_unretained_identifying_pointer_for_queue`. -/
def bruUnretainedIdentifyingPointerForQueue (q : ObjectAddress) : UInt64 :=
  q.pointer

/-- `_bru_is_on_queue`. -/
def bruIsOnQueue (s : DispatchQueues) (current q : Option ObjectAddress) :
    Exec Assertion (Bool × DispatchQueues) :=
  match q with
  | none => .error (.failed .invalidParameter)
  | some q =>
    let keyQId := bruUnretainedIdentifyingPointerForQueue q
    if keyQId = 0 then pure (false, s)
    else
      let ctxQ := s.dispatchQueueGetSpecific q keyQId
      -- `NULL` in a queue that was not created with `bru_dispatch_queue_create`
      let (ctxQ, s) :=
        if ctxQ = 0 then (0x1, s.dispatchQueueSetSpecific q keyQId 0x1) else (ctxQ, s)
      let ctxMe := s.dispatchGetSpecific current keyQId
      pure (decide (ctxQ ≠ 0 ∧ ctxQ = ctxMe), s)

/-- `bru_dispatch_queue_create`, for an object at this address and the two copies of the label
that `strdup` returns. -/
def bruDispatchQueueCreate (s : DispatchQueues) (label : Option String) (q : ObjectAddress)
    (queueIDValue queueNameStoredAsSpecific : UInt64) : Exec Assertion DispatchQueues := do
  assertThat (label.isSome = true) .invalidParameter
  let s := s.dispatchQueueCreate q none
  let queueIDKey := bruUnretainedIdentifyingPointerForQueue q
  let s := s.dispatchQueueSetSpecific q queueIDKey queueIDValue
  pure (s.dispatchQueueSetSpecific q 13 queueNameStoredAsSpecific)

/-- `BRU_ASSERT_ON_QUEUE`. -/
def bruAssertOnQueue (s : DispatchQueues) (current e : Option ObjectAddress) :
    Exec Assertion DispatchQueues := do
  assertThat (e.isSome = true) .queueIsNil
  let (on, s) ← s.bruIsOnQueue current e
  assertThat (on = true) .wrongQueue
  pure s

/-- `BRU_ASSERT_OFF_QUEUE`. -/
def bruAssertOffQueue (s : DispatchQueues) (current e : Option ObjectAddress) :
    Exec Assertion DispatchQueues := do
  let (on, s) ← s.bruIsOnQueue current e
  assertThat (on = false) .wrongQueue
  pure s

inductive Event where
  | bruCreate (label : Option String) (q : ObjectAddress)
      (queueIDValue queueNameStoredAsSpecific : UInt64)
  | foreignCreate (q : ObjectAddress) (target : Option ObjectAddress)
  | setTargetQueue (q : ObjectAddress) (target : Option ObjectAddress)
  | death (q : ObjectAddress)
  /-- A call of `_bru_is_on_queue` on the current queue. -/
  | isOnQueue (current q : Option ObjectAddress)

/-- Targets are live, and stay a forest.  A queue does not die while it is a target. -/
def step (s : DispatchQueues) : Event → Exec Assertion DispatchQueues
  | .bruCreate label q queueIDValue queueNameStoredAsSpecific => do
    enabledIf (¬ s.Live q)
    s.bruDispatchQueueCreate label q queueIDValue queueNameStoredAsSpecific
  | .foreignCreate q target => do
    enabledIf (¬ s.Live q ∧ ∀ t ∈ target, s.Live t)
    pure (s.dispatchQueueCreate q target)
  | .setTargetQueue q target => do
    enabledIf (s.Live q ∧ (∀ t ∈ target, s.Live t) ∧ q ∉ s.currentChain target)
    pure (s.dispatchSetTargetQueue q target)
  | .death q => do
    enabledIf (s.Live q ∧ ∀ a ∈ s.addresses, s.target a ≠ some q)
    pure (s.dispose q)
  | .isOnQueue current q => do
    enabledIf ((∀ c ∈ current, s.Live c) ∧ ∀ a ∈ q, s.Live a)
    let (_, s) ← s.bruIsOnQueue current q
    pure s

/-- No queue yet. -/
def initial : DispatchQueues where
  queues := []

/-! ## What an operation does to a queue -/

variable {s : DispatchQueues} {q b : ObjectAddress} {target : Option ObjectAddress}
  {key k context : UInt64}

theorem find_create : (s.dispatchQueueCreate q target).find b =
    if q = b then some ⟨q, fun _ => 0, target⟩ else s.find b := by
  simp only [find, dispatchQueueCreate, List.find?_cons]
  by_cases hqb : q = b <;> simp [hqb]

theorem find_modify {f : DispatchQueue → DispatchQueue}
    (hf : ∀ queue, (f queue).address = queue.address) :
    (s.modify q f).find b = if b = q then (s.find b).map f else s.find b := by
  obtain ⟨queues⟩ := s
  simp only [find, modify]
  induction queues with
  | nil => simp
  | cons queue queues ih =>
    rw [List.map_cons, List.find?_cons, List.find?_cons, ih]
    by_cases hq : queue.address = q
    · by_cases hb : queue.address = b
      · have hbq : b = q := hb.symm.trans hq
        simp [hq, hf, hbq]
      · have hqb : ¬ q = b := fun h => hb (hq.trans h)
        simp [hq, hf, hqb]
    · by_cases hb : queue.address = b
      · have hbq : ¬ b = q := fun h => hq (hb.trans h)
        simp [hb, hbq]
      · simp [hq, hb]

theorem find_setTargetQueue : (s.dispatchSetTargetQueue q target).find b =
    if b = q then (s.find b).map fun queue => { queue with targetQueue := target }
    else s.find b :=
  find_modify fun _ => rfl

theorem find_setSpecific : (s.dispatchQueueSetSpecific q key context).find b =
    if b = q then (s.find b).map fun queue =>
      { queue with specific := fun k => if k = key then context else queue.specific k }
    else s.find b :=
  find_modify fun _ => rfl

theorem find_dispose : (s.dispose q).find b = if b = q then none else s.find b := by
  simp only [find, dispose, List.find?_filter]
  by_cases hbq : b = q
  · rw [if_pos hbq, List.find?_eq_none]
    simp [hbq]
  · rw [if_neg hbq]
    congr 1
    funext queue
    by_cases hb : queue.address = b <;> simp [hb, hbq]

theorem find_eq_none : s.find q = none ↔ ¬ s.Live q := by
  simp [find, Live, addresses, List.find?_eq_none]

theorem exists_find (h : s.Live q) : ∃ queue, s.find q = some queue := by
  have hfound : s.find q ≠ none := fun hnone => find_eq_none.mp hnone h
  exact Option.ne_none_iff_exists'.mp hfound

theorem target_of_not_live (h : ¬ s.Live q) : s.target q = none := by
  rw [target, find_eq_none.mpr h]
  rfl

@[simp] theorem addresses_create :
    (s.dispatchQueueCreate q target).addresses = q :: s.addresses := rfl

theorem addresses_modify {f : DispatchQueue → DispatchQueue}
    (hf : ∀ queue, (f queue).address = queue.address) :
    (s.modify q f).addresses = s.addresses := by
  simp only [addresses, modify, List.map_map]
  apply List.map_congr_left
  intro queue _
  by_cases hq : queue.address = q <;> simp [hq, hf]

@[simp] theorem addresses_setTargetQueue :
    (s.dispatchSetTargetQueue q target).addresses = s.addresses :=
  addresses_modify fun _ => rfl

@[simp] theorem addresses_setSpecific :
    (s.dispatchQueueSetSpecific q key context).addresses = s.addresses :=
  addresses_modify fun _ => rfl

theorem addresses_dispose : (s.dispose q).addresses = s.addresses.filter (· ≠ q) := by
  simp [addresses, dispose, List.filter_map, Function.comp_def]

theorem target_create :
    (s.dispatchQueueCreate q target).target b = if q = b then target else s.target b := by
  unfold DispatchQueues.target
  rw [find_create]
  split <;> rfl

theorem target_setTargetQueue (h : s.Live q) :
    (s.dispatchSetTargetQueue q target).target b = if b = q then target else s.target b := by
  unfold DispatchQueues.target
  rw [find_setTargetQueue]
  by_cases hbq : b = q
  · obtain ⟨queue, hqueue⟩ := exists_find h
    simp [hbq, hqueue]
  · simp [hbq]

@[simp] theorem target_setSpecific :
    (s.dispatchQueueSetSpecific q key context).target = s.target := by
  funext b
  unfold DispatchQueues.target
  rw [find_setSpecific]
  by_cases hbq : b = q
  · cases s.find b <;> simp [hbq]
  · simp [hbq]

theorem target_dispose :
    (s.dispose q).target b = if b = q then none else s.target b := by
  unfold DispatchQueues.target
  rw [find_dispose]
  split <;> rfl

theorem getSpecific_create :
    (s.dispatchQueueCreate q target).dispatchQueueGetSpecific b key =
      if q = b then 0 else s.dispatchQueueGetSpecific b key := by
  unfold dispatchQueueGetSpecific
  rw [find_create]
  by_cases hqb : q = b <;> simp [hqb]

@[simp] theorem getSpecific_setTargetQueue :
    (s.dispatchSetTargetQueue q target).dispatchQueueGetSpecific b key =
      s.dispatchQueueGetSpecific b key := by
  unfold dispatchQueueGetSpecific
  rw [find_setTargetQueue]
  by_cases hbq : b = q
  · cases s.find b <;> simp [hbq]
  · simp [hbq]

theorem getSpecific_setSpecific (h : s.Live q) :
    (s.dispatchQueueSetSpecific q key context).dispatchQueueGetSpecific b k =
      if b = q ∧ k = key then context else s.dispatchQueueGetSpecific b k := by
  unfold dispatchQueueGetSpecific
  rw [find_setSpecific]
  by_cases hbq : b = q
  · obtain ⟨queue, hqueue⟩ := exists_find h
    simp [hbq, hqueue]
  · simp [hbq]

theorem getSpecific_dispose :
    (s.dispose q).dispatchQueueGetSpecific b key =
      if b = q then 0 else s.dispatchQueueGetSpecific b key := by
  unfold dispatchQueueGetSpecific
  rw [find_dispose]
  by_cases hbq : b = q <;> simp [hbq]

/-! ## The invariant -/

/-- A queue is identified by its own table only, and the targets of the live queues are a forest
of live queues. -/
structure Identified (s : DispatchQueues) : Prop where
  own : ∀ a b : ObjectAddress, s.dispatchQueueGetSpecific a b.pointer ≠ 0 → b = a
  live : ∀ a b, s.target a = some b → s.Live b
  acyclic : Acyclic s.target

theorem identified_initial : Identified initial where
  own _ _ h := absurd rfl h
  live _ _ h := by cases h
  acyclic := ⟨fun a => ⟨a, fun _ h => by cases h⟩⟩

namespace Identified

/-- Nothing live is above what is not live. -/
theorem live_of_above (h : s.Identified) (hlive : s.Live b) (habove : s.OnChain b q) :
    s.Live q :=
  habove.mem (fun a _ c hac => h.live a c hac) hlive

theorem mem_currentChain (h : s.Identified) (hlive : s.Live b) :
    q ∈ s.currentChain (some b) ↔ s.OnChain b q :=
  h.acyclic.mem_chain_iff (fun a _ c hac => h.live a c hac) hlive

theorem create (h : s.Identified) (hq : ¬ s.Live q) (htarget : ∀ t ∈ target, s.Live t) :
    (s.dispatchQueueCreate q target).Identified where
  own a b hspecific := by
    rw [getSpecific_create] at hspecific
    split at hspecific
    · exact absurd rfl hspecific
    · exact h.own a b hspecific
  live a b hab := by
    have hkeep : s.Live b → (s.dispatchQueueCreate q target).Live b := List.mem_cons_of_mem q
    rw [target_create] at hab
    split at hab
    · exact hkeep (htarget b hab)
    · exact hkeep (h.live a b hab)
  acyclic := by
    refine h.acyclic.change (q := q) ?_
    intro a b hab
    rw [target_create] at hab
    split at hab
    · rename_i hqa
      exact Or.inr ⟨hqa.symm, fun habove => hq (h.live_of_above (htarget b hab) habove)⟩
    · exact Or.inl hab

theorem setSpecific (h : s.Identified) (hq : s.Live q)
    (hkey : ∀ b : ObjectAddress, b.pointer = key → b = q) :
    (s.dispatchQueueSetSpecific q key context).Identified where
  own a b hspecific := by
    rw [getSpecific_setSpecific hq] at hspecific
    split at hspecific
    · rename_i hown
      rw [hown.1]
      exact hkey b hown.2
    · exact h.own a b hspecific
  live a b hab := by
    rw [target_setSpecific] at hab
    have hlive := h.live a b hab
    rwa [Live, addresses_setSpecific]
  acyclic := by
    rw [target_setSpecific]
    exact h.acyclic

theorem setTargetQueue (h : s.Identified) (hq : s.Live q) (htarget : ∀ t ∈ target, s.Live t)
    (hforest : q ∉ s.currentChain target) : (s.dispatchSetTargetQueue q target).Identified where
  own a b hspecific := by
    rw [getSpecific_setTargetQueue] at hspecific
    exact h.own a b hspecific
  live a b hab := by
    rw [Live, addresses_setTargetQueue]
    rw [target_setTargetQueue hq] at hab
    split at hab
    · exact htarget b hab
    · exact h.live a b hab
  acyclic := by
    refine h.acyclic.change (q := q) ?_
    intro a b hab
    rw [target_setTargetQueue hq] at hab
    split at hab
    · rename_i haq
      rw [hab] at hforest
      exact Or.inr ⟨haq, mt (h.mem_currentChain (htarget b hab)).mpr hforest⟩
    · exact Or.inl hab

theorem dispose (h : s.Identified) (hq : ∀ a ∈ s.addresses, s.target a ≠ some q) :
    (s.dispose q).Identified where
  own a b hspecific := by
    rw [getSpecific_dispose] at hspecific
    split at hspecific
    · exact absurd rfl hspecific
    · exact h.own a b hspecific
  live a b hab := by
    rw [target_dispose] at hab
    split at hab
    · cases hab
    · have hb := h.live a b hab
      have ha : s.Live a := by
        by_cases hlive : s.Live a
        · exact hlive
        · rw [target_of_not_live hlive] at hab
          cases hab
      have hbq : b ≠ q := by
        rintro rfl
        exact hq a ha hab
      rw [Live, addresses_dispose]
      exact List.mem_filter.mpr ⟨hb, by simpa using hbq⟩
  acyclic := by
    refine h.acyclic.change (q := q) ?_
    intro a b hab
    rw [target_dispose] at hab
    split at hab
    · cases hab
    · exact Or.inl hab

end Identified

/-! ## One call -/

/-- The same queues with the same targets. -/
structure SameForest (s t : DispatchQueues) : Prop where
  addresses : t.addresses = s.addresses
  target : t.target = s.target

namespace SameForest

variable {t : DispatchQueues}

theorem symm (h : s.SameForest t) : t.SameForest s :=
  ⟨h.addresses.symm, h.target.symm⟩

theorem trans {r : DispatchQueues} (h : s.SameForest t) (h' : t.SameForest r) : s.SameForest r :=
  ⟨h'.addresses.trans h.addresses, h'.target.trans h.target⟩

theorem live (h : s.SameForest t) : t.Live q ↔ s.Live q := by
  rw [Live, Live, h.addresses]

theorem currentChain (h : s.SameForest t) (current : Option ObjectAddress) :
    t.currentChain current = s.currentChain current := by
  cases current with
  | none => rfl
  | some c => simp only [DispatchQueues.currentChain, h.target, h.addresses]

theorem create (h : s.SameForest t) :
    (s.dispatchQueueCreate q target).SameForest (t.dispatchQueueCreate q target) where
  addresses := by simp [h.addresses]
  target := by
    funext b
    rw [target_create, target_create, h.target]

theorem setSpecific (h : s.SameForest t) :
    (s.dispatchQueueSetSpecific q key context).SameForest
      (t.dispatchQueueSetSpecific q key context) where
  addresses := by simp [h.addresses]
  target := by simp [h.target]

theorem setTargetQueue (h : s.SameForest t) (hq : s.Live q) :
    (s.dispatchSetTargetQueue q target).SameForest (t.dispatchSetTargetQueue q target) where
  addresses := by simp [h.addresses]
  target := by
    funext b
    rw [target_setTargetQueue hq, target_setTargetQueue (h.live.mpr hq), h.target]

theorem dispose (h : s.SameForest t) : (s.dispose q).SameForest (t.dispose q) where
  addresses := by rw [addresses_dispose, addresses_dispose, h.addresses]
  target := by
    funext b
    rw [target_dispose, target_dispose, h.target]

end SameForest

/-- Where one element has a value at most, the first value of a list is its value. -/
theorem find?_map_getD {value : ObjectAddress → UInt64} (h : ∀ a, value a ≠ 0 → q = a)
    (l : List ObjectAddress) :
    ((l.map value).find? (· ≠ 0)).getD 0 = if q ∈ l then value q else 0 := by
  induction l with
  | nil => rfl
  | cons a l ih =>
    rw [List.map_cons, List.find?_cons]
    by_cases ha : value a = 0
    · simp only [ha, ne_eq, not_true_eq_false, decide_false, ih, List.mem_cons]
      by_cases hqa : q = a
      · simp [hqa, ha]
      · simp [hqa]
    · obtain rfl := h a ha
      simp [ha]

/-- The value of the key of a queue is found if and only if the queue is on the chain. -/
theorem Identified.getSpecific_eq (h : s.Identified) (current : Option ObjectAddress) :
    s.dispatchGetSpecific current q.pointer =
      if q ∈ s.currentChain current then s.dispatchQueueGetSpecific q q.pointer else 0 :=
  find?_map_getD (fun a ha => h.own a q ha) (s.currentChain current)

/-- With a value under its key, the comparison of a call tells whether the queue is on the chain. -/
theorem Identified.compares (h : s.Identified) (current : Option ObjectAddress)
    (hvalue : s.dispatchQueueGetSpecific q q.pointer ≠ 0) :
    decide (s.dispatchQueueGetSpecific q q.pointer ≠ 0 ∧
        s.dispatchQueueGetSpecific q q.pointer = s.dispatchGetSpecific current q.pointer) =
      decide (q ∈ s.currentChain current) := by
  rw [h.getSpecific_eq]
  by_cases hmem : q ∈ s.currentChain current <;> simp [hmem, hvalue]

/-- A call extends the table of the queue at most, and answers whether the queue is on the current
chain. -/
theorem Identified.bruIsOnQueue_eq (h : s.Identified) (hq : s.Live q)
    (current : Option ObjectAddress) :
    ∃ after, s.bruIsOnQueue current (some q) =
        .ok (decide (q ∈ s.currentChain current), after) ∧
      s.SameForest after ∧ after.Identified := by
  simp only [bruIsOnQueue, bruUnretainedIdentifyingPointerForQueue, q.nonNull, if_false]
  by_cases hvalue : s.dispatchQueueGetSpecific q q.pointer = 0
  · simp only [hvalue, if_true]
    have hmarked : (s.dispatchQueueSetSpecific q q.pointer 1).dispatchQueueGetSpecific q
        q.pointer = 1 := by
      simp [getSpecific_setSpecific hq]
    have hafter : (s.dispatchQueueSetSpecific q q.pointer 1).Identified :=
      h.setSpecific hq fun _ => ObjectAddress.pointer_inj
    have hsame : s.SameForest (s.dispatchQueueSetSpecific q q.pointer 1) := ⟨by simp, by simp⟩
    have hanswer := hafter.compares current (by rw [hmarked]; decide)
    rw [hmarked, hsame.currentChain] at hanswer
    rw [hanswer]
    exact ⟨_, rfl, hsame, hafter⟩
  · simp only [hvalue, if_false]
    rw [h.compares current hvalue]
    exact ⟨s, rfl, ⟨rfl, rfl⟩, h⟩

/-! ## Runs -/

theorem identified_bruDispatchQueueCreate {label : Option String} {queueIDValue name : UInt64}
    {t : DispatchQueues} (h : s.Identified) (hq : ¬ s.Live q)
    (hcreated : s.bruDispatchQueueCreate label q queueIDValue name = .ok t) : t.Identified := by
  simp only [bruDispatchQueueCreate, bind_eq_ok, assertThat_eq_ok, pure_eq_ok] at hcreated
  obtain ⟨_, _, rfl⟩ := hcreated
  have hlive : (s.dispatchQueueCreate q none).Live q := by simp [Live]
  have hcreate : (s.dispatchQueueCreate q none).Identified := h.create hq (by simp)
  refine (hcreate.setSpecific hlive fun _ => ObjectAddress.pointer_inj).setSpecific ?_ ?_
  · simp [Live]
  · intro b hname
    exact absurd hname b.pointer_ne_nameKey

theorem identified_step {e : Event} {t : DispatchQueues} (h : s.Identified)
    (hstep : s.step e = .ok t) : t.Identified := by
  cases e with
  | bruCreate label q queueIDValue name =>
    simp only [step, bind_eq_ok, enabledIf_eq_ok] at hstep
    obtain ⟨_, hfresh, hcreated⟩ := hstep
    exact identified_bruDispatchQueueCreate h hfresh hcreated
  | foreignCreate q target =>
    simp only [step, bind_eq_ok, enabledIf_eq_ok, pure_eq_ok] at hstep
    obtain ⟨_, ⟨hfresh, htarget⟩, rfl⟩ := hstep
    exact h.create hfresh htarget
  | setTargetQueue q target =>
    simp only [step, bind_eq_ok, enabledIf_eq_ok, pure_eq_ok] at hstep
    obtain ⟨_, ⟨hq, htarget, hforest⟩, rfl⟩ := hstep
    exact h.setTargetQueue hq htarget hforest
  | death q =>
    simp only [step, bind_eq_ok, enabledIf_eq_ok, pure_eq_ok] at hstep
    obtain ⟨_, ⟨_, hq⟩, rfl⟩ := hstep
    exact h.dispose hq
  | isOnQueue current q =>
    simp only [step, bind_eq_ok, enabledIf_eq_ok, pure_eq_ok] at hstep
    obtain ⟨_, ⟨_, hq⟩, ⟨_, t'⟩, hcall, rfl⟩ := hstep
    cases q with
    | none => cases hcall
    | some q =>
      obtain ⟨after, heq, _, hafter⟩ := h.bruIsOnQueue_eq (hq q rfl) current
      rw [heq] at hcall
      cases hcall
      exact hafter

/-- The invariant of every run. -/
theorem identified_run {events : List Event} {t : DispatchQueues}
    (hrun : run step initial events = .ok t) : t.Identified :=
  run_invariant (fun _ _ _ => identified_step) identified_initial hrun

/-- What a call of `_bru_is_on_queue` answers. -/
def onQueue (s : DispatchQueues) (current q : Option ObjectAddress) : Exec Assertion Bool :=
  Prod.fst <$> s.bruIsOnQueue current q

theorem Identified.onQueue_eq (h : s.Identified) (hq : s.Live q)
    (current : Option ObjectAddress) :
    s.onQueue current (some q) = .ok (decide (q ∈ s.currentChain current)) := by
  obtain ⟨after, heq, _⟩ := h.bruIsOnQueue_eq hq current
  rw [onQueue, heq]
  rfl

/-- The answers depend on the targets only. -/
theorem SameForest.onQueue_eq {t : DispatchQueues} (h : s.SameForest t) (hs : s.Identified)
    (ht : t.Identified) (hq : s.Live q) (current : Option ObjectAddress) :
    t.onQueue current (some q) = s.onQueue current (some q) := by
  rw [hs.onQueue_eq hq, ht.onQueue_eq (h.live.mpr hq), h.currentChain]

def Event.isCall : Event → Bool
  | .isOnQueue _ _ => true
  | _ => false

/-- A call changes nothing that another step depends on. -/
theorem sameForest_call {e : Event} {t : DispatchQueues} (h : s.Identified)
    (hcall : e.isCall = true) (hstep : s.step e = .ok t) : s.SameForest t := by
  cases e with
  | isOnQueue current q =>
    simp only [step, bind_eq_ok, enabledIf_eq_ok, pure_eq_ok] at hstep
    obtain ⟨_, ⟨_, hq⟩, ⟨_, t'⟩, hanswer, rfl⟩ := hstep
    cases q with
    | none => cases hanswer
    | some q =>
      obtain ⟨after, heq, hsame, _⟩ := h.bruIsOnQueue_eq (hq q rfl) current
      rw [heq] at hanswer
      cases hanswer
      exact hsame
  | _ => cases hcall

/-- Whatever happens in one of two states with the same targets can happen in the other. -/
theorem sameForest_step {e : Event} {t s' : DispatchQueues} (h : s.SameForest s')
    (hs : s.Identified) (hs' : s'.Identified) (hstep : s.step e = .ok t) :
    ∃ t', s'.step e = .ok t' ∧ t.SameForest t' := by
  cases e with
  | bruCreate label q queueIDValue name =>
    simp only [step, bruDispatchQueueCreate, bind_eq_ok, enabledIf_eq_ok, assertThat_eq_ok,
      pure_eq_ok] at hstep ⊢
    obtain ⟨_, hfresh, _, hlabel, rfl⟩ := hstep
    exact ⟨_, ⟨(), mt h.live.mp hfresh, (), hlabel, rfl⟩, h.create.setSpecific.setSpecific⟩
  | foreignCreate q target =>
    simp only [step, bind_eq_ok, enabledIf_eq_ok, pure_eq_ok] at hstep ⊢
    obtain ⟨_, ⟨hfresh, htarget⟩, rfl⟩ := hstep
    have htarget' : ∀ t ∈ target, s'.Live t := fun t ht => h.live.mpr (htarget t ht)
    exact ⟨_, ⟨(), ⟨mt h.live.mp hfresh, htarget'⟩, rfl⟩, h.create⟩
  | setTargetQueue q target =>
    simp only [step, bind_eq_ok, enabledIf_eq_ok, pure_eq_ok] at hstep ⊢
    obtain ⟨_, ⟨hq, htarget, hforest⟩, rfl⟩ := hstep
    have htarget' : ∀ t ∈ target, s'.Live t := fun t ht => h.live.mpr (htarget t ht)
    rw [← h.currentChain] at hforest
    exact ⟨_, ⟨(), ⟨h.live.mpr hq, htarget', hforest⟩, rfl⟩, h.setTargetQueue hq⟩
  | death q =>
    simp only [step, bind_eq_ok, enabledIf_eq_ok, pure_eq_ok] at hstep ⊢
    obtain ⟨_, ⟨hq, hnot⟩, rfl⟩ := hstep
    rw [← h.addresses, ← h.target] at hnot
    exact ⟨_, ⟨(), ⟨h.live.mpr hq, hnot⟩, rfl⟩, h.dispose⟩
  | isOnQueue current q =>
    have hsame := sameForest_call hs rfl hstep
    simp only [step, bind_eq_ok, enabledIf_eq_ok, pure_eq_ok] at hstep ⊢
    obtain ⟨_, ⟨hcurrent, hq⟩, ⟨_, t'⟩, hanswer, rfl⟩ := hstep
    have hcurrent' : ∀ c ∈ current, s'.Live c := fun c hc => h.live.mpr (hcurrent c hc)
    have hq' : ∀ a ∈ q, s'.Live a := fun a ha => h.live.mpr (hq a ha)
    cases q with
    | none => cases hanswer
    | some q =>
      obtain ⟨after, heq, hafter, _⟩ := hs'.bruIsOnQueue_eq (hq' q rfl) current
      exact ⟨after, ⟨(), ⟨hcurrent', hq'⟩, (_, after), heq, rfl⟩, hsame.symm.trans (h.trans hafter)⟩

/-- A run and the same run without its calls end with the same targets. -/
theorem sameForest_eventsWithout {events : List Event} (hrun : run step initial events = .ok s) :
    ∃ t, run step initial (eventsWithout step (fun _ e => e.isCall) initial events) = .ok t ∧
      s.SameForest t ∧ s.Identified ∧ t.Identified := by
  refine run_eventsWithout (P := fun _ _ => True)
    (R := fun s t => s.SameForest t ∧ s.Identified ∧ t.Identified) ?_ ?_
    ⟨⟨rfl, rfl⟩, identified_initial, identified_initial⟩ (allSteps_of_forall (by simp) initial) hrun
  · intro s s' e t ⟨hsame, hs, hs'⟩ hcall _ hstep
    exact ⟨(sameForest_call hs hcall hstep).symm.trans hsame, identified_step hs hstep, hs'⟩
  · intro s s' e t ⟨hsame, hs, hs'⟩ hstep
    obtain ⟨t', ht', hsame'⟩ := sameForest_step hsame hs hs' hstep
    exact ⟨t', ht', hsame', identified_step hs hstep, identified_step hs' ht'⟩

/-! ## What the calls answer -/

/-- A call answers whether the queue is the current one or a target above it, and changes the
answer of no call. -/
structure AnswersExactly (s : DispatchQueues) : Prop where
  answer : ∀ c q, s.Live c → s.Live q →
    ∃ on, s.onQueue (some c) (some q) = .ok on ∧ (on = true ↔ s.OnChain c q)
  unchanged : ∀ c q on after, s.Live q → s.bruIsOnQueue c (some q) = .ok (on, after) →
    ∀ c' q', s.Live q' → after.onQueue c' (some q') = s.onQueue c' (some q')

theorem Identified.answersExactly (h : s.Identified) : s.AnswersExactly where
  answer c q hc hq := by
    refine ⟨_, h.onQueue_eq hq (some c), ?_⟩
    rw [decide_eq_true_iff]
    exact h.mem_currentChain hc
  unchanged c q on after hq hcall c' q' hq' := by
    obtain ⟨after', heq, hsame, hafter⟩ := h.bruIsOnQueue_eq hq c
    rw [heq] at hcall
    cases hcall
    exact hsame.onQueue_eq h hafter hq' c'

/-- After every run the calls answer exactly, and as they do after the run without the calls
made so far. -/
theorem bruIsOnQueue_exact {events : List Event} (hrun : run step initial events = .ok s) :
    s.AnswersExactly ∧
      ∃ t, run step initial (eventsWithout step (fun _ e => e.isCall) initial events) = .ok t ∧
        ∀ c q, s.Live q → t.onQueue c (some q) = s.onQueue c (some q) := by
  refine ⟨(identified_run hrun).answersExactly, ?_⟩
  obtain ⟨t, ht, hsame, hs, hidentified⟩ := sameForest_eventsWithout hrun
  exact ⟨t, ht, fun c q hq => hsame.onQueue_eq hs hidentified hq c⟩

/-- A foreign queue dies after it was looked for, and another one takes its address.  Its target
is given a target in turn. -/
theorem bruIsOnQueue_exact_reused :
    let a : ObjectAddress := ⟨0x1000, by decide, by decide⟩
    let b : ObjectAddress := ⟨0x2000, by decide, by decide⟩
    let c : ObjectAddress := ⟨0x3000, by decide, by decide⟩
    let events : List Event :=
      [.bruCreate (some "retry") a 0x9000 0x9010, .foreignCreate b (some a),
        .isOnQueue (some b) (some b), .death b, .bruCreate (some "timer") c 0x9020 0x9030,
        .foreignCreate b (some c), .isOnQueue (some c) (some b), .setTargetQueue c (some a)]
    ∃ s, run step initial events = .ok s ∧ s.onQueue (some b) (some a) = .ok true ∧
      s.onQueue (some a) (some b) = .ok false ∧ s.AnswersExactly ∧
      ∃ t, run step initial (eventsWithout step (fun _ e => e.isCall) initial events) = .ok t ∧
        ∀ c q, s.Live q → t.onQueue c (some q) = s.onQueue c (some q) := by
  intro a b c events
  obtain ⟨s, hrun, habove, hbelow⟩ : ∃ s, run step initial events = .ok s ∧
      s.onQueue (some b) (some a) = .ok true ∧ s.onQueue (some a) (some b) = .ok false :=
    ⟨_, rfl, rfl, rfl⟩
  exact ⟨s, hrun, habove, hbelow, bruIsOnQueue_exact hrun⟩

/-! ## The assertions -/

/-- `BRU_ASSERT_ON_QUEUE` passes on the queue and on what has it for a target. -/
theorem Identified.bruAssertOnQueue_iff (h : s.Identified) (hlive : s.Live b) (hq : s.Live q) :
    (∃ t, s.bruAssertOnQueue (some b) (some q) = .ok t) ↔ s.OnChain b q := by
  obtain ⟨after, heq, _⟩ := h.bruIsOnQueue_eq hq (some b)
  simp [bruAssertOnQueue, heq, h.mem_currentChain hlive]

/-- `BRU_ASSERT_OFF_QUEUE` passes everywhere else. -/
theorem Identified.bruAssertOffQueue_iff (h : s.Identified) (hlive : s.Live b)
    (hq : s.Live q) :
    (∃ t, s.bruAssertOffQueue (some b) (some q) = .ok t) ↔ ¬ s.OnChain b q := by
  obtain ⟨after, heq, _⟩ := h.bruIsOnQueue_eq hq (some b)
  simp [bruAssertOffQueue, heq, h.mem_currentChain hlive]

end DispatchQueues

end BromiumCoreUtils
