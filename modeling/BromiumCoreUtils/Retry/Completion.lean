import Mathlib.Data.List.Nodup
import Mathlib.Data.List.Perm.Subperm
import Mathlib.Logic.Relation
import BromiumCoreUtils.Retry.Outstanding

/-!
# Every completion block is called once

A start hands its completion block to the deferred of the current run, the
run resolves that deferred when it ends, and the deferred dispatches the
blocks to `targetQueue`.

* `CompletionLedger` is what a run keeps of this: the deferreds, and which
  blocks were registered, dispatched and called for which run.  Its steps are
  the five things that can happen to a completion block or to a run.
* `Accounted` is its invariant, built on `BRUDeferred.Delivers`.
* `step_ledger` says that a step of `BRURetry` is a run of the ledger.
* `completion_exactly_once` reads the contract off the invariant.
-/

namespace BromiumCoreUtils

open Machine

/-! ## Entries of one run -/

/-- The second components of the pairs that belong to `run`. -/
def ofRun {A : Type} (run : Nat) (entries : List (Nat × A)) : List A :=
  entries.filterMap fun entry => if entry.1 = run then some entry.2 else none

section OfRun

variable {A : Type} {run other : Nat} {a : A} {entries : List (Nat × A)}

@[simp] theorem ofRun_nil : ofRun run ([] : List (Nat × A)) = [] := rfl

@[simp] theorem ofRun_append (left right : List (Nat × A)) :
    ofRun run (left ++ right) = ofRun run left ++ ofRun run right := by
  simp [ofRun]

@[simp] theorem ofRun_cons_self : ofRun run ((run, a) :: entries) = a :: ofRun run entries := by
  simp [ofRun]

theorem ofRun_cons_of_ne (h : other ≠ run) :
    ofRun run ((other, a) :: entries) = ofRun run entries := by
  simp [ofRun, h]

@[simp] theorem ofRun_map_self (blocks : List A) :
    ofRun run (blocks.map fun block => (run, block)) = blocks := by
  induction blocks with
  | nil => rfl
  | cons block blocks ih => simp [ih]

theorem ofRun_map_of_ne (h : other ≠ run) (blocks : List A) :
    ofRun run (blocks.map fun block => (other, block)) = [] := by
  induction blocks with
  | nil => rfl
  | cons block blocks ih => rw [List.map_cons, ofRun_cons_of_ne h, ih]

theorem mem_ofRun : a ∈ ofRun run entries ↔ (run, a) ∈ entries := by
  simp [ofRun]

end OfRun

/-! ## The ledger -/

/-- The runs of a `BRURetry` and the then-blocks made for them. -/
structure CompletionLedger (K : Type) where
  /-- The run that is current. -/
  deferred : Option Nat
  runs : Nat
  thenBlocks : Nat
  deferreds : Nat → BRUDeferred (RetryThenBlock K) BRURetryResult
  registrations : List (Nat × RetryThenBlock K)
  resolutions : List (Nat × BRURetryResult)
  dispatched : List (Nat × RetryThenBlock K)
  completions : List (Nat × RetryThenBlock K)

namespace CompletionLedger

variable {K : Type}

/-- What can happen to a run or to a then-block. -/
inductive Step : CompletionLedger K → CompletionLedger K → Prop where
  | begin {l : CompletionLedger K} (hnone : l.deferred = none) :
      Step l
        { l with
          deferred := some l.runs
          runs := l.runs + 1
          deferreds := Function.update l.deferreds l.runs .init }
  | register {l : CompletionLedger K} {run : Nat} (hrun : l.deferred = some run)
      (completionBlock : K) :
      Step l
        { l with
          thenBlocks := l.thenBlocks + 1
          deferreds := Function.update l.deferreds run
            ((l.deferreds run).then_ ⟨l.thenBlocks, completionBlock⟩)
          registrations := l.registrations ++ [(run, ⟨l.thenBlocks, completionBlock⟩)] }
  | resolve {l : CompletionLedger K} {run : Nat} (hrun : l.deferred = some run)
      (result : BRURetryResult) :
      Step l
        { l with
          deferred := none
          deferreds := Function.update l.deferreds run
            ((l.deferreds run).resolve (some result))
          resolutions := l.resolutions ++ [(run, result)] }
  | dispatch {l : CompletionLedger K} {run : Nat}
      {deferred : BRUDeferred (RetryThenBlock K) BRURetryResult}
      {blocks : List (RetryThenBlock K)}
      (hrun : (l.deferreds run).runSync = .ok (deferred, blocks)) :
      Step l
        { l with
          deferreds := Function.update l.deferreds run deferred
          dispatched := l.dispatched ++ blocks.map fun block => (run, block) }
  | call {l : CompletionLedger K} {run : Nat} {block : RetryThenBlock K}
      {rest : List (Nat × RetryThenBlock K)}
      (hq : l.dispatched = (run, block) :: rest) :
      Step l
        { l with
          dispatched := rest
          completions := l.completions ++ [(run, block)] }

/-- The account of one run: its deferred delivers the registered blocks, the
called and the dispatched ones first, and it was resolved at most once. -/
def AccountOf (l : CompletionLedger K) (run : Nat) : Prop :=
  ∃ resolution : Option BRURetryResult,
    ofRun run l.resolutions = resolution.toList ∧
      (l.deferreds run).Delivers (ofRun run l.registrations)
        (ofRun run l.completions ++ ofRun run l.dispatched) (resolution.map some)

/-- Every run is accounted for, and no then-block is used twice. -/
structure Accounted (l : CompletionLedger K) : Prop where
  account : ∀ run, AccountOf l run
  current : ∀ run, l.deferred = some run → run < l.runs ∧ ofRun run l.resolutions = []
  ended : ∀ run, run < l.runs → l.deferred ≠ some run → ofRun run l.resolutions ≠ []
  /-- A deferred that was not made yet. -/
  fresh : ∀ run, l.runs ≤ run → l.deferreds run = .init
  address : ∀ entry ∈ l.registrations, entry.2.address < l.thenBlocks
  nodup : (l.registrations.map fun entry => entry.2.address).Nodup
  called : (l.completions.map fun entry => entry.2.address).Nodup

/-- Nothing is known of a run that did not begin. -/
theorem Accounted.resolutions_of_fresh {l : CompletionLedger K} (h : Accounted l)
    {run : Nat} (hrun : l.runs ≤ run) : ofRun run l.resolutions = [] := by
  obtain ⟨resolution, hres, hdel⟩ := h.account run
  have hpending := (hdel.pending (by rw [h.fresh run hrun]; rfl)).2
  rw [h.fresh run hrun] at hpending
  cases resolution with
  | none => exact hres
  | some result => simp [BRUDeferred.init, BRUDeferred.queuedValues] at hpending

/-- The called and the dispatched blocks of a run are the first ones that were
registered with it. -/
theorem Accounted.done_prefix {l : CompletionLedger K} (h : Accounted l) (run : Nat) :
    ofRun run l.completions ++ ofRun run l.dispatched <+: ofRun run l.registrations := by
  obtain ⟨_, _, hdel⟩ := h.account run
  exact hdel.done_prefix

/-- A block that was called or dispatched for a run was registered with it. -/
theorem Accounted.registered_of_done {l : CompletionLedger K} (h : Accounted l)
    {run : Nat} {block : RetryThenBlock K}
    (hdone : (run, block) ∈ l.completions ∨ (run, block) ∈ l.dispatched) :
    (run, block) ∈ l.registrations := by
  apply mem_ofRun.mp
  apply (h.done_prefix run).subset
  rcases hdone with hdone | hdone
  · exact List.mem_append_left _ (mem_ofRun.mpr hdone)
  · exact List.mem_append_right _ (mem_ofRun.mpr hdone)

/-- Two registrations at one address are the same one. -/
theorem Accounted.registration_unique {l : CompletionLedger K} (h : Accounted l)
    {entry entry' : Nat × RetryThenBlock K} (hentry : entry ∈ l.registrations)
    (hentry' : entry' ∈ l.registrations)
    (haddress : entry.2.address = entry'.2.address) : entry = entry' :=
  List.inj_on_of_nodup_map h.nodup hentry hentry' haddress

/-- The blocks registered with one run are distinct. -/
theorem Accounted.nodup_ofRun {l : CompletionLedger K} (h : Accounted l) (run : Nat) :
    (ofRun run l.registrations).Nodup := by
  refine List.Nodup.filterMap ?_ (List.Nodup.of_map _ h.nodup)
  intro entry entry' block hblock hblock'
  have hentry : entry = (run, block) := by
    simp at hblock
    exact Prod.ext hblock.1 hblock.2
  have hentry' : entry' = (run, block) := by
    simp at hblock'
    exact Prod.ext hblock'.1 hblock'.2
  rw [hentry, hentry']

/-- A dispatched block was not called before. -/
theorem Accounted.not_called {l : CompletionLedger K} (h : Accounted l) {run : Nat}
    {block : RetryThenBlock K} (hdispatched : (run, block) ∈ l.dispatched) :
    block.address ∉ l.completions.map fun entry => entry.2.address := by
  intro hmem
  obtain ⟨entry, hentry, haddress⟩ := List.mem_map.mp hmem
  have hreg := h.registered_of_done (Or.inl hentry)
  have hreg' := h.registered_of_done (Or.inr hdispatched)
  have heq : entry = (run, block) := h.registration_unique hreg hreg' haddress
  -- the run's own list would hold the block twice
  have hnodup := (h.nodup_ofRun run).sublist (h.done_prefix run).sublist
  rw [List.nodup_append] at hnodup
  have hcalled : block ∈ ofRun run l.completions := mem_ofRun.mpr (heq ▸ hentry)
  exact hnodup.2.2 block hcalled block (mem_ofRun.mpr hdispatched) rfl

/-- No more blocks are called than registered. -/
theorem Accounted.completions_le {l : CompletionLedger K} (h : Accounted l) :
    l.completions.length ≤ l.registrations.length :=
  (List.Nodup.subperm (List.Nodup.of_map _ h.called) fun _ hentry =>
    h.registered_of_done (Or.inl hentry)).length_le

/-- A step that leaves the entries and the deferred of a run alone leaves its
account alone. -/
theorem AccountOf.congr {l l' : CompletionLedger K} {run : Nat} (h : AccountOf l run)
    (hres : ofRun run l'.resolutions = ofRun run l.resolutions)
    (hreg : ofRun run l'.registrations = ofRun run l.registrations)
    (hdone : ofRun run l'.completions ++ ofRun run l'.dispatched =
      ofRun run l.completions ++ ofRun run l.dispatched)
    (hdef : l'.deferreds run = l.deferreds run) : AccountOf l' run := by
  obtain ⟨resolution, hr, hdel⟩ := h
  exact ⟨resolution, by rw [hres, hr], by rw [hreg, hdone, hdef]; exact hdel⟩

/-- Only the deferred of a run that began changes. -/
theorem Accounted.fresh_update {l : CompletionLedger K} (h : Accounted l) {run : Nat}
    (hlt : run < l.runs) (deferred : BRUDeferred (RetryThenBlock K) BRURetryResult) :
    ∀ other, l.runs ≤ other → Function.update l.deferreds run deferred other = .init := by
  intro other hle
  have hne : other ≠ run := by omega
  rw [Function.update_of_ne hne]
  exact h.fresh other hle

/-- A run begins with a deferred that nothing was registered with. -/
theorem Accounted.begin {l : CompletionLedger K} (h : Accounted l)
    (hnone : l.deferred = none) :
    Accounted { l with
      deferred := some l.runs
      runs := l.runs + 1
      deferreds := Function.update l.deferreds l.runs .init } := by
  have hsame : Function.update l.deferreds l.runs .init = l.deferreds := by
    rw [Function.update_eq_self_iff]
    exact (h.fresh l.runs (Nat.le_refl _)).symm
  refine
    { account := ?_, current := ?_, ended := ?_, fresh := ?_, address := h.address,
      nodup := h.nodup, called := h.called }
  · intro run
    exact (h.account run).congr rfl rfl rfl (by rw [hsame])
  · intro run hrun
    have heq : l.runs = run := by simpa using hrun
    rw [← heq]
    exact ⟨Nat.lt_succ_self _, h.resolutions_of_fresh (Nat.le_refl _)⟩
  · intro run hlt hne
    have hne' : l.runs ≠ run := by simpa using hne
    have hlt' : run < l.runs := by
      have hle : run < l.runs + 1 := hlt
      omega
    exact h.ended run hlt' (by rw [hnone]; simp)
  · intro run hle
    have hle' : l.runs + 1 ≤ run := hle
    rw [hsame]
    exact h.fresh run (by omega)

/-- A then-block is registered under a new address. -/
theorem Accounted.register {l : CompletionLedger K} (h : Accounted l) {run : Nat}
    (hrun : l.deferred = some run) (completionBlock : K) :
    Accounted { l with
      thenBlocks := l.thenBlocks + 1
      deferreds := Function.update l.deferreds run
        ((l.deferreds run).then_ ⟨l.thenBlocks, completionBlock⟩)
      registrations := l.registrations ++ [(run, ⟨l.thenBlocks, completionBlock⟩)] } := by
  obtain ⟨hlt, _⟩ := h.current run hrun
  refine
    { account := ?_, current := h.current, ended := h.ended, fresh := ?_, address := ?_,
      nodup := ?_, called := h.called }
  · intro other
    by_cases hother : other = run
    · subst hother
      obtain ⟨resolution, hr, hdel⟩ := h.account other
      refine ⟨resolution, hr, ?_⟩
      simpa using hdel.then_ ⟨l.thenBlocks, completionBlock⟩
    · refine (h.account other).congr rfl ?_ rfl ?_
      · rw [ofRun_append, ofRun_cons_of_ne (Ne.symm hother)]
        simp
      · simp [hother]
  · exact h.fresh_update hlt _
  · intro entry hentry
    rcases List.mem_append.mp hentry with hentry | hentry
    · exact Nat.lt_succ_of_lt (h.address entry hentry)
    · rw [List.mem_singleton.mp hentry]
      exact Nat.lt_succ_self _
  · rw [List.map_append, List.nodup_append]
    refine ⟨h.nodup, by simp, ?_⟩
    intro a ha b hb
    obtain ⟨entry, hentry, rfl⟩ := List.mem_map.mp ha
    have hb' : b = l.thenBlocks := by simpa using hb
    have := h.address entry hentry
    omega

/-- A run that is resolved ends. -/
theorem Accounted.resolve {l : CompletionLedger K} (h : Accounted l) {run : Nat}
    (hrun : l.deferred = some run) (result : BRURetryResult) :
    Accounted { l with
      deferred := none
      deferreds := Function.update l.deferreds run ((l.deferreds run).resolve (some result))
      resolutions := l.resolutions ++ [(run, result)] } := by
  obtain ⟨hlt, hnone⟩ := h.current run hrun
  refine
    { account := ?_, current := ?_, ended := ?_, fresh := ?_, address := h.address,
      nodup := h.nodup, called := h.called }
  · intro other
    by_cases hother : other = run
    · subst hother
      obtain ⟨resolution, hr, hdel⟩ := h.account other
      have hres : resolution = none := by
        rw [hnone] at hr
        cases resolution with
        | none => rfl
        | some result => cases hr
      rw [hres] at hdel
      refine ⟨some result, by simp [hnone], ?_⟩
      simpa using hdel.resolve (some result)
    · refine (h.account other).congr ?_ rfl rfl ?_
      · rw [ofRun_append, ofRun_cons_of_ne (Ne.symm hother)]
        simp
      · simp [hother]
  · intro other hother
    cases hother
  · intro other hlt' _
    by_cases hother : other = run
    · subst hother
      simp
    · have hold := h.ended other hlt' (by rw [hrun]; simpa [eq_comm] using hother)
      rw [ofRun_append]
      simp [hold]
  · exact h.fresh_update hlt _

/-- A deferred dispatches the blocks that are next. -/
theorem Accounted.dispatch {l : CompletionLedger K} (h : Accounted l) {run : Nat}
    {deferred : BRUDeferred (RetryThenBlock K) BRURetryResult}
    {blocks : List (RetryThenBlock K)}
    (hrun : (l.deferreds run).runSync = .ok (deferred, blocks)) :
    Accounted { l with
      deferreds := Function.update l.deferreds run deferred
      dispatched := l.dispatched ++ blocks.map fun block => (run, block) } := by
  have hlt : run < l.runs := by
    by_contra hge
    rw [h.fresh run (by omega)] at hrun
    simp [BRUDeferred.runSync, BRUDeferred.init] at hrun
  refine
    { account := ?_, current := h.current, ended := h.ended, fresh := ?_,
      address := h.address, nodup := h.nodup, called := h.called }
  · intro other
    by_cases hother : other = run
    · subst hother
      obtain ⟨resolution, hr, hdel⟩ := h.account other
      refine ⟨resolution, hr, ?_⟩
      simpa using hdel.runSync hrun
    · refine (h.account other).congr rfl rfl ?_ ?_
      · rw [ofRun_append, ofRun_map_of_ne (Ne.symm hother)]
        simp
      · simp [hother]
  · exact h.fresh_update hlt _

/-- A dispatched block is called. -/
theorem Accounted.call {l : CompletionLedger K} (h : Accounted l) {run : Nat}
    {block : RetryThenBlock K} {rest : List (Nat × RetryThenBlock K)}
    (hq : l.dispatched = (run, block) :: rest) :
    Accounted { l with
      dispatched := rest
      completions := l.completions ++ [(run, block)] } := by
  refine
    { account := ?_, current := h.current, ended := h.ended, fresh := h.fresh,
      address := h.address, nodup := h.nodup, called := ?_ }
  · intro other
    refine (h.account other).congr rfl rfl ?_ rfl
    by_cases hother : other = run
    · subst hother
      simp [hq]
    · rw [hq, ofRun_append, ofRun_cons_of_ne (Ne.symm hother),
        ofRun_cons_of_ne (Ne.symm hother)]
      simp
  · have hhead : (run, block) ∈ l.dispatched := by rw [hq]; simp
    have hnot := h.not_called hhead
    rw [List.map_append, List.nodup_append]
    refine ⟨h.called, by simp, ?_⟩
    intro a ha b hb
    have hb' : b = block.address := by simpa using hb
    intro hab
    exact hnot (hb' ▸ hab ▸ ha)

/-- One step keeps every account. -/
theorem Accounted.step {l l' : CompletionLedger K} (h : Accounted l) (hstep : Step l l') :
    Accounted l' := by
  cases hstep with
  | begin hnone => exact h.begin hnone
  | register hrun completionBlock => exact h.register hrun completionBlock
  | resolve hrun result => exact h.resolve hrun result
  | dispatch hrun => exact h.dispatch hrun
  | call hq => exact h.call hq

/-- A run is resolved at most once, -/
theorem Accounted.resolved_once {l : CompletionLedger K} (h : Accounted l) (run : Nat) :
    (ofRun run l.resolutions).length ≤ 1 := by
  obtain ⟨resolution, hres, _⟩ := h.account run
  rw [hres]
  cases resolution <;> simp

/-- and that is when it ends. -/
theorem Accounted.resolved_iff {l : CompletionLedger K} (h : Accounted l) (run : Nat) :
    ofRun run l.resolutions ≠ [] ↔ run < l.runs ∧ l.deferred ≠ some run := by
  constructor
  · intro hne
    refine ⟨?_, fun hrun => hne (h.current run hrun).2⟩
    by_contra hge
    exact hne (h.resolutions_of_fresh (by omega))
  · intro hended
    exact h.ended run hended.1 hended.2

theorem Accounted.steps {l l' : CompletionLedger K} (h : Accounted l)
    (hsteps : Relation.ReflTransGen Step l l') : Accounted l' := by
  induction hsteps with
  | refl => exact h
  | tail _ hstep ih => exact ih.step hstep

end CompletionLedger

/-! ## The ledger of a retry -/

namespace BRURetry

variable {U D K : Type}

/-- The calls of `then:` in a log, with their runs. -/
def registrations (log : List (RetryObservation U D K)) : List (Nat × RetryThenBlock K) :=
  log.filterMap fun
    | .register run block => some (run, block)
    | _ => none

/-- The calls of `resolve:` in a log, with their runs. -/
def resolutions (log : List (RetryObservation U D K)) : List (Nat × BRURetryResult) :=
  log.filterMap fun
    | .resolve run result => some (run, result)
    | _ => none

/-- The calls of completion blocks in a log, with their runs. -/
def completions (log : List (RetryObservation U D K)) : List (Nat × RetryThenBlock K) :=
  log.filterMap fun
    | .completion run block _ _ => some (run, block)
    | _ => none

/-- The then-blocks on a `targetQueue`, with their runs. -/
def dispatched (queue : List (RetryTargetBlock D K)) : List (Nat × RetryThenBlock K) :=
  queue.filterMap fun
    | .completion run block => some (run, block)
    | _ => none

/-- What the ledger keeps of a retry. -/
def ledger (r : BRURetry U D K) : CompletionLedger K where
  deferred := r.deferred
  runs := r.runs
  thenBlocks := r.thenBlocks
  deferreds := r.deferreds
  registrations := registrations r.log
  resolutions := resolutions r.log
  dispatched := dispatched r.targetQueue
  completions := completions r.log

/-- An entry that the ledger does not keep. -/
def Unaccounted (o : RetryObservation U D K) : Prop :=
  registrations [o] = [] ∧ resolutions [o] = [] ∧ completions [o] = []

section Ledger

variable (log log' : List (RetryObservation U D K))

@[simp] theorem registrations_append :
    registrations (log ++ log') = registrations log ++ registrations log' := by
  simp [registrations]

@[simp] theorem resolutions_append :
    resolutions (log ++ log') = resolutions log ++ resolutions log' := by
  simp [resolutions]

@[simp] theorem completions_append :
    completions (log ++ log') = completions log ++ completions log' := by
  simp [completions]

@[simp] theorem dispatched_append (queue queue' : List (RetryTargetBlock D K)) :
    dispatched (queue ++ queue') = dispatched queue ++ dispatched queue' := by
  simp [dispatched]

/-- The then-blocks of one flush. -/
@[simp] theorem dispatched_map (run : Nat) (blocks : List (RetryThenBlock K)) :
    dispatched (D := D) (blocks.map (.completion run)) =
      blocks.map fun block => (run, block) := by
  induction blocks with
  | nil => rfl
  | cons block blocks ih =>
    rw [List.map_cons, List.map_cons, ← ih]
    rfl

variable (r : BRURetry U D K)

/-- Steps that the ledger does not see. -/
theorem ledger_unchanged {r' : BRURetry U D K} (hdef : r'.deferred = r.deferred)
    (hruns : r'.runs = r.runs) (hthen : r'.thenBlocks = r.thenBlocks)
    (hdefs : r'.deferreds = r.deferreds)
    (hqueue : dispatched r'.targetQueue = dispatched r.targetQueue)
    (hlog : r'.log = r.log ∨ ∃ o, Unaccounted o ∧ r'.log = r.log ++ [o]) :
    Relation.ReflTransGen CompletionLedger.Step r.ledger r'.ledger := by
  have hledger : r'.ledger = r.ledger := by
    rcases hlog with hlog | ⟨o, ⟨hreg, hres, hcomp⟩, hlog⟩
    · simp [ledger, hdef, hruns, hthen, hdefs, hqueue, hlog]
    · simp [ledger, hdef, hruns, hthen, hdefs, hqueue, hlog, hreg, hres, hcomp]
  rw [hledger]

theorem ledger_record {o : RetryObservation U D K} (ho : Unaccounted o) :
    (r.record o).ledger = r.ledger := by
  obtain ⟨hreg, hres, hcomp⟩ := ho
  simp [ledger, record, hreg, hres, hcomp]

/-- A completion block joins the current run. -/
theorem ledger_withCompletion {run : Nat} (hrun : r.deferred = some run)
    (completion : Option K) :
    Relation.ReflTransGen CompletionLedger.Step r.ledger
      (r.withCompletion completion).ledger := by
  cases completion with
  | none => exact .refl
  | some block =>
    apply Relation.ReflTransGen.single
    have hledger : (r.withCompletion (some block)).ledger =
        { r.ledger with
          thenBlocks := r.thenBlocks + 1
          deferreds := Function.update r.deferreds run
            ((r.deferreds run).then_ ⟨r.thenBlocks, block⟩)
          registrations := r.ledger.registrations ++ [(run, ⟨r.thenBlocks, block⟩)] } := by
      simp [ledger, withCompletion, thenOnDeferred, hrun, registrations, resolutions,
        completions]
    rw [hledger]
    exact CompletionLedger.Step.register (l := r.ledger) hrun block

/-- A start in Idle begins a run. -/
theorem ledger_begun (hnone : r.deferred = none) (uuid : U) :
    CompletionLedger.Step r.ledger (r.begun uuid).ledger := by
  have hledger : (r.begun uuid).ledger =
      { r.ledger with
        deferred := some r.runs
        runs := r.runs + 1
        deferreds := Function.update r.deferreds r.runs .init } := by
    simp [ledger, begun, registrations, resolutions, completions, dispatched]
  rw [hledger]
  exact CompletionLedger.Step.begin (l := r.ledger) hnone

variable [ToString U]

/-- A terminating result ends the run. -/
theorem ledger_terminated {run : Nat} (hrun : r.deferred = some run) (success : Bool)
    (error : Option NSError) :
    CompletionLedger.Step r.ledger (r.terminated success error).ledger := by
  have hledger : (r.terminated success error).ledger =
      { r.ledger with
        deferred := none
        deferreds := Function.update r.deferreds run
          ((r.deferreds run).resolve (some (r.finalResult success error)))
        resolutions := r.ledger.resolutions ++ [(run, r.finalResult success error)] } := by
    simp [ledger, terminated, resolve, hrun, registrations, resolutions, completions]
  rw [hledger]
  exact CompletionLedger.Step.resolve (l := r.ledger) hrun _

/-- A cancel in Delay ends the run. -/
theorem ledger_released {run : Nat} (hrun : r.deferred = some run) :
    CompletionLedger.Step r.ledger r.released.ledger := by
  have hledger : r.released.ledger =
      { r.ledger with
        deferred := none
        deferreds := Function.update r.deferreds run
          ((r.deferreds run).resolve
            (some ⟨false, some (cancellationErrorWithIdentifier r.identifier)⟩))
        resolutions := r.ledger.resolutions ++
          [(run, ⟨false, some (cancellationErrorWithIdentifier r.identifier)⟩)] } := by
    cases htimer : r.timer <;>
      simp [ledger, released, suspendTimer, htimer, resolve, hrun, registrations,
        resolutions, completions]
  rw [hledger]
  exact CompletionLedger.Step.resolve (l := r.ledger) hrun _

end Ledger

/-- The deferred of a run that is not Idle. -/
theorem Consistent.deferred_eq {r : BRURetry U D K} (h : Consistent r)
    (hs : r.state ≠ .idle) : ∃ run, r.deferred = some run :=
  Option.isSome_iff_exists.mp (h.running hs).2

/-- A run is current while its work is being processed. -/
theorem Consistent.deferred_eq_of_work {r : BRURetry U D K} (h : Consistent r)
    (hout : SingleOutstanding r) {block : RetrySyncBlock D} {rest : List (RetrySyncBlock D)}
    (hq : r.syncQueue = block :: rest) : ∃ run, r.deferred = some run := by
  apply h.deferred_eq
  rcases (hout.of_syncQueue hq).1 with hs | hs <;> rw [hs] <;> simp

variable [DecidableEq U] [ToString U] [NSTimeInterval D]

/-- A step of the retry is a run of the ledger. -/
theorem step_ledger {r r' : BRURetry U D K} {e : Event U D K}
    (hout : SingleOutstanding r) (h : Consistent r) (hstep : step r e = .ok r') :
    Relation.ReflTransGen CompletionLedger.Step r.ledger r'.ledger := by
  cases step_transition hstep with
  | @startIdle uuid completion hs =>
    rw [ledger_record _ ⟨rfl, rfl, rfl⟩]
    have hbegin := ledger_begun r (h.idle hs).2.2 uuid
    exact .head hbegin (ledger_withCompletion (r.begun uuid) rfl completion)
  | @startJoin uuid completion hs =>
    obtain ⟨run, hrun⟩ := h.deferred_eq (by rcases hs with hs | hs <;> rw [hs] <;> simp)
    rw [ledger_record _ ⟨rfl, rfl, rfl⟩]
    exact ledger_withCompletion r hrun completion
  | @startRestore uuid completion hs =>
    obtain ⟨run, hrun⟩ := h.deferred_eq (by rw [hs]; simp)
    rw [ledger_record _ ⟨rfl, rfl, rfl⟩]
    exact ledger_withCompletion { r with state := .activeWaiting } hrun completion
  | cancelIgnored _ =>
    rw [ledger_record _ ⟨rfl, rfl, rfl⟩]
  | cancelDelay _ hs =>
    obtain ⟨run, hrun⟩ := h.deferred_eq (by rw [hs]; simp)
    rw [ledger_record _ ⟨rfl, rfl, rfl⟩]
    exact .single (ledger_released r hrun)
  | cancelWaiting _ _ _ =>
    rw [ledger_record _ ⟨rfl, rfl, rfl⟩]
    exact .refl
  | runAction hq =>
    exact ledger_unchanged r rfl rfl rfl rfl (by simp [hq, dispatched]) (Or.inl rfl)
  | continuation _ =>
    exact ledger_unchanged r rfl rfl rfl rfl rfl (Or.inr ⟨_, ⟨rfl, rfl, rfl⟩, rfl⟩)
  | askPolicy _ _ _ _ _ =>
    exact ledger_unchanged r rfl rfl rfl rfl (by simp [dispatched]) (Or.inl rfl)
  | @finish attempt result rest hq _ _ =>
    obtain ⟨run, hrun⟩ := h.deferred_eq_of_work hout hq
    exact .single (ledger_terminated { r with syncQueue := rest } hrun _ _)
  | runPolicy hq =>
    exact ledger_unchanged r rfl rfl rfl rfl (by simp [hq, dispatched])
      (Or.inr ⟨_, ⟨rfl, rfl, rfl⟩, rfl⟩)
  | @policyStop success error response nextDelay rest hq _ =>
    obtain ⟨run, hrun⟩ := h.deferred_eq_of_work hout hq
    exact .single (ledger_terminated { r with syncQueue := rest } hrun _ _)
  | policyRetry hq _ _ =>
    exact ledger_unchanged r rfl rfl rfl rfl rfl (Or.inr ⟨_, ⟨rfl, rfl, rfl⟩, rfl⟩)
  | timerCallback htimer _ =>
    exact ledger_unchanged r rfl rfl rfl rfl (by simp [resumed, dispatched])
      (Or.inr ⟨_, ⟨rfl, rfl, rfl⟩, rfl⟩)
  | @runDeferred run deferred blocks hrun =>
    apply Relation.ReflTransGen.single
    have hledger : ledger { r with
          deferreds := Function.update r.deferreds run deferred
          targetQueue := r.targetQueue ++ blocks.map (.completion run) } =
        { r.ledger with
          deferreds := Function.update r.deferreds run deferred
          dispatched := r.ledger.dispatched ++ blocks.map fun block => (run, block) } := by
      simp [ledger]
    rw [hledger]
    exact CompletionLedger.Step.dispatch (l := r.ledger) hrun
  | @runCompletion run block rest hq =>
    apply Relation.ReflTransGen.single
    have hqueue : r.ledger.dispatched = (run, block) :: dispatched rest := by
      simp [ledger, hq, dispatched]
    have hstep := CompletionLedger.Step.call hqueue
    simpa [ledger, registrations, resolutions, completions] using hstep

omit [DecidableEq U] [ToString U] in
theorem accounted_init (delay : D) :
    (initWithActionBlock delay : BRURetry U D K).ledger.Accounted where
  account _ := ⟨none, rfl, BRUDeferred.delivers_init⟩
  current _ hrun := by cases hrun
  ended _ hlt := absurd hlt (Nat.not_lt_zero _)
  fresh _ _ := rfl
  address _ hentry := by cases hentry
  nodup := List.nodup_nil
  called := List.nodup_nil

/-- A start with a completion block registers it with the run that is current
when the start returns. -/
theorem start_registers {r r' : BRURetry U D K} {uuid : U} {completionBlock : K}
    (h : Consistent r) (hstep : step r (.start uuid (some completionBlock)) = .ok r') :
    ∃ run, r'.deferred = some run ∧
      registrations r'.log =
        registrations r.log ++ [(run, ⟨r.thenBlocks, completionBlock⟩)] := by
  cases step_transition hstep with
  | startIdle hs =>
    refine ⟨r.runs, by simp [record, begun], ?_⟩
    simp [record, withCompletion, thenOnDeferred, begun, registrations]
  | startJoin hs =>
    obtain ⟨run, hrun⟩ := h.deferred_eq (by rcases hs with hs | hs <;> rw [hs] <;> simp)
    refine ⟨run, by simp [record, hrun], ?_⟩
    simp [record, withCompletion, thenOnDeferred, hrun, registrations]
  | startRestore hs =>
    obtain ⟨run, hrun⟩ := h.deferred_eq (by rw [hs]; simp)
    refine ⟨run, by simp [record, hrun], ?_⟩
    simp [record, withCompletion, thenOnDeferred, hrun, registrations]

/-- Every reachable ledger is accounted for. -/
theorem accounted_of_reachable {delay : D} {r : BRURetry U D K}
    (h : Reachable step (initWithActionBlock delay) r) : r.ledger.Accounted := by
  refine h.invariant (I := fun r => r.ledger.Accounted) (accounted_init delay) ?_
  intro r e r' hr hacc hstep
  obtain ⟨hout, hcons⟩ := invariants_of_reachable hr
  exact hacc.steps (step_ledger hout hcons hstep)

/-- In a reachable state only the client's inconsistent results and
`checkInvariants` can stop the object. -/
theorem step_failed_of_reachable {delay : D} {r : BRURetry U D K} {e : Event U D K}
    {a : Assertion} (h : Reachable step (initWithActionBlock delay) r)
    (hstep : step r e = .error (.failed a)) :
    a = .invalidState ∨ a = .inconsistentResults := by
  obtain ⟨hout, hcons⟩ := invariants_of_reachable h
  rcases step_failed hout hcons hstep with ha | ha | ⟨run, _, hdef⟩
  · exact Or.inl ha
  · exact Or.inr ha
  · obtain ⟨_, _, hdel⟩ := (accounted_of_reachable h).account run
    exact absurd hdef (hdel.runSync_ne_failed a)

/-! ## The contract -/

/-- A completion entry stands after the resolution of its run, and carries its
result. -/
def AfterResolution (before : List (RetryObservation U D K))
    (o : RetryObservation U D K) : Prop :=
  ∀ run block success error, o = .completion run block success error →
    .resolve run ⟨success, error⟩ ∈ before

/-- The run began and is not current any more. -/
def Ended (run : Nat) (r : BRURetry U D K) : Prop :=
  run < r.runs ∧ r.deferred ≠ some run

/-- The contract of the completion blocks. -/
structure CompletionContract (r : BRURetry U D K) : Prop where
  /-- No two registrations make the same then-block, -/
  registered_once : ((registrations r.log).map fun entry => entry.2.address).Nodup
  /-- no then-block calls its completion block twice, -/
  called_once : ((completions r.log).map fun entry => entry.2.address).Nodup
  /-- and it does so after its run was resolved, with the result of its run. -/
  after_resolution : Log.Justified AfterResolution r.log
  /-- A run is resolved once, -/
  resolved_once : ∀ run, (ofRun run (resolutions r.log)).length ≤ 1
  /-- when it ends. -/
  resolved_iff : ∀ run, ofRun run (resolutions r.log) ≠ [] ↔ Ended run r
  /-- The blocks of a run are called in registration order, -/
  in_order : ∀ run, ofRun run (completions r.log) <+: ofRun run (registrations r.log)
  /-- and all of them, once the queues have drained. -/
  drained : ∀ run, Ended run r → (r.deferreds run).syncQueue = [] →
    (∀ block, .completion run block ∉ r.targetQueue) →
    ofRun run (completions r.log) = ofRun run (registrations r.log)

omit [DecidableEq U] [ToString U] [NSTimeInterval D] in
/-- A dispatched then-block gets the result that its run was resolved with. -/
theorem value_of_dispatched {r : BRURetry U D K} (h : r.ledger.Accounted) {run : Nat}
    {block : RetryThenBlock K} (hmem : .completion run block ∈ r.targetQueue) :
    .resolve run (((r.deferreds run).value).getD ⟨false, none⟩) ∈ r.log := by
  obtain ⟨resolution, hres, hdel⟩ := h.account run
  have hblock : block ∈ ofRun run r.ledger.dispatched := by
    apply mem_ofRun.mpr
    exact List.mem_filterMap.mpr ⟨_, hmem, rfl⟩
  have hvalue := hdel.value_of_done (by
    intro hnil
    rw [List.append_eq_nil_iff] at hnil
    rw [hnil.2] at hblock
    cases hblock)
  cases resolution with
  | none => cases hvalue
  | some result =>
    have hsome : some (r.deferreds run).value = some (some result) := hvalue.symm
    have hvalue' : (r.deferreds run).value = some result := by simpa using hsome
    have hresult : result ∈ ofRun run r.ledger.resolutions := by rw [hres]; simp
    have hentry : (run, result) ∈ resolutions r.log := mem_ofRun.mp hresult
    rw [hvalue']
    obtain ⟨o, ho, heq⟩ := List.mem_filterMap.mp hentry
    cases o <;> simp at heq
    rw [← heq.1, ← heq.2]
    exact ho

/-- One step calls completion blocks after their run was resolved only. -/
theorem step_afterResolution {r r' : BRURetry U D K} {e : Event U D K}
    (hacc : r.ledger.Accounted) (h : Log.Justified AfterResolution r.log)
    (hstep : step r e = .ok r') : Log.Justified AfterResolution r'.log := by
  by_cases he : e = .runCompletion
  · rw [he] at hstep
    cases step_transition hstep with
    | @runCompletion run block rest hq =>
      refine Log.justified_concat_iff.mpr ⟨h, ?_⟩
      intro run' block' success error heq
      injection heq with hrun _ hsuccess herror
      rw [← hrun, ← hsuccess, ← herror]
      have hhead : .completion run block ∈ r.targetQueue := by rw [hq]; simp
      exact value_of_dispatched hacc hhead
  · obtain ⟨entries, hlog, hentries⟩ := step_log hstep
    rw [hlog]
    apply h.append
    intro o ho pre run block success error heq
    have hlogs := hentries o ho
    rw [heq] at hlogs
    cases e <;> simp_all [Event.logs]

theorem afterResolution_of_reachable {delay : D} {r : BRURetry U D K}
    (h : Reachable step (initWithActionBlock delay) r) :
    Log.Justified AfterResolution r.log := by
  refine h.invariant (I := fun r => Log.Justified AfterResolution r.log)
    (Log.justified_nil _) ?_
  intro r e r' hr hlog hstep
  exact step_afterResolution (accounted_of_reachable hr) hlog hstep

omit [DecidableEq U] [ToString U] [NSTimeInterval D] in
/-- The deferred of an ended run has dispatched every block once its queue has
drained. -/
theorem drained_of_accounted {r : BRURetry U D K} (h : r.ledger.Accounted) {run : Nat}
    (hended : Ended run r) (hsync : (r.deferreds run).syncQueue = [])
    (htarget : ∀ block, .completion run block ∉ r.targetQueue) :
    ofRun run (completions r.log) = ofRun run (registrations r.log) := by
  obtain ⟨resolution, hres, hdel⟩ := h.account run
  have hnil : ofRun run r.ledger.dispatched = [] := by
    rw [List.eq_nil_iff_forall_not_mem]
    intro block hblock
    obtain ⟨b, hb, heq⟩ := List.mem_filterMap.mp (mem_ofRun.mp hblock)
    cases b <;> simp at heq
    rw [heq.1, heq.2] at hb
    exact htarget block hb
  have hne := h.ended run hended.1 hended.2
  cases resolution with
  | none => exact absurd hres hne
  | some result =>
    have hall := hdel.done_eq_all hsync
    rw [hnil, List.append_nil] at hall
    exact hall

/-- Every completion block is called once: after its run has ended, with the
result of that run, in the order of the starts, and for certain once the
queues have drained.  A start that is given a completion block registers it
with the run that is current when the start returns. -/
theorem completion_exactly_once {delay : D} {r : BRURetry U D K}
    (hreach : Reachable step (initWithActionBlock delay) r) :
    CompletionContract r ∧
      ∀ uuid completionBlock r', step r (.start uuid (some completionBlock)) = .ok r' →
        ∃ run, r'.deferred = some run ∧
          registrations r'.log =
            registrations r.log ++ [(run, ⟨r.thenBlocks, completionBlock⟩)] := by
  have hacc := accounted_of_reachable hreach
  obtain ⟨_, hcons⟩ := invariants_of_reachable hreach
  refine ⟨?_, ?_⟩
  · exact
      { registered_once := hacc.nodup
        called_once := hacc.called
        after_resolution := afterResolution_of_reachable hreach
        resolved_once := hacc.resolved_once
        resolved_iff := hacc.resolved_iff
        in_order := fun run => (List.prefix_append _ _).trans (hacc.done_prefix run)
        drained := fun _ hended => drained_of_accounted hacc hended }
  · intro uuid completionBlock r' hstep
    exact start_registers hcons hstep

/-- Two starts join one run that succeeds, and all queues drain. -/
def joinedSuccess : List (Event Nat Nat Nat) :=
  [.start 7 (some 100), .runAction, .start 8 (some 200),
    .continuation 1 ⟨true, none, .final⟩, .runSync, .runDeferred 0, .runDeferred 0,
    .runDeferred 0, .runCompletion, .runCompletion]

theorem completion_exactly_once_joinedSuccess : ∃ r : BRURetry Nat Nat Nat,
    run step (initWithActionBlock 0) joinedSuccess = .ok r ∧
      ofRun 0 (completions r.log) = [⟨0, 100⟩, ⟨1, 200⟩] := by
  obtain ⟨r, hrun, hregistered, hended, hsync, htarget⟩ : ∃ r : BRURetry Nat Nat Nat,
      run step (initWithActionBlock 0) joinedSuccess = .ok r ∧
        ofRun 0 (registrations r.log) = [⟨0, 100⟩, ⟨1, 200⟩] ∧ Ended 0 r ∧
        (r.deferreds 0).syncQueue = [] ∧ r.targetQueue = [] :=
    ⟨_, rfl, rfl, ⟨by decide, by decide⟩, rfl, rfl⟩
  have hcontract := (completion_exactly_once ⟨_, hrun⟩).1
  refine ⟨r, hrun, ?_⟩
  rw [hcontract.drained 0 hended hsync (by rw [htarget]; simp), hregistered]

end BRURetry

end BromiumCoreUtils
