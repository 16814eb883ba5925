import BromiumCoreUtils.DispatchUtils.Basic
import BromiumCoreUtils.Lib.SerialQueues
import BromiumCoreUtils.Timer.Basic

/-!
# What the classes do to queues

`BRUTimer`, `BRUDeferred`, `BRURetry`, `BRUFileMonitor` and `BRUResourceCleanup` keep their
state on serial queues.  Here is what each of their methods and blocks does to the queues, in the
order of the source, with its assertions; everything else is left to a choice.  There are any
number of objects of each class, and the blocks of the clients call their methods as they
like.

Some calls wait for a queue.  The function that adjusts the interval of a timer runs on the
queue of the timer and must not block, and a cleanup block runs on the queue of its cleanup and
must not wait for it.  `ClientCall.level` says which calls this excludes.
-/

namespace BromiumCoreUtils

open SerialQueues

/-- The serial queues. -/
inductive QueueName where
  | client (n : Nat)
  | timerSyncQ (t : Nat)
  | timerTargetQ (t : Nat)
  | deferredSyncQueue (d : Nat)
  | retrySyncQueue (r : Nat)
  | retryTargetQueue (r : Nat)
  | fileMonitorSyncQueue (m : Nat)
  | fileMonitorMonitorQueue (m : Nat)
  | cleanupSyncQueue (c : Nat)
deriving DecidableEq, Repr

/-- The queues that the clients choose: the targets of their own queues, and the `targetQueue`
of each retry. -/
structure ClientQueues where
  targets : Nat → List Nat
  retryTargetQueue : Nat → Option Nat

namespace ClientQueues

/-- A queue of a client and its targets. -/
def clientChain (w : ClientQueues) (n : Nat) : List QueueName :=
  (n :: w.targets n).map QueueName.client

/-- A queue and its targets. -/
def chain (w : ClientQueues) : QueueName → List QueueName
  | .client n => w.clientChain n
  | .retryTargetQueue r => .retryTargetQueue r :: ((w.retryTargetQueue r).elim [] w.clientChain)
  | q => [q]

end ClientQueues

/-! ## The objects -/

/-- The queue that `BRUTimer` was given. -/
inductive TimerTargetQueue where
  | none
  | concurrent
  | client (n : Nat)
  /-- `scheduleNextAction` passes the `syncQueue` of the retry. -/
  | retry (r : Nat)
deriving DecidableEq, Repr

/-- The parameters of a `BRUTimer`. -/
structure TimerObject where
  name : Nat
  userTargetQueue : TimerTargetQueue
  repeats : Bool
  mode : BRUTimerMode
deriving DecidableEq, Repr

namespace TimerObject

def syncQ (t : TimerObject) : QueueName := .timerSyncQ t.name

def targetQ (t : TimerObject) : Option QueueName :=
  match t.userTargetQueue with
  | .none => some (.timerTargetQ t.name)
  | .concurrent => none
  | .client n => some (.client n)
  | .retry r => some (.retrySyncQueue r)

end TimerObject

/-- The queue that `BRUDeferred` and `BRUFileMonitor` were given for what they call. -/
inductive CompletionQueue where
  | concurrent
  | client (n : Nat)
  /-- `startWithCompletionBlock:` passes the `targetQueue` of the retry. -/
  | retry (r : Nat)
deriving DecidableEq, Repr

def CompletionQueue.queue : CompletionQueue → Option QueueName
  | .concurrent => none
  | .client n => some (.client n)
  | .retry r => some (.retryTargetQueue r)

/-- A `BRUDeferred`, or a `BRUFileMonitor`. -/
structure CallingObject where
  name : Nat
  completionQueue : CompletionQueue
deriving DecidableEq, Repr

/-! ## The blocks -/

/-- Where the code of a client runs as a block of its own. -/
inductive ClientPlace where
  | thread
  | client (n : Nat)
deriving DecidableEq, Repr

def ClientPlace.queue : ClientPlace → Option QueueName
  | .thread => none
  | .client n => some (.client n)

/-- The blocks, under the names of the methods that they are in. -/
inductive Block where
  | client (place : ClientPlace)
  | timerGeneration (t : TimerObject)
  | timerRunning (t : TimerObject)
  | timerSetRunning (t : TimerObject)
  | timerResume (t : TimerObject)
  /-- The wait of `dispatch_after`. -/
  | timerDelay (t : TimerObject)
  | timerExpired (t : TimerObject)
  | timerDispatched (t : TimerObject)
  | timerFire (t : TimerObject) (setup : Bool)
  | deferredResolve (d : CallingObject)
  | deferredThen (d : CallingObject)
  | deferredCompletion (d : CallingObject)
  | retryStart (r : Nat)
  | retryCancel (r : Nat)
  | retryAction (r : Nat)
  | retryContinuation (r : Nat)
  | retryPolicy (r : Nat)
  | retryPolicyResponse (r : Nat)
  | fileMonitorStart (m : CallingObject)
  | fileMonitorStop (m : CallingObject)
  | fileMonitorIsMonitoring (m : CallingObject)
  | fileMonitorRegistration (m : CallingObject)
  /-- The sources that `buildMonitors` has made. -/
  | fileMonitorSources (m : CallingObject)
  | fileMonitorEvent (m : CallingObject)
  | fileMonitorEvaluate (m : CallingObject)
  | fileMonitorResync (m : CallingObject)
  | fileMonitorCallback (m : CallingObject)
  | cleanupAdd (c : Nat)
  | cleanupRunAll (c : Nat)
  | cleanupDiscard (c : Nat)
deriving DecidableEq, Repr

/-- The queue of a block. -/
def Block.home : Block → Option QueueName
  | .client place => place.queue
  | .timerGeneration t | .timerRunning t | .timerSetRunning t | .timerResume t
  | .timerExpired t => some t.syncQ
  | .timerDelay _ | .timerDispatched _ | .fileMonitorSources _ => none
  | .timerFire t _ => t.targetQ
  | .deferredResolve d | .deferredThen d => some (.deferredSyncQueue d.name)
  | .deferredCompletion d => d.completionQueue.queue
  | .retryStart r | .retryCancel r | .retryContinuation r | .retryPolicyResponse r =>
    some (.retrySyncQueue r)
  | .retryAction r | .retryPolicy r => some (.retryTargetQueue r)
  | .fileMonitorStart m | .fileMonitorStop m | .fileMonitorIsMonitoring m
  | .fileMonitorEvaluate m | .fileMonitorResync m => some (.fileMonitorSyncQueue m.name)
  | .fileMonitorRegistration m | .fileMonitorEvent m => some (.fileMonitorMonitorQueue m.name)
  | .fileMonitorCallback m => m.completionQueue.queue
  | .cleanupAdd c | .cleanupRunAll c | .cleanupDiscard c => some (.cleanupSyncQueue c)

abbrev QueueInstr := Instr QueueName Block

/-! ## `BRUTimer` -/

namespace TimerObject

variable (t : TimerObject)

/-- `-generation`. -/
def generation : List QueueInstr := [.assertOff t.syncQ, .sync t.syncQ (.timerGeneration t)]

/-- `-generationUnsynchronized`, `-incrementGenerationUnsynchronized`,
`-setRunningUnsynchronized:` and `-runningUnsynchronized`. -/
def unsynchronized : List QueueInstr := [.assertOn t.syncQ]

/-- `-running`. -/
def running : List QueueInstr := [.assertOff t.syncQ, .sync t.syncQ (.timerRunning t)]

/-- `-setRunning:`. -/
def setRunning : List QueueInstr := [.async (some t.syncQ) (.timerSetRunning t)]

/-- `-fireWithDate:postFireBlock:`, with a block that sets up the timer again or not. -/
def fireWithDate (setup : Bool) : List QueueInstr := [.async t.targetQ (.timerFire t setup)]

/-- `-setupTimer`. -/
def setupTimer : List QueueInstr := t.generation ++ [.async none (.timerDelay t)]

/-- `-resumeWithUpdateInterval:interval:`. -/
def resumeWithUpdateInterval : List QueueInstr :=
  [.assertOff t.syncQ, .sync t.syncQ (.timerResume t)] ++ t.setupTimer

def restart : List QueueInstr := t.resumeWithUpdateInterval

def restartWithInterval : List QueueInstr := t.resumeWithUpdateInterval

def resume : List QueueInstr := t.resumeWithUpdateInterval

def start : List QueueInstr := t.running ++ t.restart

def suspend : List QueueInstr := t.setRunning

def fire : List QueueInstr := t.fireWithDate false

end TimerObject

/-! ## `BRUDeferred` -/

namespace CallingObject

variable (d : CallingObject)

def resolve : List QueueInstr := [.async (some (.deferredSyncQueue d.name)) (.deferredResolve d)]

/-- `-then:`. -/
def thenCall : List QueueInstr := [.async (some (.deferredSyncQueue d.name)) (.deferredThen d)]

/-- `-processBlocks`, with the number of blocks that there are. -/
def processBlocks (count : Nat) : List QueueInstr :=
  .assertOn (.deferredSyncQueue d.name) ::
    List.replicate count (.async d.completionQueue.queue (.deferredCompletion d))

end CallingObject

/-! ## `BRURetry` -/

/-- Which of its states a `BRURetry` or a `BRUFileMonitor` is in, and which branch its code
takes. -/
inductive Branch where
  | first
  | second
  | third
deriving DecidableEq, Repr, Inhabited

namespace BRURetryQueues

variable (r : Nat)

/-- The deferred of a run. -/
def deferred (name : Nat) : CallingObject := ⟨name, .retry r⟩

/-- The timer of `scheduleNextAction`. -/
def timer (name : Nat) : TimerObject := ⟨name, .retry r, false, .intervalBetweenBlockExecutions⟩

def checkInvariants : List QueueInstr := [.assertOn (.retrySyncQueue r)]

def performAction : List QueueInstr :=
  [.assertOn (.retrySyncQueue r), .async (some (.retryTargetQueue r)) (.retryAction r)]

def scheduleNextAction (name : Nat) : List QueueInstr :=
  .assertOn (.retrySyncQueue r) :: (timer r name).resume

/-- `-handleResult:error:policyResponse:nextDelay:`. -/
def handleResult (terminate : Bool) (name : Nat) : List QueueInstr :=
  .assertOn (.retrySyncQueue r) ::
    (if terminate then (deferred r name).resolve else scheduleNextAction r name) ++
    checkInvariants r

/-- The block of `scheduleNextAction`. -/
def timerAction : List QueueInstr := .assertOn (.retrySyncQueue r) :: performAction r

def startWithCompletionBlock : List QueueInstr := [.sync (.retrySyncQueue r) (.retryStart r)]

def cancel : List QueueInstr :=
  [.assertOff (.retrySyncQueue r), .sync (.retrySyncQueue r) (.retryCancel r)]

/-- `continuationBlock`, of a retry that is alive. -/
def continuation : List QueueInstr := [.async (some (.retrySyncQueue r)) (.retryContinuation r)]

end BRURetryQueues

/-! ## `BRUFileMonitor` -/

namespace CallingObject

variable (m : CallingObject)

def syncQueue : QueueName := .fileMonitorSyncQueue m.name

def monitorQueue : QueueName := .fileMonitorMonitorQueue m.name

/-- `-buildMonitors`, with the number of descriptors that could be opened.  The registrations
run on `monitorQueue`, and `dispatch_group_wait` waits for each of them. -/
def buildMonitors (count : Nat) : List QueueInstr :=
  [.assertOn m.syncQueue, .assertOff m.monitorQueue, .async none (.fileMonitorSources m)] ++
    List.replicate count (.sync m.monitorQueue (.fileMonitorRegistration m))

def destroyMonitors : List QueueInstr := [.assertOn m.syncQueue]

def invokeCallback : List QueueInstr :=
  [.assertOn m.syncQueue, .async m.completionQueue.queue (.fileMonitorCallback m)]

def rebuildBlock (count : Nat) : List QueueInstr :=
  m.destroyMonitors ++ m.buildMonitors count ++
    [.async (some m.syncQueue) (.fileMonitorResync m)]

/-- `-evaluateForPath:`, which calls back or not, and builds the monitors again or not. -/
def evaluateForPath (branch : Branch) (count : Nat) : List QueueInstr :=
  .assertOn m.syncQueue ::
    match branch with
    | .first => []
    | .second => m.invokeCallback
    | .third => m.invokeCallback ++ m.rebuildBlock count

/-- `-startWithError:callback:`, with a callback. -/
def startWithError : List QueueInstr :=
  [.assertOff m.syncQueue, .assertOff m.monitorQueue, .sync m.syncQueue (.fileMonitorStart m)]

/-- `-stop:`. -/
def stop : List QueueInstr :=
  [.assertOff m.syncQueue, .assertOff m.monitorQueue, .sync m.syncQueue (.fileMonitorStop m)]

def isMonitoring : List QueueInstr :=
  [.assertOff m.monitorQueue, .sync m.syncQueue (.fileMonitorIsMonitoring m)]

end CallingObject

/-! ## The clients -/

/-- What the code of a client calls. -/
inductive ClientCall where
  | dispatchAsync (place : ClientPlace)
  | timerStart (t : TimerObject)
  | timerRestart (t : TimerObject)
  | timerRestartWithInterval (t : TimerObject)
  | timerResume (t : TimerObject)
  | timerRunning (t : TimerObject)
  | timerSuspend (t : TimerObject)
  | timerFire (t : TimerObject)
  | deferredResolve (d : CallingObject)
  | deferredThen (d : CallingObject)
  | retryStart (r : Nat)
  | retryCancel (r : Nat)
  | retryContinuation (r : Nat)
  | fileMonitorStart (m : CallingObject)
  | fileMonitorStop (m : CallingObject)
  | fileMonitorIsMonitoring (m : CallingObject)
  | cleanupAdd (c : Nat)
  | cleanupRunAll (c : Nat)
  | cleanupDiscard (c : Nat)
deriving DecidableEq, Repr

namespace ClientCall

def code : ClientCall → List QueueInstr
  | dispatchAsync place => [.async place.queue (.client place)]
  | timerStart t => t.start
  | timerRestart t => t.restart
  | timerRestartWithInterval t => t.restartWithInterval
  | timerResume t => t.resume
  | timerRunning t => t.running
  | timerSuspend t => t.suspend
  | timerFire t => t.fire
  | deferredResolve d => d.resolve
  | deferredThen d => d.thenCall
  | retryStart r => BRURetryQueues.startWithCompletionBlock r
  | retryCancel r => BRURetryQueues.cancel r
  | retryContinuation r => BRURetryQueues.continuation r
  | fileMonitorStart m => m.startWithError
  | fileMonitorStop m => m.stop
  | fileMonitorIsMonitoring m => m.isMonitoring
  | cleanupAdd c => [.sync (.cleanupSyncQueue c) (.cleanupAdd c)]
  | cleanupRunAll c => [.sync (.cleanupSyncQueue c) (.cleanupRunAll c)]
  | cleanupDiscard c => [.sync (.cleanupSyncQueue c) (.cleanupDiscard c)]

/-- 0 for what waits for no queue, 1 for what waits for a timer, 2 for what waits for a retry or
a file monitor, and 3 for what waits for a cleanup. -/
def level : ClientCall → Nat
  | dispatchAsync _ | timerSuspend _ | timerFire _ | deferredResolve _ | deferredThen _
  | retryContinuation _ => 0
  | timerStart _ | timerRestart _ | timerRestartWithInterval _ | timerResume _
  | timerRunning _ => 1
  | retryStart _ | retryCancel _ | fileMonitorStart _ | fileMonitorStop _
  | fileMonitorIsMonitoring _ => 2
  | cleanupAdd _ | cleanupRunAll _ | cleanupDiscard _ => 3

end ClientCall

/-- A queue of a higher rank may wait for one of a lower rank. -/
def QueueName.rank : QueueName → Nat
  | .timerSyncQ _ | .deferredSyncQueue _ | .fileMonitorMonitorQueue _ => 0
  | .retrySyncQueue _ | .fileMonitorSyncQueue _ => 1
  | .cleanupSyncQueue _ => 2
  | .client _ | .timerTargetQ _ | .retryTargetQueue _ => 3

/-- What runs on no serial queue may wait for every one. -/
def currentRank (queue : Option QueueName) : Nat := queue.elim 3 QueueName.rank

/-- The calls of a client, without those that must not be made on its queue. -/
def clientCode (queue : Option QueueName) (calls : List ClientCall) : List QueueInstr :=
  (calls.filter fun call => call.level ≤ currentRank queue).flatMap ClientCall.code

/-! ## The program -/

/-- Whether `self` is still there, which branch is taken, how many blocks or descriptors there
are, the name of a new object, and what the client calls. -/
structure Choice where
  alive : Bool
  branch : Branch
  count : Nat
  name : Nat
  calls : List ClientCall
deriving DecidableEq, Repr, Inhabited

open BRURetryQueues in
/-- The code of a block. -/
def Block.code : Block → Choice → List QueueInstr
  | .client place, c => clientCode place.queue c.calls
  | .timerGeneration _, _ => []
  | .timerRunning t, _ => t.unsynchronized
  | .timerSetRunning t, _ => t.unsynchronized
  | .timerResume t, _ => t.unsynchronized ++ t.unsynchronized
  | .timerDelay t, _ => [.async (some t.syncQ) (.timerExpired t)]
  | .timerExpired t, c =>
    if c.alive then
      t.unsynchronized ++
        match c.branch with
        -- an older generation, a timer that does not run, and one that fires
        | .first => []
        | .second => t.unsynchronized
        | .third =>
          t.unsynchronized ++ clientCode (some t.syncQ) c.calls ++
            (if t.repeats then [] else t.unsynchronized) ++ [.async none (.timerDispatched t)]
    else []
  | .timerDispatched t, c =>
    if c.alive then
      match t.mode with
      | .intervalBetweenBlockExecutions => t.fireWithDate true
      | .intervalClockedOnWallClockTime =>
        (if t.repeats then t.setupTimer else []) ++ t.fireWithDate false
    else []
  | .timerFire t setup, c =>
    if c.alive then
      (match t.userTargetQueue with
        | .retry r => timerAction r
        | _ => clientCode t.targetQ c.calls) ++
        (if setup ∧ t.repeats then t.setupTimer else [])
    else []
  | .deferredResolve d, c => d.processBlocks c.count
  | .deferredThen d, c => d.processBlocks c.count
  | .deferredCompletion d, c =>
    match d.completionQueue with
    | .retry r =>
      .assertOn (.retryTargetQueue r) ::
        if c.alive then clientCode (some (.retryTargetQueue r)) c.calls else []
    | queue => clientCode queue.queue c.calls
  | .retryStart r, c =>
    (match c.branch with
      -- an idle retry, and one that runs
      | .first => performAction r
      | _ => []) ++
      (if c.alive then (deferred r c.name).thenCall else []) ++ checkInvariants r
  | .retryCancel r, c =>
    match c.branch with
    -- another identifier, a delay, and an action
    | .first => []
    | .second => (timer r c.name).suspend ++ (deferred r c.name).resolve ++ checkInvariants r
    | .third => checkInvariants r
  | .retryAction r, c => clientCode (some (.retryTargetQueue r)) c.calls
  | .retryContinuation r, c =>
    match c.branch with
    -- a retry that is gone, an answer that is not final, and one that is
    | .first => []
    | .second => [.async (some (.retryTargetQueue r)) (.retryPolicy r)]
    | .third => handleResult r true c.name
  | .retryPolicy r, c =>
    clientCode (some (.retryTargetQueue r)) c.calls ++
      [.async (some (.retrySyncQueue r)) (.retryPolicyResponse r)]
  | .retryPolicyResponse r, c => handleResult r c.alive c.name
  | .fileMonitorStart m, c =>
    if c.alive then m.buildMonitors c.count ++ m.evaluateForPath c.branch c.count else []
  | .fileMonitorStop m, c => if c.alive then m.destroyMonitors else []
  | .fileMonitorIsMonitoring _, _ => []
  | .fileMonitorRegistration _, _ => []
  | .fileMonitorSources m, c =>
    if c.alive then
      [.async (some m.monitorQueue) (.fileMonitorEvent m), .async none (.fileMonitorSources m)]
    else []
  | .fileMonitorEvent m, c =>
    if c.alive then [.async (some m.syncQueue) (.fileMonitorEvaluate m)] else []
  | .fileMonitorEvaluate m, c => if c.alive then m.evaluateForPath c.branch c.count else []
  | .fileMonitorResync m, c =>
    if c.alive then .assertOn m.syncQueue :: m.evaluateForPath c.branch c.count else []
  | .fileMonitorCallback m, c =>
    if c.alive then clientCode m.completionQueue.queue c.calls else []
  | .cleanupAdd _, _ => []
  | .cleanupRunAll c, choice => clientCode (some (.cleanupSyncQueue c)) choice.calls
  | .cleanupDiscard _, _ => []

/-- The whole of it. -/
def queueProgram (w : ClientQueues) : Program QueueName Block Choice where
  chain := w.chain
  home := Block.home
  code := Block.code

/-! ## The discipline -/

section Discipline

variable {w : ClientQueues} {queue : Option QueueName} {q : QueueName}

/-- Every instruction is one that a block on this queue may have. -/
def AllowedOn (w : ClientQueues) (queue : Option QueueName) (code : List QueueInstr) : Prop :=
  ∀ i ∈ code, (queueProgram w).Allowed QueueName.rank queue i

@[simp] theorem allowedOn_nil : AllowedOn w queue [] := by
  intro i hi
  cases hi

@[simp] theorem allowedOn_cons {i : QueueInstr} {code : List QueueInstr} :
    AllowedOn w queue (i :: code) ↔
      (queueProgram w).Allowed QueueName.rank queue i ∧ AllowedOn w queue code :=
  List.forall_mem_cons

@[simp] theorem allowedOn_append {code code' : List QueueInstr} :
    AllowedOn w queue (code ++ code') ↔ AllowedOn w queue code ∧ AllowedOn w queue code' :=
  List.forall_mem_append

theorem allowedOn_replicate {i : QueueInstr} (count : Nat)
    (h : (queueProgram w).Allowed QueueName.rank queue i) :
    AllowedOn w queue (List.replicate count i) := by
  intro i' hi'
  rw [List.eq_of_mem_replicate hi']
  exact h

/-- The targets of a queue have its rank. -/
theorem rank_of_mem_chain {x : QueueName} (hx : x ∈ w.chain q) : x.rank = q.rank := by
  have hclient {n : Nat} (hx : x ∈ w.clientChain n) : x.rank = 3 := by
    obtain ⟨n', _, rfl⟩ := List.mem_map.mp hx
    rfl
  cases q with
  | client n => exact hclient hx
  | retryTargetQueue r =>
    rcases List.mem_cons.mp hx with rfl | hx
    · rfl
    · cases htarget : w.retryTargetQueue r with
      | none =>
        rw [htarget] at hx
        cases hx
      | some n =>
        rw [htarget] at hx
        exact hclient hx
  | timerSyncQ | timerTargetQ | deferredSyncQueue | retrySyncQueue | fileMonitorSyncQueue
  | fileMonitorMonitorQueue | cleanupSyncQueue =>
    rw [List.mem_singleton.mp hx]

theorem mem_chain_self (q : QueueName) : q ∈ w.chain q := by
  cases q <;> simp [ClientQueues.chain, ClientQueues.clientChain]

/-- What runs on a queue is on it. -/
@[simp] theorem allowed_assertOn (q : QueueName) :
    (queueProgram w).Allowed QueueName.rank (some q) (.assertOn q) :=
  mem_chain_self q

theorem allowed_assertOff (h : q.rank < currentRank queue) :
    (queueProgram w).Allowed QueueName.rank queue (.assertOff q) := by
  intro hmem
  cases queue with
  | none => cases hmem
  | some q' =>
    have hrank := rank_of_mem_chain (w := w) hmem
    have hlt : q.rank < q'.rank := h
    omega

/-- What runs on a queue may wait for one of a lower rank. -/
theorem allowed_sync {b : Block} (hhome : b.home = some q) (h : q.rank < currentRank queue) :
    (queueProgram w).Allowed QueueName.rank queue (.sync q b) := by
  refine ⟨hhome, ?_⟩
  intro x hx y hy
  cases queue with
  | none => cases hy
  | some q' =>
    have hx := rank_of_mem_chain (w := w) hx
    have hy := rank_of_mem_chain (w := w) hy
    have hlt : q.rank < q'.rank := h
    omega

@[simp] theorem allowed_async {b : Block} {target : Option QueueName} :
    (queueProgram w).Allowed QueueName.rank queue (.async target b) ↔ b.home = target :=
  Iff.rfl

/-- Every block may put another one on the queue of that block. -/
theorem allowedOn_async {b : Block} {target : Option QueueName} (hhome : b.home = target) :
    AllowedOn w queue [.async target b] :=
  allowedOn_cons.mpr ⟨hhome, allowedOn_nil⟩

theorem allowedOn_assertOn (q : QueueName) : AllowedOn w (some q) [.assertOn q] :=
  allowedOn_cons.mpr ⟨allowed_assertOn q, allowedOn_nil⟩

/-- A block that does nothing if `self` is gone, or if a timer does not repeat. -/
theorem allowedOn_ite (p : Prop) [Decidable p] {code : List QueueInstr}
    (h : AllowedOn w queue code) : AllowedOn w queue (if p then code else []) := by
  split
  · exact h
  · exact allowedOn_nil

/-! ### Each class -/

theorem allowedOn_setupTimer (t : TimerObject) (h : 0 < currentRank queue) :
    AllowedOn w queue t.setupTimer := by
  simp only [TimerObject.setupTimer, TimerObject.generation, allowedOn_append, allowedOn_cons,
    allowedOn_nil, and_true, allowed_async]
  exact ⟨⟨allowed_assertOff h, allowed_sync rfl h⟩, rfl⟩

theorem allowedOn_running (t : TimerObject) (h : 0 < currentRank queue) :
    AllowedOn w queue t.running := by
  simp only [TimerObject.running, allowedOn_cons, allowedOn_nil, and_true]
  exact ⟨allowed_assertOff h, allowed_sync rfl h⟩

theorem allowedOn_resume (t : TimerObject) (h : 0 < currentRank queue) :
    AllowedOn w queue t.resumeWithUpdateInterval := by
  simp only [TimerObject.resumeWithUpdateInterval, allowedOn_append, allowedOn_cons,
    allowedOn_nil, and_true]
  exact ⟨⟨allowed_assertOff h, allowed_sync rfl h⟩, allowedOn_setupTimer t h⟩

theorem allowedOn_fireWithDate (t : TimerObject) (setup : Bool) :
    AllowedOn w queue (t.fireWithDate setup) :=
  allowedOn_async rfl

theorem allowedOn_unsynchronized (t : TimerObject) :
    AllowedOn w (some t.syncQ) t.unsynchronized :=
  allowedOn_assertOn t.syncQ

theorem allowedOn_processBlocks (d : CallingObject) (count : Nat) :
    AllowedOn w (some (.deferredSyncQueue d.name)) (d.processBlocks count) := by
  simp only [CallingObject.processBlocks, allowedOn_cons, allowed_assertOn, true_and]
  exact allowedOn_replicate count rfl

theorem allowedOn_performAction (r : Nat) :
    AllowedOn w (some (.retrySyncQueue r)) (BRURetryQueues.performAction r) :=
  allowedOn_cons.mpr ⟨allowed_assertOn _, allowedOn_async rfl⟩

theorem allowedOn_checkInvariants (r : Nat) :
    AllowedOn w (some (.retrySyncQueue r)) (BRURetryQueues.checkInvariants r) :=
  allowedOn_assertOn _

theorem allowedOn_handleResult (r : Nat) (terminate : Bool) (name : Nat) :
    AllowedOn w (some (.retrySyncQueue r)) (BRURetryQueues.handleResult r terminate name) := by
  unfold BRURetryQueues.handleResult
  refine allowedOn_append.mpr ⟨allowedOn_cons.mpr ⟨allowed_assertOn _, ?_⟩,
    allowedOn_checkInvariants r⟩
  cases terminate with
  | true => exact allowedOn_async rfl
  | false =>
    have hresume : AllowedOn w (some (.retrySyncQueue r))
        ((BRURetryQueues.timer r name).resumeWithUpdateInterval) :=
      allowedOn_resume _ (by decide : 0 < 1)
    exact allowedOn_cons.mpr ⟨allowed_assertOn _, hresume⟩

theorem allowedOn_buildMonitors (m : CallingObject) (count : Nat) :
    AllowedOn w (some m.syncQueue) (m.buildMonitors count) := by
  simp only [CallingObject.buildMonitors, allowedOn_append, allowedOn_cons, allowed_assertOn,
    allowedOn_nil, true_and, and_true, allowed_async]
  exact ⟨⟨allowed_assertOff (by decide : 0 < 1), rfl⟩,
    allowedOn_replicate count (allowed_sync rfl (by decide : 0 < 1))⟩

theorem allowedOn_evaluateForPath (m : CallingObject) (branch : Branch) (count : Nat) :
    AllowedOn w (some m.syncQueue) (m.evaluateForPath branch count) := by
  have hcallback : AllowedOn w (some m.syncQueue) m.invokeCallback :=
    allowedOn_cons.mpr ⟨allowed_assertOn _, allowedOn_async rfl⟩
  have hrebuild : AllowedOn w (some m.syncQueue) (m.rebuildBlock count) :=
    allowedOn_append.mpr ⟨allowedOn_append.mpr
      ⟨allowedOn_assertOn _, allowedOn_buildMonitors m count⟩, allowedOn_async rfl⟩
  refine allowedOn_cons.mpr ⟨allowed_assertOn _, ?_⟩
  cases branch with
  | first => exact allowedOn_nil
  | second => exact hcallback
  | third => exact allowedOn_append.mpr ⟨hcallback, hrebuild⟩

/-- A call is allowed where its level is. -/
theorem allowedOn_call (call : ClientCall) (h : call.level ≤ currentRank queue) :
    AllowedOn w queue call.code := by
  cases call with
  | dispatchAsync place => exact allowedOn_async rfl
  | timerStart t => exact allowedOn_append.mpr ⟨allowedOn_running t h, allowedOn_resume t h⟩
  | timerRestart t | timerRestartWithInterval t | timerResume t => exact allowedOn_resume t h
  | timerRunning t => exact allowedOn_running t h
  | timerFire t => exact allowedOn_fireWithDate t false
  | timerSuspend | deferredResolve | deferredThen | retryContinuation =>
    exact allowedOn_async rfl
  | retryStart r =>
    simp only [ClientCall.code, BRURetryQueues.startWithCompletionBlock, allowedOn_cons,
      allowedOn_nil, and_true]
    exact allowed_sync rfl h
  | retryCancel r =>
    simp only [ClientCall.code, BRURetryQueues.cancel, allowedOn_cons, allowedOn_nil, and_true]
    exact ⟨allowed_assertOff h, allowed_sync rfl h⟩
  | fileMonitorStart m | fileMonitorStop m =>
    simp only [ClientCall.code, CallingObject.startWithError, CallingObject.stop, allowedOn_cons,
      allowedOn_nil, and_true]
    exact ⟨allowed_assertOff h, allowed_assertOff (Nat.lt_of_succ_lt h), allowed_sync rfl h⟩
  | fileMonitorIsMonitoring m =>
    simp only [ClientCall.code, CallingObject.isMonitoring, allowedOn_cons, allowedOn_nil,
      and_true]
    exact ⟨allowed_assertOff (Nat.lt_of_succ_lt h), allowed_sync rfl h⟩
  | cleanupAdd c | cleanupRunAll c | cleanupDiscard c =>
    simp only [ClientCall.code, allowedOn_cons, allowedOn_nil, and_true]
    exact allowed_sync rfl h

theorem allowedOn_clientCode (queue : Option QueueName) (calls : List ClientCall) :
    AllowedOn w queue (clientCode queue calls) := by
  intro i hi
  obtain ⟨call, hcall, hi⟩ := List.mem_flatMap.mp hi
  rw [List.mem_filter, decide_eq_true_eq] at hcall
  exact allowedOn_call call hcall.2 i hi

theorem allowedOn_deferredCompletion (d : CallingObject) (c : Choice) :
    AllowedOn w d.completionQueue.queue ((Block.deferredCompletion d).code c) := by
  rcases d with ⟨name, completionQueue⟩
  cases completionQueue with
  | retry r =>
    exact allowedOn_cons.mpr ⟨allowed_assertOn _, allowedOn_ite _ (allowedOn_clientCode _ _)⟩
  | concurrent | client n => exact allowedOn_clientCode _ _

theorem allowedOn_retryStart (r : Nat) (c : Choice) :
    AllowedOn w (some (.retrySyncQueue r)) ((Block.retryStart r).code c) := by
  refine allowedOn_append.mpr ⟨allowedOn_append.mpr
    ⟨?_, allowedOn_ite _ (allowedOn_async rfl)⟩, allowedOn_checkInvariants r⟩
  cases c.branch with
  | first => exact allowedOn_performAction r
  | second | third => exact allowedOn_nil

theorem allowedOn_retryCancel (r : Nat) (c : Choice) :
    AllowedOn w (some (.retrySyncQueue r)) ((Block.retryCancel r).code c) := by
  rcases c with ⟨_, branch, _, name, _⟩
  cases branch with
  | first => exact allowedOn_nil
  | second =>
    exact allowedOn_append.mpr ⟨allowedOn_append.mpr ⟨allowedOn_async rfl, allowedOn_async rfl⟩,
      allowedOn_checkInvariants r⟩
  | third => exact allowedOn_checkInvariants r

theorem allowedOn_timerExpired (t : TimerObject) (c : Choice) :
    AllowedOn w (some t.syncQ) ((Block.timerExpired t).code c) := by
  have hcalls := allowedOn_clientCode (w := w) (some t.syncQ) c.calls
  have hunsynchronized := allowedOn_unsynchronized (w := w) t
  refine allowedOn_ite _ (allowedOn_append.mpr ⟨hunsynchronized, ?_⟩)
  cases c.branch with
  | first => exact allowedOn_nil
  | second => exact hunsynchronized
  | third =>
    simp only [allowedOn_append, allowedOn_cons, allowedOn_nil, and_true, allowed_async]
    refine ⟨⟨⟨hunsynchronized, hcalls⟩, ?_⟩, rfl⟩
    split
    · exact allowedOn_nil
    · exact hunsynchronized

theorem allowedOn_timerDispatched (t : TimerObject) (c : Choice) :
    AllowedOn w none ((Block.timerDispatched t).code c) := by
  have hsetup : AllowedOn w none t.setupTimer := allowedOn_setupTimer t (by decide : 0 < 3)
  refine allowedOn_ite _ ?_
  cases t.mode with
  | intervalBetweenBlockExecutions => exact allowedOn_fireWithDate t true
  | intervalClockedOnWallClockTime =>
    exact allowedOn_append.mpr ⟨allowedOn_ite _ hsetup, allowedOn_fireWithDate t false⟩

/-- A timer is set up again from its target queue, which is never its own. -/
theorem allowedOn_timerFire (t : TimerObject) (setup : Bool) (c : Choice) :
    AllowedOn w t.targetQ ((Block.timerFire t setup).code c) := by
  have hsetup : AllowedOn w t.targetQ t.setupTimer := by
    apply allowedOn_setupTimer
    unfold TimerObject.targetQ
    cases t.userTargetQueue <;> exact Nat.succ_pos _
  refine allowedOn_ite _ (allowedOn_append.mpr ⟨?_, allowedOn_ite _ hsetup⟩)
  split
  · rename_i r htarget
    have hqueue : t.targetQ = some (.retrySyncQueue r) := by
      simp [TimerObject.targetQ, htarget]
    rw [hqueue]
    exact allowedOn_cons.mpr ⟨allowed_assertOn _, allowedOn_performAction r⟩
  · exact allowedOn_clientCode _ _

/-- Every block does what it may. -/
theorem queueProgram_disciplined (w : ClientQueues) :
    (queueProgram w).Disciplined QueueName.rank where
  mem_chain := mem_chain_self
  allowed b c := by
    show AllowedOn w b.home (b.code c)
    cases b with
    | timerExpired t => exact allowedOn_timerExpired t c
    | timerDispatched t => exact allowedOn_timerDispatched t c
    | timerFire t setup => exact allowedOn_timerFire t setup c
    | client | retryAction | cleanupRunAll => exact allowedOn_clientCode _ _
    | timerGeneration | fileMonitorIsMonitoring | fileMonitorRegistration | cleanupAdd
    | cleanupDiscard => exact allowedOn_nil
    | timerRunning t | timerSetRunning t => exact allowedOn_unsynchronized t
    | timerResume t =>
      exact allowedOn_append.mpr ⟨allowedOn_unsynchronized t, allowedOn_unsynchronized t⟩
    | timerDelay t => exact allowedOn_async rfl
    | deferredResolve d | deferredThen d => exact allowedOn_processBlocks d c.count
    | deferredCompletion d => exact allowedOn_deferredCompletion d c
    | retryStart r => exact allowedOn_retryStart r c
    | retryCancel r => exact allowedOn_retryCancel r c
    | retryContinuation r =>
      rcases c with ⟨_, branch, _, name, _⟩
      cases branch with
      | first => exact allowedOn_nil
      | second => exact allowedOn_async rfl
      | third => exact allowedOn_handleResult r true name
    | retryPolicy r =>
      exact allowedOn_append.mpr ⟨allowedOn_clientCode _ _, allowedOn_async rfl⟩
    | retryPolicyResponse r => exact allowedOn_handleResult r c.alive c.name
    | fileMonitorStart m =>
      refine allowedOn_ite _ (allowedOn_append.mpr ⟨?_, ?_⟩)
      · exact allowedOn_buildMonitors m c.count
      · exact allowedOn_evaluateForPath m c.branch c.count
    | fileMonitorStop m => exact allowedOn_ite _ (allowedOn_assertOn _)
    | fileMonitorSources m =>
      exact allowedOn_ite _ (allowedOn_cons.mpr ⟨rfl, allowedOn_async rfl⟩)
    | fileMonitorEvent m => exact allowedOn_ite _ (allowedOn_async rfl)
    | fileMonitorEvaluate m =>
      exact allowedOn_ite _ (allowedOn_evaluateForPath m c.branch c.count)
    | fileMonitorResync m =>
      refine allowedOn_ite _ (allowedOn_cons.mpr ⟨allowed_assertOn _, ?_⟩)
      exact allowedOn_evaluateForPath m c.branch c.count
    | fileMonitorCallback m => exact allowedOn_ite _ (allowedOn_clientCode _ _)

/-- `BRU_ASSERT_ON_QUEUE` and `BRU_ASSERT_OFF_QUEUE` find what the program says, for queues that
have their targets. -/
theorem bruAssertQueue_iff {s : DispatchQueues} {address : QueueName → ObjectAddress}
    (hs : s.Identified) (haddress : Function.Injective address) {c : QueueName}
    (hchain : ∀ a, s.OnChain (address c) a ↔ ∃ x ∈ w.chain c, address x = a)
    (hc : s.Live (address c)) (hq : s.Live (address q)) :
    ((∃ t, s.bruAssertOnQueue (some (address c)) (some (address q)) = .ok t) ↔
      (queueProgram w).Allowed QueueName.rank (some c) (.assertOn q)) ∧
    ((∃ t, s.bruAssertOffQueue (some (address c)) (some (address q)) = .ok t) ↔
      (queueProgram w).Allowed QueueName.rank (some c) (.assertOff q)) := by
  have hmem : s.OnChain (address c) (address q) ↔ q ∈ w.chain c := by
    rw [hchain]
    constructor
    · rintro ⟨x, hx, heq⟩
      rw [← haddress heq]
      exact hx
    · intro hmem
      exact ⟨q, hmem, rfl⟩
  rw [hs.bruAssertOnQueue_iff hc hq, hs.bruAssertOffQueue_iff hc hq]
  exact ⟨hmem, not_congr hmem⟩

/-- Any number of timers, deferreds, retries, file monitors and cleanups, used by blocks of
clients on any queues, in every order: no assertion about a queue fails, no block waits for
itself, and whatever a block waits for can go on. -/
theorem queues_never_stuck {s : Queues QueueName Block}
    (hreach : Machine.Reachable (queueProgram w).step initial s) :
    (queueProgram w).NeverStuck s :=
  (queueProgram_disciplined w).never_stuck hreach

end Discipline

/-- A retry schedules its next action and waits for its timer, and a client that cancels it
waits for the retry. -/
theorem queues_never_stuck_cancel :
    let w : ClientQueues := ⟨fun _ => [], fun _ => some 0⟩
    let c : Choice := ⟨true, .first, 0, 0, []⟩
    let events : List (Event Block Choice) :=
      [.enter (.client .thread) { c with calls := [.retryStart 0] }, .exec 0, .start 0 c,
        .exec 0, .exec 0, .exec 0, .exec 0, .exec 0, .exec 0,
        .start 0 { c with calls := [.retryContinuation 0] }, .exec 0, .exec 0,
        .start 1 { c with branch := .second }, .exec 0, .exec 0, .start 1 c, .exec 0, .exec 0,
        .start 1 { c with alive := false },
        .enter (.client .thread) { c with calls := [.retryCancel 0] }, .exec 0, .exec 0,
        .exec 1, .exec 1, .exec 1, .exec 1]
    ∃ s, Machine.run (queueProgram w).step initial events = .ok s ∧
      (s.pending.map fun job => (job.queue, job.caller.map Frame.queue)) =
        [(some (.deferredSyncQueue 0), []), (some (.retrySyncQueue 0), [none]),
          (some (.timerSyncQ 0), [some (.retrySyncQueue 0)])] ∧
      (queueProgram w).NeverStuck s := by
  intro w c events
  have hpending :
      (fun s => s.pending.map fun job => (job.queue, job.caller.map Frame.queue)) <$>
        Machine.run (queueProgram w).step initial events =
      .ok [(some (.deferredSyncQueue 0), []), (some (.retrySyncQueue 0), [none]),
        (some (.timerSyncQ 0), [some (.retrySyncQueue 0)])] := by
    decide +kernel
  obtain ⟨s, hrun, hpending⟩ := Machine.map_eq_ok.mp hpending
  exact ⟨s, hrun, hpending, queues_never_stuck ⟨events, hrun⟩⟩

end BromiumCoreUtils
