import BromiumCoreUtils.Lib.Machine
import Mathlib.Logic.Relation

/-!
# Serial queues

The blocks of a program run one at a time on serial queues, or on threads of their own.  A
block may put another one on a queue and go on, or put it there and wait for its end.  A queue
may have targets: it is busy while one of them is.

What a block computes is not here.  Its code is the list of what it does to queues, and a
choice says which way through the block was taken.  A block that waits is kept with the job
that it waits for.

`Disciplined` says that every queue has a rank, and that a block only waits for queues below
its own.  `Disciplined.never_stuck` says that nothing waits for ever then, and that no
block finds itself on a wrong queue.
-/

namespace SerialQueues

open Machine

/-- What a block does to queues.  A concurrent queue is `none`. -/
inductive Instr (Q B : Type) where
  | assertOn (q : Q)
  | assertOff (q : Q)
  | sync (q : Q) (b : B)
  | async (q : Option Q) (b : B)
deriving DecidableEq, Repr

/-- A block that has begun: its queue, and what is left of it. -/
structure Frame (Q B : Type) where
  queue : Option Q
  rest : List (Instr Q B)
deriving DecidableEq, Repr

/-- A block on a queue, and the blocks that wait for its end, the last one first. -/
structure Job (Q B : Type) where
  queue : Option Q
  caller : List (Frame Q B)
  block : B
deriving DecidableEq, Repr

/-- The blocks that run, each with those that wait for it, and the jobs in their order. -/
structure Queues (Q B : Type) where
  strands : List (List (Frame Q B))
  pending : List (Job Q B)
deriving DecidableEq, Repr

/-- The queues with their targets, the queue itself included, and the blocks with their
queues. -/
structure Program (Q B C : Type) where
  chain : Q → List Q
  home : B → Option Q
  code : B → C → List (Instr Q B)

inductive QueueFault where
  | wrongQueue
deriving DecidableEq, Repr

/-- A block without a queue is entered, a strand goes on, or a job begins. -/
inductive Event (B C : Type) where
  | enter (b : B) (choice : C)
  | exec (strand : Nat)
  | start (job : Nat) (choice : C)
deriving DecidableEq, Repr

variable {Q B C : Type}

def initial : Queues Q B where
  strands := []
  pending := []

namespace Program

variable (p : Program Q B C)

/-- The queues that a block keeps busy. -/
def busy (current : Option Q) : List Q :=
  match current with
  | some c => p.chain c
  | none => []

/-- A block with a queue that `job` needs is itself waiting, for the job `other`. -/
def Behind (s : Queues Q B) (job other : Job Q B) : Prop :=
  other ∈ s.pending ∧ ∃ f ∈ other.caller, ∃ x ∈ p.busy job.queue, x ∈ p.busy f.queue

/-- What a job waits for directly: the first job of its queue, or a block that runs. -/
def Helps (s : Queues Q B) (job : Job Q B) : Event B C → Prop
  | .enter _ _ => False
  | .exec i => ∃ strand, s.strands[i]? = some strand ∧
      ∃ f ∈ strand, ∃ x ∈ p.busy job.queue, x ∈ p.busy f.queue
  | .start k _ => ∃ first, s.pending[k]? = some first ∧ first.queue = job.queue

/-- The queues that are busy. -/
def occupied (s : Queues Q B) : List Q :=
  (s.strands ++ s.pending.map Job.caller).flatten.flatMap fun f => p.busy f.queue

variable [DecidableEq Q]

/-- The next instruction of a strand.  A block that calls `sync` leaves with the job. -/
def exec (s : Queues Q B) (i : Nat) : Exec QueueFault (Queues Q B) :=
  match s.strands[i]? with
  | some (f :: fs) =>
    match f.rest with
    | [] => pure { s with strands := s.strands.set i fs }
    | .assertOn q :: rest => do
      assertThat (q ∈ p.busy f.queue) .wrongQueue
      pure { s with strands := s.strands.set i ({ f with rest } :: fs) }
    | .assertOff q :: rest => do
      assertThat (q ∉ p.busy f.queue) .wrongQueue
      pure { s with strands := s.strands.set i ({ f with rest } :: fs) }
    | .sync q b :: rest =>
      pure {
        strands := s.strands.set i []
        pending := s.pending ++ [⟨some q, { f with rest } :: fs, b⟩] }
    | .async q b :: rest =>
      pure {
        strands := s.strands.set i ({ f with rest } :: fs)
        pending := s.pending ++ [⟨q, [], b⟩] }
  | _ => .error .disabled

/-- The first job of a queue that is not busy begins. -/
def start (s : Queues Q B) (k : Nat) (choice : C) : Exec QueueFault (Queues Q B) :=
  match s.pending[k]? with
  | some job => do
    enabledIf (∀ earlier ∈ s.pending.take k, earlier.queue ≠ job.queue)
    enabledIf (∀ x ∈ p.busy job.queue, x ∉ p.occupied s)
    pure {
      strands := (⟨job.queue, p.code job.block choice⟩ :: job.caller) :: s.strands
      pending := s.pending.eraseIdx k }
  | none => .error .disabled

def step (s : Queues Q B) : Event B C → Exec QueueFault (Queues Q B)
  | .enter b choice => do
    enabledIf (p.home b = none)
    pure { s with strands := [⟨none, p.code b choice⟩] :: s.strands }
  | .exec i => p.exec s i
  | .start k choice => p.start s k choice

/-! ## Ranks -/

omit [DecidableEq Q]

/-- What a wait for `q` keeps waiting has a higher rank. -/
def Below (rank : Q → Nat) (q : Q) (current : Option Q) : Prop :=
  ∀ x ∈ p.chain q, ∀ y ∈ p.busy current, rank x < rank y

/-- What a block may do. -/
def Allowed (rank : Q → Nat) (current : Option Q) : Instr Q B → Prop
  | .assertOn q => q ∈ p.busy current
  | .assertOff q => q ∉ p.busy current
  | .sync q b => p.home b = some q ∧ p.Below rank q current
  | .async q b => p.home b = q

/-- Every block does what it may do, on its own queue. -/
structure Disciplined (rank : Q → Nat) : Prop where
  mem_chain : ∀ q, q ∈ p.chain q
  allowed : ∀ b choice, ∀ i ∈ p.code b choice, p.Allowed rank (p.home b) i

/-- Blocks that wait for each other, the last one first. -/
structure Stack (rank : Q → Nat) (frames : List (Frame Q B)) : Prop where
  allowed : ∀ f ∈ frames, ∀ i ∈ f.rest, p.Allowed rank f.queue i
  below : frames.Pairwise fun f g => ∃ q, f.queue = some q ∧ p.Below rank q g.queue

/-- A job is for its own queue, and whoever waits for it is above. -/
structure Waits (rank : Q → Nat) (job : Job Q B) : Prop where
  home : p.home job.block = job.queue
  caller : p.Stack rank job.caller
  below : ∀ f ∈ job.caller, ∃ q, job.queue = some q ∧ p.Below rank q f.queue

/-- The invariant. -/
structure Ordered (rank : Q → Nat) (s : Queues Q B) : Prop where
  strands : ∀ strand ∈ s.strands, p.Stack rank strand
  pending : ∀ job ∈ s.pending, p.Waits rank job

variable {p} {rank : Q → Nat} {s t : Queues Q B}

theorem ordered_initial : p.Ordered rank initial where
  strands strand hmem := by cases hmem
  pending job hmem := by cases hmem

/-! ## Strands -/

/-- A block without callers. -/
theorem Disciplined.stack_singleton (h : p.Disciplined rank) (b : B) (choice : C) :
    p.Stack rank [⟨p.home b, p.code b choice⟩] where
  allowed f hf := by
    rw [List.mem_singleton.mp hf]
    exact h.allowed b choice
  below := List.pairwise_singleton _ _

/-- What is left of a block is allowed as the block was. -/
theorem Stack.advance {f : Frame Q B} {fs : List (Frame Q B)} {i : Instr Q B}
    {rest : List (Instr Q B)} (h : p.Stack rank (f :: fs)) (hrest : f.rest = i :: rest) :
    p.Stack rank ({ f with rest } :: fs) where
  allowed g hg := by
    rcases List.mem_cons.mp hg with rfl | hg
    · intro i' hi'
      apply h.allowed f List.mem_cons_self
      rw [hrest]
      exact List.mem_cons_of_mem i hi'
    · exact h.allowed g (List.mem_cons_of_mem f hg)
  below := by
    have hbelow := h.below
    rw [List.pairwise_cons] at hbelow ⊢
    exact hbelow

theorem Stack.tail {f : Frame Q B} {fs : List (Frame Q B)} (h : p.Stack rank (f :: fs)) :
    p.Stack rank fs where
  allowed g hg := h.allowed g (List.mem_cons_of_mem f hg)
  below := (List.pairwise_cons.mp h.below).2

theorem stack_nil : p.Stack rank [] where
  allowed f hf := by cases hf
  below := .nil

/-- What a job begins with. -/
theorem Waits.stack (h : p.Disciplined rank) {job : Job Q B} (hjob : p.Waits rank job)
    (choice : C) : p.Stack rank (⟨job.queue, p.code job.block choice⟩ :: job.caller) where
  allowed f hf := by
    rcases List.mem_cons.mp hf with rfl | hf
    · have hallowed := h.allowed job.block choice
      rw [hjob.home] at hallowed
      exact hallowed
    · exact hjob.caller.allowed f hf
  below := List.pairwise_cons.mpr ⟨hjob.below, hjob.caller.below⟩

/-- A wait keeps waiting the blocks that wait for the caller as well. -/
theorem Stack.below_all (h : p.Disciplined rank) {f : Frame Q B} {fs : List (Frame Q B)}
    (hstack : p.Stack rank (f :: fs)) {q : Q} (hq : p.Below rank q f.queue) :
    ∀ g ∈ f :: fs, p.Below rank q g.queue := by
  intro g hg
  rcases List.mem_cons.mp hg with rfl | hg
  · exact hq
  · obtain ⟨q', hqueue, hbelow⟩ := (List.pairwise_cons.mp hstack.below).1 g hg
    intro x hx y hy
    have hmid : q' ∈ p.busy f.queue := by
      rw [hqueue]
      exact h.mem_chain q'
    calc rank x < rank q' := hq x hx q' hmid
      _ < rank y := hbelow q' (h.mem_chain q') y hy

/-! ## Steps -/

variable [DecidableEq Q]

theorem ordered_exec (h : p.Disciplined rank) (hs : p.Ordered rank s) {i : Nat}
    (hstep : p.exec s i = .ok t) : p.Ordered rank t := by
  unfold exec at hstep
  split at hstep
  · rename_i f fs hi
    have hstack := hs.strands _ (List.mem_of_getElem? hi)
    -- the strands change in one place
    have hset {strand : List (Frame Q B)} (hstrand : p.Stack rank strand) :
        ∀ st ∈ s.strands.set i strand, p.Stack rank st := by
      intro st hst
      rcases List.mem_or_eq_of_mem_set hst with hst | rfl
      · exact hs.strands st hst
      · exact hstrand
    split at hstep
    · obtain rfl := pure_eq_ok.mp hstep
      exact ⟨hset hstack.tail, hs.pending⟩
    · rename_i q rest hrest
      simp only [bind_eq_ok, assertThat_eq_ok, pure_eq_ok] at hstep
      obtain ⟨_, _, rfl⟩ := hstep
      exact ⟨hset (hstack.advance hrest), hs.pending⟩
    · rename_i q rest hrest
      simp only [bind_eq_ok, assertThat_eq_ok, pure_eq_ok] at hstep
      obtain ⟨_, _, rfl⟩ := hstep
      exact ⟨hset (hstack.advance hrest), hs.pending⟩
    · rename_i q b rest hrest
      obtain rfl := pure_eq_ok.mp hstep
      obtain ⟨hhome, hbelow⟩ := hstack.allowed f List.mem_cons_self (.sync q b) (by simp [hrest])
      refine ⟨hset stack_nil, ?_⟩
      intro job hjob
      rcases List.mem_append.mp hjob with hjob | hjob
      · exact hs.pending job hjob
      · obtain rfl := List.mem_singleton.mp hjob
        have hadvance := hstack.advance hrest
        exact ⟨hhome, hadvance, fun g hg => ⟨q, rfl, hadvance.below_all h hbelow g hg⟩⟩
    · rename_i q b rest hrest
      obtain rfl := pure_eq_ok.mp hstep
      have hhome : p.home b = q :=
        hstack.allowed f List.mem_cons_self (.async q b) (by simp [hrest])
      refine ⟨hset (hstack.advance hrest), ?_⟩
      intro job hjob
      rcases List.mem_append.mp hjob with hjob | hjob
      · exact hs.pending job hjob
      · obtain rfl := List.mem_singleton.mp hjob
        exact ⟨hhome, stack_nil, fun g hg => by cases hg⟩
  · cases hstep

theorem ordered_start (h : p.Disciplined rank) (hs : p.Ordered rank s) {k : Nat} {choice : C}
    (hstep : p.start s k choice = .ok t) : p.Ordered rank t := by
  unfold start at hstep
  split at hstep
  · rename_i job hk
    simp only [bind_eq_ok, enabledIf_eq_ok, pure_eq_ok] at hstep
    obtain ⟨_, _, _, _, rfl⟩ := hstep
    refine ⟨?_, fun job' hjob' => hs.pending job' (List.mem_of_mem_eraseIdx hjob')⟩
    intro strand hstrand
    rcases List.mem_cons.mp hstrand with rfl | hstrand
    · exact (hs.pending job (List.mem_of_getElem? hk)).stack h choice
    · exact hs.strands strand hstrand
  · cases hstep

theorem ordered_step (h : p.Disciplined rank) (hs : p.Ordered rank s) {e : Event B C}
    (hstep : p.step s e = .ok t) : p.Ordered rank t := by
  cases e with
  | enter b choice =>
    simp only [step, bind_eq_ok, enabledIf_eq_ok, pure_eq_ok] at hstep
    obtain ⟨_, hhome, rfl⟩ := hstep
    refine ⟨?_, hs.pending⟩
    intro strand hstrand
    rcases List.mem_cons.mp hstrand with rfl | hstrand
    · have hstack := h.stack_singleton b choice
      rw [hhome] at hstack
      exact hstack
    · exact hs.strands strand hstrand
  | exec i => exact ordered_exec h hs hstep
  | start k choice => exact ordered_start h hs hstep

theorem ordered_of_reachable (h : p.Disciplined rank) (hreach : Reachable p.step initial s) :
    p.Ordered rank s :=
  hreach.invariant ordered_initial fun _ _ _ _ hm hstep => ordered_step h hm hstep

/-! ## No wrong queue -/

/-- A strand with a block that has begun goes on. -/
theorem exists_exec (hs : p.Ordered rank s) {i : Nat} {f : Frame Q B} {fs : List (Frame Q B)}
    (hi : s.strands[i]? = some (f :: fs)) : ∃ t, p.exec s i = .ok t := by
  have hstack := hs.strands _ (List.mem_of_getElem? hi)
  unfold exec
  rw [hi]
  cases hrest : f.rest with
  | nil => exact ⟨_, by simp only [hrest]; rfl⟩
  | cons instr rest =>
    have hallowed := hstack.allowed f List.mem_cons_self instr (by simp [hrest])
    cases instr with
    | assertOn q =>
      have hon : q ∈ p.busy f.queue := hallowed
      exact ⟨{ s with strands := s.strands.set i ({ f with rest } :: fs) }, by simp [hrest, hon]⟩
    | assertOff q =>
      have hoff : q ∉ p.busy f.queue := hallowed
      exact ⟨{ s with strands := s.strands.set i ({ f with rest } :: fs) }, by simp [hrest, hoff]⟩
    | sync q b => exact ⟨_, by simp only [hrest]; rfl⟩
    | async q b => exact ⟨_, by simp only [hrest]; rfl⟩

theorem step_ne_failed (hs : p.Ordered rank s) (e : Event B C) (fault : QueueFault) :
    p.step s e ≠ .error (.failed fault) := by
  cases e with
  | enter b choice => simp [step]
  | start k choice =>
    show p.start s k choice ≠ _
    unfold start
    split <;> simp
  | exec i =>
    show p.exec s i ≠ _
    cases hi : s.strands[i]? with
    | none => simp [exec, hi]
    | some strand =>
      cases strand with
      | nil => simp [exec, hi]
      | cons f fs =>
        obtain ⟨t, ht⟩ := exists_exec hs hi
        rw [ht]
        simp

/-! ## No wait for ever -/

omit [DecidableEq Q] in
/-- A block that waits behind another one waits for a queue of a lower rank. -/
theorem lt_of_behind (hs : p.Ordered rank s) {job other : Job Q B}
    (h : p.Behind s job other) :
    ∃ x ∈ p.busy job.queue, ∀ y ∈ p.busy other.queue, rank y < rank x := by
  obtain ⟨hmem, f, hf, x, hx, hxf⟩ := h
  obtain ⟨q, hqueue, hbelow⟩ := (hs.pending other hmem).below f hf
  refine ⟨x, hx, ?_⟩
  intro y hy
  rw [hqueue] at hy
  exact hbelow y hy x hxf

omit [DecidableEq Q] in
/-- No block waits for itself. -/
theorem not_behind_self (hs : p.Ordered rank s) (job : Job Q B) :
    ¬ Relation.TransGen (p.Behind s) job job := by
  have hlt {other : Job Q B} (h : Relation.TransGen (p.Behind s) job other) :
      ∃ x ∈ p.busy job.queue, ∀ y ∈ p.busy other.queue, rank y < rank x := by
    induction h with
    | single h => exact lt_of_behind hs h
    | tail _ h ih =>
      obtain ⟨x, hx, hxm⟩ := ih
      obtain ⟨m, hm, hmy⟩ := lt_of_behind hs h
      refine ⟨x, hx, ?_⟩
      intro y hy
      have hym := hmy y hy
      have hmx := hxm m hm
      omega
  intro h
  obtain ⟨x, hx, hself⟩ := hlt h
  exact absurd (hself x hx) (Nat.lt_irrefl _)

/-- The first job of a queue that is not busy begins. -/
theorem exists_start [Inhabited C] {job : Job Q B} (hmem : job ∈ s.pending)
    (hfree : ∀ x ∈ p.busy job.queue, x ∉ p.occupied s) :
    ∃ k t, p.Helps s job (.start k (default : C)) ∧ p.step s (.start k default) = .ok t := by
  have hsome : (s.pending.findIdx? fun j => j.queue = job.queue).isSome := by
    rw [List.findIdx?_isSome, List.any_eq_true]
    exact ⟨job, hmem, by simp⟩
  obtain ⟨k, hk⟩ := Option.isSome_iff_exists.mp hsome
  rw [List.findIdx?_eq_some_iff_getElem] at hk
  obtain ⟨hlt, hqueue, hfirst⟩ := hk
  simp only [decide_eq_true_eq] at hqueue hfirst
  have hfifo : ∀ earlier ∈ s.pending.take k, earlier.queue ≠ s.pending[k].queue := by
    intro earlier hearlier
    obtain ⟨j, hj, rfl⟩ := List.mem_take_iff_getElem.mp hearlier
    rw [hqueue]
    exact hfirst j (by omega)
  have hget := List.getElem?_eq_getElem hlt
  refine ⟨k, { strands := (⟨s.pending[k].queue, p.code s.pending[k].block default⟩ ::
      s.pending[k].caller) :: s.strands, pending := s.pending.eraseIdx k },
    ⟨s.pending[k], hget, hqueue⟩, ?_⟩
  show p.start s k default = _
  unfold start
  rw [hget]
  simp only [bind_eq_ok, enabledIf_eq_ok, pure_eq_ok]
  rw [← hqueue] at hfree
  exact ⟨(), hfifo, (), hfree, trivial⟩

/-- At the end of the blocks that a job waits behind is one that goes on. -/
theorem exists_helps [Inhabited C] (hs : p.Ordered rank s) {job : Job Q B}
    (hmem : job ∈ s.pending) :
    ∃ other e t, Relation.ReflTransGen (p.Behind s) job other ∧ p.Helps s other e ∧
      p.step s e = .ok t := by
  by_cases hfree : ∀ x ∈ p.busy job.queue, x ∉ p.occupied s
  · obtain ⟨k, t, hhelps, ht⟩ := exists_start hmem hfree
    exact ⟨job, .start k default, t, .refl, hhelps, ht⟩
  · -- the queue is busy, so this is about whoever keeps it busy
    obtain ⟨x, hx, hoccupied⟩ : ∃ x ∈ p.busy job.queue, x ∈ p.occupied s := by
      simpa using hfree
    induction hrank : rank x using Nat.strongRecOn generalizing x job with
    | _ n ih =>
      obtain ⟨f, hf, hxf⟩ := List.mem_flatMap.mp hoccupied
      obtain ⟨frames, hframes, hmemf⟩ := List.mem_flatten.mp hf
      rcases List.mem_append.mp hframes with hstrand | hcaller
      · obtain ⟨i, hi⟩ := List.mem_iff_getElem?.mp hstrand
        obtain ⟨g, gs, rfl⟩ := List.exists_cons_of_ne_nil (List.ne_nil_of_mem hmemf)
        obtain ⟨t, ht⟩ := exists_exec hs hi
        exact ⟨job, .exec i, t, .refl, ⟨g :: gs, hi, f, hmemf, x, hx, hxf⟩, ht⟩
      · obtain ⟨other, hother, rfl⟩ := List.mem_map.mp hcaller
        have hbehind : p.Behind s job other := ⟨hother, f, hmemf, x, hx, hxf⟩
        by_cases hfree' : ∀ y ∈ p.busy other.queue, y ∉ p.occupied s
        · obtain ⟨k, t, hhelps, ht⟩ := exists_start hother hfree'
          exact ⟨other, .start k default, t, .single hbehind, hhelps, ht⟩
        · obtain ⟨y, hy, hoccupied'⟩ : ∃ y ∈ p.busy other.queue, y ∈ p.occupied s := by
            simpa using hfree'
          obtain ⟨q, hqueue, hbelow⟩ := (hs.pending other hother).below f hmemf
          have hlt : rank y < rank x := by
            rw [hqueue] at hy
            exact hbelow y hy x hxf
          obtain ⟨last, e, t, hchain, hhelps, ht⟩ :=
            ih (rank y) (by omega) hother hfree' y hy hoccupied' rfl
          exact ⟨last, e, t, .head hbehind hchain, hhelps, ht⟩

/-- Nothing is stuck. -/
structure NeverStuck (p : Program Q B C) (s : Queues Q B) : Prop where
  /-- No block is on a wrong queue. -/
  assertions : ∀ e fault, p.step s e ≠ .error (.failed fault)
  /-- A block that has begun goes on. -/
  running : ∀ i f fs, s.strands[i]? = some (f :: fs) → ∃ t, p.step s (.exec i) = .ok t
  /-- A job waits for something that goes on. -/
  waiting : ∀ job ∈ s.pending, ∃ other e t,
    Relation.ReflTransGen (p.Behind s) job other ∧ p.Helps s other e ∧ p.step s e = .ok t
  /-- No job waits for its own end. -/
  acyclic : ∀ job, ¬ Relation.TransGen (p.Behind s) job job

/-- Whatever was entered, and in whatever order things have happened. -/
theorem Disciplined.never_stuck [Inhabited C] (h : p.Disciplined rank)
    (hreach : Reachable p.step initial s) : p.NeverStuck s := by
  have hs := ordered_of_reachable h hreach
  exact ⟨step_ne_failed hs, fun i f fs hi => exists_exec hs hi,
    fun job hjob => exists_helps hs hjob, not_behind_self hs⟩

end Program

end SerialQueues
