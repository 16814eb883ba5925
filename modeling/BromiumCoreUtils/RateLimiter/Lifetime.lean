import BromiumCoreUtils.Lib.Refinement
import BromiumCoreUtils.RateLimiter.Exclusion

/-!
# The lifetime of a rate limiter

`BRURateLimiter` is about an object that stays alive.  Here it lives as long as something holds
it: its owners, a setter between its swap and its enqueue, the block of a delivery, which has
made its weak reference strong, and every completion block that the client holds.

`-dealloc` runs with the last of these references.  A client that has let its completion block
go without calling it is made good there: the block is called through the property, so that the
queue is never released while it is suspended.  Blocks that are still on the queue find `self`
gone.
-/

namespace BromiumCoreUtils

open Machine Log

/-- The assertions of a rate limiter, and the one of its `dealloc`. -/
inductive LifetimeAssertion where
  | limiter (assertion : Assertion)
  /-- `Completion block should be nil at destruction.` -/
  | completionBlockNotNil
deriving DecidableEq, Repr

/-- A rate limiter and what holds it. -/
structure RateLimiterLifetime (T : Type) where
  limiter : BRURateLimiter T
  alive : Bool
  owners : Nat
  /-- The completion blocks that the client holds. -/
  held : List Nat

namespace RateLimiterLifetime

variable {T : Type}

def initWithTargetQueue : RateLimiterLifetime T where
  limiter := .initWithTargetQueue
  alive := true
  owners := 1
  held := []

/-- Something holds the rate limiter. -/
def referenced (s : RateLimiterLifetime T) : Bool :=
  0 < s.owners || 0 < s.limiter.enqueues || s.limiter.delivery.isSome || !s.held.isEmpty

/-- `-dealloc`. -/
def dealloc (s : RateLimiterLifetime T) : Exec LifetimeAssertion (RateLimiterLifetime T) := do
  let limiter ←
    match s.limiter.completionBlock with
    | some c => embed .limiter (s.limiter.runCompletionBlock c)
    | none => pure s.limiter
  assertThat (limiter.completionBlock = none) .completionBlockNotNil
  pure { s with limiter := limiter, alive := false }

/-- What happens next. -/
inductive Event (T : Type) where
  | limiter (e : BRURateLimiter.Event T)
  | retain
  | release
  /-- The client lets a completion block go. -/
  | drop (completionBlock : Nat)

/-- The step, before a reference that has gone has its effect. -/
def perform (s : RateLimiterLifetime T) :
    Event T → Exec LifetimeAssertion (RateLimiterLifetime T)
  | .limiter (.setResult result) => do
    enabledIf (0 < s.owners)
    let limiter ← embed .limiter (BRURateLimiter.step s.limiter (.setResult result))
    pure { s with limiter := limiter }
  | .limiter .beginDelivery =>
    if s.alive then do
      let limiter ← embed .limiter (BRURateLimiter.step s.limiter .beginDelivery)
      pure { s with limiter := limiter }
    else do
      -- `self` is gone, and the block returns
      enabledIf (s.limiter.delivery.isNone = true ∧ s.limiter.suspendCount = 0 ∧
        0 < s.limiter.syncQueue)
      pure { s with limiter := { s.limiter with syncQueue := s.limiter.syncQueue - 1 } }
  | .limiter .callResultBlock => do
    let limiter ← embed .limiter (BRURateLimiter.step s.limiter .callResultBlock)
    match s.limiter.delivery with
    | some (.resultBlock _ c) => pure { s with limiter := limiter, held := c :: s.held }
    | _ => .error .disabled
  | .limiter (.completion c) => do
    enabledIf (c ∈ s.held)
    let limiter ← embed .limiter (BRURateLimiter.step s.limiter (.completion c))
    pure { s with limiter := limiter }
  | .limiter e => do
    let limiter ← embed .limiter (BRURateLimiter.step s.limiter e)
    pure { s with limiter := limiter }
  | .retain => do
    enabledIf (0 < s.owners)
    pure { s with owners := s.owners + 1 }
  | .release => do
    enabledIf (0 < s.owners)
    pure { s with owners := s.owners - 1 }
  | .drop c => do
    enabledIf (c ∈ s.held)
    pure { s with held := s.held.erase c }

/-- Take one step. -/
def step (s : RateLimiterLifetime T) (e : Event T) :
    Exec LifetimeAssertion (RateLimiterLifetime T) := do
  let s ← s.perform e
  if s.alive && !s.referenced then s.dealloc else pure s

end RateLimiterLifetime

/-! ## Completion blocks that the client was given -/

namespace BRURateLimiter

variable {T : Type} {l l' : BRURateLimiter T} {e : Event T}

/-- The completion blocks that were called. -/
def completions (log : List (RateLimiterObservation T)) : List Nat :=
  log.filterMap fun
    | .completion c => some c
    | _ => none

/-- The client has the completion block of the property, or is about to get it. -/
def Handed (l : BRURateLimiter T) : Prop :=
  ∀ c, l.completionBlock = some c →
    c ∈ l.given ∨ ∃ result, l.delivery = some (.resultBlock result c)

/-- The completion blocks that were called are those that know it, each once. -/
structure Counted (l : BRURateLimiter T) : Prop where
  nodup : (completions l.log).Nodup
  mem_iff : ∀ c, c ∈ completions l.log ↔ c < l.completionBlocks ∧ l.completionBlockDidRun c = true
  given : ∀ c ∈ completions l.log, c ∈ l.given

theorem step_handed (h : Handed l) (hstep : step l e = .ok l') : Handed l' := by
  intro c hc
  cases step_transition hstep with
  | setEmpty _ | setFull _ | enqueue _ => exact h c hc
  | beginDelivery hdelivery _ _ =>
    refine (h c hc).imp_right ?_
    rintro ⟨result, heq⟩
    simp [hdelivery] at heq
  | take hdelivery _ =>
    refine (h c hc).imp_right ?_
    rintro ⟨result, heq⟩
    simp [hdelivery] at heq
  | performSetResult hdelivery _ =>
    injection hc with hc
    subst hc
    exact Or.inr ⟨_, rfl⟩
  | callResultBlock hdelivery =>
    rcases h c hc with hgiven | ⟨result, heq⟩
    · exact Or.inl (List.mem_append_left _ hgiven)
    · rw [hdelivery] at heq
      injection heq with heq
      injection heq with _ heq
      exact Or.inl (by simp [heq])
  | endDelivery hdelivery =>
    refine (h c hc).imp_right ?_
    rintro ⟨result, heq⟩
    simp [hdelivery] at heq
  | completion _ _ => cases hc

/-- A step in which no completion block is made or called. -/
theorem Counted.congr (h : Counted l) (hlog : completions l'.log = completions l.log)
    (hblocks : l'.completionBlocks = l.completionBlocks)
    (hdidRun : l'.completionBlockDidRun = l.completionBlockDidRun)
    (hgiven : ∀ c ∈ l.given, c ∈ l'.given) : Counted l' where
  nodup := by
    rw [hlog]
    exact h.nodup
  mem_iff c := by
    rw [hlog, hblocks, hdidRun]
    exact h.mem_iff c
  given c hc := by
    rw [hlog] at hc
    exact hgiven c (h.given c hc)

theorem step_counted (hexcl : Exclusive l) (h : Counted l) (hstep : step l e = .ok l') :
    Counted l' := by
  cases step_transition hstep with
  | setEmpty _ | setFull _ =>
    exact h.congr (by simp [completions]) rfl rfl fun _ hc => hc
  | callResultBlock _ =>
    exact h.congr (by simp [completions]) rfl rfl fun _ hc => List.mem_append_left _ hc
  | enqueue _ | beginDelivery _ _ _ | take _ _ | endDelivery _ =>
    exact h.congr rfl rfl rfl fun _ hc => hc
  | performSetResult _ _ =>
    refine ⟨h.nodup, ?_, h.given⟩
    intro c
    show c ∈ completions l.log ↔ c < l.completionBlocks + 1 ∧
      Function.update l.completionBlockDidRun l.completionBlocks false c = true
    rw [h.mem_iff]
    by_cases hc : c = l.completionBlocks
    · simp [hc]
    · rw [Function.update_of_ne hc]
      have hlt : c < l.completionBlocks ↔ c < l.completionBlocks + 1 := by omega
      rw [hlt]
  | @completion c hgiven hfirst =>
    have hmem : c ∉ completions l.log := by
      rw [h.mem_iff, hfirst]
      simp
    have hlog : completions (l.log ++ [.completion c]) = completions l.log ++ [c] := by
      simp [completions]
    refine ⟨?_, ?_, ?_⟩
    · show (completions (l.log ++ [.completion c])).Nodup
      rw [hlog]
      simpa [List.nodup_append, hmem] using ⟨h.nodup, fun a ha heq => hmem (heq ▸ ha)⟩
    · intro c'
      show c' ∈ completions (l.log ++ [.completion c]) ↔ c' < l.completionBlocks ∧
        Function.update l.completionBlockDidRun c true c' = true
      rw [hlog, List.mem_append, List.mem_singleton, h.mem_iff]
      by_cases hc : c' = c
      · subst hc
        simp [hexcl.given c' hgiven]
      · rw [Function.update_of_ne hc]
        simp [hc]
    · intro c' hc'
      have hc' : c' ∈ completions (l.log ++ [.completion c]) := hc'
      rw [hlog, List.mem_append, List.mem_singleton] at hc'
      rcases hc' with hc' | rfl
      · exact h.given c' hc'
      · exact hgiven

theorem handed_counted_of_reachable (h : Reachable step initWithTargetQueue l) :
    Handed l ∧ Counted l := by
  refine h.invariant (I := fun l => Handed l ∧ Counted l) ?_ ?_
  · refine ⟨?_, ⟨List.nodup_nil, ?_, ?_⟩⟩
    · intro c hc
      cases hc
    · simp [initWithTargetQueue, completions]
    · intro c hc
      cases hc
  · intro l e l' hreach hinv hstep
    exact ⟨step_handed hinv.1 hstep,
      step_counted (exclusive_of_reachable hreach).1 hinv.2 hstep⟩

end BRURateLimiter

namespace RateLimiterLifetime

variable {T : Type} {s s' : RateLimiterLifetime T} {e : Event T}

/-! ## What a step does -/

theorem referenced_eq_false :
    s.referenced = false ↔ s.owners = 0 ∧ s.limiter.enqueues = 0 ∧ s.limiter.delivery = none ∧
      s.held = [] := by
  simp [referenced, and_assoc]

/-- A step of the rate limiter itself. -/
theorem perform_limiter {e : BRURateLimiter.Event T} (h : s.perform (.limiter e) = .ok s') :
    s.alive = false ∧ e = .beginDelivery ∧
        s' = { s with limiter := { s.limiter with syncQueue := s.limiter.syncQueue - 1 } } ∨
      ∃ l, BRURateLimiter.step s.limiter e = .ok l ∧
        (s' = { s with limiter := l } ∨
          ∃ result c, s.limiter.delivery = some (.resultBlock result c) ∧
            e = .callResultBlock ∧ s' = { s with limiter := l, held := c :: s.held }) := by
  cases e with
  | beginDelivery =>
    simp only [perform] at h
    split at h
    · simp only [bind_eq_ok, embed_eq_ok, pure_eq_ok] at h
      obtain ⟨l, hl, rfl⟩ := h
      exact Or.inr ⟨l, hl, Or.inl rfl⟩
    · rename_i halive
      simp only [bind_eq_ok, enabledIf_eq_ok, pure_eq_ok] at h
      obtain ⟨_, _, rfl⟩ := h
      exact Or.inl ⟨by simpa using halive, rfl, rfl⟩
  | callResultBlock =>
    simp only [perform, bind_eq_ok, embed_eq_ok] at h
    obtain ⟨l, hl, h⟩ := h
    split at h
    · rename_i result c hdelivery
      rw [← pure_eq_ok.mp h]
      exact Or.inr ⟨l, hl, Or.inr ⟨result, c, hdelivery, rfl, rfl⟩⟩
    · cases h
  | setResult _ | completion _ =>
    simp only [perform, bind_eq_ok, enabledIf_eq_ok, embed_eq_ok, pure_eq_ok] at h
    obtain ⟨_, _, l, hl, rfl⟩ := h
    exact Or.inr ⟨l, hl, Or.inl rfl⟩
  | enqueue | take | performSetResult | endDelivery =>
    simp only [perform, bind_eq_ok, embed_eq_ok, pure_eq_ok] at h
    obtain ⟨l, hl, rfl⟩ := h
    exact Or.inr ⟨l, hl, Or.inl rfl⟩

/-- What is known of a rate limiter and of those that hold it. -/
structure Sound (s : RateLimiterLifetime T) : Prop where
  /-- But for the blocks that found `self` gone, the state is one that is reached alive. -/
  reached : ∃ l, Reachable BRURateLimiter.step .initWithTargetQueue l ∧
    s.limiter = { l with syncQueue := s.limiter.syncQueue } ∧ (s.alive = true → s.limiter = l)
  held : ∀ c ∈ s.held, c ∈ s.limiter.given
  gone : s.alive = false → s.limiter.completionBlock = none

theorem Sound.reachable (h : s.Sound) (halive : s.alive = true) :
    Reachable BRURateLimiter.step .initWithTargetQueue s.limiter := by
  obtain ⟨l, hreach, _, heq⟩ := h.reached
  rw [heq halive]
  exact hreach

/-- The completion blocks that were given stay given. -/
theorem given_subset {l l' : BRURateLimiter T} {e : BRURateLimiter.Event T}
    (hstep : BRURateLimiter.step l e = .ok l') {c : Nat} (hc : c ∈ l.given) : c ∈ l'.given := by
  cases BRURateLimiter.step_transition hstep with
  | callResultBlock _ => exact List.mem_append_left _ hc
  | _ => exact hc

theorem sound_of_alive {l : BRURateLimiter T} {owners : Nat} {held : List Nat}
    (hreach : Reachable BRURateLimiter.step .initWithTargetQueue l)
    (hheld : ∀ c ∈ held, c ∈ l.given) : Sound ⟨l, true, owners, held⟩ where
  reached := ⟨l, hreach, rfl, fun _ => rfl⟩
  held := hheld
  gone hdead := by cases hdead

/-- A step of a rate limiter that is alive, before its `dealloc`. -/
theorem Sound.perform (h : s.Sound) (halive : s.alive = true) (hstep : s.perform e = .ok s') :
    s'.Sound ∧ s'.alive = true := by
  have hreach := h.reachable halive
  obtain ⟨l, alive, owners, held⟩ := s
  obtain rfl : alive = true := halive
  cases e with
  | limiter e =>
    rcases perform_limiter hstep with ⟨hdead, _⟩ | ⟨l', hl, rfl | ⟨result, c, hdelivery, rfl, rfl⟩⟩
    · cases hdead
    · exact ⟨sound_of_alive (hreach.next hl) fun c hc => given_subset hl (h.held c hc), rfl⟩
    · refine ⟨sound_of_alive (hreach.next hl) ?_, rfl⟩
      intro c' hc'
      rcases List.mem_cons.mp hc' with rfl | hc'
      · -- the completion block that the client has just got
        have hdelivery : l.delivery = some (.resultBlock result c') := hdelivery
        simp only [BRURateLimiter.step, hdelivery, pure_eq_ok] at hl
        rw [← hl]
        simp
      · exact given_subset hl (h.held c' hc')
  | retain =>
    simp only [RateLimiterLifetime.perform, bind_eq_ok, pure_eq_ok] at hstep
    obtain ⟨_, _, rfl⟩ := hstep
    exact ⟨sound_of_alive hreach h.held, rfl⟩
  | release =>
    simp only [RateLimiterLifetime.perform, bind_eq_ok, pure_eq_ok] at hstep
    obtain ⟨_, _, rfl⟩ := hstep
    exact ⟨sound_of_alive hreach h.held, rfl⟩
  | drop c =>
    simp only [RateLimiterLifetime.perform, bind_eq_ok, pure_eq_ok] at hstep
    obtain ⟨_, _, rfl⟩ := hstep
    exact ⟨sound_of_alive hreach fun c' hc' => h.held c' (List.mem_of_mem_erase hc'), rfl⟩

/-- A rate limiter that is gone does nothing but let its blocks return. -/
theorem perform_of_gone (halive : s.alive = false) (hreferenced : s.referenced = false)
    (hstep : s.perform e = .ok s') :
    s' = { s with limiter := { s.limiter with syncQueue := s.limiter.syncQueue - 1 } } := by
  obtain ⟨howners, henqueues, hdelivery, hheld⟩ := referenced_eq_false.mp hreferenced
  cases e with
  | limiter e =>
    cases e with
    | setResult result => simp [perform, howners, enabledIf, bind, Except.bind] at hstep
    | completion c => simp [perform, hheld, enabledIf, bind, Except.bind] at hstep
    | beginDelivery =>
      simp only [perform, halive, Bool.false_eq_true, if_false, bind_eq_ok, enabledIf_eq_ok,
        pure_eq_ok] at hstep
      obtain ⟨_, _, rfl⟩ := hstep
      rw [halive]
    | enqueue => simp [perform, BRURateLimiter.step, henqueues] at hstep
    | _ => simp [perform, BRURateLimiter.step, hdelivery] at hstep
  | retain => simp [perform, howners, enabledIf, bind, Except.bind] at hstep
  | release => simp [perform, howners, enabledIf, bind, Except.bind] at hstep
  | drop c => simp [perform, hheld, enabledIf, bind, Except.bind] at hstep

/-- The completion block that is still awaited can be called, and the assertion holds. -/
theorem Sound.dealloc (h : s.Sound) (halive : s.alive = true) (hreferenced : s.referenced = false) :
    ∃ l, s.dealloc = .ok { s with limiter := l, alive := false } ∧ l.completionBlock = none ∧
      l.given = s.limiter.given ∧ l.enqueues = s.limiter.enqueues ∧
      l.delivery = s.limiter.delivery ∧
      Reachable BRURateLimiter.step .initWithTargetQueue l := by
  have hreach := h.reachable halive
  have hexcl := (BRURateLimiter.exclusive_of_reachable hreach).1
  have hhanded := (BRURateLimiter.handed_counted_of_reachable hreach).1
  obtain ⟨_, _, hdelivery, _⟩ := referenced_eq_false.mp hreferenced
  cases hblock : s.limiter.completionBlock with
  | none =>
    refine ⟨s.limiter, ?_, hblock, rfl, rfl, rfl, hreach⟩
    simp [RateLimiterLifetime.dealloc, hblock, assertThat, bind, Except.bind, pure, Except.pure]
  | some c =>
    obtain ⟨_, hfirst⟩ := (hexcl.awaited c).mpr hblock
    have hgiven : c ∈ s.limiter.given := by
      rcases hhanded c hblock with hgiven | ⟨result, heq⟩
      · exact hgiven
      · rw [hdelivery] at heq
        cases heq
    have hrun : ∃ l, s.limiter.runCompletionBlock c = .ok l ∧ l.completionBlock = none ∧
        l.given = s.limiter.given ∧ l.enqueues = s.limiter.enqueues ∧
        l.delivery = s.limiter.delivery := by
      simp [BRURateLimiter.runCompletionBlock, hfirst]
    obtain ⟨l, hl, hnone, hsame, henqueues, hdelivery'⟩ := hrun
    have hstep : BRURateLimiter.step s.limiter (.completion c) = .ok l := by
      simp only [BRURateLimiter.step, bind_eq_ok, enabledIf_eq_ok]
      exact ⟨(), hgiven, hl⟩
    refine ⟨l, ?_, hnone, hsame, henqueues, hdelivery', hreach.next hstep⟩
    simp [RateLimiterLifetime.dealloc, hblock, hl, embed, hnone, assertThat, bind, Except.bind,
      pure, Except.pure]

/-- Between two steps it lives exactly as long as something holds it. -/
structure Settled (s : RateLimiterLifetime T) : Prop where
  sound : s.Sound
  alive : s.alive = s.referenced

theorem Settled.step (h : s.Settled) (hstep : s.step e = .ok s') : s'.Settled := by
  simp only [RateLimiterLifetime.step, bind_eq_ok] at hstep
  obtain ⟨m, hperform, hstep⟩ := hstep
  cases halive : s.alive with
  | true =>
    obtain ⟨hsound, hm⟩ := h.sound.perform halive hperform
    cases hreferenced : m.referenced with
    | true =>
      obtain rfl : m = s' := by simpa [hm, hreferenced] using hstep
      exact ⟨hsound, by rw [hm, hreferenced]⟩
    | false =>
      obtain ⟨l, hdealloc, hnone, hgiven, henqueues, hdelivery, hreach⟩ :=
        hsound.dealloc hm hreferenced
      obtain rfl : { m with limiter := l, alive := false } = s' := by
        simpa [hm, hreferenced, hdealloc] using hstep
      refine ⟨⟨⟨l, hreach, rfl, by simp⟩, ?_, fun _ => hnone⟩, ?_⟩
      · intro c hc
        show c ∈ l.given
        rw [hgiven]
        exact hsound.held c hc
      · rw [referenced, henqueues, hdelivery]
        exact hreferenced.symm
  | false =>
    have hreferenced : s.referenced = false := by rw [← h.alive, halive]
    obtain rfl := perform_of_gone halive hreferenced hperform
    rw [if_neg (by simp [halive])] at hstep
    obtain rfl := pure_eq_ok.mp hstep
    obtain ⟨l, hreach, heq, _⟩ := h.sound.reached
    refine ⟨⟨⟨l, hreach, ?_, by simp [halive]⟩, h.sound.held, h.sound.gone⟩, h.alive⟩
    rw [heq]

theorem settled_init : Settled (initWithTargetQueue : RateLimiterLifetime T) where
  sound := sound_of_alive (.refl _) (by simp)
  alive := rfl

/-- The blocks that found `self` gone changed nothing for the completion blocks. -/
theorem Sound.exclusive (h : s.Sound) :
    BRURateLimiter.Exclusive s.limiter ∧ BRURateLimiter.Counted s.limiter ∧
      Justified BRURateLimiter.AfterCompletion s.limiter.log := by
  obtain ⟨l, hreach, heq, _⟩ := h.reached
  obtain ⟨hexcl, _, hafter⟩ := BRURateLimiter.exclusive_of_reachable hreach
  have hcounted := (BRURateLimiter.handed_counted_of_reachable hreach).2
  rw [heq]
  exact ⟨hexcl.congr rfl rfl rfl rfl rfl rfl, hcounted.congr rfl rfl rfl fun _ hc => hc, hafter⟩

theorem perform_failed {e : BRURateLimiter.Event T} {a : LifetimeAssertion}
    (hfailed : s.perform (.limiter e) = .error (.failed a)) :
    (∃ a', BRURateLimiter.step s.limiter e = .error (.failed a')) ∧
      ∀ c, e = .completion c → c ∈ s.held := by
  cases e with
  | completion c =>
    by_cases hheld : c ∈ s.held
    · refine ⟨?_, by rintro c' ⟨⟩; exact hheld⟩
      simp only [perform, bind_eq_failed, enabledIf_ne_failed, embed_eq_failed, pure_ne_failed,
        and_false, exists_false, or_false, false_or] at hfailed
      obtain ⟨_, _, a', hfailed, _⟩ := hfailed
      exact ⟨a', hfailed⟩
    · simp [perform, enabledIf, hheld, bind, Except.bind] at hfailed
  | beginDelivery =>
    simp only [perform] at hfailed
    split at hfailed
    · simp [BRURateLimiter.step] at hfailed
    · simp at hfailed
  | callResultBlock =>
    refine ⟨?_, by simp⟩
    simp only [perform, bind_eq_failed, embed_eq_failed] at hfailed
    rcases hfailed with ⟨a', hfailed, _⟩ | ⟨_, _, hfailed⟩
    · exact ⟨a', hfailed⟩
    · split at hfailed <;> simp at hfailed
  | setResult result => simp [perform, BRURateLimiter.step] at hfailed
  | enqueue | take | performSetResult | endDelivery =>
    refine ⟨?_, by simp⟩
    simp only [perform, bind_eq_failed, embed_eq_failed, pure_ne_failed, and_false, exists_false,
      or_false] at hfailed
    obtain ⟨a', hfailed, _⟩ := hfailed
    exact ⟨a', hfailed⟩

/-- What can fail is a completion block that the client calls again. -/
theorem Settled.step_failed (h : s.Settled) {a : LifetimeAssertion}
    (hfailed : s.step e = .error (.failed a)) :
    ∃ c ∈ s.held, e = .limiter (.completion c) ∧
      s.limiter.completionBlockDidRun c = true := by
  simp only [RateLimiterLifetime.step, bind_eq_failed] at hfailed
  rcases hfailed with hfailed | ⟨m, hperform, hfailed⟩
  · cases e with
    | limiter e =>
      obtain ⟨⟨a', hstep⟩, hheld⟩ := perform_failed hfailed
      obtain ⟨_, c, _, rfl, hrun⟩ := h.sound.exclusive.1.step_failed hstep
      exact ⟨c, hheld c rfl, rfl, hrun⟩
    | _ => simp [perform] at hfailed
  · -- `dealloc` does not fail
    split at hfailed
    · rename_i hcondition
      simp only [Bool.and_eq_true, Bool.not_eq_true'] at hcondition
      have hsound : m.Sound := by
        cases halive : s.alive with
        | true => exact (h.sound.perform halive hperform).1
        | false =>
          have hreferenced : s.referenced = false := by rw [← h.alive, halive]
          rw [perform_of_gone halive hreferenced hperform, halive] at hcondition
          simp at hcondition
      obtain ⟨l, hdealloc, _⟩ := hsound.dealloc hcondition.1 hcondition.2
      rw [hdealloc] at hfailed
      cases hfailed
    · simp at hfailed

/-! ## The contract -/

/-- What holds of a rate limiter that lives as long as something holds it. -/
structure LifetimeContract (s : RateLimiterLifetime T) : Prop where
  alive_iff : s.alive = s.referenced
  /-- The queue of a rate limiter that is gone is not suspended. -/
  resumed : s.alive = false → s.limiter.suspendCount = 0 ∧ s.limiter.delivery = none
  /-- And the completion of every delivery that was made has been called. -/
  completed : s.alive = false →
    ∀ c, c ∈ s.limiter.given ↔ c ∈ BRURateLimiter.completions s.limiter.log
  /-- No completion block ever runs twice. -/
  once : (BRURateLimiter.completions s.limiter.log).Nodup
  /-- What is left on the queue delivers nothing. -/
  silent : s.alive = false → ∀ e s', step s e = .ok s' →
    s'.alive = false ∧ s'.limiter.log = s.limiter.log
  /-- Between two calls of `resultBlock` the first one is completed. -/
  no_overlap : ∀ pre result c mid result' c' post,
    s.limiter.log = pre ++ .resultBlock result c :: mid ++ .resultBlock result' c' :: post →
      .completion c ∈ mid
  /-- What fails is a completion block that the client calls again. -/
  assertions : ∀ e a, step s e = .error (.failed a) →
    ∃ c ∈ s.held, e = .limiter (.completion c) ∧
      c ∈ BRURateLimiter.completions s.limiter.log

/-- In every run of a rate limiter, its owners and its client, it is gone as soon as nothing
holds it, leaves no queue suspended and no delivery without its completion, and is silent
from then on. -/
theorem lifetime_contract {events : List (Event T)}
    (hrun : run step (initWithTargetQueue : RateLimiterLifetime T) events = .ok s) :
    s.LifetimeContract := by
  have h : s.Settled := run_invariant (fun _ _ _ h hstep => h.step hstep) settled_init hrun
  obtain ⟨hexcl, hcounted, hafter⟩ := h.sound.exclusive
  refine
    { alive_iff := h.alive, resumed := ?_, completed := ?_, once := hcounted.nodup,
      silent := ?_, no_overlap := ?_, assertions := ?_ }
  · intro hgone
    have hreferenced : s.referenced = false := by rw [← h.alive, hgone]
    obtain ⟨_, _, hdelivery, _⟩ := referenced_eq_false.mp hreferenced
    refine ⟨?_, hdelivery⟩
    rw [hexcl.suspended, h.sound.gone hgone]
    rfl
  · intro hgone c
    refine ⟨?_, hcounted.given c⟩
    intro hgiven
    rw [hcounted.mem_iff]
    refine ⟨hexcl.given c hgiven, ?_⟩
    cases hrun : s.limiter.completionBlockDidRun c with
    | true => rfl
    | false =>
      have hblock := (hexcl.awaited c).mp ⟨hexcl.given c hgiven, hrun⟩
      rw [h.sound.gone hgone] at hblock
      cases hblock
  · intro hgone e s' hstep
    have hreferenced : s.referenced = false := by rw [← h.alive, hgone]
    simp only [RateLimiterLifetime.step, bind_eq_ok] at hstep
    obtain ⟨m, hperform, hstep⟩ := hstep
    obtain rfl := perform_of_gone hgone hreferenced hperform
    rw [if_neg (by simp [hgone])] at hstep
    obtain rfl := pure_eq_ok.mp hstep
    exact ⟨hgone, rfl⟩
  · intro pre result c mid result' c' post hlog
    exact hafter _ _ post hlog result' c' rfl pre result c mid rfl
  · intro e a hfailed
    obtain ⟨c, hheld, he, hrun⟩ := h.step_failed hfailed
    have hgiven := h.sound.held c hheld
    exact ⟨c, hheld, he, (hcounted.mem_iff c).mpr ⟨hexcl.given c hgiven, hrun⟩⟩

/-- A client never calls its completion block.  Its owner lets the rate limiter go while another
delivery is queued, and then the client lets the block go. -/
theorem lifetime_contract_forgotten : ∃ s : RateLimiterLifetime Nat,
    run step initWithTargetQueue
        [.limiter (.setResult 1), .limiter .enqueue, .limiter .beginDelivery, .limiter .take,
          .limiter .performSetResult, .limiter .callResultBlock, .limiter (.setResult 2),
          .limiter .enqueue, .limiter .endDelivery, .release, .drop 0,
          .limiter .beginDelivery] = .ok s ∧
      s.limiter.log = [.set 1, .resultBlock 1 0, .set 2, .completion 0] ∧
      s.alive = false ∧ s.LifetimeContract := by
  obtain ⟨s, hrun, hlog, hgone⟩ : ∃ s : RateLimiterLifetime Nat,
      run step initWithTargetQueue
          [.limiter (.setResult 1), .limiter .enqueue, .limiter .beginDelivery, .limiter .take,
            .limiter .performSetResult, .limiter .callResultBlock, .limiter (.setResult 2),
            .limiter .enqueue, .limiter .endDelivery, .release, .drop 0,
            .limiter .beginDelivery] = .ok s ∧
        s.limiter.log = [.set 1, .resultBlock 1 0, .set 2, .completion 0] ∧
        s.alive = false :=
    ⟨_, rfl, rfl, rfl⟩
  exact ⟨s, hrun, hlog, hgone, lifetime_contract hrun⟩

end RateLimiterLifetime

end BromiumCoreUtils
