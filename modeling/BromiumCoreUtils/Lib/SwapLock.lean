import BromiumCoreUtils.Lib.Machine
import Mathlib.Logic.Function.Basic

/-!
# A lock made of swaps

A thread swaps its token into a register.  If it gets `zero` back it has the lock, and gives
it back by swapping `zero` in; otherwise it tries again.  A thread that loses has overwritten
the token of the one that holds the lock, so the value tells only whether there is one.

`Register` is the atomic register with the calls of its threads.  `SwapObject` is any
implementation, whose calls take several steps, and `Simulates` says that each of its calls
takes effect at one of them.  `exclusive_run` is about the protocol over any implementation
that simulates the register.
-/

namespace SwapLock

open Machine

variable {Th T : Type} [DecidableEq Th]

/-! ## The register -/

/-- Where a thread is with its call of swap. -/
inductive CallPhase (T : Type) where
  | idle
  /-- The call has had no effect yet. -/
  | pending (newValue : T)
  /-- It has, and will return the old value. -/
  | answered (oldValue : T)
deriving DecidableEq, Repr

structure Register (Th T : Type) where
  value : T
  calls : Th → CallPhase T

/-- What a step shows of itself. -/
inductive Action (Th T : Type) where
  | call (th : Th) (newValue : T)
  | answer (th : Th) (oldValue : T)
  | internal
deriving DecidableEq, Repr

inductive Register.Step (r : Register Th T) : Action Th T → Register Th T → Prop where
  | call {th : Th} {newValue : T} (hidle : r.calls th = .idle) :
      Step r (.call th newValue) { r with calls := Function.update r.calls th (.pending newValue) }
  | swap {th : Th} {newValue : T} (hpending : r.calls th = .pending newValue) :
      Step r .internal
        { value := newValue, calls := Function.update r.calls th (.answered r.value) }
  | answer {th : Th} {oldValue : T} (hanswered : r.calls th = .answered oldValue) :
      Step r (.answer th oldValue) { r with calls := Function.update r.calls th .idle }
  | stutter : Step r .internal r

/-! ## The protocol -/

/-- Where a thread is in the protocol. -/
inductive ClientPlace (T : Type) where
  | outside
  | swappingIn
  /-- The swap has returned, and the answer was not looked at. -/
  | comparing (oldValue : T)
  | inside
  | swappingOut
  | handedBack (oldValue : T)
deriving DecidableEq, Repr

namespace ClientPlace

/-- What a thread calls swap with. -/
def wants (zero token : T) : ClientPlace T → Option T
  | .outside => some token
  | .inside => some zero
  | .swappingIn | .comparing _ | .swappingOut | .handedBack _ => none

/-- The call has begun. -/
def called : ClientPlace T → ClientPlace T
  | .outside => .swappingIn
  | .inside => .swappingOut
  | place => place

/-- The call has returned. -/
def answered (oldValue : T) : ClientPlace T → ClientPlace T
  | .swappingIn => .comparing oldValue
  | .swappingOut => .handedBack oldValue
  | place => place

end ClientPlace

/-- An implementation: its steps, and what each of them is to the threads.  A step that has no
place in the protocol is `none`. -/
structure SwapObject (Th T S E A : Type) where
  step : S → E → Exec A S
  action : S → E → Option (Action Th T)

inductive Event (Th E : Type) where
  /-- A step of the object. -/
  | object (e : E)
  /-- The thread compares what it got with zero. -/
  | compare (th : Th)
  /-- The thread is done, and may begin again. -/
  | finish (th : Th)
deriving DecidableEq, Repr

/-- The object, and where the threads are. -/
structure Protocol (Th T S : Type) where
  object : S
  clients : Th → ClientPlace T

variable {S E A : Type} [DecidableEq T]

def step (o : SwapObject Th T S E A) (zero : T) (token : Th → T) (s : Protocol Th T S) :
    Event Th E → Exec A (Protocol Th T S)
  | .object e =>
    match o.action s.object e with
    | none => .error .disabled
    | some .internal => do
      let object ← o.step s.object e
      pure { s with object := object }
    | some (.call th newValue) => do
      enabledIf ((s.clients th).wants zero (token th) = some newValue)
      let object ← o.step s.object e
      pure { object, clients := Function.update s.clients th (s.clients th).called }
    | some (.answer th oldValue) => do
      let object ← o.step s.object e
      pure { object, clients := Function.update s.clients th ((s.clients th).answered oldValue) }
  | .compare th =>
    match s.clients th with
    | .comparing oldValue =>
      pure { s with
        clients :=
          Function.update s.clients th (if oldValue = zero then .inside else .outside) }
    | _ => .error .disabled
  | .finish th =>
    match s.clients th with
    | .handedBack _ => pure { s with clients := Function.update s.clients th .outside }
    | _ => .error .disabled

/-! ## Who has the lock -/

/-- The swap of the thread has got zero, and the swap that gives zero back was not made. -/
def Holds (zero : T) : ClientPlace T → CallPhase T → Prop
  | .swappingIn, .answered oldValue => oldValue = zero
  | .comparing oldValue, _ => oldValue = zero
  | .inside, _ => True
  | .swappingOut, .pending _ => True
  | _, _ => False

def HasLock (zero : T) (r : Register Th T) (clients : Th → ClientPlace T) (th : Th) : Prop :=
  Holds zero (clients th) (r.calls th)

/-- A swap that gives the lock back does not get it. -/
def Returns (zero : T) : ClientPlace T → CallPhase T → Prop
  | .swappingOut, .answered oldValue => oldValue ≠ zero
  | .handedBack oldValue, _ => oldValue ≠ zero
  | _, _ => True

/-- One thread at most has the lock, and the value says whether one has. -/
structure Exclusive (zero : T) (r : Register Th T) (clients : Th → ClientPlace T) : Prop where
  unique : ∀ th th', HasLock zero r clients th → HasLock zero r clients th' → th = th'
  zero_iff : r.value = zero ↔ ∀ th, ¬ HasLock zero r clients th
  returns : ∀ th, Returns zero (clients th) (r.calls th)

/-- The place of a thread and its call belong together. -/
def Fits (zero token : T) : ClientPlace T → CallPhase T → Prop
  | .swappingIn, .pending newValue => newValue = token
  | .swappingOut, .pending newValue => newValue = zero
  | .swappingIn, .answered _ => True
  | .swappingOut, .answered _ => True
  | .outside, .idle => True
  | .comparing _, .idle => True
  | .inside, .idle => True
  | .handedBack _, .idle => True
  | _, _ => False

/-- The invariant of the protocol. -/
structure Sound (zero : T) (token : Th → T) (r : Register Th T) (clients : Th → ClientPlace T) :
    Prop where
  exclusive : Exclusive zero r clients
  fits : ∀ th, Fits zero (token th) (clients th) (r.calls th)

/-! ## One thread moves -/

section Moves

omit [DecidableEq T]

variable {zero : T} {token : Th → T} {r r' : Register Th T} {clients : Th → ClientPlace T}
variable {th th' : Th} {place : ClientPlace T} {phase : CallPhase T} {value : T}

theorem hasLock_update :
    HasLock zero ⟨value, Function.update r.calls th phase⟩ (Function.update clients th place) th' ↔
      if th' = th then Holds zero place phase else HasLock zero r clients th' := by
  unfold HasLock
  by_cases heq : th' = th
  · simp [heq]
  · simp [heq]

/-- What holds of the thread that moves, and of the others before, holds of all. -/
theorem forall_update {P : Th → ClientPlace T → CallPhase T → Prop} (hth : P th place phase)
    (hother : ∀ th', P th' (clients th') (r.calls th')) (th' : Th) :
    P th' (Function.update clients th place th') (Function.update r.calls th phase th') := by
  by_cases heq : th' = th
  · simpa [heq] using hth
  · simpa [heq] using hother th'

/-- A thread moves in its program, and has the lock as before. -/
theorem Sound.move (h : Sound zero token r clients) (hfits : Fits zero (token th) place phase)
    (hholds : Holds zero place phase ↔ HasLock zero r clients th)
    (hreturns : Returns zero place phase) :
    Sound zero token { r with calls := Function.update r.calls th phase }
      (Function.update clients th place) := by
  have hlock (th' : Th) : HasLock zero ⟨r.value, Function.update r.calls th phase⟩
      (Function.update clients th place) th' ↔ HasLock zero r clients th' := by
    rw [hasLock_update]
    by_cases heq : th' = th
    · rw [if_pos heq, hholds, heq]
    · rw [if_neg heq]
  refine ⟨⟨?_, ?_, ?_⟩, ?_⟩
  · intro th₁ th₂ h₁ h₂
    exact h.exclusive.unique th₁ th₂ ((hlock th₁).mp h₁) ((hlock th₂).mp h₂)
  · show r.value = zero ↔ _
    rw [h.exclusive.zero_iff]
    exact forall_congr' fun th' => not_congr (hlock th').symm
  · exact forall_update (P := fun _ => Returns zero) hreturns h.exclusive.returns
  · exact forall_update (P := fun th => Fits zero (token th)) hfits h.fits

/-- A thread that is in no call moves on its own. -/
theorem Sound.moveClient (h : Sound zero token r clients)
    (hfits : Fits zero (token th) place (r.calls th))
    (hholds : Holds zero place (r.calls th) ↔ HasLock zero r clients th)
    (hreturns : Returns zero place (r.calls th)) :
    Sound zero token r (Function.update clients th place) := by
  have hmove := h.move hfits hholds hreturns
  rwa [Function.update_eq_self] at hmove

/-- The swap that wins is made while nobody has the lock.  The one that loses leaves another
token behind. -/
theorem Sound.swapIn (h : Sound zero token r clients) (htoken : token th ≠ zero)
    (hplace : clients th = .swappingIn) (hphase : r.calls th = .pending (token th)) :
    Sound zero token ⟨token th, Function.update r.calls th (.answered r.value)⟩
      (Function.update clients th .swappingIn) := by
  have hnot : ¬ HasLock zero r clients th := by
    simp [HasLock, hplace, hphase, Holds]
  refine ⟨⟨?_, ?_, ?_⟩, ?_⟩
  · intro th₁ th₂ h₁ h₂
    rw [hasLock_update] at h₁ h₂
    split at h₁ <;> split at h₂ <;> rename_i h₁th h₂th
    · exact h₁th.trans h₂th.symm
    · exact absurd h₂ (h.exclusive.zero_iff.mp h₁ th₂)
    · exact absurd h₁ (h.exclusive.zero_iff.mp h₂ th₁)
    · exact h.exclusive.unique th₁ th₂ h₁ h₂
  · refine iff_of_false htoken ?_
    intro hnone
    by_cases hzero : r.value = zero
    · apply hnone th
      rw [hasLock_update, if_pos rfl]
      exact hzero
    · apply hzero
      rw [h.exclusive.zero_iff]
      intro th' hlock
      have hother : th' ≠ th := by
        intro heq
        exact hnot (heq ▸ hlock)
      apply hnone th'
      rwa [hasLock_update, if_neg hother]
  · exact forall_update (P := fun _ => Returns zero) trivial h.exclusive.returns
  · exact forall_update (P := fun th => Fits zero (token th)) trivial h.fits

/-- The one that has the lock gives it back, and gets something else than zero. -/
theorem Sound.swapOut (h : Sound zero token r clients) (hplace : clients th = .swappingOut)
    (hphase : r.calls th = .pending zero) :
    Sound zero token ⟨zero, Function.update r.calls th (.answered r.value)⟩
      (Function.update clients th .swappingOut) := by
  have hhas : HasLock zero r clients th := by
    simp [HasLock, hplace, hphase, Holds]
  have hvalue : r.value ≠ zero := by
    intro hzero
    exact h.exclusive.zero_iff.mp hzero th hhas
  refine ⟨⟨?_, ?_, ?_⟩, ?_⟩
  · intro th₁ th₂ h₁ h₂
    rw [hasLock_update] at h₁ h₂
    split at h₁ <;> split at h₂
    · exact h₁.elim
    · exact h₁.elim
    · exact h₂.elim
    · exact h.exclusive.unique th₁ th₂ h₁ h₂
  · refine iff_of_true rfl ?_
    intro th' hlock
    rw [hasLock_update] at hlock
    split at hlock <;> rename_i heq
    · exact hlock
    · exact heq (h.exclusive.unique th' th hlock hhas)
  · exact forall_update (P := fun _ => Returns zero) hvalue h.exclusive.returns
  · exact forall_update (P := fun th => Fits zero (token th)) trivial h.fits

/-- A swap takes effect. -/
theorem Sound.swap (h : Sound zero token r clients) (htoken : ∀ th, token th ≠ zero)
    {newValue : T} (hphase : r.calls th = .pending newValue) :
    Sound zero token ⟨newValue, Function.update r.calls th (.answered r.value)⟩ clients := by
  have hfits := h.fits th
  rw [hphase] at hfits
  cases hplace : clients th with
  | swappingIn =>
    rw [hplace] at hfits
    obtain rfl : newValue = token th := hfits
    have hswapped := h.swapIn (htoken th) hplace hphase
    rwa [← hplace, Function.update_eq_self] at hswapped
  | swappingOut =>
    rw [hplace] at hfits
    obtain rfl : newValue = zero := hfits
    have hswapped := h.swapOut hplace hphase
    rwa [← hplace, Function.update_eq_self] at hswapped
  | outside | comparing | inside | handedBack =>
    rw [hplace] at hfits
    exact hfits.elim

/-- A thread calls swap with what the protocol says. -/
theorem Sound.call (h : Sound zero token r clients) {newValue : T}
    (hwants : (clients th).wants zero (token th) = some newValue) :
    Sound zero token { r with calls := Function.update r.calls th (.pending newValue) }
      (Function.update clients th (clients th).called) := by
  cases hplace : clients th with
  | outside =>
    obtain rfl : token th = newValue := by simpa [hplace, ClientPlace.wants] using hwants
    apply h.move
    · exact rfl
    · simp [HasLock, hplace, Holds, ClientPlace.called]
    · trivial
  | inside =>
    obtain rfl : zero = newValue := by simpa [hplace, ClientPlace.wants] using hwants
    apply h.move
    · exact rfl
    · simp [HasLock, hplace, Holds, ClientPlace.called]
    · trivial
  | swappingIn | comparing | swappingOut | handedBack =>
    simp [hplace, ClientPlace.wants] at hwants

theorem Sound.answer (h : Sound zero token r clients) {oldValue : T}
    (hphase : r.calls th = .answered oldValue) :
    Sound zero token { r with calls := Function.update r.calls th .idle }
      (Function.update clients th ((clients th).answered oldValue)) := by
  have hfits := h.fits th
  have hreturns := h.exclusive.returns th
  rw [hphase] at hfits hreturns
  cases hplace : clients th with
  | swappingIn =>
    apply h.move
    · trivial
    · simp [HasLock, hplace, hphase, Holds, ClientPlace.answered]
    · trivial
  | swappingOut =>
    rw [hplace] at hreturns
    apply h.move
    · trivial
    · simp [HasLock, hplace, hphase, Holds, ClientPlace.answered]
    · exact hreturns
  | outside | comparing | inside | handedBack =>
    rw [hplace] at hfits
    exact hfits.elim

theorem Sound.finish (h : Sound zero token r clients) {oldValue : T}
    (hplace : clients th = .handedBack oldValue) :
    Sound zero token r (Function.update clients th .outside) := by
  have hfits := h.fits th
  rw [hplace] at hfits
  cases hphase : r.calls th with
  | idle =>
    apply h.moveClient
    · rw [hphase]
      trivial
    · simp [HasLock, hplace, Holds]
    · trivial
  | pending | answered =>
    rw [hphase] at hfits
    exact hfits.elim

end Moves

section Runs

variable {zero : T} {token : Th → T} {r : Register Th T} {clients : Th → ClientPlace T}

/-- The thread that got zero enters, and any other one goes back to try again. -/
theorem Sound.compare (h : Sound zero token r clients) {th : Th} {oldValue : T}
    (hplace : clients th = .comparing oldValue) :
    Sound zero token r
      (Function.update clients th (if oldValue = zero then .inside else .outside)) := by
  have hfits := h.fits th
  rw [hplace] at hfits
  cases hphase : r.calls th with
  | idle =>
    apply h.moveClient
    · rw [hphase]
      split
      · trivial
      · trivial
    · split <;> rename_i hzero
      · simp [HasLock, hplace, Holds, hzero]
      · simp [HasLock, hplace, Holds, hzero]
    · split
      · trivial
      · trivial
  | pending | answered =>
    rw [hphase] at hfits
    exact hfits.elim

/-! ## Any implementation -/

/-- Every step of the implementation that has a place in the protocol is one of the atomic
register, as long as the invariant `I` holds. -/
structure Simulates (o : SwapObject Th T S E A) (register : S → Register Th T) (I : S → Prop) :
    Prop where
  step : ∀ s e action t, I s → o.action s e = some action → o.step s e = .ok t →
    I t ∧ (register s).Step action (register t)

variable {o : SwapObject Th T S E A} {register : S → Register Th T} {I : S → Prop}

/-- The step lemma. -/
theorem sound_step (hsim : Simulates o register I) (htoken : ∀ th, token th ≠ zero)
    {s t : Protocol Th T S} {e : Event Th E} (hI : I s.object)
    (h : Sound zero token (register s.object) s.clients)
    (hstep : step o zero token s e = .ok t) :
    I t.object ∧ Sound zero token (register t.object) t.clients := by
  cases e with
  | object e =>
    simp only [step] at hstep
    split at hstep <;> rename_i haction
    · cases hstep
    · simp only [bind_eq_ok, pure_eq_ok] at hstep
      obtain ⟨object, hobject, rfl⟩ := hstep
      obtain ⟨hI', hregister⟩ := hsim.step _ _ _ _ hI haction hobject
      refine ⟨hI', ?_⟩
      show Sound zero token (register object) s.clients
      generalize register object = r' at hregister
      cases hregister with
      | swap hpending => exact h.swap htoken hpending
      | stutter => exact h
    · simp only [bind_eq_ok, enabledIf_eq_ok, pure_eq_ok] at hstep
      obtain ⟨_, hwants, object, hobject, rfl⟩ := hstep
      obtain ⟨hI', hregister⟩ := hsim.step _ _ _ _ hI haction hobject
      refine ⟨hI', ?_⟩
      show Sound zero token (register object) _
      generalize register object = r' at hregister
      cases hregister with
      | call _ => exact h.call hwants
    · simp only [bind_eq_ok, pure_eq_ok] at hstep
      obtain ⟨object, hobject, rfl⟩ := hstep
      obtain ⟨hI', hregister⟩ := hsim.step _ _ _ _ hI haction hobject
      refine ⟨hI', ?_⟩
      show Sound zero token (register object) _
      generalize register object = r' at hregister
      cases hregister with
      | answer hanswered => exact h.answer hanswered
  | compare th =>
    simp only [step] at hstep
    split at hstep <;> rename_i hplace
    · obtain rfl := pure_eq_ok.mp hstep
      exact ⟨hI, h.compare hplace⟩
    · cases hstep
  | finish th =>
    simp only [step] at hstep
    split at hstep <;> rename_i hplace
    · obtain rfl := pure_eq_ok.mp hstep
      exact ⟨hI, h.finish hplace⟩
    · cases hstep

omit [DecidableEq Th] [DecidableEq T] in
/-- In the beginning the register is zero, and no thread has called. -/
theorem sound_initial (hvalue : r.value = zero) (hcalls : ∀ th, r.calls th = .idle) :
    Sound zero token r fun _ => .outside := by
  have hnone (th : Th) : ¬ HasLock zero r (fun _ => .outside) th := by
    simp [HasLock, Holds]
  refine ⟨⟨?_, iff_of_true hvalue hnone, fun _ => trivial⟩, ?_⟩
  · intro th _ hth
    exact absurd hth (hnone th)
  · intro th
    rw [hcalls th]
    trivial

/-- The run lemma. -/
theorem exclusive_run (hsim : Simulates o register I) (htoken : ∀ th, token th ≠ zero)
    {object : S} {t : Protocol Th T S} {events : List (Event Th E)} (hI : I object)
    (hvalue : (register object).value = zero) (hcalls : ∀ th, (register object).calls th = .idle)
    (hrun : run (step o zero token) ⟨object, fun _ => .outside⟩ events = .ok t) :
    I t.object ∧ Exclusive zero (register t.object) t.clients := by
  obtain ⟨hI', hsound⟩ : I t.object ∧ Sound zero token (register t.object) t.clients := by
    refine run_invariant
      (I := fun s => I s.object ∧ Sound zero token (register s.object) s.clients) ?_
      ⟨hI, sound_initial hvalue hcalls⟩ hrun
    intro s e t hs hstep
    exact sound_step hsim htoken hs.1 hs.2 hstep
  exact ⟨hI', hsound.exclusive⟩

end Runs

end SwapLock
