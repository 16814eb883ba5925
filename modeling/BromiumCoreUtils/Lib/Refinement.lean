import BromiumCoreUtils.Lib.Machine

/-!
# Refinement

A machine refines another one if each of its steps is a step of the other or changes nothing
there.  The states are compared by a function.  An invariant of the first machine and what is
known of the reachable states of the second one may be used for it.

`embed` is for a machine that is part of a larger one.
-/

namespace Machine

variable {A A' S S' E E' : Type}

/-- Each step of the first machine is one of the second, or none. -/
structure Refines (step : S → E → Exec A S) (step' : S' → E' → Exec A' S') (init' : S')
    (abs : S → S') (I : S → Prop) : Prop where
  step : ∀ s e t, I s → Reachable step' init' (abs s) → step s e = .ok t →
    I t ∧ (abs t = abs s ∨ ∃ e', step' (abs s) e' = .ok (abs t))

variable {step : S → E → Exec A S} {step' : S' → E' → Exec A' S'} {init' : S'} {abs : S → S'}
variable {I : S → Prop}

/-- What a run of the first machine reaches is reached by the second one. -/
theorem Refines.reachable (h : Refines step step' init' abs I) {s t : S} {events : List E}
    (hs : I s) (habs : Reachable step' init' (abs s)) (hrun : run step s events = .ok t) :
    I t ∧ Reachable step' init' (abs t) := by
  refine run_invariant (I := fun t => I t ∧ Reachable step' init' (abs t)) ?_ ⟨hs, habs⟩ hrun
  rintro s e t ⟨hs, habs⟩ hstep
  obtain ⟨ht, hsame | ⟨e', he'⟩⟩ := h.step s e t hs habs hstep
  · rw [hsame]
    exact ⟨ht, habs⟩
  · exact ⟨ht, habs.next he'⟩

/-! ## Parts -/

variable {B : Type}

/-- The assertions of a part are some of those of the whole. -/
def embed (f : A → B) : Exec A S → Exec B S
  | .ok s => .ok s
  | .error .disabled => .error .disabled
  | .error (.failed a) => .error (.failed (f a))

@[simp] theorem embed_eq_ok {f : A → B} {x : Exec A S} {s : S} : embed f x = .ok s ↔ x = .ok s := by
  cases x with
  | ok t => simp [embed]
  | error stop => cases stop <;> simp [embed]

@[simp] theorem embed_eq_failed {f : A → B} {x : Exec A S} {b : B} :
    embed f x = .error (.failed b) ↔ ∃ a, x = .error (.failed a) ∧ f a = b := by
  cases x with
  | ok t => simp [embed]
  | error stop => cases stop <;> simp [embed]

end Machine
