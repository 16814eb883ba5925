import Mathlib.Data.List.Basic
import Mathlib.Data.List.Induction

/-!
# Machines that step on events

A program whose blocks run on several queues is modelled as a machine: a
state and a step function that takes an event.  An event names the block
that runs next and carries whatever the outside answers to it, so one list
of events is one interleaving and the step function is deterministic.

A step has three outcomes.  It yields a state, the event cannot happen in
this state, or an assertion of the program fails and ends the run.  `Exec`
is the type of these outcomes, and the functions of a program are written in
it as well.

The module is independent of any program.  It gives

* `run`, the execution of a list of events, with its equations for the empty
  list, for `::` and for `++`;
* `run_invariant` and `run_invariant_of_allSteps`, the two rules that turn a
  step lemma into a run lemma, the second one for runs whose steps all meet
  a condition;
* `allSteps_iff_of_invariant`, the rule that exchanges such a condition for
  another one, and `allSteps_or_invariant`, the rule for a condition whose first
  breach cannot be undone;
* `Throughout`, what holds in every state of a run, and
  `throughout_iff_allSteps`, the rule for the exact condition on the steps;
* `eventsWithout`, a run with some of its steps left out, and `run_eventsWithout`, the
  rule that compares it with the whole run;
* `emitted`, what the steps of a run put out, and `run_follows`, the rule for a machine that
  does what a sequential specification makes of its outputs;
* `Visited`, a moment of the past of a run, and `run_history`, the rule for
  invariants that speak of the events so far.
-/

namespace Machine

variable {S T E A : Type}

/-- Why there is no next state: the event cannot happen here, or an
assertion of the program fails. -/
inductive Stop (A : Type) where
  | disabled
  | failed (assertion : A)
deriving DecidableEq, Repr

/-- The outcome of a computation of the program. -/
abbrev Exec (A : Type) := Except (Stop A)

/-- An assertion of the program. -/
def assertThat (condition : Prop) [Decidable condition] (assertion : A) :
    Exec A Unit :=
  if condition then .ok () else .error (.failed assertion)

/-- The guard of an event: without it the event cannot happen. -/
def enabledIf (condition : Prop) [Decidable condition] : Exec A Unit :=
  if condition then .ok () else .error .disabled

/-! ## Outcomes -/

@[simp] theorem bind_eq_ok {x : Exec A S} {f : S → Exec A T} {t : T} :
    (x >>= f) = .ok t ↔ ∃ s, x = .ok s ∧ f s = .ok t := by
  cases x with
  | error stop => simp [bind, Except.bind]
  | ok s => simp [bind, Except.bind]

@[simp] theorem bind_eq_failed {x : Exec A S} {f : S → Exec A T} {a : A} :
    (x >>= f) = .error (.failed a) ↔
      x = .error (.failed a) ∨ ∃ s, x = .ok s ∧ f s = .error (.failed a) := by
  cases x with
  | error stop => simp [bind, Except.bind]
  | ok s => simp [bind, Except.bind]

@[simp] theorem map_eq_ok {x : Exec A S} {f : S → T} {t : T} :
    f <$> x = .ok t ↔ ∃ s, x = .ok s ∧ f s = t := by
  cases x with
  | error stop => simp [Functor.map, Except.map]
  | ok s => simp [Functor.map, Except.map]

@[simp] theorem map_eq_failed {x : Exec A S} {f : S → T} {a : A} :
    f <$> x = .error (.failed a) ↔ x = .error (.failed a) := by
  cases x with
  | error stop => simp [Functor.map, Except.map]
  | ok s => simp [Functor.map, Except.map]

@[simp] theorem pure_eq_ok {s t : S} :
    (pure s : Exec A S) = .ok t ↔ s = t := by
  simp [pure, Except.pure]

@[simp] theorem pure_ne_failed {s : S} {a : A} :
    (pure s : Exec A S) ≠ .error (.failed a) := by
  simp [pure, Except.pure]

@[simp] theorem assertThat_eq_ok {condition : Prop} [Decidable condition]
    {a : A} {u : Unit} : assertThat condition a = .ok u ↔ condition := by
  unfold assertThat
  split <;> simp_all

@[simp] theorem assertThat_eq_failed {condition : Prop} [Decidable condition]
    {a b : A} :
    assertThat condition a = .error (.failed b) ↔ ¬ condition ∧ a = b := by
  unfold assertThat
  split <;> simp_all

@[simp] theorem enabledIf_eq_ok {condition : Prop} [Decidable condition]
    {u : Unit} : (enabledIf condition : Exec A Unit) = .ok u ↔ condition := by
  unfold enabledIf
  split <;> simp_all

@[simp] theorem enabledIf_ne_failed {condition : Prop} [Decidable condition]
    {a : A} : (enabledIf condition : Exec A Unit) ≠ .error (.failed a) := by
  unfold enabledIf
  split <;> simp

/-! ## Runs -/

/-- The execution of a list of events, the first one first. -/
def run (step : S → E → Exec A S) (s : S) (events : List E) : Exec A S :=
  events.foldlM step s

/-- `t` comes after `s` in some run. -/
def Reachable (step : S → E → Exec A S) (s t : S) : Prop :=
  ∃ events, run step s events = .ok t

section Runs

variable {step : S → E → Exec A S}

@[simp] theorem run_nil (s : S) : run step s [] = .ok s := rfl

theorem run_cons (s : S) (e : E) (es : List E) :
    run step s (e :: es) = step s e >>= fun t => run step t es := by
  rw [run, List.foldlM_cons]
  rfl

theorem run_cons_eq_ok {s t : S} {e : E} {es : List E} :
    run step s (e :: es) = .ok t ↔
      ∃ m, step s e = .ok m ∧ run step m es = .ok t := by
  rw [run_cons, bind_eq_ok]

theorem run_append_eq_ok {s t : S} {es fs : List E} :
    run step s (es ++ fs) = .ok t ↔
      ∃ m, run step s es = .ok m ∧ run step m fs = .ok t := by
  rw [run, List.foldlM_append, bind_eq_ok]
  rfl

theorem Reachable.refl (s : S) : Reachable step s s := ⟨[], rfl⟩

theorem Reachable.trans {s m t : S} (h : Reachable step s m)
    (h' : Reachable step m t) : Reachable step s t := by
  obtain ⟨es, hes⟩ := h
  obtain ⟨fs, hfs⟩ := h'
  exact ⟨es ++ fs, run_append_eq_ok.mpr ⟨m, hes, hfs⟩⟩

theorem Reachable.next {s m t : S} {e : E} (h : Reachable step s m)
    (hstep : step m e = .ok t) : Reachable step s t :=
  h.trans ⟨[e], run_cons_eq_ok.mpr ⟨t, hstep, rfl⟩⟩

/-- What every step keeps, a run keeps. -/
theorem run_invariant {I : S → Prop}
    (hstep : ∀ s e t, I s → step s e = .ok t → I t) {s t : S} {es : List E}
    (hs : I s) (hrun : run step s es = .ok t) : I t := by
  induction es generalizing s with
  | nil =>
    obtain rfl : s = t := by simpa using hrun
    exact hs
  | cons e es ih =>
    obtain ⟨m, hm, hrest⟩ := run_cons_eq_ok.mp hrun
    exact ih (hstep s e m hs hm) hrest

/-- What holds first and is kept by every step of a reachable state holds in
every reachable state. -/
theorem Reachable.invariant {I : S → Prop} {s t : S}
    (h : Reachable step s t) (hs : I s)
    (hstep : ∀ m e n, Reachable step s m → I m → step m e = .ok n → I n) : I t := by
  obtain ⟨es, hrun⟩ := h
  have hboth : Reachable step s t ∧ I t := by
    refine run_invariant (I := fun m => Reachable step s m ∧ I m) ?_ ⟨.refl s, hs⟩ hrun
    intro m e n hm hmn
    exact ⟨hm.1.next hmn, hstep m e n hm.1 hm.2 hmn⟩
  exact hboth.2

/-- The run takes every step in a state and with an event that `P` admits.
The last step may fail. -/
def AllSteps (step : S → E → Exec A S) (P : S → E → Prop) : S → List E → Prop
  | _, [] => True
  | s, e :: es => P s e ∧ ∀ t, step s e = .ok t → AllSteps step P t es

theorem AllSteps.cons {P : S → E → Prop} {s t : S} {e : E} {es : List E} (hP : P s e)
    (hstep : step s e = .ok t) (h : AllSteps step P t es) : AllSteps step P s (e :: es) := by
  refine ⟨hP, ?_⟩
  intro t' ht'
  rw [hstep] at ht'
  injection ht' with heq
  rw [← heq]
  exact h

theorem allSteps_cons_iff {P : S → E → Prop} {s t : S} {e : E} {es : List E}
    (hstep : step s e = .ok t) :
    AllSteps step P s (e :: es) ↔ P s e ∧ AllSteps step P t es := by
  constructor
  · intro h
    exact ⟨h.1, h.2 t hstep⟩
  · intro h
    exact .cons h.1 hstep h.2

theorem AllSteps.mono {P Q : S → E → Prop} {s : S} {es : List E} (h : AllSteps step P s es)
    (hPQ : ∀ s e, P s e → Q s e) : AllSteps step Q s es := by
  induction es generalizing s with
  | nil => trivial
  | cons e es ih => exact ⟨hPQ s e h.1, fun t ht => ih (h.2 t ht)⟩

/-- A condition that can be decided for each step can be decided for a run. -/
instance decidableAllSteps {P : S → E → Prop} [∀ s e, Decidable (P s e)] (s : S) (es : List E) :
    Decidable (AllSteps step P s es) :=
  match es with
  | [] => .isTrue trivial
  | e :: es =>
    match hstep : step s e with
    | .ok t =>
      have := decidableAllSteps (P := P) t es
      decidable_of_iff (P s e ∧ AllSteps step P t es) (allSteps_cons_iff hstep).symm
    | .error _ => decidable_of_iff (P s e) (by simp [AllSteps, hstep])

/-- A condition on the events alone. -/
theorem allSteps_of_forall {P : E → Prop} {es : List E} (h : ∀ e ∈ es, P e) (s : S) :
    AllSteps step (fun _ e => P e) s es := by
  induction es generalizing s with
  | nil => trivial
  | cons e es ih =>
    refine ⟨h e (by simp), ?_⟩
    intro t _
    exact ih (fun e' he' => h e' (by simp [he'])) t

/-- A run that does not fail has met a condition on the events alone. -/
theorem AllSteps.forall_mem {P : E → Prop} {s t : S} {es : List E}
    (h : AllSteps step (fun _ e => P e) s es) (hrun : run step s es = .ok t) : ∀ e ∈ es, P e := by
  induction es generalizing s with
  | nil => simp
  | cons e es ih =>
    obtain ⟨m, hm, hrest⟩ := run_cons_eq_ok.mp hrun
    intro e' he'
    rcases List.mem_cons.mp he' with rfl | he'
    · exact h.1
    · exact ih (h.2 m hm) hrest e' he'

/-- Two conditions that agree under an invariant admit the same runs. -/
theorem allSteps_iff_of_invariant {P Q : S → E → Prop} {I : S → Prop}
    (hiff : ∀ s e, I s → (P s e ↔ Q s e))
    (hstep : ∀ s e t, P s e → I s → step s e = .ok t → I t)
    {s : S} {es : List E} (hs : I s) : AllSteps step P s es ↔ AllSteps step Q s es := by
  induction es generalizing s with
  | nil => exact Iff.rfl
  | cons e es ih =>
    constructor
    · rintro ⟨hP, hrest⟩
      refine ⟨(hiff s e hs).mp hP, ?_⟩
      intro t ht
      exact (ih (hstep s e t hP hs ht)).mp (hrest t ht)
    · rintro ⟨hQ, hrest⟩
      have hP := (hiff s e hs).mpr hQ
      refine ⟨hP, ?_⟩
      intro t ht
      exact (ih (hstep s e t hP hs ht)).mpr (hrest t ht)

/-- What every admitted step keeps, a run of admitted steps keeps. -/
theorem run_invariant_of_allSteps {P : S → E → Prop} {I : S → Prop}
    (hstep : ∀ s e t, P s e → I s → step s e = .ok t → I t)
    {s t : S} {es : List E} (hs : I s) (hP : AllSteps step P s es)
    (hrun : run step s es = .ok t) : I t := by
  induction es generalizing s with
  | nil =>
    obtain rfl : s = t := by simpa using hrun
    exact hs
  | cons e es ih =>
    obtain ⟨m, hm, hrest⟩ := run_cons_eq_ok.mp hrun
    obtain ⟨hPe, hPes⟩ := hP
    exact ih (hstep s e m hPe hs hm) (hPes m hm) hrest

/-- When every step that `P` does not admit leads to `I`, and `I` stays, a run takes
admitted steps only or ends in `I`.  Both may use an invariant `J`. -/
theorem allSteps_or_invariant {P : S → E → Prop} {I J : S → Prop}
    (hkeep : ∀ s e t, J s → step s e = .ok t → J t)
    (hbreak : ∀ s e t, J s → ¬ P s e → step s e = .ok t → I t)
    (hstep : ∀ s e t, I s → step s e = .ok t → I t)
    {s t : S} {es : List E} (hs : J s) (hrun : run step s es = .ok t) :
    AllSteps step P s es ∨ I t := by
  induction es generalizing s with
  | nil => exact Or.inl trivial
  | cons e es ih =>
    obtain ⟨m, hm, hrest⟩ := run_cons_eq_ok.mp hrun
    by_cases hP : P s e
    · exact (ih (hkeep s e m hs hm) hrest).imp_left (AllSteps.cons hP hm)
    · exact Or.inr (run_invariant hstep (hbreak s e m hs hP hm) hrest)

/-- When every state that has not come to `goal` can take an admitted step, after which there
is less left, a run of admitted steps comes to it. -/
theorem exists_run_to {P : S → E → Prop} {I : Nat → S → Prop} {goal : S → Prop}
    (hprogress : ∀ left s, I left s → ¬ goal s →
      ∃ e t left', P s e ∧ step s e = .ok t ∧ left' < left ∧ I left' t)
    {left : Nat} {s : S} (hs : I left s) :
    ∃ es t, AllSteps step P s es ∧ run step s es = .ok t ∧ goal t := by
  induction left using Nat.strongRecOn generalizing s with
  | ind left ih =>
    by_cases hgoal : goal s
    · exact ⟨[], s, trivial, rfl, hgoal⟩
    · obtain ⟨e, t, left', hP, hstep, hlt, ht⟩ := hprogress left s hs hgoal
      obtain ⟨es, u, hPs, hrun, hu⟩ := ih left' hlt ht
      exact ⟨e :: es, u, .cons hP hstep hPs, run_cons_eq_ok.mpr ⟨t, hstep, hrun⟩, hu⟩

/-! ## What holds all along -/

/-- Every state of the run, the first one included, meets `I`. -/
def Throughout (step : S → E → Exec A S) (I : S → Prop) (s : S) (events : List E) : Prop :=
  ∀ pre post m, events = pre ++ post → run step s pre = .ok m → I m

theorem Throughout.head {I : S → Prop} {s : S} {es : List E} (h : Throughout step I s es) :
    I s :=
  h [] es s rfl rfl

theorem Throughout.tail {I : S → Prop} {s m : S} {e : E} {es : List E}
    (h : Throughout step I s (e :: es)) (hstep : step s e = .ok m) :
    Throughout step I m es := by
  intro pre post n hes hrun
  refine h (e :: pre) post n ?_ (run_cons_eq_ok.mpr ⟨m, hstep, hrun⟩)
  rw [hes]
  rfl

/-- When an admitted step keeps `I`, and a step that keeps `I` is admitted, a run stays
in `I` if and only if its steps are admitted.  Both may use an invariant `J`. -/
theorem throughout_iff_allSteps {P : S → E → Prop} {I J : S → Prop}
    (hkeep : ∀ s e t, J s → step s e = .ok t → J t)
    (hadmitted : ∀ s e t, J s → I s → P s e → step s e = .ok t → I t)
    (hback : ∀ s e t, J s → I s → step s e = .ok t → I t → P s e)
    {s t : S} {es : List E} (hJ : J s) (hI : I s) (hrun : run step s es = .ok t) :
    Throughout step I s es ↔ AllSteps step P s es := by
  induction es generalizing s with
  | nil =>
    refine ⟨fun _ => trivial, ?_⟩
    rintro - pre post m hes hm
    obtain ⟨rfl, rfl⟩ := List.nil_eq_append_iff.mp hes
    obtain rfl : s = m := by simpa using hm
    exact hI
  | cons e es ih =>
    obtain ⟨m, hm, hrest⟩ := run_cons_eq_ok.mp hrun
    have hJm := hkeep s e m hJ hm
    constructor
    · intro h
      have hIm := (h.tail hm).head
      exact .cons (hback s e m hJ hI hm hIm) hm ((ih hJm hIm hrest).mp (h.tail hm))
    · rintro ⟨hP, hPs⟩ pre post n hes hn
      have hIm := hadmitted s e m hJ hI hP hm
      cases pre with
      | nil =>
        obtain rfl : s = n := by simpa using hn
        exact hI
      | cons e' pre =>
        obtain ⟨rfl, rfl⟩ := List.cons.inj hes
        obtain ⟨m', hm', hn⟩ := run_cons_eq_ok.mp hn
        rw [hm] at hm'
        injection hm' with heq
        rw [← heq] at hn
        exact (ih hJm hIm hrest).mpr (hPs m hm) pre post n rfl hn

/-! ## Two runs -/

/-- The events of a run without those that `skip` says. -/
def eventsWithout (step : S → E → Exec A S) (skip : S → E → Bool) : S → List E → List E
  | _, [] => []
  | s, e :: es =>
    match step s e with
    | .ok t =>
      if skip s e then eventsWithout step skip t es else e :: eventsWithout step skip t es
    | .error _ => e :: es

/-- When a skipped step keeps `R`, and any other step can be made on both sides, the run
without the skipped steps ends in a state that is related by `R`. -/
theorem run_eventsWithout {skip : S → E → Bool} {P : S → E → Prop} {R : S → S → Prop}
    (hskip : ∀ s s' e t, R s s' → skip s e = true → P s e → step s e = .ok t → R t s')
    (hstep : ∀ s s' e t, R s s' → step s e = .ok t → ∃ t', step s' e = .ok t' ∧ R t t')
    {s s' t : S} {es : List E} (hR : R s s') (hP : AllSteps step P s es)
    (hrun : run step s es = .ok t) :
    ∃ t', run step s' (eventsWithout step skip s es) = .ok t' ∧ R t t' := by
  induction es generalizing s s' with
  | nil =>
    obtain rfl : s = t := by simpa using hrun
    exact ⟨s', rfl, hR⟩
  | cons e es ih =>
    obtain ⟨m, hm, hrest⟩ := run_cons_eq_ok.mp hrun
    obtain ⟨hPe, hPes⟩ := hP
    simp only [eventsWithout, hm]
    split
    · rename_i hskipped
      exact ih (hskip s s' e m hR hskipped hPe hm) (hPes m hm) hrest
    · obtain ⟨m', hm', hR'⟩ := hstep s s' e m hR hm
      obtain ⟨t', ht', hRt⟩ := ih hR' (hPes m hm) hrest
      exact ⟨t', run_cons_eq_ok.mpr ⟨m', hm', ht'⟩, hRt⟩

/-! ## What a run emits -/

variable {O : Type}

/-- The outputs of a run, if the step from `s` with `e` emits `out s e`. -/
def emitted (step : S → E → Exec A S) (out : S → E → List O) : S → List E → List O
  | _, [] => []
  | s, e :: es =>
    match step s e with
    | .ok t => out s e ++ emitted step out t es
    | .error _ => []

/-- A run follows a sequential specification that takes its outputs in, if every step does. -/
theorem run_follows {out : S → E → List O} {next : T → O → T} {P : S → E → Prop}
    {R : S → T → Prop}
    (hstep : ∀ s a e t, P s e → R s a → step s e = .ok t → R t ((out s e).foldl next a))
    {s t : S} {a : T} {es : List E} (hR : R s a) (hP : AllSteps step P s es)
    (hrun : run step s es = .ok t) : R t ((emitted step out s es).foldl next a) := by
  induction es generalizing s a with
  | nil =>
    obtain rfl : s = t := by simpa using hrun
    exact hR
  | cons e es ih =>
    obtain ⟨m, hm, hrest⟩ := run_cons_eq_ok.mp hrun
    obtain ⟨hPe, hPes⟩ := hP
    simp only [emitted, hm, List.foldl_append]
    exact ih (hstep s a e m hPe hR hm) (hPes m hm) hrest

/-! ## Moments of the past -/

/-- The run was in a state that meets `P`, and every event since then meets
`q`. -/
def Visited (step : S → E → Exec A S) (s : S) (P : S → Prop) (q : E → Prop)
    (events : List E) : Prop :=
  ∃ pre post m, events = pre ++ post ∧ run step s pre = .ok m ∧ P m ∧ ∀ e ∈ post, q e

theorem Visited.now {P : S → Prop} {q : E → Prop} {s m : S} {es : List E} {e : E}
    (hrun : run step s es = .ok m) (hP : P m) (he : q e) :
    Visited step s P q (es ++ [e]) :=
  ⟨es, [e], m, rfl, hrun, hP, fun e' he' => by rwa [List.mem_singleton.mp he']⟩

theorem Visited.later {P : S → Prop} {q : E → Prop} {s : S} {es : List E} {e : E}
    (h : Visited step s P q es) (he : q e) : Visited step s P q (es ++ [e]) := by
  obtain ⟨pre, post, m, rfl, hrun, hP, hpost⟩ := h
  refine ⟨pre, post ++ [e], m, by simp, hrun, hP, ?_⟩
  intro e' he'
  rcases List.mem_append.mp he' with he' | he'
  · exact hpost e' he'
  · rwa [List.mem_singleton.mp he']

/-- What holds of no events and is kept by one more event holds of every
run. -/
theorem run_history {I : List E → S → Prop} {s t : S} {es : List E} (hs : I [] s)
    (hstep : ∀ es m e n, run step s es = .ok m → I es m → step m e = .ok n → I (es ++ [e]) n)
    (hrun : run step s es = .ok t) : I es t := by
  induction es using List.reverseRecOn generalizing t with
  | nil =>
    obtain rfl : s = t := by simpa using hrun
    exact hs
  | append_singleton es e ih =>
    obtain ⟨m, hm, hlast⟩ := run_append_eq_ok.mp hrun
    obtain ⟨n, hn, hnil⟩ := run_cons_eq_ok.mp hlast
    obtain rfl : n = t := by simpa using hnil
    exact hstep es m e n hm (ih hm) hn

end Runs

end Machine
