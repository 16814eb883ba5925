import BromiumCoreUtils.Lib.Machine
import Mathlib.Data.List.Nodup
import Mathlib.Logic.Function.Basic

/-!
# Linearizability

Threads call the operations of a shared object, and a call takes several steps, between which
other threads come in.  A history lists the calls and the answers in the order in which they
happened.  It is linearizable if the calls can be put into one order that a sequential object
answers in the same way, and in which no call comes before one that was answered before it
began.

`Atomic` is the atomic object: a call takes effect at one moment between its start and its
answer.  A call that leaves the state as it is may also take effect in the past, in any state
that the object was in since the call began; the answer of a call that gives up after waiting
needs this.  `Simulates` says that an implementation behaves like the atomic object, step by
step, and `Simulates.linearizable` that its histories are then linearizable.
-/

namespace Linearizability

open Machine

variable {Th T O R : Type}

/-! ## Histories -/

/-- What is seen of the object from outside. -/
inductive Action (Th O R : Type) where
  | call (thread : Th) (op : O)
  | answer (thread : Th) (result : R)
deriving DecidableEq, Repr

def Action.thread : Action Th O R → Th
  | .call th _ => th
  | .answer th _ => th

/-- The call at `i` is answered at `j`. -/
structure Answers (h : List (Action Th O R)) (i j : Nat) (th : Th) (r : R) : Prop where
  lt : i < j
  answer : h[j]? = some (.answer th r)
  between : ∀ k a, i < k → k < j → h[k]? = some a → a.thread ≠ th

/-- A call of the history, with the result that it gets in the sequential order. -/
structure Entry (Th O R : Type) where
  position : Nat
  thread : Th
  op : O
  result : R
deriving DecidableEq, Repr

/-- The call is answered before what happens at `i`. -/
def Precedes (h : List (Action Th O R)) (e : Entry Th O R) (i : Nat) : Prop :=
  ∃ j r, Answers h e.position j e.thread r ∧ j < i

/-- The sequential object goes through the operations, each with its result, in this order. -/
inductive Sequential (next : T → O → R → T → Prop) : T → List (Entry Th O R) → T → Prop where
  | nil (s : T) : Sequential next s [] s
  | cons {s m t : T} {e : Entry Th O R} {es : List (Entry Th O R)}
      (hnext : next s e.op e.result m) (hrest : Sequential next m es t) :
      Sequential next s (e :: es) t

/-- The history is linearizable, and `order` is the order of its calls. -/
structure Linearization (next : T → O → R → T → Prop) (init : T) (h : List (Action Th O R))
    (order : List (Entry Th O R)) : Prop where
  /-- The sequential object answers so. -/
  legal : ∃ final, Sequential next init order final
  once : (order.map Entry.position).Nodup
  called : ∀ e ∈ order, h[e.position]? = some (.call e.thread e.op)
  /-- A call that was answered is in the order, with this answer. -/
  complete : ∀ i j th op r, h[i]? = some (.call th op) → Answers h i j th r →
    ⟨i, th, op, r⟩ ∈ order
  realTime : order.Pairwise fun a b => ¬ Precedes h b a.position

/-! ## Histories that grow -/

section Growing

variable {h : List (Action Th O R)} {x : Action Th O R} {i j : Nat} {th : Th} {r : R}

theorem getElem?_concat_cases {a : Action Th O R} (hk : (h ++ [x])[i]? = some a) :
    h[i]? = some a ∨ i = h.length ∧ a = x := by
  by_cases hlt : i < h.length
  · rw [List.getElem?_append_left hlt] at hk
    exact Or.inl hk
  · have hle := Nat.le_of_not_lt hlt
    rw [List.getElem?_append_right hle] at hk
    obtain ⟨hidx, heq⟩ := List.getElem?_eq_some_iff.mp hk
    simp only [List.length_singleton] at hidx
    refine Or.inr ⟨by omega, ?_⟩
    rw [← heq]
    simp

theorem getElem?_concat_left {a : Action Th O R} (hk : h[i]? = some a) :
    (h ++ [x])[i]? = some a := by
  obtain ⟨hlt, _⟩ := List.getElem?_eq_some_iff.mp hk
  rwa [List.getElem?_append_left hlt]

theorem lt_length_of_getElem? {a : Action Th O R} (hk : h[i]? = some a) : i < h.length := by
  obtain ⟨hlt, _⟩ := List.getElem?_eq_some_iff.mp hk
  exact hlt

theorem Answers.lt_length (ha : Answers h i j th r) : j < h.length :=
  lt_length_of_getElem? ha.answer

theorem Answers.concat (ha : Answers h i j th r) : Answers (h ++ [x]) i j th r := by
  refine ⟨ha.lt, getElem?_concat_left ha.answer, ?_⟩
  intro k a hik hkj hk
  rcases getElem?_concat_cases hk with hk | ⟨rfl, _⟩
  · exact ha.between k a hik hkj hk
  · have := ha.lt_length
    omega

/-- An answer that was there, or the one that has just come. -/
theorem Answers.of_concat (ha : Answers (h ++ [x]) i j th r) :
    Answers h i j th r ∨ j = h.length ∧ x = .answer th r := by
  rcases getElem?_concat_cases ha.answer with hj | ⟨rfl, heq⟩
  · refine Or.inl ⟨ha.lt, hj, ?_⟩
    intro k a hik hkj hk
    exact ha.between k a hik hkj (getElem?_concat_left hk)
  · exact Or.inr ⟨rfl, heq.symm⟩

/-- What is answered before a moment is settled at this moment. -/
theorem precedes_concat {e : Entry Th O R} (hi : i ≤ h.length) :
    Precedes (h ++ [x]) e i ↔ Precedes h e i := by
  constructor
  · rintro ⟨j, r, ha, hj⟩
    rcases ha.of_concat with ha | ⟨rfl, _⟩
    · exact ⟨j, r, ha, hj⟩
    · omega
  · rintro ⟨j, r, ha, hj⟩
    exact ⟨j, r, ha.concat, hj⟩

end Growing

/-- The call at `i` is the last thing the thread did. -/
structure Open (h : List (Action Th O R)) (i : Nat) (th : Th) (op : O) : Prop where
  call : h[i]? = some (.call th op)
  last : ∀ k a, i < k → h[k]? = some a → a.thread ≠ th

namespace Open

variable {h : List (Action Th O R)} {x : Action Th O R} {i j : Nat} {th : Th} {op : O} {r : R}

theorem not_answers (ho : Open h i th op) : ¬ Answers h i j th r := by
  intro ha
  exact ho.last j _ ha.lt ha.answer rfl

theorem not_precedes (ho : Open h i th op) : ¬ Precedes h ⟨i, th, op, r⟩ j := by
  rintro ⟨j, r', ha, _⟩
  exact ho.not_answers ha

/-- Another thread does something. -/
theorem concat (ho : Open h i th op) (hne : x.thread ≠ th) : Open (h ++ [x]) i th op := by
  refine ⟨getElem?_concat_left ho.call, ?_⟩
  intro k a hik hk
  rcases getElem?_concat_cases hk with hk | ⟨_, rfl⟩
  · exact ho.last k a hik hk
  · exact hne

theorem now (h : List (Action Th O R)) (th : Th) (op : O) :
    Open (h ++ [.call th op]) h.length th op := by
  refine ⟨by simp, ?_⟩
  intro k a hlt hk
  rcases getElem?_concat_cases hk with hk | ⟨rfl, _⟩
  · have := lt_length_of_getElem? hk
    omega
  · omega

/-- The call that an answer belongs to is the open one. -/
theorem position_eq (ho : Open h i th op) {i' : Nat} {op' : O}
    (hcall : h[i']? = some (.call th op'))
    (ha : Answers (h ++ [.answer th r]) i' h.length th r) : i' = i := by
  have hlt := lt_length_of_getElem? ho.call
  rcases Nat.lt_trichotomy i' i with hlt' | heq | hlt'
  · exact absurd rfl (ha.between i _ hlt' hlt (getElem?_concat_left ho.call))
  · exact heq
  · exact absurd rfl (ho.last i' _ hlt' hcall)

/-- Two threads never have the same call open. -/
theorem ne (ho : Open h i th op) {th' : Th} {op' : O} (ho' : Open h j th' op') (hne : th' ≠ th) :
    j ≠ i := by
  rintro rfl
  have heq := ho.call.symm.trans ho'.call
  injection heq with heq
  injection heq with hth
  exact hne hth.symm

end Open

/-! ## The atomic object -/

/-- Where a thread is with its call. -/
inductive Phase (T O R : Type) where
  | idle
  /-- The call has had no effect yet, and the object was in the states `seen` since it began. -/
  | pending (op : O) (seen : T → Prop)
  /-- It has, and will return the result. -/
  | answered (op : O) (result : R)

/-- The object comes into a state. -/
def Phase.see (t : T) : Phase T O R → Phase T O R
  | .pending op seen => .pending op fun t' => seen t' ∨ t' = t
  | .idle => .idle
  | .answered op result => .answered op result

structure Atomic (Th T O R : Type) where
  state : T
  calls : Th → Phase T O R

def Atomic.init (s : T) : Atomic Th T O R where
  state := s
  calls := fun _ => .idle

/-- One step, with what is seen of it from outside. -/
inductive Atomic.Step [DecidableEq Th] (next : T → O → R → T → Prop) (a : Atomic Th T O R) :
    Option (Action Th O R) → Atomic Th T O R → Prop where
  | call {th : Th} {op : O} (hidle : a.calls th = .idle) :
      Step next a (some (.call th op))
        { a with calls := Function.update a.calls th (.pending op (· = a.state)) }
  | effect {th : Th} {op : O} {seen : T → Prop} {r : R} {t : T}
      (hpending : a.calls th = .pending op seen) (hnext : next a.state op r t) :
      Step next a none
        { state := t
          calls := Function.update (fun th' => (a.calls th').see t) th (.answered op r) }
  /-- A call that leaves the state as it is takes effect in the past. -/
  | observe {th : Th} {op : O} {seen : T → Prop} {r : R} {t : T}
      (hpending : a.calls th = .pending op seen) (hseen : seen t) (hnext : next t op r t) :
      Step next a none { a with calls := Function.update a.calls th (.answered op r) }
  | answer {th : Th} {op : O} {r : R} (hanswered : a.calls th = .answered op r) :
      Step next a (some (.answer th r)) { a with calls := Function.update a.calls th .idle }
  | stutter : Step next a none a

/-! ## The order so far

The calls that took effect are kept with the state that each of them left behind. -/

/-- The state after these calls. -/
def after (s : T) : List (Entry Th O R × T) → T
  | [] => s
  | p :: path => after p.2 path

def Chain (next : T → O → R → T → Prop) : T → List (Entry Th O R × T) → Prop
  | _, [] => True
  | s, p :: path => next s p.1.op p.1.result p.2 ∧ Chain next p.2 path

@[simp] theorem after_append (s : T) (p q : List (Entry Th O R × T)) :
    after s (p ++ q) = after (after s p) q := by
  induction p generalizing s with
  | nil => rfl
  | cons x p ih => exact ih x.2

@[simp] theorem chain_append {next : T → O → R → T → Prop} {s : T}
    {p q : List (Entry Th O R × T)} :
    Chain next s (p ++ q) ↔ Chain next s p ∧ Chain next (after s p) q := by
  induction p generalizing s with
  | nil => simp [Chain, after]
  | cons x p ih => simp [Chain, after, ih, and_assoc]

theorem Chain.sequential {next : T → O → R → T → Prop} {s : T} {path : List (Entry Th O R × T)}
    (h : Chain next s path) : Sequential next s (path.map Prod.fst) (after s path) := by
  induction path generalizing s with
  | nil => exact .nil s
  | cons p path ih => exact .cons h.1 (ih h.2)

/-- How the phase of a thread shows in the history and in the order. -/
def Fits (init : T) (h : List (Action Th O R)) (path : List (Entry Th O R × T)) (th : Th) :
    Phase T O R → Prop
  | .idle => True
  | .pending op seen => ∃ i, Open h i th op ∧ (∀ p ∈ path, p.1.position ≠ i) ∧
      ∀ t, seen t → ∃ front back, path = front ++ back ∧ after init front = t ∧
        ∀ p ∈ back, ¬ Precedes h p.1 i
  | .answered op r => ∃ i t, Open h i th op ∧ ((⟨i, th, op, r⟩, t) : Entry Th O R × T) ∈ path

/-- What the order so far is to the history and to the atomic object. -/
structure Recorded (next : T → O → R → T → Prop) (init : T) (h : List (Action Th O R))
    (path : List (Entry Th O R × T)) (a : Atomic Th T O R) : Prop where
  chain : Chain next init path
  state : after init path = a.state
  once : (path.map fun p => p.1.position).Nodup
  called : ∀ p ∈ path, h[p.1.position]? = some (.call p.1.thread p.1.op)
  complete : ∀ i j th op r, h[i]? = some (.call th op) → Answers h i j th r →
    ∃ t, ((⟨i, th, op, r⟩, t) : Entry Th O R × T) ∈ path
  realTime : path.Pairwise fun p q => ¬ Precedes h q.1 p.1.position
  fits : ∀ th, Fits init h path th (a.calls th)

variable {next : T → O → R → T → Prop} {init t : T} {h : List (Action Th O R)}
variable {x : Action Th O R} {path front back : List (Entry Th O R × T)} {phase : Phase T O R}
variable {a : Atomic Th T O R} {i : Nat} {th : Th} {op : O} {r : R}

/-- Another thread does something. -/
theorem Fits.concat (hf : Fits init h path th phase) (hne : x.thread ≠ th) :
    Fits init (h ++ [x]) path th phase := by
  cases phase with
  | idle => trivial
  | pending op seen =>
    obtain ⟨i, ho, hnot, hseen⟩ := hf
    refine ⟨i, ho.concat hne, hnot, ?_⟩
    intro t ht
    obtain ⟨front, back, hpath, hafter, hback⟩ := hseen t ht
    refine ⟨front, back, hpath, hafter, ?_⟩
    intro p hp
    rw [precedes_concat (Nat.le_of_lt (lt_length_of_getElem? ho.call))]
    exact hback p hp
  | answered op r =>
    obtain ⟨i, t, ho, hmem⟩ := hf
    exact ⟨i, t, ho.concat hne, hmem⟩

/-- Another call is put into the order, with the state that it leaves. -/
theorem Fits.insert {th' : Th} {op' : O} (hf : Fits init h (front ++ back) th phase)
    (ho : Open h i th' op') (hne : th ≠ th') (ht : t = after init front ∨ back = []) :
    Fits init h (front ++ (⟨i, th', op', r⟩, t) :: back) th phase := by
  cases phase with
  | idle => trivial
  | pending op seen =>
    obtain ⟨i', ho', hnot, hseen⟩ := hf
    refine ⟨i', ho', ?_, ?_⟩
    · intro p hp
      simp only [List.mem_append, List.mem_cons] at hp
      rcases hp with hp | rfl | hp
      · exact hnot p (List.mem_append_left _ hp)
      · exact (ho.ne ho' hne).symm
      · exact hnot p (List.mem_append_right _ hp)
    · intro t' ht'
      obtain ⟨front', back', hpath, hafter, hback⟩ := hseen t' ht'
      rcases List.append_eq_append_iff.mp hpath with ⟨as, rfl, rfl⟩ | ⟨bs, rfl, rfl⟩
      · -- the call comes before the split
        rcases ht with ht | ht
        · refine ⟨front ++ (⟨i, th', op', r⟩, t) :: as, back', by simp, ?_, hback⟩
          rw [← hafter, after_append, after_append, ← ht]
          rfl
        · obtain ⟨rfl, rfl⟩ := List.append_eq_nil_iff.mp ht
          refine ⟨front, [(⟨i, th', op', r⟩, t)], rfl, ?_, ?_⟩
          · rw [← hafter, List.append_nil]
          · intro p hp
            rw [List.mem_singleton.mp hp]
            exact ho.not_precedes
      · refine ⟨front', bs ++ (⟨i, th', op', r⟩, t) :: back, by simp, hafter, ?_⟩
        intro p hp
        simp only [List.mem_append, List.mem_cons] at hp
        rcases hp with hp | rfl | hp
        · exact hback p (List.mem_append_left _ hp)
        · exact ho.not_precedes
        · exact hback p (List.mem_append_right _ hp)
  | answered op r =>
    obtain ⟨i', t', ho', hmem⟩ := hf
    refine ⟨i', t', ho', ?_⟩
    rcases List.mem_append.mp hmem with hmem | hmem
    · exact List.mem_append_left _ hmem
    · exact List.mem_append_right _ (List.mem_cons_of_mem _ hmem)

/-- The object is in the state after all the calls. -/
theorem Fits.see (hf : Fits init h path th phase) (ht : after init path = t) :
    Fits init h path th (phase.see t) := by
  cases phase with
  | idle => trivial
  | pending op seen =>
    obtain ⟨i, ho, hnot, hseen⟩ := hf
    refine ⟨i, ho, hnot, ?_⟩
    rintro t' (ht' | rfl)
    · exact hseen t' ht'
    · exact ⟨path, [], by simp, ht, by simp⟩
  | answered op r => exact hf

namespace Recorded

theorem position_lt (hr : Recorded next init h path a) {p : Entry Th O R × T} (hp : p ∈ path) :
    p.1.position < h.length :=
  lt_length_of_getElem? (hr.called p hp)

theorem not_pending_mem (hr : Recorded next init h path a) {seen : T → Prop}
    (hpending : a.calls th = .pending op seen) :
    ∃ i, Open h i th op ∧ (∀ p ∈ path, p.1.position ≠ i) ∧
      ∀ t, seen t → ∃ front back, path = front ++ back ∧ after init front = t ∧
        ∀ p ∈ back, ¬ Precedes h p.1 i := by
  have hfits := hr.fits th
  rw [hpending] at hfits
  exact hfits

/-- The history goes on, and the order stays. -/
theorem concat (hr : Recorded next init h path a) {a' : Atomic Th T O R}
    (hstate : a'.state = a.state)
    (hcomplete : ∀ i th op r, h[i]? = some (.call th op) →
      Answers (h ++ [x]) i h.length th r →
      ∃ t, ((⟨i, th, op, r⟩, t) : Entry Th O R × T) ∈ path)
    (hfits : ∀ th, Fits init (h ++ [x]) path th (a'.calls th)) :
    Recorded next init (h ++ [x]) path a' where
  chain := hr.chain
  state := by rw [hr.state, hstate]
  once := hr.once
  called p hp := getElem?_concat_left (hr.called p hp)
  complete i j th op r hcall ha := by
    have hlt : i < h.length := by
      have hj := ha.lt_length
      have hij := ha.lt
      simp only [List.length_append, List.length_singleton] at hj
      omega
    rw [List.getElem?_append_left hlt] at hcall
    rcases ha.of_concat with ha' | ⟨rfl, _⟩
    · exact hr.complete i j th op r hcall ha'
    · exact hcomplete i th op r hcall ha
  realTime := by
    refine hr.realTime.imp_of_mem ?_
    intro p q hp _ hnot
    rw [precedes_concat (Nat.le_of_lt (hr.position_lt hp))]
    exact hnot
  fits := hfits

/-- A call that has had no effect yet is put into the order. -/
theorem insert [DecidableEq Th] (hr : Recorded next init h (front ++ back) a)
    (ho : Open h i th op) (hnot : ∀ p ∈ front ++ back, p.1.position ≠ i)
    (hback : ∀ p ∈ back, ¬ Precedes h p.1 i) (hnext : next (after init front) op r t)
    (ht : t = after init front ∨ back = []) :
    Recorded next init h (front ++ (⟨i, th, op, r⟩, t) :: back)
      { state := after t back, calls := Function.update a.calls th (.answered op r) } where
  chain := by
    obtain ⟨hfront, hrest⟩ := chain_append.mp hr.chain
    refine chain_append.mpr ⟨hfront, hnext, ?_⟩
    rcases ht with rfl | rfl
    · exact hrest
    · trivial
  state := by simp [after]
  once := by
    have honce := hr.once
    rw [List.map_append] at honce ⊢
    rw [List.map_cons, List.nodup_middle, List.nodup_cons]
    refine ⟨?_, honce⟩
    rw [← List.map_append]
    intro hmem
    obtain ⟨p, hp, heq⟩ := List.mem_map.mp hmem
    exact hnot p hp heq
  called p hp := by
    simp only [List.mem_append, List.mem_cons] at hp
    rcases hp with hp | rfl | hp
    · exact hr.called p (List.mem_append_left _ hp)
    · exact ho.call
    · exact hr.called p (List.mem_append_right _ hp)
  complete i j th op r hcall ha := by
    obtain ⟨t', hmem⟩ := hr.complete i j th op r hcall ha
    refine ⟨t', ?_⟩
    rcases List.mem_append.mp hmem with hmem | hmem
    · exact List.mem_append_left _ hmem
    · exact List.mem_append_right _ (List.mem_cons_of_mem _ hmem)
  realTime := by
    obtain ⟨hfront, hrest, hboth⟩ := List.pairwise_append.mp hr.realTime
    refine List.pairwise_append.mpr ⟨hfront, List.pairwise_cons.mpr ⟨hback, hrest⟩, ?_⟩
    intro p hp q hq
    rcases List.mem_cons.mp hq with rfl | hq
    · exact ho.not_precedes
    · exact hboth p hp q hq
  fits th' := by
    show Fits init h _ th' (Function.update a.calls th (.answered op r) th')
    by_cases hth : th' = th
    · subst hth
      rw [Function.update_self]
      exact ⟨i, t, ho, by simp⟩
    · rw [Function.update_of_ne hth]
      exact (hr.fits th').insert ho hth ht

/-- The state is seen by the calls that have had no effect yet. -/
theorem see (hr : Recorded next init h path a) :
    Recorded next init h path { a with calls := fun th => (a.calls th).see a.state } where
  chain := hr.chain
  state := hr.state
  once := hr.once
  called := hr.called
  complete := hr.complete
  realTime := hr.realTime
  fits th := (hr.fits th).see hr.state

variable [DecidableEq Th]

theorem call (hr : Recorded next init h path a) :
    Recorded next init (h ++ [.call th op]) path
      { a with calls := Function.update a.calls th (.pending op (· = a.state)) } := by
  refine hr.concat rfl ?_ ?_
  · intro i th' op' r _ ha
    have hanswer := ha.answer
    simp at hanswer
  · intro th'
    show Fits init _ path th' (Function.update a.calls th _ th')
    by_cases hth : th' = th
    · subst hth
      rw [Function.update_self]
      refine ⟨h.length, .now h _ op, ?_, ?_⟩
      · intro p hp
        have := hr.position_lt hp
        omega
      · rintro t rfl
        exact ⟨path, [], by simp, hr.state, by simp⟩
    · rw [Function.update_of_ne hth]
      exact (hr.fits th').concat (Ne.symm hth)

theorem answer (hr : Recorded next init h path a) (hanswered : a.calls th = .answered op r) :
    Recorded next init (h ++ [.answer th r]) path
      { a with calls := Function.update a.calls th .idle } := by
  have hfits := hr.fits th
  rw [hanswered] at hfits
  obtain ⟨i, t, ho, hmem⟩ := hfits
  refine hr.concat rfl ?_ ?_
  · intro i' th' op' r' hcall ha
    -- the answer is that of the call at `i`
    have hanswer := ha.answer
    simp only [List.getElem?_concat_length, Option.some.injEq, Action.answer.injEq] at hanswer
    obtain ⟨rfl, rfl⟩ := hanswer
    obtain rfl := ho.position_eq hcall ha
    have hop := hcall.symm.trans ho.call
    injection hop with hop
    injection hop with _ hop
    rw [hop]
    exact ⟨t, hmem⟩
  · intro th'
    show Fits init _ path th' (Function.update a.calls th .idle th')
    by_cases hth : th' = th
    · subst hth
      rw [Function.update_self]
      trivial
    · rw [Function.update_of_ne hth]
      exact (hr.fits th').concat (Ne.symm hth)

theorem effect (hr : Recorded next init h path a) {seen : T → Prop}
    (hpending : a.calls th = .pending op seen) (hnext : next a.state op r t) :
    ∃ path', Recorded next init h path'
      { state := t
        calls := Function.update (fun th' => (a.calls th').see t) th (.answered op r) } := by
  obtain ⟨i, ho, hnot, _⟩ := hr.not_pending_mem hpending
  rw [← hr.state] at hnext
  rw [← List.append_nil path] at hr hnot
  have hinsert : Recorded next init h (path ++ [(⟨i, th, op, r⟩, t)]) _ :=
    hr.insert ho hnot (by simp) hnext (Or.inr rfl)
  have hsee := hinsert.see
  have hcalls : (fun th' => (Function.update a.calls th (.answered op r) th').see t) =
      Function.update (fun th' => (a.calls th').see t) th (.answered op r) := by
    funext th'
    by_cases hth : th' = th
    · simp [hth, Phase.see]
    · simp [hth]
  rw [← hcalls]
  exact ⟨_, hsee⟩

theorem observe (hr : Recorded next init h path a) {seen : T → Prop}
    (hpending : a.calls th = .pending op seen) (hseen : seen t) (hnext : next t op r t) :
    ∃ path', Recorded next init h path'
      { a with calls := Function.update a.calls th (.answered op r) } := by
  obtain ⟨i, ho, hnot, hmoments⟩ := hr.not_pending_mem hpending
  obtain ⟨front, back, rfl, rfl, hback⟩ := hmoments t hseen
  have hstate := hr.state
  rw [after_append] at hstate
  have hinsert := hr.insert ho hnot hback hnext (Or.inl rfl)
  rw [hstate] at hinsert
  exact ⟨_, hinsert⟩

/-- Every step of the atomic object can be recorded. -/
theorem step (hr : Recorded next init h path a) {action : Option (Action Th O R)}
    {a' : Atomic Th T O R} (hstep : a.Step next action a') :
    ∃ path', Recorded next init (h ++ action.toList) path' a' := by
  cases hstep with
  | call _ => exact ⟨path, hr.call⟩
  | effect hpending hnext =>
    rw [Option.toList_none, List.append_nil]
    exact hr.effect hpending hnext
  | observe hpending hseen hnext =>
    rw [Option.toList_none, List.append_nil]
    exact hr.observe hpending hseen hnext
  | answer hanswered => exact ⟨path, hr.answer hanswered⟩
  | stutter =>
    rw [Option.toList_none, List.append_nil]
    exact ⟨path, hr⟩

omit [DecidableEq Th] in
theorem linearization (hr : Recorded next init h path a) :
    Linearization next init h (path.map Prod.fst) where
  legal := ⟨_, hr.chain.sequential⟩
  once := by
    rw [List.map_map]
    exact hr.once
  called e he := by
    obtain ⟨p, hp, rfl⟩ := List.mem_map.mp he
    exact hr.called p hp
  complete i j th op r hcall ha := by
    obtain ⟨t, hmem⟩ := hr.complete i j th op r hcall ha
    exact List.mem_map.mpr ⟨_, hmem, rfl⟩
  realTime := List.pairwise_map.mpr hr.realTime

end Recorded

theorem recorded_init (next : T → O → R → T → Prop) (s : T) :
    Recorded next s ([] : List (Action Th O R)) [] (.init s) where
  chain := trivial
  state := rfl
  once := List.nodup_nil
  called _ hp := by simp at hp
  complete _ _ _ _ _ hcall := by simp at hcall
  realTime := .nil
  fits _ := trivial

/-! ## Implementations -/

variable {S E A : Type} [DecidableEq Th]

/-- Every step of the machine is one of the atomic object. -/
structure Simulates (step : S → E → Exec A S) (action : S → E → Option (Action Th O R))
    (next : T → O → R → T → Prop) (rel : S → Atomic Th T O R → Prop) : Prop where
  step : ∀ s a e s', rel s a → step s e = .ok s' →
    ∃ a', a.Step next (action s e) a' ∧ rel s' a'

/-- What the threads see of a run. -/
def history (step : S → E → Exec A S) (action : S → E → Option (Action Th O R)) (s : S)
    (events : List E) : List (Action Th O R) :=
  emitted step (fun s e => (action s e).toList) s events

theorem Simulates.recorded {step : S → E → Exec A S} {action : S → E → Option (Action Th O R)}
    {rel : S → Atomic Th T O R → Prop} (hsim : Simulates step action next rel) {s s' : S}
    (hrel : rel s a) (hr : Recorded next init h path a) {events : List E}
    (hrun : run step s events = .ok s') :
    ∃ path' a', rel s' a' ∧
      Recorded next init (h ++ history step action s events) path' a' := by
  induction events generalizing s h path a with
  | nil =>
    obtain rfl : s = s' := by simpa using hrun
    refine ⟨path, a, hrel, ?_⟩
    simpa [history, emitted] using hr
  | cons e events ih =>
    obtain ⟨m, hm, hrest⟩ := run_cons_eq_ok.mp hrun
    obtain ⟨a', hstep, hrel'⟩ := hsim.step s a e m hrel hm
    obtain ⟨path', hr'⟩ := hr.step hstep
    obtain ⟨path'', a'', hrel'', hr''⟩ := ih hrel' hr' hrest
    refine ⟨path'', a'', hrel'', ?_⟩
    simpa [history, emitted, hm] using hr''

/-- The histories of an implementation that simulates the atomic object are linearizable. -/
theorem Simulates.linearizable {step : S → E → Exec A S}
    {action : S → E → Option (Action Th O R)} {rel : S → Atomic Th T O R → Prop}
    (hsim : Simulates step action next rel) {s s' : S} (hrel : rel s (.init init))
    {events : List E} (hrun : run step s events = .ok s') :
    ∃ order, Linearization next init (history step action s events) order := by
  obtain ⟨path, a, _, hr⟩ := hsim.recorded hrel (recorded_init next init) hrun
  exact ⟨_, hr.linearization⟩

end Linearizability
