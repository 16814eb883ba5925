import Mathlib.Data.List.Induction

/-!
# Logs and what their entries follow from

A machine that keeps a log appends one entry for each thing it does.  Many
temporal properties of a run are then properties of one list, of two shapes:

* `Justified R log`: every entry is related by `R` to the entries before it.
  An entry is judged when it is appended and never again, so
  `justified_concat_iff` is all that a step lemma needs.
* `Since p q log`: some entry meets `p`, and every later one meets `q`.  This
  is the past operator that says what the log currently stands at.

`Since.exists_after` reads a `Since` backwards: an earlier entry that meets
neither `p` nor `q` has a `p` after it.
-/

namespace Log

variable {O : Type}

/-- The last entry of an extended list is the new one or an old one. -/
theorem append_singleton_eq_append_cons {log pre post : List O} {o x : O}
    (h : log ++ [o] = pre ++ x :: post) :
    (pre = log ∧ x = o ∧ post = []) ∨
      ∃ post', post = post' ++ [o] ∧ log = pre ++ x :: post' := by
  rcases List.append_eq_append_iff.mp h with ⟨rest, rfl, hrest⟩ | ⟨rest, rfl, hrest⟩
  · -- the split point is at or after the end of `log`
    cases rest with
    | nil =>
      obtain ⟨rfl, rfl⟩ : o = x ∧ [] = post := by simpa using hrest
      exact Or.inl ⟨by simp, rfl, rfl⟩
    | cons y rest =>
      have hlen := congrArg List.length hrest
      simp only [List.length_append, List.length_cons, List.length_nil] at hlen
      omega
  · cases rest with
    | nil =>
      obtain ⟨rfl, rfl⟩ : x = o ∧ post = [] := by simpa using hrest
      exact Or.inl ⟨by simp, rfl, rfl⟩
    | cons y rest =>
      obtain ⟨rfl, rfl⟩ : x = y ∧ post = rest ++ [o] := by simpa using hrest
      exact Or.inr ⟨rest, rfl, rfl⟩

/-- A log is cut at the last entry that meets `p` in one way only. -/
theorem cut_at_last {p : O → Prop} {pre pre' post post' : List O} {x x' : O}
    (h : pre ++ x :: post = pre' ++ x' :: post') (hx : p x) (hx' : p x')
    (hpost : ∀ y ∈ post, ¬ p y) (hpost' : ∀ y ∈ post', ¬ p y) :
    pre = pre' ∧ x = x' ∧ post = post' := by
  rcases List.append_eq_append_iff.mp h with ⟨rest, rfl, hrest⟩ | ⟨rest, rfl, hrest⟩
  · cases rest with
    | nil =>
      obtain ⟨rfl, rfl⟩ := List.cons.inj hrest
      exact ⟨by simp, rfl, rfl⟩
    | cons y rest =>
      obtain ⟨rfl, rfl⟩ := List.cons.inj hrest
      exact absurd hx' (hpost x' (by simp))
  · cases rest with
    | nil =>
      obtain ⟨rfl, rfl⟩ := List.cons.inj hrest
      exact ⟨by simp, rfl, rfl⟩
    | cons y rest =>
      obtain ⟨rfl, rfl⟩ := List.cons.inj hrest
      exact absurd hx (hpost' x (by simp))

/-! ## Entries that follow from earlier ones -/

/-- Every entry of the log is related by `R` to the entries before it. -/
def Justified (R : List O → O → Prop) (log : List O) : Prop :=
  ∀ pre x post, log = pre ++ x :: post → R pre x

theorem justified_nil (R : List O → O → Prop) : Justified R [] := by
  intro pre x post h
  simp at h

/-- A new entry is judged once, against the log it is appended to. -/
theorem justified_concat_iff {R : List O → O → Prop} {log : List O} {o : O} :
    Justified R (log ++ [o]) ↔ Justified R log ∧ R log o := by
  constructor
  · intro h
    refine ⟨?_, h log o [] rfl⟩
    intro pre x post hlog
    exact h pre x (post ++ [o]) (by rw [hlog, List.append_assoc]; rfl)
  · rintro ⟨hlog, ho⟩ pre x post h
    rcases append_singleton_eq_append_cons h with
      ⟨rfl, rfl, _⟩ | ⟨post', _, hsplit⟩
    · exact ho
    · exact hlog pre x post' hsplit

/-- Entries that need no justification. -/
theorem Justified.append {R : List O → O → Prop} {log rest : List O}
    (h : Justified R log) (hrest : ∀ o ∈ rest, ∀ pre, R pre o) :
    Justified R (log ++ rest) := by
  induction rest using List.reverseRecOn with
  | nil => rwa [List.append_nil]
  | append_singleton rest o ih =>
    rw [← List.append_assoc, justified_concat_iff]
    refine ⟨ih fun o' ho' => hrest o' (List.mem_append_left _ ho'), ?_⟩
    exact hrest o (by simp) _

theorem Justified.of_append {R : List O → O → Prop} {log rest : List O}
    (h : Justified R (log ++ rest)) : Justified R log :=
  fun pre x post hlog => h pre x (post ++ rest) (by simp [hlog])

/-! ## What the log stands at -/

/-- Some entry meets `p`, and every entry after it meets `q`. -/
def Since (p q : O → Prop) (log : List O) : Prop :=
  ∃ pre x post, log = pre ++ x :: post ∧ p x ∧ ∀ y ∈ post, q y

theorem since_concat_iff {p q : O → Prop} {log : List O} {o : O} :
    Since p q (log ++ [o]) ↔ p o ∨ q o ∧ Since p q log := by
  constructor
  · rintro ⟨pre, x, post, h, hx, hpost⟩
    rcases append_singleton_eq_append_cons h with
      ⟨rfl, rfl, rfl⟩ | ⟨post', rfl, hlog⟩
    · exact Or.inl hx
    · refine Or.inr ⟨hpost o (by simp), pre, x, post', hlog, hx, ?_⟩
      intro y hy
      exact hpost y (List.mem_append_left _ hy)
  · rintro (ho | ⟨ho, pre, x, post, rfl, hx, hpost⟩)
    · exact ⟨log, o, [], rfl, ho, by simp⟩
    · refine ⟨pre, x, post ++ [o], by simp, hx, ?_⟩
      intro y hy
      rcases List.mem_append.mp hy with hy | hy
      · exact hpost y hy
      · rw [List.mem_singleton.mp hy]
        exact ho

theorem Since.append {p q : O → Prop} {log rest : List O} (h : Since p q log)
    (hrest : ∀ y ∈ rest, q y) : Since p q (log ++ rest) := by
  obtain ⟨pre, x, post, rfl, hx, hpost⟩ := h
  refine ⟨pre, x, post ++ rest, by simp, hx, ?_⟩
  intro y hy
  rcases List.mem_append.mp hy with hy | hy
  · exact hpost y hy
  · exact hrest y hy

/-- Entries that a `Since` passes over, and that it does not go back to. -/
theorem since_append_iff {p q : O → Prop} {log rest : List O}
    (hrest : ∀ y ∈ rest, ¬ p y ∧ q y) : Since p q (log ++ rest) ↔ Since p q log := by
  induction rest using List.reverseRecOn with
  | nil => rw [List.append_nil]
  | append_singleton rest o ih =>
    obtain ⟨hp, hq⟩ := hrest o (by simp)
    rw [← List.append_assoc, since_concat_iff, ih fun y hy => hrest y (by simp [hy])]
    constructor
    · rintro (ho | ⟨-, h⟩)
      · exact absurd ho hp
      · exact h
    · intro h
      exact Or.inr ⟨hq, h⟩

/-- The entry that a `Since` goes back to comes after every entry that it
does not pass over. -/
theorem Since.exists_after {p q : O → Prop} {pre mid : List O} {y : O}
    (h : Since p q (pre ++ y :: mid)) (hp : ¬ p y) (hq : ¬ q y) :
    ∃ x ∈ mid, p x := by
  induction mid using List.reverseRecOn with
  | nil =>
    rcases since_concat_iff.mp h with hy | ⟨hy, _⟩
    · exact absurd hy hp
    · exact absurd hy hq
  | append_singleton mid o ih =>
    rw [← List.cons_append, ← List.append_assoc] at h
    rcases since_concat_iff.mp h with ho | ⟨_, hmid⟩
    · exact ⟨o, by simp, ho⟩
    · obtain ⟨x, hx, hpx⟩ := ih hmid
      exact ⟨x, List.mem_append_left _ hx, hpx⟩

theorem Since.exists_mem {p q : O → Prop} {log : List O}
    (h : Since p q log) : ∃ x ∈ log, p x := by
  obtain ⟨pre, x, post, rfl, hx, _⟩ := h
  exact ⟨x, by simp, hx⟩

end Log
