import Mathlib.Data.List.Basic

/-!
# Lists as bags

Work that waits in no particular order is a list from which any element may
be taken: `l.erase a` for some `a ∈ l`.  The lemmas say what taking one element
does to membership and to the counts.
-/

namespace Bag

variable {A : Type} [DecidableEq A] {a b : A} {l : List A}

/-- Taking one element leaves the other ones. -/
theorem mem_erase_or_eq (h : a ∈ l) (b : A) : a ∈ l.erase b ∨ a = b := by
  by_cases hab : a = b
  · exact Or.inr hab
  · exact Or.inl ((List.mem_erase_of_ne hab).mpr h)

/-- An element that is taken counts for one, if it counts. -/
theorem countP_erase_add (p : A → Bool) (h : a ∈ l) :
    (l.erase a).countP p + (if p a then 1 else 0) = l.countP p := by
  rw [(List.perm_cons_erase h).countP_eq p, List.countP_cons]

/-- Taking one of several equal elements. -/
theorem count_erase_add (h : a ∈ l) (b : A) :
    (l.erase a).count b + (if a = b then 1 else 0) = l.count b := by
  have hcount := countP_erase_add (· == b) h
  simpa [List.count, beq_iff_eq] using hcount

theorem length_erase_add (h : a ∈ l) : (l.erase a).length + 1 = l.length := by
  have hlen := List.length_erase_of_mem h
  have hpos := List.length_pos_of_mem h
  omega

end Bag
