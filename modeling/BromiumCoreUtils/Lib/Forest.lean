import Mathlib.Logic.Relation
import Mathlib.Data.List.Basic
import Mathlib.Data.List.Perm.Subperm

/-!
# Forests of parent pointers

Every node has one parent or none.  `Above` is the order of the nodes on a chain of parents, and
`Acyclic` says that every chain ends.

`chain` walks up from a node and takes no more steps than it is given.  `mem_chain_iff` says that
one step more than there are nodes is enough to find everything above.  `Acyclic.change` is the
rule for a node that is given another parent.
-/

namespace Forest

variable {A : Type}

/-- `b` is the parent of `a`. -/
def IsParent (parent : A → Option A) (a b : A) : Prop :=
  parent a = some b

/-- `b` is `a`, or lies on its chain of parents. -/
def Above (parent : A → Option A) : A → A → Prop :=
  Relation.ReflTransGen (IsParent parent)

/-- Every chain of parents ends. -/
def Acyclic (parent : A → Option A) : Prop :=
  WellFounded (fun b a => IsParent parent a b)

/-- The first `n` nodes of the chain that starts with `a`. -/
def chain (parent : A → Option A) : Nat → A → List A
  | 0, _ => []
  | n + 1, a =>
    match parent a with
    | none => [a]
    | some b => a :: chain parent n b

variable {parent parent' : A → Option A} {a b c q : A} {n : Nat}

theorem Above.refl (a : A) : Above parent a a :=
  Relation.ReflTransGen.refl

theorem Above.head (hab : parent a = some b) (hbc : Above parent b c) : Above parent a c :=
  Relation.ReflTransGen.head hab hbc

theorem above_iff : Above parent a c ↔ a = c ∨ ∃ b, parent a = some b ∧ Above parent b c :=
  Relation.ReflTransGen.cases_head_iff

/-- A set of nodes that has the parents of its nodes has all that is above them. -/
theorem Above.mem {nodes : List A} (h : Above parent a b)
    (hclosed : ∀ a ∈ nodes, ∀ b, parent a = some b → b ∈ nodes) (ha : a ∈ nodes) :
    b ∈ nodes := by
  induction h with
  | refl => exact ha
  | tail _ hparent ih => exact hclosed _ ih _ hparent

/-! ## Acyclic forests -/

/-- No node is above its parent. -/
theorem Acyclic.not_above (h : Acyclic parent) (hab : parent a = some b) :
    ¬ Above parent b a := by
  induction a using h.induction generalizing b with
  | _ a ih =>
    intro hba
    rcases above_iff.mp hba with rfl | ⟨c, hbc, hca⟩
    · exact ih b hab hab (.refl b)
    · exact ih b hab hbc (Relation.ReflTransGen.tail hca hab)

/-- The forest stays acyclic when the new parents belong to one node, and that node is above none
of them. -/
theorem Acyclic.change (h : Acyclic parent)
    (hnew : ∀ a b, parent' a = some b → parent a = some b ∨ a = q ∧ ¬ Above parent b q) :
    Acyclic parent' := by
  -- first what `q` is not above: there the chains are the old ones
  have hbelow (a : A) : ¬ Above parent a q → Acc (fun b a => IsParent parent' a b) a := by
    induction a using h.induction with
    | _ a ih =>
      intro hnot
      constructor
      intro b hab
      rcases hnew a b hab with hold | ⟨rfl, _⟩
      · exact ih b hold (fun hbq => hnot (.head hold hbq))
      · exact absurd (.refl a) hnot
  constructor
  intro a
  induction a using h.induction with
  | _ a ih =>
    constructor
    intro b hab
    rcases hnew a b hab with hold | ⟨_, hnot⟩
    · exact ih b hold
    · exact hbelow b hnot

/-! ## Walking up -/

theorem above_of_mem_chain (h : b ∈ chain parent n a) : Above parent a b := by
  induction n generalizing a with
  | zero => cases h
  | succ n ih =>
    simp only [chain] at h
    cases hparent : parent a with
    | none =>
      rw [hparent] at h
      rw [List.mem_singleton.mp h]
      exact .refl a
    | some c =>
      rw [hparent] at h
      rcases List.mem_cons.mp h with rfl | hmem
      · exact .refl b
      · exact .head hparent (ih hmem)

theorem Acyclic.nodup_chain (h : Acyclic parent) : (chain parent n a).Nodup := by
  induction n generalizing a with
  | zero => exact List.nodup_nil
  | succ n ih =>
    simp only [chain]
    cases hparent : parent a with
    | none => simp
    | some b =>
      refine List.nodup_cons.mpr ⟨?_, ih⟩
      intro hmem
      exact h.not_above hparent (above_of_mem_chain hmem)

/-- A walk that stops before its steps are used up has found everything. -/
theorem mem_chain_of_above (hlength : (chain parent n a).length < n) (h : Above parent a b) :
    b ∈ chain parent n a := by
  induction n generalizing a with
  | zero => omega
  | succ n ih =>
    simp only [chain] at hlength ⊢
    cases hparent : parent a with
    | none =>
      rcases above_iff.mp h with rfl | ⟨c, hac, _⟩
      · exact List.mem_singleton.mpr rfl
      · rw [hparent] at hac
        cases hac
    | some c =>
      rw [hparent] at hlength
      simp only [List.length_cons] at hlength
      rcases above_iff.mp h with rfl | ⟨c', hac, hcb⟩
      · exact List.mem_cons_self
      · rw [hparent] at hac
        obtain rfl : c = c' := Option.some.inj hac
        exact List.mem_cons_of_mem a (ih (by omega) hcb)

/-- One step more than there are nodes is enough. -/
theorem Acyclic.mem_chain_iff {nodes : List A} (h : Acyclic parent)
    (hclosed : ∀ a ∈ nodes, ∀ b, parent a = some b → b ∈ nodes) (ha : a ∈ nodes) :
    b ∈ chain parent (nodes.length + 1) a ↔ Above parent a b := by
  constructor
  · exact above_of_mem_chain
  · have hsubset : chain parent (nodes.length + 1) a ⊆ nodes := by
      intro c hc
      exact (above_of_mem_chain hc).mem hclosed ha
    have hlength := (h.nodup_chain.subperm hsubset).length_le
    exact mem_chain_of_above (by omega)

end Forest
