import BromiumCoreUtils.Arithmetic.Basic
import Mathlib.Algebra.Ring.Int.Defs
import Mathlib.Algebra.BigOperators.Group.List.Basic

/-!
# Checked multiplication

Two operands are multiplied by an overflow builtin.  Three are multiplied in two steps, and a
first product that does not fit ends the function, whatever the third operand is.

`IntegerType` is what the three types have in common, and `Checked` what their functions for
two operands do.  `multiplies_exactly` says when the functions for three operands answer `true`,
and where that is not the same as a product that fits.
-/

namespace BromiumCoreUtils

/-! ## The builtins -/

/-- `__builtin_smull_overflow`. -/
def builtinSmullOverflow (a b : Int64) : Bool × Int64 :=
  (BitVec.smulOverflow a.toBitVec b.toBitVec, a * b)

/-- `__builtin_umul_overflow`. -/
def builtinUmulOverflow (a b : UInt32) : Bool × UInt32 :=
  (BitVec.umulOverflow a.toBitVec b.toBitVec, a * b)

/-- `__builtin_umull_overflow`. -/
def builtinUmullOverflow (a b : UInt64) : Bool × UInt64 :=
  (BitVec.umulOverflow a.toBitVec b.toBitVec, a * b)

/-! ## The functions -/

/-- `bru_ptrdiff_multiply_2`. -/
def bruPtrdiffMultiply2 (a b : Int64) : Bool × Int64 :=
  let (overflow, res) := builtinSmullOverflow a b
  (!overflow, res)

/-- `bru_uint_multiply_2`. -/
def bruUintMultiply2 (a b : UInt32) : Bool × UInt32 :=
  let (overflow, res) := builtinUmulOverflow a b
  (!overflow, res)

/-- `bru_size_multiply_2`. -/
def bruSizeMultiply2 (a b : UInt64) : Bool × UInt64 :=
  let (overflow, res) := builtinUmullOverflow a b
  (!overflow, res)

/-- The functions for three operands, by the one for two. -/
def multiply3 {X : Type} (multiply2 : X → X → Bool × X) (a b c result : X) : Bool × X :=
  let (completed, ab) := multiply2 a b
  if !completed then (false, result) else multiply2 ab c

/-- `bru_ptrdiff_multiply_3`. -/
def bruPtrdiffMultiply3 (a b c result : Int64) : Bool × Int64 :=
  multiply3 bruPtrdiffMultiply2 a b c result

/-- `bru_uint_multiply_3`. -/
def bruUintMultiply3 (a b c result : UInt32) : Bool × UInt32 :=
  multiply3 bruUintMultiply2 a b c result

/-- `bru_size_multiply_3`. -/
def bruSizeMultiply3 (a b c result : UInt64) : Bool × UInt64 :=
  multiply3 bruSizeMultiply2 a b c result

/-! ## Integer types -/

/-- A type of machine integers, unsigned or in two's complement: the values from `low` up to
`high`. -/
structure IntegerType (X : Type) where
  value : X → Int
  low : Int
  high : Int
  bounds : ∀ x, low ≤ value x ∧ value x < high
  value_inj : ∀ x y, value x = value y → x = y
  high_pos : 0 < high
  symmetric : low = 0 ∨ low = -high

/-- `size_t`. -/
def sizeType : IntegerType UInt64 where
  value x := x.toNat
  low := 0
  high := 2 ^ 64
  bounds x := by
    have hlt := x.toNat_lt
    omega
  value_inj x y h := UInt64.toNat_inj.mp (by omega)
  high_pos := by decide
  symmetric := Or.inl rfl

/-- `unsigned int`. -/
def uintType : IntegerType UInt32 where
  value x := x.toNat
  low := 0
  high := 2 ^ 32
  bounds x := by
    have hlt := x.toNat_lt
    omega
  value_inj x y h := UInt32.toNat_inj.mp (by omega)
  high_pos := by decide
  symmetric := Or.inl rfl

/-- `ptrdiff_t`. -/
def ptrdiffType : IntegerType Int64 where
  value x := x.toInt
  low := -2 ^ 63
  high := 2 ^ 63
  bounds x := ⟨x.le_toInt, x.toInt_lt⟩
  value_inj x y h := Int64.toInt_inj.mp h
  high_pos := by decide
  symmetric := Or.inr rfl

namespace IntegerType

variable {X : Type} (T : IntegerType X)

/-- The integer is a value of the type. -/
def Fits (n : Int) : Prop :=
  T.low ≤ n ∧ n < T.high

instance (n : Int) : Decidable (T.Fits n) :=
  inferInstanceAs (Decidable (_ ∧ _))

/-- The product of the first two operands does not fit, and the third one brings it back: it is
zero, or it turns the least value around. -/
def BringsBack (a b c : X) : Prop :=
  ¬ T.Fits (T.value a * T.value b) ∧
    (T.value c = 0 ∨ T.low = -T.high ∧ T.value a * T.value b = T.high ∧ T.value c = -1)

/-- A function for two operands answers whether the product fits, and stores it. -/
structure Checked (multiply2 : X → X → Bool × X) : Prop where
  answer : ∀ a b, (multiply2 a b).1 = true ↔ T.Fits (T.value a * T.value b)
  stored : ∀ a b, (multiply2 a b).1 = true →
    T.value (multiply2 a b).2 = T.value a * T.value b

variable {T}

/-- A product that does not fit is brought back into the type by these third operands only. -/
theorem bringsBack_iff {a b c : X} :
    T.BringsBack a b c ↔
      ¬ T.Fits (T.value a * T.value b) ∧ T.Fits (T.value a * T.value b * T.value c) := by
  have hc := T.bounds c
  have hhigh := T.high_pos
  have hsymmetric := T.symmetric
  unfold BringsBack
  apply and_congr_right
  intro hnot
  generalize T.value a * T.value b = p at hnot ⊢
  generalize T.value c = z at hc ⊢
  unfold Fits at hnot ⊢
  constructor
  · intro hback
    rcases hback with rfl | ⟨hlow, rfl, rfl⟩
    · simp only [Int.mul_zero]
      omega
    · omega
  · intro hfits
    -- the third operand is zero, or it makes the product larger
    rcases Int.lt_trichotomy z 0 with hneg | hzero | hpos
    · have hlow : T.low = -T.high := by omega
      by_cases hlarge : T.high ≤ p
      · have hturned : p * (z + 1) ≤ 0 :=
          Int.mul_nonpos_of_nonneg_of_nonpos (by omega) (by omega)
        have hexpand : p * (z + 1) = p * z + p := by rw [Int.mul_add, Int.mul_one]
        have hp : p = T.high := by omega
        have hproduct : p * (z + 1) = 0 := by omega
        rcases Int.mul_eq_zero.mp hproduct with hp0 | hz
        · omega
        · exact Or.inr ⟨hlow, hp, by omega⟩
      · have hturned : 0 ≤ p * (z + 1) :=
          Int.mul_nonneg_of_nonpos_of_nonpos (by omega) (by omega)
        have hexpand : p * (z + 1) = p * z + p := by rw [Int.mul_add, Int.mul_one]
        omega
    · exact Or.inl hzero
    · by_cases hlarge : T.high ≤ p
      · have hgrown : 0 ≤ p * (z - 1) := Int.mul_nonneg (by omega) (by omega)
        have hexpand : p * (z - 1) = p * z - p := by rw [Int.mul_sub, Int.mul_one]
        omega
      · have hgrown : p * (z - 1) ≤ 0 :=
          Int.mul_nonpos_of_nonpos_of_nonneg (by omega) (by omega)
        have hexpand : p * (z - 1) = p * z - p := by rw [Int.mul_sub, Int.mul_one]
        omega

/-! ## Three operands -/

variable {multiply2 : X → X → Bool × X} {a b c : X}

theorem Checked.answer3 (h : T.Checked multiply2) (a b c result : X) :
    (multiply3 multiply2 a b c result).1 = true ↔
      T.Fits (T.value a * T.value b) ∧ T.Fits (T.value a * T.value b * T.value c) := by
  unfold multiply3
  by_cases hab : (multiply2 a b).1 = true
  · simp only [hab, Bool.not_true, Bool.false_eq_true, if_false]
    rw [h.answer, h.stored a b hab]
    exact (and_iff_right ((h.answer a b).mp hab)).symm
  · have hnot := mt (h.answer a b).mpr hab
    simp [Bool.not_eq_true _ ▸ hab, hnot]

theorem Checked.stored3 (h : T.Checked multiply2) {a b c result : X}
    (hanswer : (multiply3 multiply2 a b c result).1 = true) :
    T.value (multiply3 multiply2 a b c result).2 = T.value a * T.value b * T.value c := by
  have hab := (h.answer a b).mpr ((h.answer3 a b c result).mp hanswer).1
  simp only [multiply3, hab, Bool.not_true, Bool.false_eq_true, if_false] at hanswer ⊢
  rw [h.stored _ _ hanswer, h.stored _ _ hab]

/-- What a function for three operands does with these ones.  Where the first product does not
fit it answers `false`, also if the third operand brings the product back. -/
structure Multiplies (T : IntegerType X) (multiply3 : X → X → X → X → Bool × X)
    (a b c result : X) : Prop where
  answer : (multiply3 a b c result).1 = true ↔
    T.Fits (T.value a * T.value b) ∧ T.Fits (T.value a * T.value b * T.value c)
  stored : (multiply3 a b c result).1 = true →
    T.value (multiply3 a b c result).2 = T.value a * T.value b * T.value c
  exactness : ((multiply3 a b c result).1 = true ↔
    T.Fits (T.value a * T.value b * T.value c)) ↔ ¬ T.BringsBack a b c
  /-- The order makes no difference where no third operand brings a product back. -/
  order : ∀ a' b' c' result', [a, b, c].Perm [a', b', c'] → ¬ T.BringsBack a b c →
    ¬ T.BringsBack a' b' c' →
    (multiply3 a b c result).1 = (multiply3 a' b' c' result').1
  orderStored : ∀ a' b' c' result', [a, b, c].Perm [a', b', c'] →
    (multiply3 a b c result).1 = true → (multiply3 a' b' c' result').1 = true →
    (multiply3 a b c result).2 = (multiply3 a' b' c' result').2

/-- The exact product does not depend on the order. -/
theorem product_perm {a' b' c' : X} (hperm : [a, b, c].Perm [a', b', c']) :
    T.value a * T.value b * T.value c = T.value a' * T.value b' * T.value c' := by
  have hproduct := (hperm.map T.value).prod_eq
  simpa [Int.mul_assoc] using hproduct

theorem Checked.exact3 (h : T.Checked multiply2) (a b c result : X) :
    ((multiply3 multiply2 a b c result).1 = true ↔
      T.Fits (T.value a * T.value b * T.value c)) ↔ ¬ T.BringsBack a b c := by
  rw [h.answer3, bringsBack_iff]
  tauto

/-- The functions for three operands, for any type. -/
theorem Checked.multiplies (h : T.Checked multiply2) (a b c result : X) :
    T.Multiplies (multiply3 multiply2) a b c result where
  answer := h.answer3 a b c result
  stored := h.stored3
  exactness := h.exact3 a b c result
  order a' b' c' result' hperm hback hback' := by
    have hiff := (h.exact3 a b c result).mpr hback
    rw [product_perm hperm, ← (h.exact3 a' b' c' result').mpr hback'] at hiff
    exact Bool.eq_iff_iff.mpr hiff
  orderStored a' b' c' result' hperm hanswer hanswer' := by
    apply T.value_inj
    rw [h.stored3 hanswer, h.stored3 hanswer', product_perm hperm]

end IntegerType

/-! ## The three types -/

section Unsigned

variable {w : Nat} {x y : BitVec w}

theorem umul_fits : (!BitVec.umulOverflow x y) = true ↔
    0 ≤ (x.toNat : Int) * y.toNat ∧ (x.toNat : Int) * y.toNat < 2 ^ w := by
  have hpos := Int.natCast_nonneg (x.toNat * y.toNat)
  have hpow : ((2 ^ w : Nat) : Int) = 2 ^ w := Int.natCast_pow 2 w
  simp only [BitVec.umulOverflow, Bool.not_eq_true', decide_eq_false_iff_not]
  rw [← Int.natCast_mul]
  omega

theorem toNat_umul (h : (!BitVec.umulOverflow x y) = true) :
    ((x * y).toNat : Int) = x.toNat * y.toNat := by
  rw [BitVec.toNat_mul_of_not_umulOverflow (by simpa using h), Int.natCast_mul]

end Unsigned

theorem checked_size : sizeType.Checked bruSizeMultiply2 where
  answer _ _ := umul_fits
  stored _ _ h := toNat_umul h

theorem checked_uint : uintType.Checked bruUintMultiply2 where
  answer _ _ := umul_fits
  stored _ _ h := toNat_umul h

theorem checked_ptrdiff : ptrdiffType.Checked bruPtrdiffMultiply2 where
  answer a b := by
    have ha : a.toBitVec.toInt = a.toInt := rfl
    have hb : b.toBitVec.toInt = b.toInt := rfl
    simp only [bruPtrdiffMultiply2, builtinSmullOverflow, BitVec.smulOverflow, ha, hb,
      Bool.not_eq_true', Bool.or_eq_false_iff, decide_eq_false_iff_not, IntegerType.Fits,
      ptrdiffType]
    omega
  stored a b h := by
    have hfits : ¬ BitVec.smulOverflow a.toBitVec b.toBitVec := by
      simpa [bruPtrdiffMultiply2, builtinSmullOverflow] using h
    exact BitVec.toInt_mul_of_not_smulOverflow hfits

/-- Each of the functions for three operands multiplies, with the exceptions of
`BringsBack`. -/
theorem multiplies_exactly (a b c result : UInt64) (a' b' c' result' : UInt32)
    (a'' b'' c'' result'' : Int64) :
    sizeType.Multiplies bruSizeMultiply3 a b c result ∧
      uintType.Multiplies bruUintMultiply3 a' b' c' result' ∧
      ptrdiffType.Multiplies bruPtrdiffMultiply3 a'' b'' c'' result'' :=
  ⟨checked_size.multiplies a b c result, checked_uint.multiplies a' b' c' result',
    checked_ptrdiff.multiplies a'' b'' c'' result''⟩

/-- The product of these operands is zero, or the least `ptrdiff_t`, and it is the order that
decides whether it is found. -/
theorem multiply3_first_product_overflows :
    (bruSizeMultiply3 0x100000000 0x100000000 0 0).1 = false ∧
      bruSizeMultiply3 0x100000000 0 0x100000000 1 = (true, 0) ∧
      (bruUintMultiply3 0x10000 0x10000 0 0).1 = false ∧
      bruUintMultiply3 0x10000 0 0x10000 1 = (true, 0) ∧
      (bruPtrdiffMultiply3 0x100000000 0x80000000 (-1) 0).1 = false ∧
      bruPtrdiffMultiply3 0x100000000 (-1) 0x80000000 0 = (true, Int64.minValue) ∧
      ¬ (∀ a b c result, (bruSizeMultiply3 a b c result).1 = true ↔
        sizeType.Fits (sizeType.value a * sizeType.value b * sizeType.value c)) ∧
      ¬ (∀ a b c result, (bruUintMultiply3 a b c result).1 = true ↔
        uintType.Fits (uintType.value a * uintType.value b * uintType.value c)) ∧
      ¬ (∀ a b c result, (bruPtrdiffMultiply3 a b c result).1 = true ↔
        ptrdiffType.Fits (ptrdiffType.value a * ptrdiffType.value b * ptrdiffType.value c)) := by
  refine ⟨by decide, by decide, by decide, by decide, by decide, by decide, ?_, ?_, ?_⟩
  · intro hexact
    have hfits : sizeType.Fits (sizeType.value 0x100000000 * sizeType.value 0x100000000 *
        sizeType.value 0) := ⟨by decide, by decide⟩
    exact absurd ((hexact 0x100000000 0x100000000 0 0).mpr hfits) (by decide)
  · intro hexact
    have hfits : uintType.Fits (uintType.value 0x10000 * uintType.value 0x10000 *
        uintType.value 0) := ⟨by decide, by decide⟩
    exact absurd ((hexact 0x10000 0x10000 0 0).mpr hfits) (by decide)
  · intro hexact
    have hfits : ptrdiffType.Fits (ptrdiffType.value 0x100000000 * ptrdiffType.value 0x80000000 *
        ptrdiffType.value (-1)) := ⟨by decide, by decide⟩
    exact absurd ((hexact 0x100000000 0x80000000 (-1) 0).mpr hfits) (by decide)

end BromiumCoreUtils
