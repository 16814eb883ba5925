import Mathlib.Algebra.Group.Int.Defs
import Mathlib.Algebra.Group.Nat.Defs

/-!
# `BRUArithmetic`

Checked arithmetic on the integers of a 64-bit machine: `size_t`, `uintptr_t`
and `unsigned long` are `UInt64`, `ptrdiff_t`, `intptr_t` and `long` are `Int64`.

A C function with an out-parameter takes what the parameter holds before the
call and returns its answer together with what it holds afterwards.  The
overflow builtins of the compiler always store the wrapped result.

Each function has one lemma that says in unbounded integers when it answers
`true` and what it stores then.
-/

namespace BromiumCoreUtils

/-! ## The integers of the machine -/

/-- The cast of an address to `intptr_t`. -/
theorem toInt_toInt64 (a : UInt64) :
    a.toInt64.toInt = if a.toNat < 2 ^ 63 then (a.toNat : Int) else a.toNat - 2 ^ 64 := by
  have hcast : a.toInt64.toInt = a.toBitVec.toInt := rfl
  rw [hcast, BitVec.toInt_eq_toNat_cond]
  have hnat : a.toBitVec.toNat = a.toNat := rfl
  rw [hnat]
  split <;> split <;> omega

/-- The cast of a non-negative integer to an unsigned one. -/
theorem toNat_toUInt64 {x : Int64} (h : 0 ≤ x.toInt) : (x.toUInt64.toNat : Int) = x.toInt := by
  have hle : 0 ≤ x := by
    rw [Int64.le_iff_toInt_le]
    exact h
  rw [Int64.toNat_toUInt64_of_le hle, Int64.toNatClampNeg, Int.toNat_of_nonneg h]

/-! ## The overflow builtins -/

/-- `__builtin_saddl_overflow`. -/
def builtinSaddlOverflow (a b : Int64) : Bool × Int64 :=
  (BitVec.saddOverflow a.toBitVec b.toBitVec, a + b)

/-- `__builtin_uaddl_overflow`. -/
def builtinUaddlOverflow (a b : UInt64) : Bool × UInt64 :=
  (BitVec.uaddOverflow a.toBitVec b.toBitVec, a + b)

/-- `__builtin_usubl_overflow`. -/
def builtinUsublOverflow (a b : UInt64) : Bool × UInt64 :=
  (BitVec.usubOverflow a.toBitVec b.toBitVec, a - b)

theorem saddl_fits {a b : Int64} :
    (builtinSaddlOverflow a b).1 = false ↔
      -2 ^ 63 ≤ a.toInt + b.toInt ∧ a.toInt + b.toInt < 2 ^ 63 := by
  have ha : a.toBitVec.toInt = a.toInt := rfl
  have hb : b.toBitVec.toInt = b.toInt := rfl
  simp only [builtinSaddlOverflow, BitVec.saddOverflow, ha, hb, Bool.or_eq_false_iff,
    decide_eq_false_iff_not]
  omega

theorem toInt_saddl {a b : Int64} (h : (builtinSaddlOverflow a b).1 = false) :
    (builtinSaddlOverflow a b).2.toInt = a.toInt + b.toInt :=
  BitVec.toInt_add_of_not_saddOverflow (by simpa [builtinSaddlOverflow] using h)

theorem uaddl_fits {a b : UInt64} :
    (builtinUaddlOverflow a b).1 = false ↔ a.toNat + b.toNat < 2 ^ 64 := by
  have ha : a.toBitVec.toNat = a.toNat := rfl
  have hb : b.toBitVec.toNat = b.toNat := rfl
  simp only [builtinUaddlOverflow, BitVec.uaddOverflow, ha, hb, decide_eq_false_iff_not]
  omega

theorem toNat_uaddl {a b : UInt64} (h : (builtinUaddlOverflow a b).1 = false) :
    (builtinUaddlOverflow a b).2.toNat = a.toNat + b.toNat :=
  BitVec.toNat_add_of_not_uaddOverflow (by simpa [builtinUaddlOverflow] using h)

theorem usubl_fits {a b : UInt64} :
    (builtinUsublOverflow a b).1 = false ↔ b.toNat ≤ a.toNat := by
  have ha : a.toBitVec.toNat = a.toNat := rfl
  have hb : b.toBitVec.toNat = b.toNat := rfl
  simp only [builtinUsublOverflow, BitVec.usubOverflow, ha, hb, decide_eq_false_iff_not]
  omega

theorem toNat_usubl {a b : UInt64} (h : (builtinUsublOverflow a b).1 = false) :
    (builtinUsublOverflow a b).2.toNat = a.toNat - b.toNat :=
  BitVec.toNat_sub_of_not_usubOverflow (by simpa [builtinUsublOverflow] using h)

/-! ## The checked operations -/

/-- `bru_ptrdiff_to_size`. -/
def bruPtrdiffToSize (a : Int64) (result : UInt64) : Bool × UInt64 :=
  if a < 0 then (false, result) else (true, a.toUInt64)

/-- `bru_offset_pointer`. -/
def bruOffsetPointer (base : UInt64) (offset : Int64) (result : UInt64) : Bool × UInt64 :=
  let (overflow, res) := builtinSaddlOverflow base.toInt64 offset
  if overflow then (false, result)
  else if res < 0 then (false, result)
  else (true, res.toUInt64)

/-- `bru_unsigned_long_add_2`. -/
def bruUnsignedLongAdd2 (a b : UInt64) : Bool × UInt64 :=
  let (overflow, res) := builtinUaddlOverflow a b
  (!overflow, res)

/-- `bru_size_subtract_2`. -/
def bruSizeSubtract2 (a b : UInt64) : Bool × UInt64 :=
  let (overflow, res) := builtinUsublOverflow a b
  (!overflow, res)

/-- A non-negative offset is cast to a size. -/
theorem bruPtrdiffToSize_eq {a : Int64} (h : 0 ≤ a.toInt) (result : UInt64) :
    bruPtrdiffToSize a result = (true, a.toUInt64) := by
  have hnot : ¬ a < 0 := by
    rw [Int64.lt_iff_toInt_lt]
    exact Int.not_lt.mpr h
  simp [bruPtrdiffToSize, hnot]

/-- The pointer is moved if and only if the sum, taken as a signed one, is
neither negative nor too large. -/
theorem bruOffsetPointer_eq_true {base : UInt64} {offset : Int64} {result out : UInt64} :
    bruOffsetPointer base offset result = (true, out) ↔
      0 ≤ base.toInt64.toInt + offset.toInt ∧ base.toInt64.toInt + offset.toInt < 2 ^ 63 ∧
        (out.toNat : Int) = base.toInt64.toInt + offset.toInt := by
  simp only [bruOffsetPointer]
  by_cases hfits : (builtinSaddlOverflow base.toInt64 offset).1 = false
  · have hrange := saddl_fits.mp hfits
    have hres := toInt_saddl hfits
    rw [hfits]
    by_cases hneg : (builtinSaddlOverflow base.toInt64 offset).2 < 0
    · rw [if_pos hneg]
      have hlt := Int64.lt_iff_toInt_lt.mp hneg
      have hzero : (0 : Int64).toInt = 0 := rfl
      simp only [Bool.false_eq_true, if_false, Prod.mk.injEq, false_and, false_iff]
      omega
    · rw [if_neg hneg]
      have hnonneg : 0 ≤ (builtinSaddlOverflow base.toInt64 offset).2.toInt :=
        Int.not_lt.mp (fun hlt => hneg (Int64.lt_iff_toInt_lt.mpr hlt))
      have hcast := toNat_toUInt64 hnonneg
      simp only [Bool.false_eq_true, if_false, Prod.mk.injEq, true_and, ← UInt64.toNat_inj]
      omega
  · have hrange := mt saddl_fits.mpr hfits
    rw [Bool.not_eq_false] at hfits
    simp only [hfits, if_true, Prod.mk.injEq, Bool.false_eq_true, false_and, false_iff]
    omega

/-- Where it is not moved, nothing is stored. -/
theorem bruOffsetPointer_eq_false {base : UInt64} {offset : Int64} {result out : UInt64}
    (h : bruOffsetPointer base offset result = (false, out)) : out = result := by
  simp only [bruOffsetPointer] at h
  split at h
  · exact (Prod.mk.inj h).2.symm
  · split at h
    · exact (Prod.mk.inj h).2.symm
    · cases h

/-- What moving an address should be: the sum is stored, an address of the lower half is moved
exactly within that half, and the way back leads to where it started. -/
structure OffsetsExactly (base : UInt64) (offset : Int64) : Prop where
  stored : ∀ result out, bruOffsetPointer base offset result = (true, out) →
    (out.toNat : Int) = base.toNat + offset.toInt
  answer : base.toNat < 2 ^ 63 → ∀ result, (bruOffsetPointer base offset result).1 = true ↔
    0 ≤ base.toNat + offset.toInt ∧ base.toNat + offset.toInt < 2 ^ 63
  back : offset ≠ Int64.minValue → ∀ result out result',
    bruOffsetPointer base offset result = (true, out) →
    bruOffsetPointer out (-offset) result' = (true, base)

/-- The signed sum is stored whenever it is an address. -/
theorem exists_bruOffsetPointer {base : UInt64} {offset : Int64}
    (hlow : 0 ≤ base.toInt64.toInt + offset.toInt)
    (hhigh : base.toInt64.toInt + offset.toInt < 2 ^ 63) (result : UInt64) :
    ∃ out : UInt64, bruOffsetPointer base offset result = (true, out) ∧
      (out.toNat : Int) = base.toInt64.toInt + offset.toInt := by
  have hout : ((UInt64.ofNat (base.toInt64.toInt + offset.toInt).toNat).toNat : Int) =
      base.toInt64.toInt + offset.toInt := by
    have hsize : (base.toInt64.toInt + offset.toInt).toNat < 2 ^ 64 := by omega
    rw [UInt64.toNat_ofNat_of_lt' hsize]
    exact Int.toNat_of_nonneg hlow
  exact ⟨_, bruOffsetPointer_eq_true.mpr ⟨hlow, hhigh, hout⟩, hout⟩

theorem toInt_neg_of_ne_minValue {offset : Int64} (h : offset ≠ Int64.minValue) :
    (-offset).toInt = -offset.toInt := by
  have hlow := offset.le_toInt
  have hhigh := offset.toInt_lt
  have hne : offset.toInt ≠ -2 ^ 63 := by
    intro heq
    exact h (Int64.toInt_inj.mp heq)
  rw [Int64.toInt_neg]
  apply Int.bmod_eq_of_le <;> omega

/-- Below the middle of the address space nothing wraps. -/
theorem offsetsExactly_of_low {base : UInt64} (offset : Int64) (hlow : base.toNat < 2 ^ 63) :
    OffsetsExactly base offset := by
  have hsigned := toInt_toInt64 base
  rw [if_pos hlow] at hsigned
  refine { stored := ?_, answer := ?_, back := ?_ }
  · intro result out hmoved
    have hout := (bruOffsetPointer_eq_true.mp hmoved).2.2
    omega
  · intro _ result
    constructor
    · intro hanswer
      have hmoved : bruOffsetPointer base offset result =
          (true, (bruOffsetPointer base offset result).2) := by
        rw [← hanswer]
      obtain ⟨hpos, hlt, _⟩ := bruOffsetPointer_eq_true.mp hmoved
      omega
    · intro hrange
      obtain ⟨out, hmoved, _⟩ := exists_bruOffsetPointer
        (show 0 ≤ base.toInt64.toInt + offset.toInt by omega) (by omega) result
      rw [hmoved]
  · intro hmin result out result' hmoved
    obtain ⟨hpos, hlt, hout⟩ := bruOffsetPointer_eq_true.mp hmoved
    have hback := toInt_toInt64 out
    rw [if_pos (by omega)] at hback
    rw [bruOffsetPointer_eq_true, toInt_neg_of_ne_minValue hmin]
    omega

/-- An address of the upper half is negative as a signed integer, and an offset that carries it
over the end of the address space is taken for one that fits. -/
theorem offsetsExactly_iff (base : UInt64) (offset : Int64) :
    OffsetsExactly base offset ↔
      base.toNat < 2 ^ 63 ∨ (base.toNat : Int) + offset.toInt < 2 ^ 64 := by
  have hsigned := toInt_toInt64 base
  have hbase := base.toNat_lt
  have hoffset := offset.toInt_lt
  constructor
  · intro h
    by_cases hholds : base.toNat < 2 ^ 63 ∨ (base.toNat : Int) + offset.toInt < 2 ^ 64
    · exact hholds
    · rw [if_neg (by omega)] at hsigned
      obtain ⟨out, hmoved, hout⟩ := exists_bruOffsetPointer
        (show 0 ≤ base.toInt64.toInt + offset.toInt by omega) (by omega) 0
      have hstored := h.stored 0 out hmoved
      omega
  · intro hholds
    by_cases hlow : base.toNat < 2 ^ 63
    · exact offsetsExactly_of_low offset hlow
    · -- the sum is negative, and nothing is stored
      rw [if_neg hlow] at hsigned
      have hnever (result out : UInt64) : bruOffsetPointer base offset result ≠ (true, out) := by
        intro hmoved
        have hpos := (bruOffsetPointer_eq_true.mp hmoved).1
        omega
      exact
        { stored := fun result out hmoved => absurd hmoved (hnever result out)
          answer := fun hlow' => absurd hlow' hlow
          back := fun _ result out _ hmoved => absurd hmoved (hnever result out) }

/-- The last address is moved by one to address zero, and there is no way back. -/
theorem bruOffsetPointer_wraps :
    bruOffsetPointer 0xFFFFFFFFFFFFFFFF 1 7 = (true, 0) ∧
      (bruOffsetPointer 0 (-1) 7).1 = false ∧ ¬ OffsetsExactly 0xFFFFFFFFFFFFFFFF 1 := by
  refine ⟨by decide, by decide, ?_⟩
  intro h
  have hstored := h.stored 7 0 (by decide)
  revert hstored
  decide

/-- The sum of two addresses is stored if it fits. -/
theorem bruUnsignedLongAdd2_eq_true {a b out : UInt64} :
    bruUnsignedLongAdd2 a b = (true, out) ↔
      a.toNat + b.toNat < 2 ^ 64 ∧ out.toNat = a.toNat + b.toNat := by
  simp only [bruUnsignedLongAdd2, Prod.mk.injEq, Bool.not_eq_true']
  constructor
  · rintro ⟨hfits, rfl⟩
    exact ⟨uaddl_fits.mp hfits, toNat_uaddl hfits⟩
  · rintro ⟨hlt, hout⟩
    have hfits := uaddl_fits.mpr hlt
    exact ⟨hfits, UInt64.toNat_inj.mp (by rw [toNat_uaddl hfits, hout])⟩

/-- The difference of two sizes is stored if it is not negative. -/
theorem bruSizeSubtract2_eq_true {a b out : UInt64} :
    bruSizeSubtract2 a b = (true, out) ↔
      b.toNat ≤ a.toNat ∧ out.toNat = a.toNat - b.toNat := by
  simp only [bruSizeSubtract2, Prod.mk.injEq, Bool.not_eq_true']
  constructor
  · rintro ⟨hfits, rfl⟩
    exact ⟨usubl_fits.mp hfits, toNat_usubl hfits⟩
  · rintro ⟨hle, hout⟩
    have hfits := usubl_fits.mpr hle
    exact ⟨hfits, UInt64.toNat_inj.mp (by rw [toNat_usubl hfits, hout])⟩

end BromiumCoreUtils
