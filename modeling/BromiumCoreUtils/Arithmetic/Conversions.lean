import BromiumCoreUtils.Arithmetic.Multiply
import Mathlib.Data.Rat.Floor

/-!
# Checked conversions

A `double` or a `float` is NaN, one of the infinities, or an exact rational.  A conversion
rejects the values below one bound and the values above another, and casts what is left.

The cast of a value that the type cannot represent is undefined behaviour.  `CCast` is a cast
that truncates where it is defined, and does anything elsewhere.  `convertsSafely_iff_ne_nan`
says that the two comparisons leave one undefined cast: they are both false of NaN.
-/

namespace BromiumCoreUtils

/-! ## Floating-point values -/

/-- `double` or `float`. -/
inductive FloatValue where
  | nan
  | posInfinity
  | negInfinity
  | finite (q : ℚ)
deriving DecidableEq

namespace FloatValue

/-- The operator `<`.  A comparison with NaN is false. -/
def lt : FloatValue → FloatValue → Bool
  | .nan, _ | _, .nan => false
  | .negInfinity, b => decide (b ≠ .negInfinity)
  | .finite _, .negInfinity => false
  | .finite p, .finite q => decide (p < q)
  | .finite _, .posInfinity => true
  | .posInfinity, _ => false

/-- The operator `>`. -/
def gt (a b : FloatValue) : Bool :=
  b.lt a

@[simp] theorem finite_lt {p q : ℚ} : (finite p).lt (finite q) = true ↔ p < q := by
  simp [lt]

@[simp] theorem finite_gt {p q : ℚ} : (finite p).gt (finite q) = true ↔ q < p := by
  simp [gt]

end FloatValue

/-- Truncation toward zero. -/
def truncate (q : ℚ) : Int :=
  if 0 ≤ q then ⌊q⌋ else ⌈q⌉

/-- Truncation stays between integers. -/
theorem truncate_mem {q : ℚ} {low high : Int} (hlow : (low : ℚ) ≤ q) (hhigh : q ≤ high) :
    low ≤ truncate q ∧ truncate q ≤ high := by
  unfold truncate
  split
  · constructor
    · exact Int.le_floor.mpr hlow
    · have hfloor : (⌊q⌋ : ℚ) ≤ high := (Int.floor_le q).trans hhigh
      exact_mod_cast hfloor
  · constructor
    · have hceil : (low : ℚ) ≤ ⌈q⌉ := hlow.trans (Int.le_ceil q)
      exact_mod_cast hceil
    · exact Int.ceil_le.mpr hhigh

/-! ## Casts -/

/-- `int32_t`. -/
def int32Type : IntegerType Int32 where
  value x := x.toInt
  low := -2 ^ 31
  high := 2 ^ 31
  bounds x := ⟨x.le_toInt, x.toInt_lt⟩
  value_inj _ _ h := Int32.toInt_inj.mp h
  high_pos := by decide
  symmetric := Or.inr rfl

/-- A cast to an integer type. -/
structure CCast {X : Type} (T : IntegerType X) where
  cast : FloatValue → X
  value_cast : ∀ q, T.Fits (truncate q) → T.value (cast (.finite q)) = truncate q

/-! ## The functions -/

section Functions

variable {X : Type} {T : IntegerType X}

/-- The conversions, by their two bounds. -/
def convert (low high : Int) (toInteger : CCast T) (a : FloatValue) (result : X) : Bool × X :=
  if a.lt (.finite low) || a.gt (.finite high) then (false, result)
  else (true, toInteger.cast a)

/-- What a conversion with these bounds should do with this value: where it answers `true`, the
cast is defined and its value is stored. -/
structure ConvertsSafely (T : IntegerType X) (convert : FloatValue → X → Bool × X)
    (a : FloatValue) (result : X) : Prop where
  accepted : (convert a result).1 = true →
    ∃ q, a = .finite q ∧ T.Fits (truncate q) ∧ T.value (convert a result).2 = truncate q
  rejected : (convert a result).1 = false → (convert a result).2 = result

variable {low high : Int} {toInteger : CCast T}

@[simp] theorem convert_nan (result : X) :
    convert low high toInteger .nan result = (true, toInteger.cast .nan) := rfl

@[simp] theorem convert_posInfinity (result : X) :
    convert low high toInteger .posInfinity result = (false, result) := rfl

@[simp] theorem convert_negInfinity (result : X) :
    convert low high toInteger .negInfinity result = (false, result) := rfl

/-- A rational is accepted between the bounds. -/
theorem convert_finite (low high : Int) (toInteger : CCast T) (q : ℚ) (result : X) :
    convert low high toInteger (.finite q) result =
      if (low : ℚ) ≤ q ∧ q ≤ high then (true, toInteger.cast (.finite q)) else (false, result) := by
  unfold convert
  by_cases hbounds : (low : ℚ) ≤ q ∧ q ≤ high
  · have hlow : (FloatValue.finite q).lt (.finite low) = false := by
      simpa [FloatValue.lt] using hbounds.1
    have hhigh : (FloatValue.finite q).gt (.finite high) = false := by
      simpa [FloatValue.gt, FloatValue.lt] using hbounds.2
    simp [hlow, hhigh, hbounds]
  · rw [if_neg hbounds, if_pos]
    rw [not_and_or, not_le, not_le] at hbounds
    simpa using hbounds

/-- Bounds that the type can represent make every conversion safe but that of NaN. -/
theorem convertsSafely_iff (hlow : T.low ≤ low) (hhigh : high < T.high) (toInteger : CCast T)
    (a : FloatValue) (result : X) :
    ConvertsSafely T (convert low high toInteger) a result ↔ a ≠ .nan := by
  constructor
  · rintro hsafe rfl
    obtain ⟨q, hq, _⟩ := hsafe.accepted rfl
    cases hq
  · intro hnan
    cases a with
    | nan => exact absurd rfl hnan
    | posInfinity => exact { accepted := by simp, rejected := by simp }
    | negInfinity => exact { accepted := by simp, rejected := by simp }
    | finite q =>
      have heq := convert_finite low high toInteger q result
      by_cases hbounds : (low : ℚ) ≤ q ∧ q ≤ high
      · rw [if_pos hbounds] at heq
        obtain ⟨hlow', hhigh'⟩ := truncate_mem hbounds.1 hbounds.2
        have hfits : T.Fits (truncate q) := ⟨by omega, by omega⟩
        refine { accepted := ?_, rejected := by simp [heq] }
        intro _
        rw [heq]
        exact ⟨q, rfl, hfits, toInteger.value_cast q hfits⟩
      · rw [if_neg hbounds] at heq
        exact { accepted := by simp [heq], rejected := by simp [heq] }

end Functions

/-! ## Its members -/

/-- `BRU_SAFE_FLOAT_MAX`. -/
def BRUSafeFloatMax : Int := 2 ^ 24 - 1

/-- `BRU_SAFE_FLOAT_MIN`. -/
def BRUSafeFloatMin : Int := BRUSafeFloatMax * -1

/-- `BRU_SAFE_DOUBLE_MAX`. -/
def BRUSafeDoubleMax : Int := 2 ^ 53 - 1

/-- `bru_double_to_uint32`. -/
def bruDoubleToUint32 : CCast uintType → FloatValue → UInt32 → Bool × UInt32 :=
  convert 0 4294967295

/-- `bru_float_to_int32`. -/
def bruFloatToInt32 : CCast int32Type → FloatValue → Int32 → Bool × Int32 :=
  convert BRUSafeFloatMin BRUSafeFloatMax

/-- `bru_double_to_int32`. -/
def bruDoubleToInt32 : CCast int32Type → FloatValue → Int32 → Bool × Int32 :=
  convert (-2147483648) 2147483647

/-- `bru_double_to_size`. -/
def bruDoubleToSize : CCast sizeType → FloatValue → UInt64 → Bool × UInt64 :=
  convert 0 BRUSafeDoubleMax

/-- `bru_cgfloat_to_uint32`. -/
def bruCgfloatToUint32 : CCast uintType → FloatValue → UInt32 → Bool × UInt32 :=
  bruDoubleToUint32

/-- `bru_cgfloat_to_int32`. -/
def bruCgfloatToInt32 : CCast int32Type → FloatValue → Int32 → Bool × Int32 :=
  bruDoubleToInt32

/-- `bru_cgfloat_to_glsizei`.  `GLsizei` is `int32_t`. -/
def bruCgfloatToGlsizei : CCast int32Type → FloatValue → Int32 → Bool × Int32 :=
  bruDoubleToInt32

/-- `bru_cgfloat_to_size`. -/
def bruCgfloatToSize : CCast sizeType → FloatValue → UInt64 → Bool × UInt64 :=
  bruDoubleToSize

section Members

variable (toUint32 : CCast uintType) (floatToInt32 toInt32 : CCast int32Type)
  (toSize : CCast sizeType)

/-- Each of the conversions is safe for every value but NaN. -/
theorem convertsSafely_iff_ne_nan (a : FloatValue) (uint32 : UInt32) (int32 : Int32)
    (size : UInt64) :
    (ConvertsSafely uintType (bruDoubleToUint32 toUint32) a uint32 ↔ a ≠ .nan) ∧
      (ConvertsSafely int32Type (bruFloatToInt32 floatToInt32) a int32 ↔ a ≠ .nan) ∧
      (ConvertsSafely int32Type (bruDoubleToInt32 toInt32) a int32 ↔ a ≠ .nan) ∧
      (ConvertsSafely sizeType (bruDoubleToSize toSize) a size ↔ a ≠ .nan) ∧
      (ConvertsSafely uintType (bruCgfloatToUint32 toUint32) a uint32 ↔ a ≠ .nan) ∧
      (ConvertsSafely int32Type (bruCgfloatToInt32 toInt32) a int32 ↔ a ≠ .nan) ∧
      (ConvertsSafely int32Type (bruCgfloatToGlsizei toInt32) a int32 ↔ a ≠ .nan) ∧
      (ConvertsSafely sizeType (bruCgfloatToSize toSize) a size ↔ a ≠ .nan) := by
  have huint32 : ConvertsSafely uintType (bruDoubleToUint32 toUint32) a uint32 ↔ a ≠ .nan :=
    convertsSafely_iff (by decide) (by decide) toUint32 a uint32
  have hfloat : ConvertsSafely int32Type (bruFloatToInt32 floatToInt32) a int32 ↔ a ≠ .nan :=
    convertsSafely_iff (by decide) (by decide) floatToInt32 a int32
  have hint32 : ConvertsSafely int32Type (bruDoubleToInt32 toInt32) a int32 ↔ a ≠ .nan :=
    convertsSafely_iff (by decide) (by decide) toInt32 a int32
  have hsize : ConvertsSafely sizeType (bruDoubleToSize toSize) a size ↔ a ≠ .nan :=
    convertsSafely_iff (by decide) (by decide) toSize a size
  exact ⟨huint32, hfloat, hint32, hsize, huint32, hint32, hint32, hsize⟩

end Members

/-! ## NaN -/

/-- A cast that makes zero of what the type does not represent. -/
def CCast.orZero {X : Type} (T : IntegerType X) (ofInt : Int → X)
    (h : ∀ n, T.Fits n → T.value (ofInt n) = n) : CCast T where
  cast
    | .finite q => if T.Fits (truncate q) then ofInt (truncate q) else ofInt 0
    | _ => ofInt 0
  value_cast q hfits := by
    simp only [if_pos hfits]
    exact h (truncate q) hfits

def uint32Cast : CCast uintType :=
  .orZero uintType (fun n => UInt32.ofNat n.toNat) (by
    intro n hfits
    have hsize : n.toNat < 2 ^ 32 := (Int.toNat_lt hfits.1).mpr hfits.2
    have hvalue : (UInt32.ofNat n.toNat).toNat = n.toNat := UInt32.toNat_ofNat_of_lt' hsize
    simp only [uintType, hvalue]
    exact Int.toNat_of_nonneg hfits.1)

def int32Cast : CCast int32Type :=
  .orZero int32Type Int32.ofInt (fun _ hfits => Int32.toInt_ofInt_of_le hfits.1 hfits.2)

def sizeCast : CCast sizeType :=
  .orZero sizeType (fun n => UInt64.ofNat n.toNat) (by
    intro n hfits
    have hsize : n.toNat < 2 ^ 64 := (Int.toNat_lt hfits.1).mpr hfits.2
    have hvalue : (UInt64.ofNat n.toNat).toNat = n.toNat := UInt64.toNat_ofNat_of_lt' hsize
    simp only [sizeType, hvalue]
    exact Int.toNat_of_nonneg hfits.1)

/-- NaN passes both comparisons, and what its cast makes of it is stored. -/
theorem conversions_accept_nan :
    bruDoubleToUint32 uint32Cast .nan 7 = (true, 0) ∧
      bruFloatToInt32 int32Cast .nan 7 = (true, 0) ∧
      bruDoubleToInt32 int32Cast .nan 7 = (true, 0) ∧
      bruDoubleToSize sizeCast .nan 7 = (true, 0) ∧
      ¬ ConvertsSafely uintType (bruDoubleToUint32 uint32Cast) .nan 7 ∧
      ¬ ConvertsSafely int32Type (bruFloatToInt32 int32Cast) .nan 7 ∧
      ¬ ConvertsSafely int32Type (bruDoubleToInt32 int32Cast) .nan 7 ∧
      ¬ ConvertsSafely sizeType (bruDoubleToSize sizeCast) .nan 7 := by
  refine ⟨rfl, rfl, rfl, rfl, ?_, ?_, ?_, ?_⟩
  all_goals
    intro hsafe
    obtain ⟨q, hq, _⟩ := hsafe.accepted rfl
    cases hq

end BromiumCoreUtils
