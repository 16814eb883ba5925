import BromiumCoreUtils.Arithmetic.Conversions

/-!
# Checked expressions

A caller of `BRUArithmetic` passes the result of one function to the next, and gives up at the
first `false`.  `CheckedExpr` is what can be written like this with the functions on
integers, and `eval` runs it on the machine.

`eval_eq_some_iff` compares this with the integers: the result is the exact one, and it is
missing where the value of some step does not fit its type.
-/

namespace BromiumCoreUtils

/-! ## The other functions -/

/-- `bru_ptrdiff_add_2`. -/
def bruPtrdiffAdd2 (a b : Int64) : Bool × Int64 :=
  let (overflow, res) := builtinSaddlOverflow a b
  (!overflow, res)

/-- `bru_size_add_2`. -/
def bruSizeAdd2 (a b : UInt64) : Bool × UInt64 :=
  let (overflow, res) := builtinUaddlOverflow a b
  (!overflow, res)

/-- `bru_size_subtract_3`. -/
def bruSizeSubtract3 (a b c result : UInt64) : Bool × UInt64 :=
  let (completed, ab) := bruSizeSubtract2 a b
  if !completed then (false, result) else bruSizeSubtract2 ab c

/-- `bru_size_to_int32`. -/
def bruSizeToInt32 (a : UInt64) (result : Int32) : Bool × Int32 :=
  if 2147483647 < a then (false, result) else (true, a.toUInt32.toInt32)

/-- `bru_size_to_glsizei`. -/
def bruSizeToGlsizei (a : UInt64) (result : Int32) : Bool × Int32 :=
  bruSizeToInt32 a result

/-- `bru_glsizei_to_size`. -/
def bruGlsizeiToSize (a : Int32) (result : UInt64) : Bool × UInt64 :=
  if a < 0 then (false, result) else (true, a.toInt64.toUInt64)

/-- `bru_size_to_ptrdiff`. -/
def bruSizeToPtrdiff (a : UInt64) (result : Int64) : Bool × Int64 :=
  if 9223372036854775807 < a then (false, result) else (true, a.toInt64)

/-! ## Expressions -/

/-- The types of the functions. -/
inductive CheckedType where
  | size
  | ptrdiff
  | uint
  | int32
deriving DecidableEq, Repr

namespace CheckedType

def Machine : CheckedType → Type
  | size => UInt64
  | ptrdiff => Int64
  | uint => UInt32
  | int32 => Int32

def integerType : (k : CheckedType) → IntegerType k.Machine
  | size => sizeType
  | ptrdiff => ptrdiffType
  | uint => uintType
  | int32 => int32Type

end CheckedType

/-- Calls whose results are passed on. -/
inductive CheckedExpr : CheckedType → Type where
  | value (k : CheckedType) (x : k.Machine) : CheckedExpr k
  | ptrdiffAdd2 (a b : CheckedExpr .ptrdiff) : CheckedExpr .ptrdiff
  | unsignedLongAdd2 (a b : CheckedExpr .size) : CheckedExpr .size
  | sizeAdd2 (a b : CheckedExpr .size) : CheckedExpr .size
  | sizeSubtract2 (a b : CheckedExpr .size) : CheckedExpr .size
  | sizeSubtract3 (a b c : CheckedExpr .size) : CheckedExpr .size
  | ptrdiffMultiply2 (a b : CheckedExpr .ptrdiff) : CheckedExpr .ptrdiff
  | ptrdiffMultiply3 (a b c : CheckedExpr .ptrdiff) : CheckedExpr .ptrdiff
  | uintMultiply2 (a b : CheckedExpr .uint) : CheckedExpr .uint
  | uintMultiply3 (a b c : CheckedExpr .uint) : CheckedExpr .uint
  | sizeMultiply2 (a b : CheckedExpr .size) : CheckedExpr .size
  | sizeMultiply3 (a b c : CheckedExpr .size) : CheckedExpr .size
  | sizeToInt32 (a : CheckedExpr .size) : CheckedExpr .int32
  | sizeToGlsizei (a : CheckedExpr .size) : CheckedExpr .int32
  | glsizeiToSize (a : CheckedExpr .int32) : CheckedExpr .size
  | ptrdiffToSize (a : CheckedExpr .ptrdiff) : CheckedExpr .size
  | sizeToPtrdiff (a : CheckedExpr .size) : CheckedExpr .ptrdiff

/-- What is passed on from a call. -/
def passOn {X : Type} (answer : Bool × X) : Option X :=
  if answer.1 then some answer.2 else none

namespace CheckedExpr

/-- The calls, one after the other. -/
def eval {k : CheckedType} : CheckedExpr k → Option k.Machine
  | value _ x => some x
  | ptrdiffAdd2 a b => do passOn (bruPtrdiffAdd2 (← a.eval) (← b.eval))
  | unsignedLongAdd2 a b => do passOn (bruUnsignedLongAdd2 (← a.eval) (← b.eval))
  | sizeAdd2 a b => do passOn (bruSizeAdd2 (← a.eval) (← b.eval))
  | sizeSubtract2 a b => do passOn (bruSizeSubtract2 (← a.eval) (← b.eval))
  | sizeSubtract3 a b c => do passOn (bruSizeSubtract3 (← a.eval) (← b.eval) (← c.eval) 0)
  | ptrdiffMultiply2 a b => do passOn (bruPtrdiffMultiply2 (← a.eval) (← b.eval))
  | ptrdiffMultiply3 a b c => do
    passOn (bruPtrdiffMultiply3 (← a.eval) (← b.eval) (← c.eval) 0)
  | uintMultiply2 a b => do passOn (bruUintMultiply2 (← a.eval) (← b.eval))
  | uintMultiply3 a b c => do passOn (bruUintMultiply3 (← a.eval) (← b.eval) (← c.eval) 0)
  | sizeMultiply2 a b => do passOn (bruSizeMultiply2 (← a.eval) (← b.eval))
  | sizeMultiply3 a b c => do passOn (bruSizeMultiply3 (← a.eval) (← b.eval) (← c.eval) 0)
  | sizeToInt32 a => do passOn (bruSizeToInt32 (← a.eval) 0)
  | sizeToGlsizei a => do passOn (bruSizeToGlsizei (← a.eval) 0)
  | glsizeiToSize a => do passOn (bruGlsizeiToSize (← a.eval) 0)
  | ptrdiffToSize a => do passOn (bruPtrdiffToSize (← a.eval) 0)
  | sizeToPtrdiff a => do passOn (bruSizeToPtrdiff (← a.eval) 0)

/-- The integer that the expression stands for. -/
def exactValue {k : CheckedType} : CheckedExpr k → Int
  | value k x => k.integerType.value x
  | ptrdiffAdd2 a b | unsignedLongAdd2 a b | sizeAdd2 a b => a.exactValue + b.exactValue
  | sizeSubtract2 a b => a.exactValue - b.exactValue
  | sizeSubtract3 a b c => a.exactValue - b.exactValue - c.exactValue
  | ptrdiffMultiply2 a b | uintMultiply2 a b | sizeMultiply2 a b => a.exactValue * b.exactValue
  | ptrdiffMultiply3 a b c | uintMultiply3 a b c | sizeMultiply3 a b c =>
    a.exactValue * b.exactValue * c.exactValue
  | sizeToInt32 a | sizeToGlsizei a | glsizeiToSize a | ptrdiffToSize a | sizeToPtrdiff a =>
    a.exactValue

/-- The exact values of all steps fit, also that of the first two of three operands. -/
def Fits {k : CheckedType} : CheckedExpr k → Prop
  | value _ _ => True
  | ptrdiffAdd2 a b => a.Fits ∧ b.Fits ∧ ptrdiffType.Fits (a.exactValue + b.exactValue)
  | unsignedLongAdd2 a b | sizeAdd2 a b =>
    a.Fits ∧ b.Fits ∧ sizeType.Fits (a.exactValue + b.exactValue)
  | sizeSubtract2 a b => a.Fits ∧ b.Fits ∧ sizeType.Fits (a.exactValue - b.exactValue)
  | sizeSubtract3 a b c =>
    a.Fits ∧ b.Fits ∧ c.Fits ∧ sizeType.Fits (a.exactValue - b.exactValue) ∧
      sizeType.Fits (a.exactValue - b.exactValue - c.exactValue)
  | ptrdiffMultiply2 a b => a.Fits ∧ b.Fits ∧ ptrdiffType.Fits (a.exactValue * b.exactValue)
  | ptrdiffMultiply3 a b c =>
    a.Fits ∧ b.Fits ∧ c.Fits ∧ ptrdiffType.Fits (a.exactValue * b.exactValue) ∧
      ptrdiffType.Fits (a.exactValue * b.exactValue * c.exactValue)
  | uintMultiply2 a b => a.Fits ∧ b.Fits ∧ uintType.Fits (a.exactValue * b.exactValue)
  | uintMultiply3 a b c =>
    a.Fits ∧ b.Fits ∧ c.Fits ∧ uintType.Fits (a.exactValue * b.exactValue) ∧
      uintType.Fits (a.exactValue * b.exactValue * c.exactValue)
  | sizeMultiply2 a b => a.Fits ∧ b.Fits ∧ sizeType.Fits (a.exactValue * b.exactValue)
  | sizeMultiply3 a b c =>
    a.Fits ∧ b.Fits ∧ c.Fits ∧ sizeType.Fits (a.exactValue * b.exactValue) ∧
      sizeType.Fits (a.exactValue * b.exactValue * c.exactValue)
  | sizeToInt32 a | sizeToGlsizei a => a.Fits ∧ int32Type.Fits a.exactValue
  | glsizeiToSize a | ptrdiffToSize a => a.Fits ∧ sizeType.Fits a.exactValue
  | sizeToPtrdiff a => a.Fits ∧ ptrdiffType.Fits a.exactValue

end CheckedExpr

/-! ## The functions on the integers -/

/-- A call answers whether `fits` holds, and stores `n` then. -/
structure Computes {X : Type} (T : IntegerType X) (call : Bool × X) (fits : Prop) (n : Int) :
    Prop where
  answer : call.1 = true ↔ fits
  stored : call.1 = true → T.value call.2 = n

section Computes

variable {X : Type} {T : IntegerType X}

theorem IntegerType.Checked.computes {multiply2 : X → X → Bool × X} (h : T.Checked multiply2)
    (a b : X) : Computes T (multiply2 a b) (T.Fits (T.value a * T.value b))
      (T.value a * T.value b) :=
  ⟨h.answer a b, h.stored a b⟩

theorem IntegerType.Checked.computes3 {multiply2 : X → X → Bool × X} (h : T.Checked multiply2)
    (a b c result : X) : Computes T (multiply3 multiply2 a b c result)
      (T.Fits (T.value a * T.value b) ∧ T.Fits (T.value a * T.value b * T.value c))
      (T.value a * T.value b * T.value c) :=
  ⟨h.answer3 a b c result, h.stored3⟩

theorem computes_ptrdiffAdd2 (a b : Int64) :
    Computes ptrdiffType (bruPtrdiffAdd2 a b) (ptrdiffType.Fits (a.toInt + b.toInt))
      (a.toInt + b.toInt) where
  answer := by
    rw [show (bruPtrdiffAdd2 a b).1 = !(builtinSaddlOverflow a b).1 from rfl,
      Bool.not_eq_true', saddl_fits]
    rfl
  stored h := toInt_saddl (by simpa [bruPtrdiffAdd2] using h)

theorem computes_sizeAdd2 (a b : UInt64) :
    Computes sizeType (bruSizeAdd2 a b) (sizeType.Fits (a.toNat + b.toNat : Int))
      (a.toNat + b.toNat : Int) where
  answer := by
    rw [show (bruSizeAdd2 a b).1 = !(builtinUaddlOverflow a b).1 from rfl,
      Bool.not_eq_true', uaddl_fits]
    show _ ↔ (0 : Int) ≤ a.toNat + b.toNat ∧ (a.toNat + b.toNat : Int) < 2 ^ 64
    omega
  stored h := by
    have hsum := toNat_uaddl (a := a) (b := b) (by simpa [bruSizeAdd2] using h)
    show ((builtinUaddlOverflow a b).2.toNat : Int) = _
    omega

theorem computes_sizeSubtract2 (a b : UInt64) :
    Computes sizeType (bruSizeSubtract2 a b) (sizeType.Fits (a.toNat - b.toNat : Int))
      (a.toNat - b.toNat : Int) where
  answer := by
    have ha := a.toNat_lt
    rw [show (bruSizeSubtract2 a b).1 = !(builtinUsublOverflow a b).1 from rfl,
      Bool.not_eq_true', usubl_fits]
    show _ ↔ (0 : Int) ≤ a.toNat - b.toNat ∧ (a.toNat - b.toNat : Int) < 2 ^ 64
    omega
  stored h := by
    have hfits : (builtinUsublOverflow a b).1 = false := by simpa [bruSizeSubtract2] using h
    have hle := usubl_fits.mp hfits
    have hdifference := toNat_usubl hfits
    show ((builtinUsublOverflow a b).2.toNat : Int) = _
    omega

theorem computes_sizeSubtract3 (a b c result : UInt64) :
    Computes sizeType (bruSizeSubtract3 a b c result)
      (sizeType.Fits (a.toNat - b.toNat : Int) ∧
        sizeType.Fits (a.toNat - b.toNat - c.toNat : Int))
      (a.toNat - b.toNat - c.toNat : Int) := by
  have hab := computes_sizeSubtract2 a b
  by_cases hfits : (bruSizeSubtract2 a b).1 = true
  · have hstored : ((bruSizeSubtract2 a b).2.toNat : Int) = a.toNat - b.toNat := hab.stored hfits
    have heq : bruSizeSubtract3 a b c result = bruSizeSubtract2 (bruSizeSubtract2 a b).2 c := by
      simp [bruSizeSubtract3, hfits]
    have hc := computes_sizeSubtract2 (bruSizeSubtract2 a b).2 c
    rw [hstored, ← heq] at hc
    exact ⟨hc.answer.trans (and_iff_right (hab.answer.mp hfits)).symm, hc.stored⟩
  · have heq : bruSizeSubtract3 a b c result = (false, result) := by
      simp [bruSizeSubtract3, Bool.eq_false_iff.mpr hfits]
    have hnot := mt hab.answer.mpr hfits
    rw [heq]
    exact ⟨by simp [hnot], fun h => by cases h⟩

/-- A conversion checks its argument and then casts it. -/
theorem computes_ite {condition : Prop} [Decidable condition] {fits : Prop} {n : Int}
    {result converted : X} (hfits : fits ↔ ¬ condition)
    (hvalue : ¬ condition → T.value converted = n) :
    Computes T (if condition then (false, result) else (true, converted)) fits n := by
  by_cases hcondition : condition
  · rw [if_pos hcondition]
    exact ⟨by simp [hfits, hcondition], fun h => by cases h⟩
  · rw [if_neg hcondition]
    exact ⟨by simp [hfits, hcondition], fun _ => hvalue hcondition⟩

theorem computes_sizeToInt32 (a : UInt64) (result : Int32) :
    Computes int32Type (bruSizeToInt32 a result) (int32Type.Fits a.toNat) a.toNat := by
  have hiff : 2147483647 < a ↔ 2147483647 < a.toNat := UInt64.lt_iff_toNat_lt
  refine computes_ite ?_ ?_
  · show (-2 ^ 31 : Int) ≤ a.toNat ∧ (a.toNat : Int) < 2 ^ 31 ↔ _
    rw [hiff]
    omega
  · intro hsmall
    rw [hiff] at hsmall
    have hnat : a.toUInt32.toBitVec.toNat = a.toNat % 2 ^ 32 := UInt64.toNat_toUInt32 a
    show a.toUInt32.toBitVec.toInt = _
    rw [BitVec.toInt_eq_toNat_cond, hnat, if_pos (by omega)]
    omega

theorem computes_glsizeiToSize (a : Int32) (result : UInt64) :
    Computes sizeType (bruGlsizeiToSize a result) (sizeType.Fits a.toInt) a.toInt := by
  have hiff : a < 0 ↔ a.toInt < 0 := Int32.lt_iff_toInt_lt
  have hlt := a.toInt_lt
  refine computes_ite ?_ ?_
  · show (0 : Int) ≤ a.toInt ∧ a.toInt < 2 ^ 64 ↔ _
    rw [hiff]
    omega
  · intro hnonneg
    rw [hiff] at hnonneg
    show (a.toInt64.toUInt64.toNat : Int) = _
    rw [toNat_toUInt64 (by rw [Int32.toInt_toInt64]; omega), Int32.toInt_toInt64]

theorem computes_ptrdiffToSize (a : Int64) (result : UInt64) :
    Computes sizeType (bruPtrdiffToSize a result) (sizeType.Fits a.toInt) a.toInt := by
  have hiff : a < 0 ↔ a.toInt < 0 := Int64.lt_iff_toInt_lt
  have hlt := a.toInt_lt
  refine computes_ite ?_ ?_
  · show (0 : Int) ≤ a.toInt ∧ a.toInt < 2 ^ 64 ↔ _
    rw [hiff]
    omega
  · intro hnonneg
    rw [hiff] at hnonneg
    exact toNat_toUInt64 (by omega)

theorem computes_sizeToPtrdiff (a : UInt64) (result : Int64) :
    Computes ptrdiffType (bruSizeToPtrdiff a result) (ptrdiffType.Fits a.toNat) a.toNat := by
  have hiff : 9223372036854775807 < a ↔ 9223372036854775807 < a.toNat := UInt64.lt_iff_toNat_lt
  refine computes_ite ?_ ?_
  · show (-2 ^ 63 : Int) ≤ a.toNat ∧ (a.toNat : Int) < 2 ^ 63 ↔ _
    rw [hiff]
    omega
  · intro hsmall
    rw [hiff] at hsmall
    show a.toInt64.toInt = _
    rw [toInt_toInt64, if_pos (by omega)]

end Computes

/-! ## The expressions on the integers -/

/-- A result that is there if `fits` holds, and then is `n`. -/
def Agrees {X : Type} (T : IntegerType X) (result : Option X) (fits : Prop) (n : Int) : Prop :=
  (fits ∧ ∃ x, result = some x ∧ T.value x = n) ∨ (¬ fits ∧ result = none)

section Agrees

variable {X Y : Type} {T : IntegerType X} {U : IntegerType Y} {fits fits' : Prop} {n m : Int}

theorem Computes.agrees {call : Bool × X} (h : Computes T call fits n) :
    Agrees T (passOn call) fits n := by
  unfold passOn
  by_cases hcall : call.1 = true
  · rw [if_pos hcall]
    exact .inl ⟨h.answer.mp hcall, _, rfl, h.stored hcall⟩
  · rw [if_neg hcall]
    exact .inr ⟨mt h.answer.mpr hcall, rfl⟩

/-- The first result that is missing ends the calls. -/
theorem Agrees.bind {result : Option X} {next : X → Option Y} (h : Agrees T result fits n)
    (hnext : ∀ x, T.value x = n → Agrees U (next x) fits' m) :
    Agrees U (result >>= next) (fits ∧ fits') m := by
  rcases h with ⟨hfits, x, rfl, hvalue⟩ | ⟨hfits, rfl⟩
  · rcases hnext x hvalue with ⟨hfits', y, hy, hvalue'⟩ | ⟨hfits', hnone⟩
    · exact .inl ⟨⟨hfits, hfits'⟩, y, hy, hvalue'⟩
    · exact .inr ⟨fun hboth => hfits' hboth.2, hnone⟩
  · exact .inr ⟨fun hboth => hfits hboth.1, rfl⟩

theorem Agrees.eq_some_iff {result : Option X} (h : Agrees T result fits n) {x : X} :
    result = some x ↔ fits ∧ T.value x = n := by
  rcases h with ⟨hfits, y, rfl, hvalue⟩ | ⟨hfits, rfl⟩
  · rw [Option.some.injEq]
    constructor
    · rintro rfl
      exact ⟨hfits, hvalue⟩
    · rintro ⟨_, hx⟩
      exact T.value_inj y x (hvalue.trans hx.symm)
  · simp [hfits]

end Agrees

namespace CheckedExpr

/-- Every call agrees with the integers. -/
theorem agrees {k : CheckedType} (e : CheckedExpr k) :
    Agrees k.integerType e.eval e.Fits e.exactValue := by
  induction e with
  | value k x => exact .inl ⟨trivial, x, rfl, rfl⟩
  | ptrdiffAdd2 a b iha ihb =>
    refine iha.bind fun x hx => ihb.bind fun y hy => ?_
    simp only [exactValue, ← hx, ← hy]
    exact (computes_ptrdiffAdd2 x y).agrees
  | unsignedLongAdd2 a b iha ihb | sizeAdd2 a b iha ihb =>
    refine iha.bind fun x hx => ihb.bind fun y hy => ?_
    simp only [exactValue, ← hx, ← hy]
    exact (computes_sizeAdd2 x y).agrees
  | sizeSubtract2 a b iha ihb =>
    refine iha.bind fun x hx => ihb.bind fun y hy => ?_
    simp only [exactValue, ← hx, ← hy]
    exact (computes_sizeSubtract2 x y).agrees
  | sizeSubtract3 a b c iha ihb ihc =>
    refine iha.bind fun x hx => ihb.bind fun y hy => ihc.bind fun z hz => ?_
    simp only [exactValue, ← hx, ← hy, ← hz]
    exact (computes_sizeSubtract3 x y z 0).agrees
  | ptrdiffMultiply2 a b iha ihb =>
    refine iha.bind fun x hx => ihb.bind fun y hy => ?_
    simp only [exactValue, ← hx, ← hy]
    exact (checked_ptrdiff.computes x y).agrees
  | ptrdiffMultiply3 a b c iha ihb ihc =>
    refine iha.bind fun x hx => ihb.bind fun y hy => ihc.bind fun z hz => ?_
    simp only [exactValue, ← hx, ← hy, ← hz]
    exact (checked_ptrdiff.computes3 x y z 0).agrees
  | uintMultiply2 a b iha ihb =>
    refine iha.bind fun x hx => ihb.bind fun y hy => ?_
    simp only [exactValue, ← hx, ← hy]
    exact (checked_uint.computes x y).agrees
  | uintMultiply3 a b c iha ihb ihc =>
    refine iha.bind fun x hx => ihb.bind fun y hy => ihc.bind fun z hz => ?_
    simp only [exactValue, ← hx, ← hy, ← hz]
    exact (checked_uint.computes3 x y z 0).agrees
  | sizeMultiply2 a b iha ihb =>
    refine iha.bind fun x hx => ihb.bind fun y hy => ?_
    simp only [exactValue, ← hx, ← hy]
    exact (checked_size.computes x y).agrees
  | sizeMultiply3 a b c iha ihb ihc =>
    refine iha.bind fun x hx => ihb.bind fun y hy => ihc.bind fun z hz => ?_
    simp only [exactValue, ← hx, ← hy, ← hz]
    exact (checked_size.computes3 x y z 0).agrees
  | sizeToInt32 a ih | sizeToGlsizei a ih =>
    refine ih.bind fun x hx => ?_
    simp only [exactValue, ← hx]
    exact (computes_sizeToInt32 x 0).agrees
  | glsizeiToSize a ih =>
    refine ih.bind fun x hx => ?_
    simp only [exactValue, ← hx]
    exact (computes_glsizeiToSize x 0).agrees
  | ptrdiffToSize a ih =>
    refine ih.bind fun x hx => ?_
    simp only [exactValue, ← hx]
    exact (computes_ptrdiffToSize x 0).agrees
  | sizeToPtrdiff a ih =>
    refine ih.bind fun x hx => ?_
    simp only [exactValue, ← hx]
    exact (computes_sizeToPtrdiff x 0).agrees

/-- The calls end with the exact value if every step fits, and give up otherwise. -/
theorem eval_eq_some_iff {k : CheckedType} (e : CheckedExpr k) (x : k.Machine) :
    e.eval = some x ↔ e.Fits ∧ k.integerType.value x = e.exactValue :=
  e.agrees.eq_some_iff

end CheckedExpr

-- a sum that does not fit ends the calls, also where the difference would fit again
example : CheckedExpr.eval (.sizeSubtract3 (.value .size (10 : UInt64))
      (.value .size (4 : UInt64)) (.value .size (5 : UInt64))) = some (1 : UInt64) ∧
    CheckedExpr.eval (.sizeSubtract2 (.sizeAdd2 (.value .size (0xFFFFFFFFFFFFFFFF : UInt64))
      (.value .size (1 : UInt64))) (.value .size (1 : UInt64))) = none :=
  ⟨rfl, rfl⟩

end BromiumCoreUtils
