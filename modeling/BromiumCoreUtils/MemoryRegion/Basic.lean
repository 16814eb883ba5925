import BromiumCoreUtils.Arithmetic.Basic
import BromiumCoreUtils.Foundation

/-!
# `BRUMemoryRegion`

A memory region is an address and a length.  The functions here never touch the
memory: they compare addresses and calculate new ones, with the checked
operations of `BRUArithmetic`.  Addresses are compared as unsigned integers.

`containsRegion_iff` and `subRegionWithOffset_eq_true` say in unbounded integers
what the two main functions answer.
-/

namespace BromiumCoreUtils

/-- `BRUMemoryRegionErrorDomain`. -/
def BRUMemoryRegionErrorDomain : String := "BRUMemoryRegionErrorDomain"

/-- `BRUMemoryRegionErrorOutOfBounds`. -/
def BRUMemoryRegionErrorOutOfBounds : Int := 1

/-- `BRUMemoryRegionRemainder`, which is `SIZE_T_MAX`. -/
def BRUMemoryRegionRemainder : UInt64 := 18446744073709551615

/-- `BRUMemoryRegion`. -/
structure BRUMemoryRegion where
  bytes : UInt64
  length : UInt64
deriving DecidableEq, Repr

/-- `BRU_ASSIGN_OUT_PTR`.  An out-parameter that is `NULL` is `none`. -/
def bruAssignOutPtr {T : Type} (var : Option T) (value : T) : Option T :=
  var.map fun _ => value

namespace BRUMemoryRegion

/-- `NSStringFromBRUMemoryRegion`. -/
def toNSString (region : BRUMemoryRegion) : String :=
  "\x7bbytes=0x" ++ String.ofList (Nat.toDigits 16 region.bytes.toNat) ++ ", length=" ++
    toString region.length.toNat ++ "\x7d"

/-- `BRUMemoryRegionGetEnd`. -/
def getEnd (region : BRUMemoryRegion) (result : UInt64) : Bool × UInt64 :=
  let (ok, end_) := bruUnsignedLongAdd2 region.bytes region.length
  if !ok then (false, result) else (true, end_)

/-- `BRUMemoryRegionContainsRegion`. -/
def containsRegion (region1 region2 : BRUMemoryRegion) : Bool :=
  if region2.bytes < region1.bytes then false
  else
    let (ok1, end1) := region1.getEnd 0
    let (ok2, end2) := region2.getEnd 0
    if !ok1 || !ok2 then false
    else if end2 > end1 then false
    else true

/-- `BRUMemoryRegionSubRegionWithOffset`. -/
def subRegionWithOffset (region : BRUMemoryRegion) (offset : Int64) (length : UInt64)
    (result : BRUMemoryRegion) : Bool × BRUMemoryRegion :=
  if offset < 0 then (false, result)
  else
    let (ok, newBytes) := bruOffsetPointer region.bytes offset 0
    if !ok then (false, result)
    else
      let (ok, offsetSize) := bruPtrdiffToSize offset 0
      if !ok then (false, result)
      else
        -- the remainder is calculated if it is asked for
        let (ok, newLength) :=
          if length = BRUMemoryRegionRemainder then bruSizeSubtract2 region.length offsetSize
          else (true, length)
        if !ok then (false, result)
        else
          let newRegion : BRUMemoryRegion := { bytes := newBytes, length := newLength }
          if !region.containsRegion newRegion then (false, result) else (true, newRegion)

/-- The error of `BRUMemoryRegionSubRegionWithOffsetAndError`. -/
def outOfBounds (region : BRUMemoryRegion) (offset : Int64) (length : UInt64) : NSError where
  domain := BRUMemoryRegionErrorDomain
  code := BRUMemoryRegionErrorOutOfBounds
  userInfo := [("description",
    "Failed to create memory sub-region from region (region=" ++ region.toNSString ++
      ", offset=" ++ toString offset.toInt ++ ", length=" ++ toString length.toNat ++ ").")]

/-- `BRUMemoryRegionSubRegionWithOffsetAndError`. -/
def subRegionWithOffsetAndError (region : BRUMemoryRegion) (offset : Int64) (length : UInt64)
    (result : BRUMemoryRegion) (error : Option (Option NSError)) :
    Bool × BRUMemoryRegion × Option (Option NSError) :=
  let (ok, result) := region.subRegionWithOffset offset length result
  if !ok then (false, result, bruAssignOutPtr error (some (region.outOfBounds offset length)))
  else (true, result, error)

/-! ## In unbounded integers -/

/-- The end address, which the machine may not be able to represent. -/
def endAddress (region : BRUMemoryRegion) : Nat := region.bytes.toNat + region.length.toNat

/-- The end is stored if it is an address. -/
theorem getEnd_eq (region : BRUMemoryRegion) (result : UInt64) :
    region.getEnd result = if region.endAddress < 2 ^ 64
      then (true, UInt64.ofNat region.endAddress) else (false, result) := by
  have hadd : ∀ out, bruUnsignedLongAdd2 region.bytes region.length = (true, out) ↔
      region.endAddress < 2 ^ 64 ∧ out.toNat = region.endAddress :=
    fun _ => bruUnsignedLongAdd2_eq_true
  simp only [getEnd]
  cases hsum : bruUnsignedLongAdd2 region.bytes region.length with
  | mk ok end_ =>
    cases ok with
    | false =>
      have hnot : ¬ region.endAddress < 2 ^ 64 := by
        intro hlt
        have htrue := (hadd _).mpr ⟨hlt, UInt64.toNat_ofNat_of_lt' hlt⟩
        rw [hsum] at htrue
        cases htrue
      rw [if_neg hnot]
      rfl
    | true =>
      obtain ⟨hlt, hout⟩ := (hadd _).mp hsum
      rw [if_pos hlt, ← hout, UInt64.ofNat_toNat]
      rfl

/-- Containment is one between the addresses, and both ends have to be
addresses. -/
theorem containsRegion_iff {region1 region2 : BRUMemoryRegion} :
    region1.containsRegion region2 = true ↔
      region1.bytes.toNat ≤ region2.bytes.toNat ∧ region2.endAddress ≤ region1.endAddress ∧
        region1.endAddress < 2 ^ 64 := by
  simp only [containsRegion, getEnd_eq, UInt64.lt_iff_toNat_lt]
  by_cases hbytes : region2.bytes.toNat < region1.bytes.toNat
  · rw [if_pos hbytes]
    simp only [Bool.false_eq_true, false_iff]
    omega
  · rw [if_neg hbytes]
    by_cases hend1 : region1.endAddress < 2 ^ 64
    · by_cases hend2 : region2.endAddress < 2 ^ 64
      · simp only [if_pos hend1, if_pos hend2,
          UInt64.toNat_ofNat_of_lt' hend1, UInt64.toNat_ofNat_of_lt' hend2, Bool.not_true,
          Bool.or_self, Bool.false_eq_true, if_false]
        split <;> simp <;> omega
      · simp only [if_pos hend1, if_neg hend2, Bool.not_true, Bool.not_false, Bool.false_or,
          if_true, Bool.false_eq_true, false_iff]
        omega
    · simp only [if_neg hend1, Bool.not_false, Bool.true_or, if_true, Bool.false_eq_true,
        false_iff]
      omega

/-- The length that is asked for. -/
def requestedLength (region : BRUMemoryRegion) (offset : Int64) (length : UInt64) : Int :=
  if length = BRUMemoryRegionRemainder then region.length.toNat - offset.toInt
  else length.toNat

/-- The length of the new region is the one asked for, unless the remainder is
negative. -/
theorem newLength_eq_true {region : BRUMemoryRegion} {offset : Int64} {length out : UInt64}
    (hoffset : 0 ≤ offset.toInt) :
    (if length = BRUMemoryRegionRemainder
        then bruSizeSubtract2 region.length offset.toUInt64 else (true, length)) = (true, out) ↔
      (out.toNat : Int) = region.requestedLength offset length := by
  have hcast := toNat_toUInt64 hoffset
  unfold requestedLength
  by_cases hlength : length = BRUMemoryRegionRemainder
  · rw [if_pos hlength, if_pos hlength, bruSizeSubtract2_eq_true]
    omega
  · rw [if_neg hlength, if_neg hlength]
    simp only [Prod.mk.injEq, true_and, ← UInt64.toNat_inj]
    omega

/-- When the sub-region is made, and what it is.  The signed sum of the base and
the offset can be small although the address has wrapped around; then the new
base is less than the old one. -/
theorem subRegionWithOffset_eq_true {region result out : BRUMemoryRegion} {offset : Int64}
    {length : UInt64} :
    region.subRegionWithOffset offset length result = (true, out) ↔
      0 ≤ offset.toInt ∧ region.bytes.toNat + offset.toInt < 2 ^ 63 ∧
        (out.bytes.toNat : Int) = region.bytes.toNat + offset.toInt ∧
        (out.length.toNat : Int) = region.requestedLength offset length ∧
        out.endAddress ≤ region.endAddress ∧ region.endAddress < 2 ^ 64 := by
  have hsigned := toInt_toInt64 region.bytes
  have hbase := region.bytes.toNat_lt
  have hmax := offset.toInt_lt
  constructor
  · intro h
    simp only [subRegionWithOffset] at h
    split at h
    · cases h
    · rename_i hneg
      have hoffset : 0 ≤ offset.toInt :=
        Int.not_lt.mp (fun hlt => hneg (Int64.lt_iff_toInt_lt.mpr hlt))
      rw [bruPtrdiffToSize_eq hoffset] at h
      cases hpointer : bruOffsetPointer region.bytes offset 0 with
      | mk ok newBytes =>
        cases ok with
        | false => simp [hpointer] at h
        | true =>
          obtain ⟨hpos, hlt, hbytes⟩ := bruOffsetPointer_eq_true.mp hpointer
          cases hlen : (if length = BRUMemoryRegionRemainder
              then bruSizeSubtract2 region.length offset.toUInt64 else (true, length)) with
          | mk ok newLength =>
            cases ok with
            | false => simp [hpointer, hlen] at h
            | true =>
              have hrequested := (newLength_eq_true hoffset).mp hlen
              simp only [hpointer, hlen, Bool.not_true, Bool.false_eq_true, if_false] at h
              split at h
              · cases h
              · rename_i hcontains
                rw [← (Prod.mk.inj h).2]
                obtain ⟨hge, hend, hfits⟩ := containsRegion_iff.mp (by simpa using hcontains)
                have hge : region.bytes.toNat ≤ newBytes.toNat := hge
                refine ⟨hoffset, ?_, ?_, hrequested, hend, hfits⟩
                · split at hsigned <;> omega
                · show (newBytes.toNat : Int) = region.bytes.toNat + offset.toInt
                  split at hsigned <;> omega
  · rintro ⟨hoffset, hlt, hbytes, hlength, hend, hfits⟩
    have hneg : ¬ offset < 0 := by
      rw [Int64.lt_iff_toInt_lt]
      exact Int.not_lt.mpr hoffset
    have hpointer : bruOffsetPointer region.bytes offset 0 = (true, out.bytes) := by
      rw [bruOffsetPointer_eq_true, hsigned, if_pos (by omega)]
      omega
    have hlen := (newLength_eq_true hoffset).mpr hlength
    have hcontains : region.containsRegion out = true :=
      containsRegion_iff.mpr ⟨by omega, hend, hfits⟩
    simp [subRegionWithOffset, hneg, hpointer, bruPtrdiffToSize_eq hoffset, hlen, hcontains]

/-- Where no sub-region is made, nothing is stored. -/
theorem subRegionWithOffset_eq_false {region result out : BRUMemoryRegion} {offset : Int64}
    {length : UInt64} (h : region.subRegionWithOffset offset length result = (false, out)) :
    out = result := by
  simp only [subRegionWithOffset] at h
  repeat' split at h
  all_goals first
    | exact (Prod.mk.inj h).2.symm
    | cases h

end BRUMemoryRegion

end BromiumCoreUtils
