import BromiumCoreUtils.MemoryRegion.Basic
import Mathlib.Algebra.Ring.Int.Defs

/-!
# Sub-regions

`SubRegionContract` is what `BRUMemoryRegionSubRegionWithOffset` promises, with
the addresses, the offset and the lengths taken as unbounded integers.

A parser slices its input again and again.  `subRegions` is such a chain of
calls, and `subRegions_compose` replaces the whole chain by one call.  The
chain without a step is the exception: it accepts every region, the direct call
does not.
-/

namespace BromiumCoreUtils

namespace BRUMemoryRegion

/-! ## One sub-region -/

/-- What `BRUMemoryRegionSubRegionWithOffset` promises. -/
structure SubRegionContract (region : BRUMemoryRegion) (offset : Int64) (length : UInt64) :
    Prop where
  /-- A sub-region that is made is the one asked for, and it is inside the
  region. -/
  inside : ∀ result out, region.subRegionWithOffset offset length result = (true, out) →
    0 ≤ offset.toInt ∧ 0 ≤ region.requestedLength offset length ∧
      (out.bytes.toNat : Int) = region.bytes.toNat + offset.toInt ∧
      (out.length.toNat : Int) = region.requestedLength offset length ∧
      region.bytes.toNat ≤ out.bytes.toNat ∧
      out.bytes.toNat + out.length.toNat ≤ region.bytes.toNat + region.length.toNat ∧
      region.bytes.toNat + region.length.toNat < 2 ^ 64
  /-- In the lower half of the addresses every sub-region is made. -/
  complete : region.bytes.toNat + region.length.toNat < 2 ^ 63 → 0 ≤ offset.toInt →
    0 ≤ region.requestedLength offset length →
    offset.toInt + region.requestedLength offset length ≤ region.length.toNat →
      ∀ result, (region.subRegionWithOffset offset length result).1 = true
  /-- If none is made, the out-parameter is untouched. -/
  untouched : ∀ result out, region.subRegionWithOffset offset length result = (false, out) →
    out = result
  /-- The variant with an error has the same answer and the same region. -/
  same : ∀ result error,
    (region.subRegionWithOffsetAndError offset length result error).1 =
        (region.subRegionWithOffset offset length result).1 ∧
      (region.subRegionWithOffsetAndError offset length result error).2.1 =
        (region.subRegionWithOffset offset length result).2
  /-- It assigns the error, if it can, when the answer is `NO`, -/
  assigned : ∀ result error, (region.subRegionWithOffset offset length result).1 = false →
    (region.subRegionWithOffsetAndError offset length result error).2.2 =
      bruAssignOutPtr error (some (region.outOfBounds offset length))
  /-- and only then. -/
  unassigned : ∀ result error, (region.subRegionWithOffset offset length result).1 = true →
    (region.subRegionWithOffsetAndError offset length result error).2.2 = error

/-- A sub-region that fits is made. -/
theorem exists_subRegion {region : BRUMemoryRegion} {offset : Int64} {length : UInt64}
    (hoffset : 0 ≤ offset.toInt) (hlow : region.bytes.toNat + offset.toInt < 2 ^ 63)
    (hlength : 0 ≤ region.requestedLength offset length)
    (hle : offset.toInt + region.requestedLength offset length ≤ region.length.toNat)
    (hfits : region.endAddress < 2 ^ 64) :
    ∃ out, ∀ result, region.subRegionWithOffset offset length result = (true, out) := by
  obtain ⟨b, hb⟩ := Int.eq_ofNat_of_zero_le (a := region.bytes.toNat + offset.toInt) (by omega)
  obtain ⟨n, hn⟩ := Int.eq_ofNat_of_zero_le hlength
  have hbytes : b < 2 ^ 64 := by omega
  have hlen : n < 2 ^ 64 := by
    have := region.length.toNat_lt
    omega
  refine ⟨⟨UInt64.ofNat b, UInt64.ofNat n⟩, ?_⟩
  intro result
  rw [subRegionWithOffset_eq_true]
  unfold endAddress at hfits ⊢
  simp only [UInt64.toNat_ofNat_of_lt' hbytes, UInt64.toNat_ofNat_of_lt' hlen]
  omega

/-- Sub-regions are exact and never wrap around. -/
theorem subRegionWithOffset_exact (region : BRUMemoryRegion) (offset : Int64)
    (length : UInt64) : SubRegionContract region offset length := by
  refine
    { inside := ?_, complete := ?_, untouched := fun _ _ => subRegionWithOffset_eq_false,
      same := ?_, assigned := ?_, unassigned := ?_ }
  · intro result out h
    obtain ⟨hoffset, _, hbytes, hlength, hend, hfits⟩ := subRegionWithOffset_eq_true.mp h
    exact ⟨hoffset, by omega, hbytes, hlength, by omega, hend, hfits⟩
  · intro hfits hoffset hlength hle result
    have hend : region.endAddress < 2 ^ 64 := by
      unfold endAddress
      omega
    obtain ⟨out, hout⟩ := exists_subRegion hoffset (by omega) hlength hle hend
    rw [hout]
  · intro result error
    simp only [subRegionWithOffsetAndError]
    cases region.subRegionWithOffset offset length result with
    | mk ok out => cases ok <;> simp
  · intro result error hno
    simp [subRegionWithOffsetAndError, hno]
  · intro result error hyes
    simp [subRegionWithOffsetAndError, hyes]

/-! ## Chains of sub-regions -/

/-- `BRUMemoryRegionNull`. -/
def BRUMemoryRegionNull : BRUMemoryRegion where
  bytes := 0
  length := 0

/-- The regions of a chain of calls, if every call succeeds. -/
def subRegions (region : BRUMemoryRegion) : List (Int64 × UInt64) → Option (List BRUMemoryRegion)
  | [] => some [region]
  | (offset, length) :: steps =>
    match region.subRegionWithOffset offset length BRUMemoryRegionNull with
    | (false, _) => none
    | (true, sub) => (sub.subRegions steps).map (region :: ·)

/-- The sum of the offsets. -/
def offsetSum (steps : List (Int64 × UInt64)) : Int :=
  (steps.map fun s => s.1.toInt).sum

/-- `inner` lies inside `outer`. -/
def Inside (outer inner : BRUMemoryRegion) : Prop :=
  outer.bytes.toNat ≤ inner.bytes.toNat ∧ inner.endAddress ≤ outer.endAddress

theorem Inside.trans {a b c : BRUMemoryRegion} (hab : Inside a b) (hbc : Inside b c) :
    Inside a c :=
  ⟨Nat.le_trans hab.1 hbc.1, Nat.le_trans hbc.2 hab.2⟩

/-- A chain that takes a step. -/
theorem subRegions_cons {region : BRUMemoryRegion} {offset : Int64} {length : UInt64}
    {steps : List (Int64 × UInt64)} {regions : List BRUMemoryRegion}
    (h : region.subRegions ((offset, length) :: steps) = some regions) :
    ∃ sub rest, region.subRegionWithOffset offset length BRUMemoryRegionNull = (true, sub) ∧
      sub.subRegions steps = some rest ∧ regions = region :: rest := by
  simp only [subRegions] at h
  split at h
  · cases h
  · rename_i sub hsub
    obtain ⟨rest, hrest, heq⟩ := Option.map_eq_some_iff.mp h
    exact ⟨sub, rest, hsub, hrest, heq.symm⟩

variable {region s : BRUMemoryRegion} {steps : List (Int64 × UInt64)}
  {regions : List BRUMemoryRegion}

/-- Every region of a chain is inside the first one. -/
theorem inside_of_subRegions (h : region.subRegions steps = some regions) :
    ∀ r ∈ regions, Inside region r := by
  induction steps generalizing region regions with
  | nil =>
    obtain rfl : [region] = regions := by simpa [subRegions] using h
    intro r hr
    rw [List.mem_singleton.mp hr]
    exact ⟨Nat.le_refl _, Nat.le_refl _⟩
  | cons step steps ih =>
    obtain ⟨sub, rest, hsub, hrest, rfl⟩ := subRegions_cons h
    obtain ⟨hoffset, _, hbytes, _, hend, _⟩ := subRegionWithOffset_eq_true.mp hsub
    intro r hr
    rcases List.mem_cons.mp hr with rfl | hr
    · exact ⟨Nat.le_refl _, Nat.le_refl _⟩
    · have hinside : Inside region sub := ⟨by omega, hend⟩
      exact hinside.trans (ih hrest r hr)

/-- Every earlier region of a chain contains every later one. -/
theorem containsRegion_of_subRegions (h : region.subRegions steps = some regions) :
    regions.Pairwise fun a b => a.containsRegion b = true := by
  induction steps generalizing region regions with
  | nil =>
    obtain rfl : [region] = regions := by simpa [subRegions] using h
    exact List.pairwise_singleton _ _
  | cons step steps ih =>
    obtain ⟨sub, rest, hsub, hrest, rfl⟩ := subRegions_cons h
    obtain ⟨_, _, hbytes, _, hend, hfits⟩ := subRegionWithOffset_eq_true.mp hsub
    refine List.pairwise_cons.mpr ⟨?_, ih hrest⟩
    intro r hr
    have hinside : Inside sub r := inside_of_subRegions hrest r hr
    have hstart := hinside.1
    exact containsRegion_iff.mpr ⟨by omega, Nat.le_trans hinside.2 hend, hfits⟩

/-- The offsets of a chain add up, from its first base to its last. -/
theorem last_bytes_of_subRegions (h : region.subRegions steps = some regions)
    (hlast : regions.getLast? = some s) :
    (s.bytes.toNat : Int) = region.bytes.toNat + offsetSum steps := by
  induction steps generalizing region regions with
  | nil =>
    obtain rfl : [region] = regions := by simpa [subRegions] using h
    obtain rfl : region = s := by simpa using hlast
    simp [offsetSum]
  | cons step steps ih =>
    obtain ⟨sub, rest, hsub, hrest, rfl⟩ := subRegions_cons h
    obtain ⟨_, _, hbytes, _, _, _⟩ := subRegionWithOffset_eq_true.mp hsub
    have hlast' : rest.getLast? = some s := by
      cases rest with
      | nil =>
        cases steps with
        | nil => simp [subRegions] at hrest
        | cons step steps =>
          obtain ⟨_, _, _, _, heq⟩ := subRegions_cons hrest
          cases heq
      | cons r rest => simpa using hlast
    have hsum := ih hrest hlast'
    have hcons : offsetSum (step :: steps) = step.1.toInt + offsetSum steps := by
      simp [offsetSum]
    rw [hcons]
    omega

/-- With a step, the chain stays in the lower half of the addresses, and no
partial sum of its offsets overflows. -/
theorem offsetSum_lt_of_subRegions (h : region.subRegions steps = some regions)
    (hne : steps ≠ []) : region.endAddress < 2 ^ 64 ∧
      ∀ n, 0 ≤ offsetSum (steps.take n) ∧
        region.bytes.toNat + offsetSum (steps.take n) < 2 ^ 63 := by
  induction steps generalizing region regions with
  | nil => exact absurd rfl hne
  | cons step steps ih =>
    obtain ⟨sub, rest, hsub, hrest, rfl⟩ := subRegions_cons h
    obtain ⟨hoffset, hlow, hbytes, _, _, hfits⟩ := subRegionWithOffset_eq_true.mp hsub
    refine ⟨hfits, ?_⟩
    intro n
    cases n with
    | zero =>
      simp only [List.take_zero, offsetSum, List.map_nil, List.sum_nil]
      omega
    | succ n =>
      have hcons : offsetSum (step :: steps.take n) =
          step.1.toInt + offsetSum (steps.take n) := by
        simp [offsetSum]
      rw [List.take_succ_cons, hcons]
      cases steps with
      | nil =>
        simp only [List.take_nil, offsetSum, List.map_nil, List.sum_nil]
        omega
      | cons step' steps =>
        have hrange := (ih hrest (by simp)).2 n
        omega

/-- One call does what a chain of calls does.  Every earlier region of the chain
contains every later one, no partial sum of the offsets overflows, and the
direct call makes the last region, if there is a step, or else if the region
itself is acceptable to it. -/
theorem subRegions_compose (h : region.subRegions steps = some regions)
    (hlast : regions.getLast? = some s) :
    (regions.Pairwise fun a b => a.containsRegion b = true) ∧
      (∀ n, 0 ≤ offsetSum (steps.take n) ∧ offsetSum (steps.take n) < 2 ^ 63) ∧
      ∀ result, region.subRegionWithOffset (Int64.ofInt (offsetSum steps)) s.length result =
          (true, s) ↔
        steps ≠ [] ∨ region.bytes.toNat < 2 ^ 63 ∧ region.endAddress < 2 ^ 64 := by
  have hsums : ∀ n, 0 ≤ offsetSum (steps.take n) ∧ offsetSum (steps.take n) < 2 ^ 63 := by
    intro n
    by_cases hne : steps = []
    · subst hne
      simp only [List.take_nil, offsetSum, List.map_nil, List.sum_nil]
      omega
    · have hrange := (offsetSum_lt_of_subRegions h hne).2 n
      omega
  have hbytes := last_bytes_of_subRegions h hlast
  have hinside := inside_of_subRegions h s (List.mem_of_getLast? hlast)
  refine ⟨containsRegion_of_subRegions h, hsums, ?_⟩
  intro result
  have hsum := hsums steps.length
  rw [List.take_length] at hsum
  have hoffset : (Int64.ofInt (offsetSum steps)).toInt = offsetSum steps :=
    Int64.toInt_ofInt_of_le (by omega) (by omega)
  rw [subRegionWithOffset_eq_true, hoffset]
  constructor
  · rintro ⟨_, hlow, _, _, _, hfits⟩
    by_cases hne : steps = []
    · refine Or.inr ⟨?_, hfits⟩
      omega
    · exact Or.inl hne
  · intro hcond
    have hlow : region.bytes.toNat + offsetSum steps < 2 ^ 63 ∧ region.endAddress < 2 ^ 64 := by
      by_cases hne : steps = []
      · obtain ⟨hlow, hfits⟩ := hcond.resolve_left (fun hnot => hnot hne)
        subst hne
        refine ⟨?_, hfits⟩
        simp only [offsetSum, List.map_nil, List.sum_nil]
        omega
      · obtain ⟨hfits, hrange⟩ := offsetSum_lt_of_subRegions h hne
        have hrange := hrange steps.length
        rw [List.take_length] at hrange
        exact ⟨hrange.2, hfits⟩
    refine ⟨hsum.1, hlow.1, hbytes, ?_, hinside.2, hlow.2⟩
    unfold requestedLength
    by_cases hlength : s.length = BRUMemoryRegionRemainder
    · -- a last length that happens to be the sentinel leaves no room for an offset
      have hmax : s.length.toNat = 18446744073709551615 := by rw [hlength]; rfl
      have hend := hinside.2
      have hfits := hlow.2
      unfold endAddress at hend hfits
      rw [if_pos hlength, hoffset]
      omega
    · rw [if_neg hlength]

/-- A direct call refuses an address in the upper half, a chain without a step
does not. -/
theorem empty_chain_not_direct :
    subRegions ⟨9223372036854775808, 0⟩ [] = some [⟨9223372036854775808, 0⟩] ∧
      subRegionWithOffset ⟨9223372036854775808, 0⟩ (Int64.ofInt (offsetSum [])) 0
        BRUMemoryRegionNull = (false, BRUMemoryRegionNull) := by
  decide

/-- A header is skipped, and the rest is cut to twelve bytes. -/
theorem subRegions_compose_header :
    [⟨4096, 64⟩, ⟨4112, 48⟩, ⟨4116, 12⟩].Pairwise
        (fun a b : BRUMemoryRegion => a.containsRegion b = true) ∧
      subRegionWithOffset ⟨4096, 64⟩ (Int64.ofInt 20) 12 BRUMemoryRegionNull =
        (true, ⟨4116, 12⟩) := by
  have h : subRegions ⟨4096, 64⟩ [(16, BRUMemoryRegionRemainder), (4, 12)] =
      some [⟨4096, 64⟩, ⟨4112, 48⟩, ⟨4116, 12⟩] := by decide
  obtain ⟨hpairs, _, hdirect⟩ := subRegions_compose h rfl
  exact ⟨hpairs, (hdirect BRUMemoryRegionNull).mpr (Or.inl (by simp))⟩

end BRUMemoryRegion

end BromiumCoreUtils
