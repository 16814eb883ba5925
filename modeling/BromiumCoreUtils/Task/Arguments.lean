import BromiumCoreUtils.Lib.Heap
import BromiumCoreUtils.TemporaryFiles.Basic

/-!
# The arguments and the environment of a `BRUTask`

`launchWithError:` hands `execve` two arrays of C strings that it has built on the heap, and
frees them in the parent.  An array ends with `NULL`, and this is how both the program and the
loop that frees it find its end.

Memory may run out: each string comes with the answer that `malloc` has for it, and an array
with the answer for the array itself.  A string that could not be copied is a `NULL` in the
middle of the array.
-/

namespace BromiumCoreUtils

open TextEncoding

/-- A block of the C heap: a string, or an array of pointers.  A cell that was not written is
`none`, and a written one may be `NULL`. -/
inductive CBlock where
  | chars (bytes : List UInt8)
  | pointers (cells : List (Option (Option Nat)))
deriving DecidableEq, Repr

abbrev CHeap := Heap CBlock

namespace CHeap

/-- `strdup`. -/
def strdup (bytes : List UInt8) (enough : Bool) (h : CHeap) : Option Nat × CHeap :=
  if enough then (some h.next, h.malloc (.chars bytes)) else (none, h)

/-- `p[i] = value`. -/
def storeCell (p i : Nat) (value : Option Nat) (h : CHeap) : Except HeapFault CHeap := do
  match ← h.load p with
  | .pointers cells =>
    if i < cells.length then h.store p (.pointers (cells.set i (some value)))
    else .error .invalidAccess
  | .chars _ => .error .invalidAccess

/-- `p[i]`. -/
def loadCell (p i : Nat) (h : CHeap) : Except HeapFault (Option Nat) := do
  match ← h.load p with
  | .pointers cells =>
    match cells[i]? with
    | some (some value) => .ok value
    | _ => .error .invalidAccess
  | .chars _ => .error .invalidAccess

def loadChars (p : Nat) (h : CHeap) : Except HeapFault (List UInt8) := do
  match ← h.load p with
  | .chars bytes => .ok bytes
  | .pointers _ => .error .invalidAccess

/-- How many cells there are to go through. -/
def cellCount (p : Nat) (h : CHeap) : Nat :=
  match h.blocks p with
  | some (.pointers cells) => cells.length
  | _ => 0

end CHeap

open CHeap

/-- A string of an array, and whether there is enough memory for its copy. -/
structure ArrayString where
  text : List Char
  enough : Bool
deriving DecidableEq, Repr

/-- What `strdup` copies of it: `UTF8String`, up to the first NUL. -/
def ArrayString.bytes (s : ArrayString) : List UInt8 := cString (utf8 s.text)

/-- The loop that copies the strings, from the cell `i` on. -/
def copyStrings (ret : Nat) : Nat → List ArrayString → CHeap → Except HeapFault CHeap
  | i, [], h => storeCell ret i none h
  | i, s :: arr, h => do
    let (copy, h) := strdup s.bytes s.enough h
    let h ← storeCell ret i copy h
    copyStrings ret (i + 1) arr h

/-- An array with no element is `NULL`, as no array is. -/
def deepMallocedNullTerminatedArrayOfCUTF8StringsWithArray (enough : Bool)
    (arr : List ArrayString) (h : CHeap) : Except HeapFault (Option Nat × CHeap) :=
  if arr.isEmpty then .ok (none, h)
  else if enough then do
    let ret := h.next
    let h ← copyStrings ret 0 arr (h.malloc (.pointers (List.replicate (arr.length + 1) none)))
    pure (some ret, h)
  else .error .invalidAccess

/-- The loop that frees the strings.  There are at most `fuel` cells left, and behind them the
access is invalid. -/
def freeStrings (cArray : Nat) : Nat → Nat → CHeap → Except HeapFault CHeap
  | 0, _, _ => .error .invalidAccess
  | fuel + 1, i, h => do
    match ← loadCell cArray i h with
    | none => pure h
    | some s =>
      let h ← h.free s
      freeStrings cArray fuel (i + 1) h

def freeDeepMallocedNullTerminatedArrayOfCUTF8StringsWithArray (cArray : Option Nat)
    (h : CHeap) : Except HeapFault CHeap :=
  match cArray with
  | none => .ok h
  | some p => do
    let h ← freeStrings p (cellCount p h) 0 h
    h.free p

/-- The strings that a program finds in an array. -/
def readStrings (cArray : Nat) : Nat → Nat → CHeap → Except HeapFault (List (List UInt8))
  | 0, _, _ => .error .invalidAccess
  | fuel + 1, i, h => do
    match ← loadCell cArray i h with
    | none => pure []
    | some s =>
      let bytes ← loadChars s h
      let rest ← readStrings cArray fuel (i + 1) h
      pure (bytes :: rest)

/-- `execve` takes no array for one without elements. -/
def readArray (cArray : Option Nat) (h : CHeap) : Except HeapFault (List (List UInt8)) :=
  match cArray with
  | none => .ok []
  | some p => readStrings p (cellCount p h) 0 h

/-! ## Cells -/

namespace CHeap

variable {h : CHeap} {p i : Nat} {cells : List (Option (Option Nat))} {value : Option Nat}

theorem exists_storeCell (hblock : h.blocks p = some (.pointers cells)) (hi : i < cells.length)
    (value : Option Nat) :
    ∃ h', storeCell p i value h = .ok h' ∧
      h'.blocks = Function.update h.blocks p (some (.pointers (cells.set i (some value)))) ∧
      h'.next = h.next := by
  obtain ⟨h', hstore, hblocks, hnext⟩ :=
    Heap.exists_store hblock (.pointers (cells.set i (some value)))
  refine ⟨h', ?_, hblocks, hnext⟩
  simp [storeCell, Heap.load_eq_ok hblock, hi, hstore, bind, Except.bind]

theorem loadCell_eq_ok (hblock : h.blocks p = some (.pointers cells))
    (hcell : cells[i]? = some (some value)) : loadCell p i h = .ok value := by
  simp [loadCell, Heap.load_eq_ok hblock, hcell, bind, Except.bind]

theorem loadChars_eq_ok {bytes : List UInt8} (hblock : h.blocks p = some (.chars bytes)) :
    loadChars p h = .ok bytes := by
  simp [loadChars, Heap.load_eq_ok hblock, bind, Except.bind]

end CHeap

/-- The first cell that was not written gets its value. -/
theorem set_replicate_none {T : Type} (done : List T) (value : T) (n : Nat) :
    (done.map some ++ List.replicate (n + 1) none).set done.length (some value) =
      (done ++ [value]).map some ++ List.replicate n none := by
  rw [List.set_append_right _ _ (by simp)]
  simp [List.replicate_succ]

/-! ## The copies -/

/-- The pointer to the copy of a string in a heap, which is at `lo` or behind it. -/
def CopyOf (lo : Nat) (h : CHeap) (copy : Option Nat) (s : ArrayString) : Prop :=
  match copy with
  | none => s.enough = false
  | some a => s.enough = true ∧ lo ≤ a ∧ h.blocks a = some (.chars s.bytes)

/-- The copies of the strings, and nothing else but the array, are new. -/
structure Copied (h h' : CHeap) (ret : Nat) (copies : List (Option Nat))
    (arr : List ArrayString) : Prop where
  each : List.Forall₂ (CopyOf h.next h') copies arr
  nodup : (copies.filterMap id).Nodup
  frame : ∀ a, a ≠ ret → some a ∉ copies → h'.blocks a = h.blocks a

/-- A pointer that is not `NULL` points to the copy of a string. -/
theorem copyOf_of_mem {lo a : Nat} {h : CHeap} {copies : List (Option Nat)}
    {arr : List ArrayString} (heach : List.Forall₂ (CopyOf lo h) copies arr)
    (ha : some a ∈ copies) : ∃ s ∈ arr, CopyOf lo h (some a) s := by
  induction heach with
  | nil => cases ha
  | @cons copy s copies arr hcopy _ ih =>
    rcases List.mem_cons.mp ha with rfl | ha
    · exact ⟨s, List.mem_cons_self, hcopy⟩
    · obtain ⟨s', hs', hcopy'⟩ := ih ha
      exact ⟨s', List.mem_cons_of_mem _ hs', hcopy'⟩

theorem Copied.next_le {h h' : CHeap} {ret a : Nat} {copies : List (Option Nat)}
    {arr : List ArrayString} (hc : Copied h h' ret copies arr) (ha : some a ∈ copies) :
    h.next ≤ a := by
  obtain ⟨s, _, hcopy⟩ := copyOf_of_mem hc.each ha
  exact hcopy.2.1

/-- One more string was copied first. -/
theorem Copied.cons {h m h' : CHeap} {ret : Nat} {copies : List (Option Nat)}
    {s : ArrayString} {arr : List ArrayString} {cells : List (Option (Option Nat))}
    (hc : Copied m h' ret copies arr) (hret : ret < h.next)
    (hblocks : m.blocks = Function.update (strdup s.bytes s.enough h).2.blocks ret
      (some (.pointers cells)))
    (hnext : m.next = (strdup s.bytes s.enough h).2.next) :
    Copied h h' ret ((strdup s.bytes s.enough h).1 :: copies) (s :: arr) := by
  cases henough : s.enough with
  | false =>
    simp only [henough, strdup, Bool.false_eq_true, if_false] at hblocks hnext ⊢
    refine ⟨.cons henough (hc.each.imp ?_), hc.nodup, ?_⟩
    · intro copy s hcopy
      cases copy with
      | none => exact hcopy
      | some a => exact ⟨hcopy.1, by rw [← hnext]; exact hcopy.2.1, hcopy.2.2⟩
    · intro a hne hnot
      rw [List.mem_cons, not_or] at hnot
      rw [hc.frame a hne hnot.2, hblocks, Function.update_of_ne hne]
  | true =>
    simp only [henough, strdup, if_true] at hblocks hnext ⊢
    have hnext : m.next = h.next + 1 := hnext
    have hfresh : some h.next ∉ copies := by
      intro hmem
      have hle := hc.next_le hmem
      omega
    refine ⟨.cons ⟨henough, Nat.le_refl _, ?_⟩ (hc.each.imp ?_), ?_, ?_⟩
    · -- the copy is still there at the end
      rw [hc.frame _ (by omega) hfresh, hblocks, Function.update_of_ne (by omega)]
      exact Heap.blocks_malloc_self
    · intro copy s hcopy
      cases copy with
      | none => exact hcopy
      | some a => exact ⟨hcopy.1, by have := hcopy.2.1; omega, hcopy.2.2⟩
    · rw [List.filterMap_cons_some (by rfl), List.nodup_cons]
      refine ⟨?_, hc.nodup⟩
      simpa using hfresh
    · intro a hne hnot
      rw [List.mem_cons, not_or] at hnot
      have ha : a ≠ h.next := fun heq => hnot.1 (by rw [heq])
      rw [hc.frame a hne hnot.2, hblocks, Function.update_of_ne hne,
        Heap.blocks_malloc_of_ne ha]

/-- The loop copies the strings into the cells that are left, and ends with `NULL`. -/
theorem exists_copyStrings {ret : Nat} (arr : List ArrayString) {h : CHeap}
    (done : List (Option Nat)) (hret : ret < h.next)
    (hblock : h.blocks ret =
      some (.pointers (done.map some ++ List.replicate (arr.length + 1) none))) :
    ∃ copies h', copyStrings ret done.length arr h = .ok h' ∧ Copied h h' ret copies arr ∧
      h'.blocks ret = some (.pointers ((done ++ copies ++ [none]).map some)) ∧
      h.next ≤ h'.next := by
  induction arr generalizing h done with
  | nil =>
    obtain ⟨h', hstore, hblocks, hnext⟩ :=
      exists_storeCell hblock (i := done.length) (by simp) none
    rw [set_replicate_none] at hblocks
    refine ⟨[], h', hstore, ⟨.nil, .nil, ?_⟩, ?_, Nat.le_of_eq hnext.symm⟩
    · intro a hne _
      rw [hblocks, Function.update_of_ne hne]
    · rw [hblocks, Function.update_self]
      simp
  | cons s arr ih =>
    -- the copy of `s`, the write of its cell, and the rest of the loop
    have hblock' : (strdup s.bytes s.enough h).2.blocks ret =
        some (.pointers (done.map some ++ List.replicate (arr.length + 1 + 1) none)) := by
      unfold strdup
      split
      · rw [Heap.blocks_malloc_of_ne (by omega)]
        exact hblock
      · exact hblock
    obtain ⟨m, hstore, hblocks, hnext⟩ := exists_storeCell hblock' (i := done.length)
      (by simp) (strdup s.bytes s.enough h).1
    rw [set_replicate_none] at hblocks
    have hle : h.next ≤ m.next := by
      rw [hnext]
      unfold strdup
      split
      · exact Nat.le_succ _
      · exact Nat.le_refl _
    obtain ⟨copies, h', hloop, hc, hfinal, hnext'⟩ := ih (h := m)
      (done ++ [(strdup s.bytes s.enough h).1]) (by omega)
      (by rw [hblocks, Function.update_self])
    refine ⟨(strdup s.bytes s.enough h).1 :: copies, h', ?_, hc.cons hret hblocks hnext, ?_,
      Nat.le_trans hle hnext'⟩
    · rw [List.length_append, List.length_singleton] at hloop
      simp only [copyStrings, hstore, bind, Except.bind]
      exact hloop
    · rw [hfinal]
      simp

/-! ## Reading and freeing -/

theorem cellCount_eq {h : CHeap} {p : Nat} {copies : List (Option Nat)}
    (hblock : h.blocks p = some (.pointers ((copies ++ [none]).map some))) :
    cellCount p h = copies.length + 1 := by
  simp [cellCount, hblock]

/-- The cell behind those that are done. -/
theorem loadCell_append {h : CHeap} {p : Nat} {done : List (Option Nat)} {value : Option Nat}
    (rest : List (Option Nat))
    (hblock : h.blocks p = some (.pointers ((done ++ value :: rest).map some))) :
    loadCell p done.length h = .ok value :=
  loadCell_eq_ok hblock (by simp)

/-- The program finds the strings up to the first one that could not be copied. -/
theorem readStrings_eq {lo : Nat} {h : CHeap} {p : Nat} {copies : List (Option Nat)}
    {arr : List ArrayString} (hc : List.Forall₂ (CopyOf lo h) copies arr)
    (done : List (Option Nat)) {fuel : Nat}
    (hblock : h.blocks p = some (.pointers ((done ++ (copies ++ [none])).map some)))
    (hfuel : copies.length < fuel) :
    readStrings p fuel done.length h =
      .ok ((arr.takeWhile (·.enough)).map ArrayString.bytes) := by
  induction hc generalizing done fuel with
  | nil =>
    obtain ⟨fuel, rfl⟩ := Nat.exists_eq_succ_of_ne_zero (Nat.ne_of_gt hfuel)
    have hcell := loadCell_append [] hblock
    simp [readStrings, hcell, bind, Except.bind, pure, Except.pure]
  | @cons copy s copies arr hcopy _ ih =>
    obtain ⟨fuel, rfl⟩ := Nat.exists_eq_succ_of_ne_zero (Nat.ne_of_gt (Nat.zero_lt_of_lt hfuel))
    have hcell := loadCell_append _ hblock
    rw [List.length_cons] at hfuel
    cases copy with
    | none =>
      have henough : s.enough = false := hcopy
      simp [readStrings, hcell, henough, bind, Except.bind, pure, Except.pure]
    | some a =>
      obtain ⟨henough, _, hchars⟩ := hcopy
      have hrest := ih (done ++ [some a]) (by simpa using hblock) (Nat.lt_of_succ_lt_succ hfuel)
      rw [List.length_append, List.length_singleton] at hrest
      simp [readStrings, hcell, loadChars_eq_ok hchars, hrest, henough, bind, Except.bind, pure,
        Except.pure]

/-- The loop frees the copies up to the first `NULL`. -/
theorem exists_freeStrings {p : Nat} (copies : List (Option Nat)) {h : CHeap}
    (done : List (Option Nat)) {fuel : Nat}
    (hblock : h.blocks p = some (.pointers ((done ++ (copies ++ [none])).map some)))
    (hlive : ∀ a, some a ∈ copies → a ≠ p ∧ (h.blocks a).isSome)
    (hnodup : (copies.filterMap id).Nodup) (hfuel : copies.length < fuel) :
    ∃ h', freeStrings p fuel done.length h = .ok h' ∧
      ∀ a, h'.blocks a = if some a ∈ copies.takeWhile Option.isSome then none else h.blocks a := by
  induction copies generalizing h done fuel with
  | nil =>
    obtain ⟨fuel, rfl⟩ := Nat.exists_eq_succ_of_ne_zero (Nat.ne_of_gt hfuel)
    have hcell := loadCell_append [] hblock
    refine ⟨h, ?_, by simp⟩
    simp [freeStrings, hcell, bind, Except.bind, pure, Except.pure]
  | cons copy copies ih =>
    obtain ⟨fuel, rfl⟩ := Nat.exists_eq_succ_of_ne_zero (Nat.ne_of_gt (Nat.zero_lt_of_lt hfuel))
    have hcell := loadCell_append _ hblock
    rw [List.length_cons] at hfuel
    cases copy with
    | none =>
      refine ⟨h, ?_, by simp⟩
      simp [freeStrings, hcell, bind, Except.bind, pure, Except.pure]
    | some s =>
      obtain ⟨hne, hsome⟩ := hlive s (by simp)
      obtain ⟨content, hs⟩ := Option.isSome_iff_exists.mp hsome
      obtain ⟨m, hfree, hblocks, _⟩ := Heap.exists_free hs
      rw [List.filterMap_cons_some (by rfl), List.nodup_cons] at hnodup
      have hnot : some s ∉ copies := by simpa using hnodup.1
      obtain ⟨h', hloop, hfinal⟩ := ih (h := m) (done ++ [some s])
        (by rw [hblocks, Function.update_of_ne hne.symm, hblock]; simp)
        (by
          intro a ha
          obtain ⟨hap, hlive'⟩ := hlive a (List.mem_cons_of_mem _ ha)
          have has : a ≠ s := fun heq => hnot (by rw [← heq]; exact ha)
          rw [hblocks, Function.update_of_ne has]
          exact ⟨hap, hlive'⟩)
        hnodup.2 (Nat.lt_of_succ_lt_succ hfuel)
      rw [List.length_append, List.length_singleton] at hloop
      refine ⟨h', ?_, ?_⟩
      · simp only [freeStrings, hcell, hfree, bind, Except.bind]
        exact hloop
      · intro a
        rw [hfinal, hblocks]
        by_cases ha : a = s
        · simp [ha]
        · simp [ha]

/-! ## Whole arrays -/

/-- The addresses of an array and its copies. -/
def owned (cArray : Option Nat) (copies : List (Option Nat)) : List Nat :=
  (cArray :: copies).filterMap id

/-- The copies behind the first `NULL`, where nobody looks for them. -/
def behind (copies : List (Option Nat)) : List Nat :=
  (copies.dropWhile Option.isSome).filterMap id

/-- A heap holds the array and the copies, at `lo` or behind it. -/
structure Holds (lo : Nat) (h : CHeap) (cArray : Option Nat) (copies : List (Option Nat))
    (arr : List ArrayString) : Prop where
  each : List.Forall₂ (CopyOf lo h) copies arr
  nodup : (owned cArray copies).Nodup
  array : ∀ p, cArray = some p → lo ≤ p ∧
    h.blocks p = some (.pointers ((copies ++ [none]).map some))
  empty : cArray = none → arr = []

section Holds

variable {lo : Nat} {h m : CHeap} {cArray : Option Nat} {copies : List (Option Nat)}
  {arr : List ArrayString}

@[simp] theorem mem_owned {a : Nat} :
    a ∈ owned cArray copies ↔ cArray = some a ∨ some a ∈ copies := by
  simp [owned, eq_comm]

@[simp] theorem mem_behind {a : Nat} :
    a ∈ behind copies ↔ some a ∈ copies.dropWhile Option.isSome := by
  simp [behind]

theorem behind_subset_owned {a : Nat} (ha : a ∈ behind copies) : a ∈ owned cArray copies :=
  mem_owned.mpr (.inr (List.dropWhile_subset _ (mem_behind.mp ha)))

/-- A copy is before the first `NULL` or behind it. -/
theorem mem_takeWhile_iff (hnodup : (copies.filterMap id).Nodup) {a : Nat} :
    some a ∈ copies.takeWhile Option.isSome ↔ some a ∈ copies ∧ a ∉ behind copies := by
  have hsplit := List.takeWhile_append_dropWhile (p := Option.isSome) (l := copies)
  constructor
  · intro hmem
    refine ⟨List.takeWhile_subset _ hmem, ?_⟩
    intro hbehind
    rw [← hsplit, List.filterMap_append, List.nodup_append] at hnodup
    exact hnodup.2.2 a (List.mem_filterMap.mpr ⟨some a, hmem, rfl⟩) a hbehind rfl
  · rintro ⟨hmem, hbehind⟩
    rw [← hsplit, List.mem_append] at hmem
    rcases hmem with hmem | hmem
    · exact hmem
    · exact absurd (mem_behind.mpr hmem) hbehind

/-- What is owned is there. -/
theorem Holds.owned_live (hh : Holds lo h cArray copies arr) {a : Nat}
    (ha : a ∈ owned cArray copies) : lo ≤ a ∧ (h.blocks a).isSome := by
  rcases mem_owned.mp ha with hp | hcopy
  · obtain ⟨hle, hblock⟩ := hh.array a hp
    exact ⟨hle, by rw [hblock]; rfl⟩
  · obtain ⟨s, _, _, hle, hblock⟩ := copyOf_of_mem hh.each hcopy
    exact ⟨hle, by rw [hblock]; rfl⟩

/-- What happens at other addresses does not matter. -/
theorem Holds.frame (hh : Holds lo h cArray copies arr)
    (hagree : ∀ a ∈ owned cArray copies, m.blocks a = h.blocks a) :
    Holds lo m cArray copies arr := by
  refine ⟨?_, hh.nodup, ?_, hh.empty⟩
  · have heach := hh.each
    have hcopies : ∀ a, some a ∈ copies → m.blocks a = h.blocks a :=
      fun a ha => hagree a (mem_owned.mpr (.inr ha))
    clear hh hagree
    induction heach with
    | nil => exact .nil
    | @cons copy s copies arr hcopy _ ih =>
      refine .cons ?_ (ih fun a ha => hcopies a (List.mem_cons_of_mem _ ha))
      cases copy with
      | none => exact hcopy
      | some a => exact ⟨hcopy.1, hcopy.2.1, by rw [hcopies a (by simp)]; exact hcopy.2.2⟩
  · intro p hp
    rw [hagree p (mem_owned.mpr (.inl hp))]
    exact hh.array p hp

theorem Holds.copies_nodup (hh : Holds lo h cArray copies arr) : (copies.filterMap id).Nodup := by
  have hnodup := hh.nodup
  unfold owned at hnodup
  exact hnodup.sublist ((List.sublist_cons_self _ _).filterMap id)

theorem Holds.behind_nodup (hh : Holds lo h cArray copies arr) : (behind copies).Nodup :=
  hh.copies_nodup.sublist ((List.dropWhile_sublist _).filterMap id)

/-- The strings whose copies are behind the first `NULL`. -/
theorem Holds.behind (hh : Holds lo h cArray copies arr) :
    List.Forall₂ (fun a (s : ArrayString) => lo ≤ a ∧ h.blocks a = some (.chars s.bytes))
      (behind copies) ((arr.dropWhile (·.enough)).filter (·.enough)) := by
  have heach := hh.each
  clear hh
  unfold BromiumCoreUtils.behind
  induction heach with
  | nil => exact .nil
  | @cons copy s copies arr hcopy heach ih =>
    cases copy with
    | some a =>
      rw [List.dropWhile_cons_of_pos (by rfl), List.dropWhile_cons_of_pos hcopy.1]
      exact ih
    | none =>
      have henough : s.enough = false := hcopy
      rw [List.dropWhile_cons_of_neg (by simp), List.dropWhile_cons_of_neg (by simp [henough])]
      clear ih hcopy
      -- from here on every copy is left behind
      have hfilter : List.Forall₂
          (fun a (s : ArrayString) => lo ≤ a ∧ h.blocks a = some (.chars s.bytes))
          (copies.filterMap id) (arr.filter (·.enough)) := by
        induction heach with
        | nil => exact .nil
        | @cons copy s copies arr hcopy _ ih =>
          cases copy with
          | none =>
            have henough : s.enough = false := hcopy
            rw [List.filterMap_cons_none (by rfl), List.filter_cons_of_neg (by simp [henough])]
            exact ih
          | some a =>
            rw [List.filterMap_cons_some (by rfl), List.filter_cons_of_pos hcopy.1]
            exact .cons hcopy.2 ih
      rw [List.filterMap_cons_none (by rfl), List.filter_cons_of_neg (by simp [henough])]
      exact hfilter

/-- An array is built out of new blocks, if there is memory for the array itself. -/
theorem exists_build {enough : Bool} (arr : List ArrayString) (h : CHeap)
    (henough : arr ≠ [] → enough = true) :
    ∃ cArray copies h', deepMallocedNullTerminatedArrayOfCUTF8StringsWithArray enough arr h =
        .ok (cArray, h') ∧ Holds h.next h' cArray copies arr ∧
      (∀ a, a ∉ owned cArray copies → h'.blocks a = h.blocks a) ∧ h.next ≤ h'.next := by
  cases arr with
  | nil =>
    refine ⟨none, [], h, rfl, ⟨.nil, .nil, ?_, fun _ => rfl⟩, fun _ _ => rfl, Nat.le_refl _⟩
    intro p hp
    cases hp
  | cons s arr =>
    have hblock : (h.malloc (.pointers (List.replicate ((s :: arr).length + 1) none))).blocks
        h.next = some (.pointers (List.replicate ((s :: arr).length + 1) none)) :=
      Heap.blocks_malloc_self
    obtain ⟨copies, h', hcopy, hc, hcells, hnext⟩ :=
      exists_copyStrings (s :: arr) [] (Nat.lt_succ_self h.next) hblock
    have hnext : h.next + 1 ≤ h'.next := hnext
    have hlow : ∀ a, some a ∈ copies → h.next < a := fun a ha => hc.next_le ha
    refine ⟨some h.next, copies, h', ?_, ⟨?_, ?_, ?_, ?_⟩, ?_, by omega⟩
    · rw [henough (List.cons_ne_nil _ _)]
      simp only [deepMallocedNullTerminatedArrayOfCUTF8StringsWithArray, List.isEmpty_cons,
        Bool.false_eq_true, if_false, if_true, bind, Except.bind]
      rw [show copyStrings h.next 0 (s :: arr) _ = .ok h' from hcopy]
      rfl
    · refine hc.each.imp ?_
      intro copy s hcopy
      cases copy with
      | none => exact hcopy
      | some a => exact ⟨hcopy.1, Nat.le_of_succ_le hcopy.2.1, hcopy.2.2⟩
    · unfold owned
      rw [List.filterMap_cons_some (by rfl), List.nodup_cons]
      refine ⟨?_, hc.nodup⟩
      intro hmem
      have hself := hlow h.next (by simpa using hmem)
      omega
    · rintro p ⟨⟩
      exact ⟨Nat.le_refl _, hcells⟩
    · intro hnone
      cases hnone
    · intro a ha
      rw [mem_owned, not_or] at ha
      have hne : a ≠ h.next := fun heq => ha.1 (by rw [heq])
      rw [hc.frame a hne ha.2, Heap.blocks_malloc_of_ne hne]

/-- The program finds what the array holds up to the first `NULL`. -/
theorem Holds.readArray (hh : Holds lo h cArray copies arr) :
    readArray cArray h = .ok ((arr.takeWhile (·.enough)).map ArrayString.bytes) := by
  cases cArray with
  | none => rw [hh.empty rfl]; rfl
  | some p =>
    obtain ⟨_, hblock⟩ := hh.array p rfl
    show readStrings p (cellCount p h) 0 h = _
    rw [cellCount_eq hblock]
    exact readStrings_eq hh.each [] hblock (Nat.lt_succ_self _)

/-- Freeing it takes back the array and the copies up to the first `NULL`. -/
theorem Holds.exists_free (hh : Holds lo h cArray copies arr) :
    ∃ h', freeDeepMallocedNullTerminatedArrayOfCUTF8StringsWithArray cArray h = .ok h' ∧
      ∀ a, h'.blocks a =
        if a ∈ owned cArray copies ∧ a ∉ BromiumCoreUtils.behind copies then none
        else h.blocks a := by
  cases cArray with
  | none =>
    have hcopies : copies = [] := by
      have heach := hh.each
      rw [hh.empty rfl] at heach
      cases heach
      rfl
    refine ⟨h, rfl, ?_⟩
    simp [hcopies]
  | some p =>
    obtain ⟨_, hblock⟩ := hh.array p rfl
    have hnodup := hh.nodup
    unfold owned at hnodup
    rw [List.filterMap_cons_some (by rfl), List.nodup_cons] at hnodup
    have hp : some p ∉ copies := by simpa using hnodup.1
    obtain ⟨m, hloop, hblocks⟩ := exists_freeStrings copies [] hblock
      (fun a ha => ⟨fun heq => hp (by rw [← heq]; exact ha),
        (hh.owned_live (mem_owned.mpr (.inr ha))).2⟩)
      hnodup.2 (Nat.lt_succ_self _)
    have hpm : m.blocks p = some (.pointers ((copies ++ [none]).map some)) := by
      rw [hblocks, if_neg fun hmem => hp (List.takeWhile_subset _ hmem)]
      exact hblock
    obtain ⟨h', hfree, hblocks', _⟩ := Heap.exists_free hpm
    refine ⟨h', ?_, ?_⟩
    · show (freeStrings p (cellCount p h) 0 h).bind (fun h => h.free p) = _
      rw [cellCount_eq hblock]
      show (freeStrings p (copies.length + 1) (List.length (α := Option Nat) []) h).bind _ = _
      rw [hloop]
      exact hfree
    · intro a
      rw [hblocks', Function.update_apply, hblocks]
      simp only [mem_takeWhile_iff hnodup.2, mem_owned, Option.some.injEq]
      by_cases ha : a = p
      · have hbehind : a ∉ BromiumCoreUtils.behind copies := by
          intro hmem
          rw [mem_behind, ha] at hmem
          exact hp (List.dropWhile_subset _ hmem)
        rw [if_pos ha, if_pos ⟨.inl ha.symm, hbehind⟩]
      · rw [if_neg ha]
        simp only [Ne.symm ha, false_or]

end Holds

end BromiumCoreUtils
