import Mathlib.Algebra.Group.Int.Defs
import Mathlib.Algebra.Group.Nat.Defs
import Mathlib.Data.Finset.Card
import Mathlib.Data.Finset.SDiff
import BromiumCoreUtils.Arithmetic.Basic
import BromiumCoreUtils.Lib.Separated

/-!
# `BRUSetDiffFormatter`

A text is a list of UTF-16 code units.  The description of an object is any text, and the
order in which a set is enumerated is any order: `Enumeration` says only that every object
comes once.

The two loops write a space after every piece, and the last space is deleted if there was
anything to write.  `formatDiff_faithful` says what the text is and that the diff can be
applied.

The limit is an `NSNumber`, and the loops read it with `integerValue`.  A number from 2^63 on
is a negative limit then, and nothing is printed.
-/

namespace BromiumCoreUtils

open Separated

/-- The code units of an ASCII literal. -/
def unichars (literal : String) : List UInt16 :=
  literal.toList.map fun c => c.toNat.toUInt16

def space : UInt16 := 32

/-- A count under `%lu`. -/
def decimal (count : Nat) : List UInt16 :=
  unichars (toString count)

/-- `enumerateObjectsUsingBlock:` of a set. -/
structure Enumeration (α : Type) where
  objects : Finset α → List α
  nodup : ∀ s, (objects s).Nodup
  mem_objects : ∀ s x, x ∈ objects s ↔ x ∈ s

theorem Enumeration.length_objects {α : Type} (e : Enumeration α) (s : Finset α) :
    (e.objects s).length = s.card := by
  classical
  rw [← List.toFinset_card_of_nodup (e.nodup s)]
  congr 1
  ext x
  rw [List.mem_toFinset, e.mem_objects]

/-- An `NSNumber` that was made from an integer. -/
inductive NSNumber where
  | signed (value : Int64)
  | unsigned (value : UInt64)
deriving DecidableEq, Repr

namespace NSNumber

/-- `-integerValue`.  An unsigned number is cast. -/
def integerValue : NSNumber → Int64
  | signed value => value
  | unsigned value => value.toInt64

/-- The integer that the number was made from. -/
def value : NSNumber → Int
  | signed value => value.toInt
  | unsigned value => value.toNat

theorem toInt_integerValue (number : NSNumber) : number.integerValue.toInt =
    if number.value < 2 ^ 63 then number.value else number.value - 2 ^ 64 := by
  cases number with
  | signed value => exact (if_pos value.toInt_lt).symm
  | unsigned value =>
    rw [integerValue, NSNumber.value, toInt_toInt64]
    split <;> split <;> omega

end NSNumber

namespace BRUSetDiffFormatter

variable {α : Type} [DecidableEq α]

/-- The block of an enumeration, for each object until it sets `stop`.  `sign` is what tells
the two loops apart, and `prints` is an `int`. -/
def printObjects (description : α → List UInt16) (sign : String) (maxDiffPrints : NSNumber) :
    Int32 → List UInt16 → List α → List UInt16
  | _, ret, [] => ret
  | prints, ret, obj :: objects =>
    let prints := prints + 1
    if maxDiffPrints.integerValue < prints.toInt64 then ret ++ unichars sign ++ unichars "... "
    else
      printObjects description sign maxDiffPrints prints
        (ret ++ unichars sign ++ unichars "'" ++ description obj ++ unichars "' ") objects

/-- `options[kBRUSetDiffFormatterOptionMaxDiffPrints]` of a dictionary that may be `nil`, or
25. -/
def maxDiffPrints (options : Option (Option NSNumber)) : NSNumber :=
  match options with
  | some (some maxDiffPrints) => maxDiffPrints
  | _ => .signed 25

/-- What the counter of a loop is compared with. -/
def limit (options : Option (Option NSNumber)) : Int :=
  (maxDiffPrints options).integerValue.toInt

/-- `+formatDiffWithSet:andSet:options:`, up to the deletion of the last character. -/
def appendDiff (e : Enumeration α) (description : α → List UInt16) (orig new : Option (Finset α))
    (options : Option (Option NSNumber)) : List UInt16 :=
  let ret :=
    unichars "DIFF (" ++ decimal (orig.getD ∅).card ++ unichars " elements" ++
      (if orig = none then unichars " <NULL>" else []) ++ unichars " --> " ++
      decimal (new.getD ∅).card ++ unichars " elements" ++
      (if new = none then unichars " <NULL>" else []) ++ unichars ")"
  let onlyInOrig := orig.getD ∅ \ new.getD ∅
  let onlyInNew := new.getD ∅ \ orig.getD ∅
  let ret :=
    ret ++ unichars " -" ++ decimal onlyInOrig.card ++ unichars " +" ++ decimal onlyInNew.card ++
      unichars ": <"
  let ret := printObjects description "-" (maxDiffPrints options) 0 ret (e.objects onlyInOrig)
  printObjects description "+" (maxDiffPrints options) 0 ret (e.objects onlyInNew)

/-- `+formatDiffWithSet:andSet:options:`. -/
def formatDiffWithSet (e : Enumeration α) (description : α → List UInt16)
    (orig new : Option (Finset α)) (options : Option (Option NSNumber)) : List UInt16 :=
  let ret := appendDiff e description orig new options
  let onlyInOrig := orig.getD ∅ \ new.getD ∅
  let onlyInNew := new.getD ∅ \ orig.getD ∅
  let ret := if 0 ≠ onlyInOrig.card ∨ 0 ≠ onlyInNew.card then ret.dropLast else ret
  ret ++ unichars ">"

/-! ## The text that is meant -/

/-- The text before the pieces, for these counts. -/
def header (orig new : Option (Finset α)) (removed added : Nat) : List UInt16 :=
  unichars "DIFF (" ++ decimal (orig.getD ∅).card ++ unichars " elements" ++
    (if orig = none then unichars " <NULL>" else []) ++ unichars " --> " ++
    decimal (new.getD ∅).card ++ unichars " elements" ++
    (if new = none then unichars " <NULL>" else []) ++ unichars ") -" ++ decimal removed ++
    unichars " +" ++ decimal added ++ unichars ": <"

/-- An object in quotes. -/
def quoted (description : α → List UInt16) (sign : String) (obj : α) : List UInt16 :=
  unichars sign ++ unichars "'" ++ description obj ++ unichars "'"

def ellipsis (sign : String) : List UInt16 :=
  unichars sign ++ unichars "..."

/-- The objects that are printed, and whether there are more. -/
def pieces (description : α → List UInt16) (sign : String) (objects : List α) (more : Bool) :
    List (List UInt16) :=
  objects.map (quoted description sign) ++ if more then [ellipsis sign] else []

/-- These are distinct objects of the set, as many as there may be. -/
structure Shown (s : Finset α) (m : Int) (objects : List α) : Prop where
  nodup : objects.Nodup
  mem : ∀ x ∈ objects, x ∈ s
  length : (objects.length : Int) = min (s.card : Int) (max m 0)

/-- More objects than there may be. -/
def hasMore (s : Finset α) (m : Int) : Bool :=
  max m 0 < (s.card : Int)

/-- What stands between `<` and `>`. -/
def body (description : α → List UInt16) (m : Int) (orig new : Finset α) (removed added : List α) :
    List UInt16 :=
  [space].intercalate
    (pieces description "-" removed (hasMore (orig \ new) m) ++
      pieces description "+" added (hasMore (new \ orig) m))

/-- The text is well formed, and with these objects it is the diff, `m` being the limit. -/
structure Faithful (e : Enumeration α) (description : α → List UInt16)
    (orig new : Option (Finset α)) (options : Option (Option NSNumber)) (m : Int)
    (removed added : List α) : Prop where
  showsRemoved : Shown (orig.getD ∅ \ new.getD ∅) m removed
  showsAdded : Shown (new.getD ∅ \ orig.getD ∅) m added
  text : formatDiffWithSet e description orig new options =
    header orig new (orig.getD ∅ \ new.getD ∅).card (new.getD ∅ \ orig.getD ∅).card ++
      body description m (orig.getD ∅) (new.getD ∅) removed added ++ unichars ">"
  unpadded : Unpadded space (body description m (orig.getD ∅) (new.getD ∅) removed added)
  /-- What is deleted is the separator after the last piece. -/
  deletes : (orig.getD ∅ \ new.getD ∅).card ≠ 0 ∨ (new.getD ∅ \ orig.getD ∅).card ≠ 0 →
    appendDiff e description orig new options =
      header orig new (orig.getD ∅ \ new.getD ∅).card (new.getD ∅ \ orig.getD ∅).card ++
        body description m (orig.getD ∅) (new.getD ∅) removed added ++ [space]
  applies : hasMore (orig.getD ∅ \ new.getD ∅) m = false →
    hasMore (new.getD ∅ \ orig.getD ∅) m = false →
    (orig.getD ∅ \ removed.toFinset) ∪ added.toFinset = new.getD ∅

/-! ## A loop -/

variable {description : α → List UInt16} {sign : String} {number : NSNumber} {m : Int}

theorem toInt_succ {prints : Int32} (hlow : 0 ≤ prints.toInt) (hhigh : prints.toInt + 1 < 2 ^ 31) :
    (prints + 1).toInt = prints.toInt + 1 := by
  rw [Int32.toInt_add]
  show (prints.toInt + 1).bmod (2 ^ 32) = prints.toInt + 1
  apply Int.bmod_eq_of_le <;> omega

omit [DecidableEq α] in
/-- What a loop appends, when `prints` objects came before. -/
theorem printObjects_eq (hm : number.integerValue.toInt = m) {prints : Int32}
    {ret : List UInt16} {objects : List α} (hlow : 0 ≤ prints.toInt)
    (hhigh : prints.toInt + objects.length < 2 ^ 31) :
    printObjects description sign number prints ret objects =
      ret ++ terminated space
        (pieces description sign (objects.take (m - prints.toInt).toNat)
          ((m - prints.toInt).toNat < objects.length)) := by
  induction objects generalizing prints ret with
  | nil => simp [printObjects, pieces]
  | cons obj objects ih =>
    simp only [List.length_cons] at hhigh
    have hsucc := toInt_succ hlow (by omega)
    simp only [printObjects, Int64.lt_iff_toInt_lt, Int32.toInt_toInt64, hm]
    by_cases hstop : m < (prints + 1).toInt
    · have hzero : (m - prints.toInt).toNat = 0 := by omega
      rw [if_pos hstop, hzero]
      simp [pieces, ellipsis, unichars, space]
    · have hnext : (m - prints.toInt).toNat = (m - (prints + 1).toInt).toNat + 1 := by omega
      rw [if_neg hstop, ih (by omega) (by omega), hnext]
      simp [pieces, quoted, unichars, space]

omit [DecidableEq α] in
/-- What a loop over a set appends. -/
theorem printObjects_set (hm : number.integerValue.toInt = m) (e : Enumeration α)
    {s : Finset α} (hcard : s.card < 2 ^ 31) (ret : List UInt16) :
    printObjects description sign number 0 ret (e.objects s) =
      ret ++ terminated space
        (pieces description sign ((e.objects s).take m.toNat) (hasMore s m)) := by
  have hlength := e.length_objects s
  rw [printObjects_eq hm (by decide) (by rw [hlength]; show (0 : Int) + _ < _; omega)]
  have hzero : m - (0 : Int32).toInt = m := by
    show m - 0 = m
    omega
  have hmore : decide (m.toNat < (e.objects s).length) = hasMore s m := by
    unfold hasMore
    rw [hlength]
    congr 1
    apply propext
    omega
  rw [hzero, hmore]

omit [DecidableEq α] in
/-- What a loop over a set shows. -/
theorem shown_take (e : Enumeration α) (s : Finset α) (m : Int) :
    Shown s m ((e.objects s).take m.toNat) where
  nodup := (e.nodup s).sublist (List.take_sublist _ _)
  mem x hx := (e.mem_objects s x).mp (List.mem_of_mem_take hx)
  length := by
    rw [List.length_take, e.length_objects]
    omega

/-- Without an ellipsis the whole set is shown. -/
theorem Shown.toFinset_eq {s : Finset α} {objects : List α} (h : Shown s m objects)
    (hmore : hasMore s m = false) : objects.toFinset = s := by
  apply Finset.eq_of_subset_of_card_le
  · intro x hx
    exact h.mem x (List.mem_toFinset.mp hx)
  · have hlength := h.length
    have hle : ¬ max m 0 < (s.card : Int) := by simpa [hasMore] using hmore
    rw [List.toFinset_card_of_nodup h.nodup]
    omega

/-! ## The whole text -/

omit [DecidableEq α] in
theorem pieces_eq_nil {objects : List α} {more : Bool} :
    pieces description sign objects more = [] ↔ objects = [] ∧ more = false := by
  cases more <;> simp [pieces]

omit [DecidableEq α] in
/-- A piece begins with its sign and ends with a quote or a dot. -/
theorem unpadded_pieces {objects : List α} {more : Bool} {piece : List UInt16}
    (hsign : sign = "-" ∨ sign = "+") (hpiece : piece ∈ pieces description sign objects more) :
    piece ≠ [] ∧ Unpadded space piece := by
  have hpiece : (∃ obj ∈ objects, quoted description sign obj = piece) ∨
      more = true ∧ piece = ellipsis sign := by
    cases more <;> simpa [pieces] using hpiece
  rcases hpiece with ⟨obj, -, rfl⟩ | ⟨-, rfl⟩
  · rcases hsign with rfl | rfl
    all_goals
      refine ⟨by simp [quoted, unichars], by simp [quoted, unichars, space], ?_⟩
      simp [quoted, unichars, space, List.getLast?_append, List.getLast?_cons]
  · rcases hsign with rfl | rfl
    · exact ⟨by decide, by decide, by decide⟩
    · exact ⟨by decide, by decide, by decide⟩

variable {e : Enumeration α} {orig new : Option (Finset α)} {options : Option (Option NSNumber)}

/-- The buffer after the two loops. -/
theorem appendDiff_eq (horig : (orig.getD ∅).card < 2 ^ 31) (hnew : (new.getD ∅).card < 2 ^ 31) :
    appendDiff e description orig new options =
      header orig new (orig.getD ∅ \ new.getD ∅).card (new.getD ∅ \ orig.getD ∅).card ++
        terminated space
          (pieces description "-"
              ((e.objects (orig.getD ∅ \ new.getD ∅)).take (limit options).toNat)
              (hasMore (orig.getD ∅ \ new.getD ∅) (limit options)) ++
            pieces description "+"
              ((e.objects (new.getD ∅ \ orig.getD ∅)).take (limit options).toNat)
              (hasMore (new.getD ∅ \ orig.getD ∅) (limit options))) := by
  have hremoved := Finset.card_le_card (Finset.sdiff_subset (s := orig.getD ∅) (t := new.getD ∅))
  have hadded := Finset.card_le_card (Finset.sdiff_subset (s := new.getD ∅) (t := orig.getD ∅))
  simp only [appendDiff]
  rw [printObjects_set (m := limit options) rfl e (by omega),
    printObjects_set (m := limit options) rfl e (by omega), terminated_append]
  have hparen : unichars ")" ++ unichars " -" = unichars ") -" := rfl
  simp only [header, ← hparen, List.append_assoc]

omit [DecidableEq α] in
/-- A set that is not empty leaves a piece: an object, or the ellipsis. -/
theorem pieces_ne_nil {s : Finset α} {objects : List α} (h : Shown s m objects)
    (hs : s.card ≠ 0) : pieces description sign objects (hasMore s m) ≠ [] := by
  intro hnil
  obtain ⟨hobjects, hmore⟩ := pieces_eq_nil.mp hnil
  have hlength := h.length
  have hle : ¬ max m 0 < (s.card : Int) := by simpa [hasMore] using hmore
  rw [hobjects] at hlength
  simp only [List.length_nil] at hlength
  omega

omit [DecidableEq α] in
theorem pieces_empty {s : Finset α} {objects : List α} (h : Shown s m objects)
    (hs : s.card = 0) : pieces description sign objects (hasMore s m) = [] := by
  have hlength := h.length
  refine pieces_eq_nil.mpr ⟨List.eq_nil_of_length_eq_zero (by omega), ?_⟩
  simp only [hasMore, decide_eq_false_iff_not]
  omega

/-- What is deleted is the last separator, and without pieces nothing is. -/
theorem formatDiff_text {removed added : List α}
    (hremoved : Shown (orig.getD ∅ \ new.getD ∅) m removed)
    (hadded : Shown (new.getD ∅ \ orig.getD ∅) m added) {front : List UInt16}
    (happend : appendDiff e description orig new options =
      front ++ terminated space
        (pieces description "-" removed (hasMore (orig.getD ∅ \ new.getD ∅) m) ++
          pieces description "+" added (hasMore (new.getD ∅ \ orig.getD ∅) m))) :
    ((orig.getD ∅ \ new.getD ∅).card ≠ 0 ∨ (new.getD ∅ \ orig.getD ∅).card ≠ 0 →
      appendDiff e description orig new options =
        front ++ body description m (orig.getD ∅) (new.getD ∅) removed added ++ [space]) ∧
    formatDiffWithSet e description orig new options =
      front ++ body description m (orig.getD ∅) (new.getD ∅) removed added ++ unichars ">" := by
  by_cases hdiff : (orig.getD ∅ \ new.getD ∅).card ≠ 0 ∨ (new.getD ∅ \ orig.getD ∅).card ≠ 0
  · have hdeletes : appendDiff e description orig new options =
        front ++ body description m (orig.getD ∅) (new.getD ∅) removed added ++ [space] := by
      rw [happend, terminated_eq, ← List.append_assoc]
      · rfl
      · intro hnil
        obtain ⟨hnil, hnil'⟩ := List.append_eq_nil_iff.mp hnil
        rcases hdiff with hdiff | hdiff
        · exact pieces_ne_nil hremoved hdiff hnil
        · exact pieces_ne_nil hadded hdiff hnil'
    refine ⟨fun _ => hdeletes, ?_⟩
    have hdiff' : 0 ≠ (orig.getD ∅ \ new.getD ∅).card ∨ 0 ≠ (new.getD ∅ \ orig.getD ∅).card := by
      omega
    simp only [formatDiffWithSet, if_pos hdiff', hdeletes, List.dropLast_concat]
  · have hempty : pieces description "-" removed (hasMore (orig.getD ∅ \ new.getD ∅) m) = [] :=
      pieces_empty hremoved (by omega)
    have hempty' : pieces description "+" added (hasMore (new.getD ∅ \ orig.getD ∅) m) = [] :=
      pieces_empty hadded (by omega)
    have hdiff' :
        ¬ (0 ≠ (orig.getD ∅ \ new.getD ∅).card ∨ 0 ≠ (new.getD ∅ \ orig.getD ∅).card) := by
      omega
    refine ⟨fun h => absurd h hdiff, ?_⟩
    simp only [formatDiffWithSet, if_neg hdiff', happend, body, hempty, hempty',
      List.append_nil, terminated_nil, List.intercalate_nil]

/-- For sets that a loop with an `int` can count, any limit and any order, the text is the
diff up to the `integerValue` of the limit, which is the limit below 2^63 and negative from
there on. -/
theorem formatDiff_faithful (e : Enumeration α) (description : α → List UInt16)
    (orig new : Option (Finset α)) (options : Option (Option NSNumber))
    (horig : (orig.getD ∅).card < 2 ^ 31) (hnew : (new.getD ∅).card < 2 ^ 31) :
    (∃ removed added, Faithful e description orig new options (limit options) removed added) ∧
      limit options = if (maxDiffPrints options).value < 2 ^ 63 then (maxDiffPrints options).value
        else (maxDiffPrints options).value - 2 ^ 64 := by
  have hremoved := shown_take e (orig.getD ∅ \ new.getD ∅) (limit options)
  have hadded := shown_take e (new.getD ∅ \ orig.getD ∅) (limit options)
  obtain ⟨hdeletes, htext⟩ := formatDiff_text hremoved hadded
    (appendDiff_eq (e := e) horig hnew)
  refine ⟨⟨_, _,
    { showsRemoved := hremoved, showsAdded := hadded, text := htext, unpadded := ?_,
      deletes := hdeletes, applies := ?_ }⟩, NSNumber.toInt_integerValue _⟩
  · apply unpadded_intercalate
    intro piece hpiece
    rcases List.mem_append.mp hpiece with hpiece | hpiece
    · exact unpadded_pieces (Or.inl rfl) hpiece
    · exact unpadded_pieces (Or.inr rfl) hpiece
  · intro hall hall'
    rw [hremoved.toFinset_eq hall, hadded.toFinset_eq hall']
    ext x
    simp only [Finset.mem_union, Finset.mem_sdiff]
    tauto

/-- Small numbers in their order. -/
def ascending (n : Nat) : Enumeration (Fin n) where
  objects s := (List.finRange n).filter (· ∈ s)
  nodup s := (List.nodup_finRange n).filter _
  mem_objects s x := by simp

/-- One number goes and three come, of which two may be printed. -/
theorem formatDiff_faithful_more :
    formatDiffWithSet (ascending 5) (fun i => decimal i) (some {0, 1}) (some {0, 2, 3, 4})
        (some (some (.signed 2))) =
      unichars "DIFF (2 elements --> 4 elements) -1 +3: <-'1' +'2' +'3' +...>" ∧
    ∃ removed added, Faithful (ascending 5) (fun i => decimal i) (some {0, 1})
      (some {0, 2, 3, 4}) (some (some (.signed 2))) 2 removed added := by
  refine ⟨by decide, ?_⟩
  exact (formatDiff_faithful (ascending 5) _ _ _ (some (some (.signed 2))) (by decide)
    (by decide)).1

/-- The greatest `NSUInteger` as a limit.  One number goes, and it is not printed. -/
theorem formatDiff_unsigned_limit : ¬ ∃ removed added,
    Faithful (ascending 1) (fun i => decimal i) (some {0}) (some ∅)
      (some (some (.unsigned 18446744073709551615))) (NSNumber.unsigned 18446744073709551615).value
      removed added := by
  rintro ⟨removed, added, h⟩
  have hremoved : removed = [0] := by
    have hlength : (removed.length : Int) = 1 := h.showsRemoved.length.trans (by decide)
    obtain ⟨x, rfl⟩ := List.length_eq_one_iff.mp (Int.ofNat_inj.mp hlength)
    rw [Subsingleton.elim x 0]
  have hadded : added = [] := by
    have hlength : (added.length : Int) = 0 := h.showsAdded.length.trans (by decide)
    exact List.eq_nil_of_length_eq_zero (Int.ofNat_inj.mp hlength)
  have htext := h.text
  rw [hremoved, hadded] at htext
  revert htext
  decide

end BRUSetDiffFormatter

end BromiumCoreUtils
