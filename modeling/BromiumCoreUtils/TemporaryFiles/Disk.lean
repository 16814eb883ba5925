import BromiumCoreUtils.Lib.Undo
import BromiumCoreUtils.ResourceCleanup.Basic
import BromiumCoreUtils.TemporaryFiles.Directory

/-!
# The disk under temporary files

`Disk` has the files and directories that exist and the descriptors that are open.  What exists
lies in a directory that exists.  A path is known by the names in it, so it does not matter how
its separators are written; the names `.` and `..` and links are not followed.

`openExclusive` and `mkdirExclusive` answer for `mkstemps` and `mkdtemp`.  They make nothing where
something exists, so what they make is taken back by `removeItemAtPath` and `close`.
-/

namespace BromiumCoreUtils

open Undo

/-! The values of `errno` that the calls leave. -/

def ENOENT : Int := 2
def EBADF : Int := 9
def EEXIST : Int := 17
def ENOTDIR : Int := 20
def EMFILE : Int := 24

/-- `NSFileNoSuchFileError`. -/
def noSuchFile : NSError where
  domain := "NSCocoaErrorDomain"
  code := 4
  userInfo := []

/-- Where a path leads: from the root directory, or from the working directory. -/
structure Location where
  absolute : Bool
  names : List (List UInt8)
deriving DecidableEq, Repr

namespace Location

/-- The byte of the separator is 47. -/
def ofPath (path : List UInt8) : Location where
  absolute := path.head? = some 47
  names := PathString.names 47 path

def parent (l : Location) : Location :=
  { l with names := l.names.dropLast }

/-- It is the other one, or lies in it. -/
def Within (l m : Location) : Prop :=
  l.absolute = m.absolute ∧ m.names <+: l.names

instance (l m : Location) : Decidable (l.Within m) :=
  inferInstanceAs (Decidable (_ ∧ _))

variable {l m : Location}

theorem within_refl (l : Location) : l.Within l :=
  ⟨rfl, List.prefix_rfl⟩

theorem Within.of_parent (h : l.parent.Within m) : l.Within m :=
  ⟨h.1, h.2.trans (List.dropLast_prefix _)⟩

/-- What lies in another location has a parent that does, or is the other location. -/
theorem Within.parent (h : l.Within m) (hne : l ≠ m) : l.parent.Within m := by
  refine ⟨h.1, ?_⟩
  obtain ⟨rest, hrest⟩ := h.2
  have hnil : rest ≠ [] := by
    intro hnil
    apply hne
    obtain ⟨absolute, names⟩ := l
    obtain ⟨absolute', names'⟩ := m
    obtain rfl : absolute = absolute' := h.1
    rw [hnil, List.append_nil] at hrest
    have hrest : names' = names := hrest
    rw [hrest]
  show m.names <+: l.names.dropLast
  rw [← hrest, List.dropLast_append_of_ne_nil hnil]
  exact List.prefix_append _ _

end Location

/-- A file or a directory. -/
structure Item where
  location : Location
  isDirectory : Bool
deriving DecidableEq, Repr

/-- There is a directory at the location. -/
def IsDirectoryAt (items : List Item) (l : Location) : Prop :=
  l.names = [] ∨ ∃ item ∈ items, item.location = l ∧ item.isDirectory = true

instance (items : List Item) (l : Location) : Decidable (IsDirectoryAt items l) :=
  inferInstanceAs (Decidable (_ ∨ _))

/-- What exists, and what the process has open.  The root directory and the working directory
always exist, and are not listed. -/
@[ext] structure Disk where
  items : List Item
  closed : ∀ item ∈ items, item.location.names ≠ [] ∧
    IsDirectoryAt items item.location.parent
  descriptors : List Nat
  /-- How many descriptors the process may have. -/
  limit : Nat

namespace Disk

/-- Something exists at the location. -/
def Exists (d : Disk) (l : Location) : Prop :=
  l.names = [] ∨ ∃ item ∈ d.items, item.location = l

instance (d : Disk) (l : Location) : Decidable (d.Exists l) :=
  inferInstanceAs (Decidable (_ ∨ _))

/-- Make an item, where none exists. -/
def create (d : Disk) (l : Location) (isDirectory : Bool) : Except Int Disk :=
  if hexists : d.Exists l then .error EEXIST
  else if hparent : IsDirectoryAt d.items l.parent then
    .ok { d with
      items := ⟨l, isDirectory⟩ :: d.items
      closed := by
        intro item hitem
        have hgrows {m : Location} (h : IsDirectoryAt d.items m) :
            IsDirectoryAt (⟨l, isDirectory⟩ :: d.items) m := by
          refine h.imp_right ?_
          rintro ⟨i, hi, hlocation⟩
          exact ⟨i, List.mem_cons_of_mem _ hi, hlocation⟩
        rcases List.mem_cons.mp hitem with rfl | hitem
        · exact ⟨fun hnil => hexists (Or.inl hnil), hgrows hparent⟩
        · exact ⟨(d.closed item hitem).1, hgrows (d.closed item hitem).2⟩ }
  else if d.Exists l.parent then .error ENOTDIR
  else .error ENOENT

/-- `-[NSFileManager removeItemAtPath:error:]`.  What lies in a directory goes with it. -/
def removeItemAtPath (path : List UInt8) : Block Disk NSError := fun d =>
  if ∃ item ∈ d.items, item.location = .ofPath path then
    ({ d with
      items := d.items.filter fun item => ¬ item.location.Within (.ofPath path)
      closed := by
        intro item hitem
        obtain ⟨hitem, hout⟩ := List.mem_filter.mp hitem
        obtain ⟨hnames, hparent⟩ := d.closed item hitem
        refine ⟨hnames, hparent.imp_right ?_⟩
        rintro ⟨i, hi, hlocation, hdirectory⟩
        refine ⟨i, List.mem_filter.mpr ⟨hi, ?_⟩, hlocation, hdirectory⟩
        simp only [decide_eq_true_eq] at hout ⊢
        intro hwithin
        rw [hlocation] at hwithin
        exact hout hwithin.of_parent }, none)
  else (d, some noSuchFile)

/-- The lowest descriptor that is not open. -/
def lowestFree (d : Disk) : Option Nat :=
  (List.range d.limit).find? fun fd => fd ∉ d.descriptors

/-- `open` with `O_CREAT|O_EXCL`. -/
def openExclusive (d : Disk) (path : List UInt8) : Except Int (Nat × Disk) :=
  match d.lowestFree with
  | none => .error EMFILE
  | some fd => do
    let d' ← d.create (.ofPath path) false
    pure (fd, { d' with descriptors := fd :: d'.descriptors })

/-- `mkdir`. -/
def mkdirExclusive (d : Disk) (path : List UInt8) : Except Int Disk :=
  d.create (.ofPath path) true

/-- `close`, in the block of `-addCleanupBlockForClosingFileDescriptor:`. -/
def closeDescriptor (fd : Nat) : Block Disk NSError := fun d =>
  if fd ∈ d.descriptors then ({ d with descriptors := d.descriptors.erase fd }, none)
  else (d, some (BRUResourceCleanup.closingFailed EBADF))

/-! ## What is made is taken back -/

variable {d d' : Disk} {l : Location} {isDirectory : Bool} {path : List UInt8} {fd : Nat}

/-- A directory exists as long as there is something in it. -/
theorem exists_of_within (d : Disk) {item : Item} (hitem : item ∈ d.items)
    (hwithin : item.location.Within l) : d.Exists l := by
  obtain ⟨n, hn⟩ : ∃ n, item.location.names.length = n := ⟨_, rfl⟩
  induction n generalizing item with
  | zero =>
    exact absurd (List.eq_nil_of_length_eq_zero hn) (d.closed item hitem).1
  | succ n ih =>
    by_cases heq : item.location = l
    · exact Or.inr ⟨item, hitem, heq⟩
    · have hparent := hwithin.parent heq
      rcases (d.closed item hitem).2 with hroot | ⟨i, hi, hlocation, -⟩
      · -- the other location is the root directory as well
        rw [Location.Within, hroot, List.prefix_nil] at hparent
        exact Or.inl hparent.2
      · rw [← hlocation] at hparent
        refine ih hi hparent ?_
        rw [hlocation]
        show item.location.names.dropLast.length = n
        rw [List.length_dropLast, hn]
        rfl

theorem create_eq_ok (h : d.create l isDirectory = .ok d') :
    ¬ d.Exists l ∧ d'.items = ⟨l, isDirectory⟩ :: d.items ∧ d'.descriptors = d.descriptors ∧
      d'.limit = d.limit := by
  unfold create at h
  split at h
  · cases h
  · rename_i hexists
    split at h
    · injection h with h
      subst h
      exact ⟨hexists, rfl, rfl, rfl⟩
    · split at h <;> cases h

/-- Nothing lies in an item that has just been made, so nothing else goes with it. -/
theorem removeItemAtPath_create (h : d.create (.ofPath path) isDirectory = .ok d') :
    removeItemAtPath path d' = (d, none) := by
  obtain ⟨hexists, hitems, hdescriptors, hlimit⟩ := create_eq_ok h
  have hmade : ∃ item ∈ d'.items, item.location = .ofPath path := by
    rw [hitems]
    exact ⟨_, List.mem_cons_self, rfl⟩
  have hrest : d'.items.filter (fun item => ¬ item.location.Within (.ofPath path)) = d.items := by
    rw [hitems, List.filter_cons_of_neg (by simpa using Location.within_refl _)]
    refine List.filter_eq_self.mpr ?_
    intro item hitem
    simp only [decide_eq_true_eq]
    intro hwithin
    exact hexists (d.exists_of_within hitem hwithin)
  unfold removeItemAtPath
  rw [if_pos hmade]
  refine Prod.ext ?_ rfl
  exact Disk.ext hrest hdescriptors hlimit

/-- The descriptor of a file that was opened is a new one. -/
theorem openExclusive_eq_ok (h : d.openExclusive path = .ok (fd, d')) :
    (fd < d.limit ∧ fd ∉ d.descriptors) ∧ ∃ m, d.create (.ofPath path) false = .ok m ∧
      d' = { m with descriptors := fd :: m.descriptors } := by
  unfold openExclusive at h
  split at h
  · cases h
  · rename_i free hfree
    cases hmade : d.create (.ofPath path) false with
    | error errno => simp [hmade, bind, Except.bind] at h
    | ok m =>
      simp only [hmade, bind, Except.bind, pure, Except.pure, Except.ok.injEq,
        Prod.mk.injEq] at h
      obtain ⟨rfl, rfl⟩ := h
      have hout := List.find?_some hfree
      have hrange := List.mem_of_find?_eq_some hfree
      exact ⟨⟨List.mem_range.mp hrange, by simpa using hout⟩, m, rfl, rfl⟩

/-- A file that was opened: its block for the descriptor is added last and runs first. -/
theorem trail_openExclusive (h : d.openExclusive path = .ok (fd, d')) :
    Trail d [removeItemAtPath path, closeDescriptor fd] d' := by
  obtain ⟨-, m, hmade, rfl⟩ := openExclusive_eq_ok h
  have hremoved : Trail d [removeItemAtPath path] m :=
    .snoc .nil (removeItemAtPath_create hmade)
  refine .snoc hremoved ?_
  simp [closeDescriptor]

theorem trail_mkdirExclusive (h : d.mkdirExclusive path = .ok d') :
    Trail d [removeItemAtPath path] d' :=
  .snoc .nil (removeItemAtPath_create h)

end Disk

end BromiumCoreUtils
