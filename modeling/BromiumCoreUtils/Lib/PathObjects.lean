import Mathlib.Data.List.Basic

/-!
# The objects on a path

A path with `depth` components has `depth + 1` beginnings, from the root directory to
the path itself.  `PathObjects` has the inode numbers of the ones that exist.  They
are the first ones, because what lies in a directory that does not exist does not
exist either.

A change is made at one position of the path.  It creates an object at the end,
deletes the last one, renames one away with all that lies in it, or renames a tree of
objects into a position, where it may replace the last object.  Inode numbers are not
reused: a created object has a new one, and a deleted object does not come back.

`touched` lists the objects whose watchers are told of a change.  They are the
directory in which it is made, the object that is deleted or renamed, and the other
directory of a rename.
-/

/-- The inode numbers on a path, the root directory first, with the numbers that were
on the path at any time and the ones of deleted objects. -/
structure PathObjects (depth : Nat) where
  inodes : List Nat
  used : List Nat
  deleted : List Nat
  nonempty : inodes ≠ []
  fits : inodes.length ≤ depth + 1
deriving DecidableEq, Repr

inductive PathChange where
  | create (ino : Nat)
  | delete
  /-- Away into a directory. -/
  | renameAway (position directory : Nat)
  /-- Out of a directory.  The tree is given by its objects on the path, the renamed one
  first. -/
  | renameInto (position : Nat) (tree : List Nat) (directory : Nat)
deriving DecidableEq, Repr

namespace PathChange

variable {depth : Nat}

/-- The component of the path at which the change is made. -/
def position (f : PathObjects depth) : PathChange → Nat
  | .create _ => f.inodes.length
  | .delete => f.inodes.length - 1
  | .renameAway position _ => position
  | .renameInto position _ _ => position

/-- The objects that come into the path. -/
def tree : PathChange → List Nat
  | .create ino => [ino]
  | .delete => []
  | .renameAway _ _ => []
  | .renameInto _ tree _ => tree

/-- The objects that are deleted. -/
def removed (f : PathObjects depth) : PathChange → List Nat
  | .create _ => []
  | .delete => f.inodes.drop (f.inodes.length - 1)
  | .renameAway _ _ => []
  | .renameInto position _ _ => f.inodes.drop position

/-- The objects whose watchers are told of the change. -/
def touched (f : PathObjects depth) : PathChange → List Nat
  | .create _ => f.inodes.drop (f.inodes.length - 1)
  | .delete => f.inodes.drop (f.inodes.length - 2)
  | .renameAway position directory => (f.inodes.drop (position - 1)).take 2 ++ [directory]
  | .renameInto position tree directory =>
    f.inodes.drop (position - 1) ++ tree.take 1 ++ [directory]

/-- The change can be made.  The root directory stays where it is, and only a
directory that is empty, or a file, is deleted or replaced. -/
def Valid (f : PathObjects depth) : PathChange → Prop
  | .create ino => f.inodes.length ≤ depth ∧ ino ∉ f.used
  | .delete => 1 < f.inodes.length
  | .renameAway position _ => 0 < position ∧ position < f.inodes.length
  | .renameInto position tree _ =>
    0 < position ∧ position ≤ f.inodes.length ∧ f.inodes.length ≤ position + 1 ∧
      tree ≠ [] ∧ position + tree.length ≤ depth + 1 ∧ tree.Nodup ∧
        ∀ ino ∈ tree, ino ∉ f.inodes ∧ ino ∉ f.deleted

instance (f : PathObjects depth) : (c : PathChange) → Decidable (c.Valid f)
  | .create ino => inferInstanceAs (Decidable (f.inodes.length ≤ depth ∧ ino ∉ f.used))
  | .delete => inferInstanceAs (Decidable (1 < f.inodes.length))
  | .renameAway position _ =>
    inferInstanceAs (Decidable (0 < position ∧ position < f.inodes.length))
  | .renameInto position tree _ =>
    inferInstanceAs (Decidable (0 < position ∧ position ≤ f.inodes.length ∧
      f.inodes.length ≤ position + 1 ∧ tree ≠ [] ∧ position + tree.length ≤ depth + 1 ∧
        tree.Nodup ∧ ∀ ino ∈ tree, ino ∉ f.inodes ∧ ino ∉ f.deleted))

theorem Valid.position_bounds {f : PathObjects depth} {c : PathChange} (h : c.Valid f) :
    0 < c.position f ∧ c.position f ≤ f.inodes.length ∧
      c.position f + c.tree.length ≤ depth + 1 := by
  have hfits := f.fits
  have hpos : 0 < f.inodes.length := List.length_pos_of_ne_nil f.nonempty
  cases c with
  | create ino =>
    obtain ⟨hroom, -⟩ := h
    exact ⟨hpos, Nat.le_refl _, Nat.succ_le_succ hroom⟩
  | delete =>
    have hlong : 1 < f.inodes.length := h
    show 0 < f.inodes.length - 1 ∧ f.inodes.length - 1 ≤ _ ∧ f.inodes.length - 1 + 0 ≤ _
    omega
  | renameAway position _ =>
    obtain ⟨hlow, hhigh⟩ := h
    show 0 < position ∧ position ≤ _ ∧ position + 0 ≤ _
    omega
  | renameInto position tree _ =>
    obtain ⟨hlow, hhigh, -, -, hroom, -⟩ := h
    exact ⟨hlow, hhigh, hroom⟩

end PathChange

namespace PathObjects

variable {depth : Nat}

/-- The objects after a change. -/
def change (c : PathChange) (f : PathObjects depth) : Option (PathObjects depth) :=
  if h : c.Valid f then
    some
      { inodes := f.inodes.take (c.position f) ++ c.tree
        used := c.tree ++ f.used
        deleted := c.removed f ++ f.deleted
        nonempty := by
          have hbounds := h.position_bounds
          have hpos : 0 < (f.inodes.take (c.position f) ++ c.tree).length := by
            rw [List.length_append, List.length_take]
            omega
          exact List.ne_nil_of_length_pos hpos
        fits := by
          have hbounds := h.position_bounds
          rw [List.length_append, List.length_take]
          omega }
  else none

/-- What `lstat` finds at the path. -/
def lstat (f : PathObjects depth) : Option Nat := f.inodes[depth]?

/-- What `open` finds at the beginning of the path with so many components. -/
def openPath (f : PathObjects depth) (components : Nat) : Option Nat := f.inodes[components]?

theorem inodes_change {c : PathChange} {f g : PathObjects depth} (h : f.change c = some g) :
    c.Valid f ∧ g.inodes = f.inodes.take (c.position f) ++ c.tree := by
  unfold change at h
  split at h
  · rename_i hvalid
    refine ⟨hvalid, ?_⟩
    rw [← Option.some.inj h]
  · cases h

/-- The watchers of the directory are told of a change in it. -/
theorem directory_mem_touched {c : PathChange} {f : PathObjects depth} {ino : Nat}
    (h : c.Valid f) (hdir : f.inodes[c.position f - 1]? = some ino) : ino ∈ c.touched f := by
  have hmem : ∀ k, f.inodes[k]? = some ino → ino ∈ f.inodes.drop k := by
    intro k hk
    rw [List.drop_eq_getElem?_toList_append, hk]
    exact List.mem_cons_self
  cases c with
  | create ino' => exact hmem _ hdir
  | delete =>
    have hdir : f.inodes[f.inodes.length - 1 - 1]? = some ino := hdir
    rw [Nat.sub_sub] at hdir
    exact hmem _ hdir
  | renameAway position directory =>
    have hdir : f.inodes[position - 1]? = some ino := hdir
    show ino ∈ (f.inodes.drop (position - 1)).take 2 ++ [directory]
    rw [List.drop_eq_getElem?_toList_append, hdir]
    exact List.mem_cons_self
  | renameInto position tree directory =>
    exact List.mem_append_left _ (List.mem_append_left _ (hmem _ hdir))

/-- A change leaves what lies before its position. -/
theorem getElem?_change {c : PathChange} {f g : PathObjects depth} (h : f.change c = some g)
    {k : Nat} (hk : k < c.position f) : g.inodes[k]? = f.inodes[k]? := by
  obtain ⟨hvalid, hinodes⟩ := inodes_change h
  have hbounds := hvalid.position_bounds
  rw [hinodes, List.getElem?_append_left (by rw [List.length_take]; omega),
    List.getElem?_take_of_lt hk]

end PathObjects
