import Mathlib.Data.List.Chain
import Mathlib.Data.List.DropRight

/-!
# Paths that are taken apart and joined again

A path is a list with a separator.  `components` takes it apart as Foundation does: the
pieces between the separators, without the empty ones, and a separator at the beginning
or at the end as a component of its own.  `appendComponent` joins with one separator.
`beginnings` are the paths that a loop over the components goes through, and `rejoined`
is the last of them.

The way back leads to the path it started from exactly for the paths that are
`Canonical`, and to a canonical one for all.
-/

namespace PathString

variable {α : Type} [DecidableEq α] (sep : α)

/-- The names in a path. -/
def names (path : List α) : List (List α) :=
  (path.splitOn sep).filter (· ≠ [])

/-- The names, and the separators at the two ends. -/
def components (path : List α) : List (List α) :=
  (if path.head? = some sep then [[sep]] else []) ++ names sep path ++
    (if 1 < path.length ∧ path.getLast? = some sep then [[sep]] else [])

/-- The path without separators at its end, unless there is nothing else. -/
def stripTrailing (path : List α) : List α :=
  if path.rdropWhile (· = sep) = [] ∧ path ≠ [] then [sep] else path.rdropWhile (· = sep)

/-- The path and the component, with one separator between them. -/
def appendComponent (path component : List α) : List α :=
  stripTrailing sep
    (if path = [] then component
    else path.rdropWhile (· = sep) ++ sep :: component.dropWhile (· = sep))

/-- What a loop that appends one component after the other goes through. -/
def beginnings (path : List α) : List (List α) :=
  ((components sep path).scanl (appendComponent sep) []).tail

/-- What it ends with. -/
def rejoined (path : List α) : List α :=
  (components sep path).foldl (appendComponent sep) []

/-- No two separators stand together, and none at the end of a longer path. -/
structure Canonical (path : List α) : Prop where
  single : path.IsChain fun a b => a ≠ sep ∨ b ≠ sep
  last : path.getLast? = some sep → path = [sep]

variable {sep} {path component : List α}

/-! ## Appending a name -/

/-- Nonempty, without a separator. -/
def IsName (sep : α) (name : List α) : Prop := name ≠ [] ∧ sep ∉ name

theorem rdropWhile_of_last (h : path.getLast? ≠ some sep) :
    path.rdropWhile (· = sep) = path := by
  rw [List.rdropWhile_eq_self_iff]
  intro hne hsep
  apply h
  rw [List.getLast?_eq_some_getLast hne]
  simpa using hsep

theorem stripTrailing_of_last (h : path.getLast? ≠ some sep) : stripTrailing sep path = path := by
  unfold stripTrailing
  rw [rdropWhile_of_last h]
  exact if_neg fun h => h.2 h.1

omit [DecidableEq α] in
theorem IsName.getLast?_ne (h : IsName sep component) : component.getLast? ≠ some sep := by
  intro hlast
  exact h.2 (List.mem_of_getLast? hlast)

theorem IsName.dropWhile (h : IsName sep component) :
    component.dropWhile (· = sep) = component := by
  cases component with
  | nil => rfl
  | cons a rest =>
    have hne : a ≠ sep := fun heq => h.2 (by simp [heq])
    simp [hne]

theorem appendComponent_nil (h : IsName sep component) :
    appendComponent sep [] component = component := by
  unfold appendComponent
  rw [if_pos rfl]
  exact stripTrailing_of_last h.getLast?_ne

/-- The root, which the first component of an absolute path leaves. -/
theorem appendComponent_root (h : IsName sep component) :
    appendComponent sep [sep] component = sep :: component := by
  have hroot : ([sep] : List α).rdropWhile (· = sep) = [] := by simp [List.rdropWhile_singleton]
  unfold appendComponent
  rw [if_neg (by simp), hroot, h.dropWhile, List.nil_append]
  apply stripTrailing_of_last
  rw [List.getLast?_cons_of_ne_nil h.1]
  exact h.getLast?_ne

theorem appendComponent_name (hpath : path ≠ []) (hlast : path.getLast? ≠ some sep)
    (h : IsName sep component) :
    appendComponent sep path component = path ++ sep :: component := by
  unfold appendComponent
  rw [if_neg hpath, rdropWhile_of_last hlast, h.dropWhile]
  apply stripTrailing_of_last
  rw [List.getLast?_append_of_ne_nil _ (by simp), List.getLast?_cons_of_ne_nil h.1]
  exact h.getLast?_ne

/-- The component is the end of the path, after a separator or at its beginning. -/
theorem exists_appendComponent (path : List α) (h : IsName sep component) :
    ∃ lead, appendComponent sep path component = lead ++ component ∧
      (lead = [] ∨ lead.getLast? = some sep) := by
  by_cases hpath : path = []
  · rw [hpath, appendComponent_nil h]
    exact ⟨[], rfl, Or.inl rfl⟩
  · refine ⟨path.rdropWhile (· = sep) ++ [sep], ?_, Or.inr (by simp)⟩
    unfold appendComponent
    rw [if_neg hpath, h.dropWhile, List.append_assoc]
    apply stripTrailing_of_last
    rw [List.getLast?_append_of_ne_nil _ (by simp), List.getLast?_cons_of_ne_nil h.1]
    exact h.getLast?_ne

/-- A separator as last component changes nothing. -/
theorem appendComponent_sep (hpath : path ≠ []) (hlast : path.getLast? ≠ some sep) :
    appendComponent sep path [sep] = path := by
  unfold appendComponent
  rw [if_neg hpath, rdropWhile_of_last hlast]
  have hdrop : ([sep] : List α).dropWhile (· = sep) = [] := by simp
  have hstrip : (path ++ [sep]).rdropWhile (· = sep) = path := by
    rw [List.rdropWhile_concat_pos _ _ _ (by simp), rdropWhile_of_last hlast]
  unfold stripTrailing
  rw [hdrop, hstrip]
  exact if_neg fun h => hpath h.1

theorem appendComponent_root_sep (path : List α) (h : path = [] ∨ path = [sep]) :
    appendComponent sep path [sep] = [sep] := by
  rcases h with rfl | rfl
  · simp [appendComponent, stripTrailing, List.rdropWhile_singleton]
  · simp [appendComponent, stripTrailing, List.rdropWhile_singleton]

/-! ## The names of a path -/

theorem splitOn_cons_sep (path : List α) : (sep :: path).splitOn sep = [] :: path.splitOn sep := by
  rw [List.splitOn_cons_eq_if_modifyHead, if_pos (by simp)]

/-- Another element goes to the first piece. -/
theorem splitOn_cons_ne {a : α} (ha : a ≠ sep) (path : List α) :
    ∃ piece pieces, path.splitOn sep = piece :: pieces ∧
      (a :: path).splitOn sep = (a :: piece) :: pieces := by
  cases hsplit : path.splitOn sep with
  | nil => exact absurd hsplit (List.splitOn_ne_nil sep path)
  | cons piece pieces =>
    refine ⟨piece, pieces, rfl, ?_⟩
    rw [List.splitOn_cons_eq_if_modifyHead, if_neg (by simpa using ha), hsplit]
    rfl

theorem sep_notMem_of_mem_splitOn {piece : List α} (h : piece ∈ path.splitOn sep) :
    sep ∉ piece := by
  induction path generalizing piece with
  | nil =>
    obtain rfl : piece = [] := by simpa using h
    simp
  | cons a path ih =>
    by_cases ha : a = sep
    · rw [ha, splitOn_cons_sep] at h
      rcases List.mem_cons.mp h with rfl | h
      · simp
      · exact ih h
    · obtain ⟨first, pieces, hsplit, hcons⟩ := splitOn_cons_ne ha path
      rw [hcons] at h
      rcases List.mem_cons.mp h with rfl | h
      · have hfirst : sep ∉ first := ih (by simp [hsplit])
        simp [hfirst, Ne.symm ha]
      · exact ih (by simp [hsplit, h])

theorem isName_of_mem_names {name : List α} (h : name ∈ names sep path) : IsName sep name := by
  obtain ⟨hmem, hne⟩ := List.mem_filter.mp h
  exact ⟨by simpa using hne, sep_notMem_of_mem_splitOn hmem⟩

theorem names_cons_sep (path : List α) : names sep (sep :: path) = names sep path := by
  unfold names
  rw [splitOn_cons_sep]
  simp

theorem names_cons_ne {a : α} (ha : a ≠ sep) (path : List α) : names sep (a :: path) ≠ [] := by
  obtain ⟨piece, pieces, -, hcons⟩ := splitOn_cons_ne ha path
  unfold names
  rw [hcons]
  simp

/-- A path without names has separators only. -/
theorem head?_of_names_eq_nil (h : names sep path = []) (hpath : path ≠ []) :
    path.head? = some sep := by
  cases path with
  | nil => exact absurd rfl hpath
  | cons a path =>
    by_cases ha : a = sep
    · rw [ha]
      rfl
    · exact absurd h (names_cons_ne ha path)

/-! ## The way back -/

/-- Names that are appended to a path. -/
theorem foldl_names {ns : List (List α)} (hns : ∀ name ∈ ns, IsName sep name)
    (hpath : path ≠ []) (hlast : path.getLast? ≠ some sep) :
    ns.foldl (appendComponent sep) path = path ++ ns.flatMap (sep :: ·) ∧
      (path ++ ns.flatMap (sep :: ·)).getLast? ≠ some sep := by
  induction ns generalizing path with
  | nil => simpa using hlast
  | cons name ns ih =>
    have hname := hns name (by simp)
    have hnext : (path ++ sep :: name).getLast? ≠ some sep := by
      rw [List.getLast?_append_of_ne_nil _ (by simp), List.getLast?_cons_of_ne_nil hname.1]
      exact hname.getLast?_ne
    have hrest := ih (fun name' hmem => hns name' (List.mem_cons_of_mem _ hmem))
      (by simp) hnext
    rw [List.foldl_cons, appendComponent_name hpath hlast hname, List.flatMap_cons,
      ← List.append_assoc]
    exact hrest

omit [DecidableEq α] in
theorem intercalate_cons (name : List α) (ns : List (List α)) :
    [sep].intercalate (name :: ns) = name ++ ns.flatMap (sep :: ·) := by
  induction ns generalizing name with
  | nil => simp
  | cons next ns ih =>
    rw [List.intercalate_cons_cons, ih, List.flatMap_cons]
    simp

/-- The names with one separator between them, and one before them if there was one. -/
theorem rejoined_eq (path : List α) :
    rejoined sep path =
      (if path.head? = some sep then [sep] else []) ++ [sep].intercalate (names sep path) := by
  unfold rejoined components
  cases hnames : names sep path with
  | nil =>
    by_cases hpath : path = []
    · simp [hpath]
    · have hhead := head?_of_names_eq_nil hnames hpath
      rw [if_pos hhead, if_pos hhead]
      split <;> simp [appendComponent_root_sep]
  | cons name ns =>
    have hname := isName_of_mem_names (hnames ▸ List.mem_cons_self)
    have hns : ∀ name' ∈ ns, IsName sep name' := fun name' hmem =>
      isName_of_mem_names (hnames ▸ List.mem_cons_of_mem _ hmem)
    -- the path after its first name
    have hfirst : ∀ first : List α, first ≠ [] → first.getLast? ≠ some sep →
        (ns ++ if 1 < path.length ∧ path.getLast? = some sep then [[sep]] else []).foldl
          (appendComponent sep) first = first ++ ns.flatMap (sep :: ·) := by
      intro first hne hlast
      obtain ⟨hfold, hend⟩ := foldl_names hns hne hlast
      rw [List.foldl_append, hfold]
      split
      · exact appendComponent_sep (by simp [hne]) hend
      · rfl
    rw [intercalate_cons]
    split
    · have hstart : appendComponent sep (appendComponent sep [] [sep]) name = sep :: name := by
        rw [appendComponent_root_sep [] (Or.inl rfl), appendComponent_root hname]
      rw [List.singleton_append, List.cons_append, List.cons_append, List.foldl_cons,
        List.foldl_cons, hstart, hfirst (sep :: name) (by simp)]
      · simp
      · rw [List.getLast?_cons_of_ne_nil hname.1]
        exact hname.getLast?_ne
    · rw [List.nil_append, List.cons_append, List.foldl_cons, appendComponent_nil hname,
        hfirst name hname.1 hname.getLast?_ne]
      rfl

/-! ## Canonical paths -/

omit [DecidableEq α] in
theorem isChain_of_notMem (h : sep ∉ path) :
    path.IsChain fun a b => a ≠ sep ∨ b ≠ sep := by
  induction path with
  | nil => exact List.IsChain.nil
  | cons a path ih =>
    have hne : a ≠ sep := fun heq => h (by simp [heq])
    rw [List.isChain_cons]
    exact ⟨fun _ _ => Or.inl hne, ih fun hmem => h (List.mem_cons_of_mem a hmem)⟩

omit [DecidableEq α] in
theorem isChain_sep_cons (h : IsName sep component) :
    (sep :: component).IsChain fun a b => a ≠ sep ∨ b ≠ sep := by
  rw [List.isChain_cons]
  refine ⟨?_, isChain_of_notMem h.2⟩
  intro b hb
  right
  intro heq
  apply h.2
  rw [← heq]
  exact List.mem_of_mem_head? hb

/-- A component is a name or the separator. -/
theorem isName_or_sep_of_mem_components (h : component ∈ components sep path) :
    IsName sep component ∨ component = [sep] := by
  unfold components at h
  rw [List.mem_append, List.mem_append] at h
  rcases h with (h | h) | h
  · split at h
    · exact Or.inr (List.mem_singleton.mp h)
    · cases h
  · exact Or.inl (isName_of_mem_names h)
  · split at h
    · exact Or.inr (List.mem_singleton.mp h)
    · cases h

theorem canonical_appendComponent (h : Canonical sep path)
    (hcomponent : IsName sep component ∨ component = [sep]) :
    Canonical sep (appendComponent sep path component) := by
  have hroot : Canonical sep [sep] := ⟨List.IsChain.singleton _, fun _ => rfl⟩
  by_cases hshort : path = [] ∨ path = [sep]
  · rcases hcomponent with hname | rfl
    · rcases hshort with rfl | rfl
      · rw [appendComponent_nil hname]
        exact ⟨isChain_of_notMem hname.2, fun hsep => absurd hsep hname.getLast?_ne⟩
      · rw [appendComponent_root hname]
        refine ⟨isChain_sep_cons hname, ?_⟩
        rw [List.getLast?_cons_of_ne_nil hname.1]
        exact fun hsep => absurd hsep hname.getLast?_ne
    · rw [appendComponent_root_sep path hshort]
      exact hroot
  · have hne : path ≠ [] := fun heq => hshort (Or.inl heq)
    have hlast : path.getLast? ≠ some sep := fun hsep => hshort (Or.inr (h.last hsep))
    rcases hcomponent with hname | rfl
    · rw [appendComponent_name hne hlast hname]
      refine ⟨?_, ?_⟩
      · rw [List.isChain_append]
        refine ⟨h.single, isChain_sep_cons hname, ?_⟩
        intro a ha b _
        left
        intro heq
        exact hlast (heq ▸ ha)
      · rw [List.getLast?_append_of_ne_nil _ (by simp), List.getLast?_cons_of_ne_nil hname.1]
        exact fun hsep => absurd hsep hname.getLast?_ne
    · rw [appendComponent_sep hne hlast]
      exact h

theorem canonical_of_mem_scanl {cs : List (List α)}
    (hcs : ∀ component ∈ cs, IsName sep component ∨ component = [sep])
    (hpath : Canonical sep path) :
    ∀ path' ∈ cs.scanl (appendComponent sep) path, Canonical sep path' := by
  induction cs generalizing path with
  | nil => simpa using hpath
  | cons component cs ih =>
    have hnext := canonical_appendComponent hpath (hcs component (by simp))
    have hrest := ih (fun c hmem => hcs c (List.mem_cons_of_mem _ hmem)) hnext
    simpa [List.scanl_cons] using ⟨hpath, hrest⟩

/-- The loop goes through canonical paths. -/
theorem canonical_of_mem_beginnings {beginning : List α} (h : beginning ∈ beginnings sep path) :
    Canonical sep beginning :=
  canonical_of_mem_scanl (fun _ hmem => isName_or_sep_of_mem_components hmem)
    ⟨List.IsChain.nil, by simp⟩ beginning (List.mem_of_mem_tail h)

/-- The last path of the loop is the rejoined one. -/
theorem getLast?_beginnings (hpath : path ≠ []) :
    (beginnings sep path).getLast? = some (rejoined sep path) := by
  unfold beginnings rejoined
  cases hcomponents : components sep path with
  | nil =>
    obtain ⟨hnil, -⟩ := List.append_eq_nil_iff.mp hcomponents
    obtain ⟨hlead, hnames⟩ := List.append_eq_nil_iff.mp hnil
    rw [if_pos (head?_of_names_eq_nil hnames hpath)] at hlead
    cases hlead
  | cons component cs =>
    rw [List.scanl_cons, List.tail_cons, List.getLast?_scanl, List.foldl_cons]

theorem canonical_rejoined (hpath : path ≠ []) : Canonical sep (rejoined sep path) :=
  canonical_of_mem_beginnings (List.mem_of_getLast? (getLast?_beginnings hpath))

/-- In a canonical path, only the first piece can be empty. -/
theorem ne_nil_of_mem_tail_splitOn (hchain : path.IsChain fun a b => a ≠ sep ∨ b ≠ sep)
    (hlast : path.getLast? ≠ some sep) :
    ∀ piece ∈ (path.splitOn sep).tail, piece ≠ [] := by
  induction path with
  | nil => simp
  | cons a path ih =>
    obtain ⟨hhead, hchain⟩ := List.isChain_cons.mp hchain
    cases path with
    | nil =>
      have ha : a ≠ sep := fun heq => hlast (by simp [heq])
      obtain ⟨piece, pieces, hsplit, hcons⟩ := splitOn_cons_ne ha []
      obtain ⟨-, rfl⟩ : [] = piece ∧ [] = pieces := by simpa using hsplit
      rw [hcons]
      simp
    | cons b path =>
      have ih := ih hchain (by simpa using hlast)
      by_cases ha : a = sep
      · -- the piece after a separator begins with another element
        have hb : b ≠ sep := (hhead b rfl).resolve_left (not_not_intro ha)
        obtain ⟨piece, pieces, hsplit, hcons⟩ := splitOn_cons_ne hb path
        rw [hcons] at ih
        rw [ha, splitOn_cons_sep, hcons, List.tail_cons]
        intro piece' hmem
        rcases List.mem_cons.mp hmem with rfl | hmem
        · simp
        · exact ih piece' hmem
      · obtain ⟨piece, pieces, hsplit, hcons⟩ := splitOn_cons_ne ha (b :: path)
        rw [hsplit] at ih
        rw [hcons]
        exact ih

/-- Nothing is left out of a path that begins with a name. -/
theorem intercalate_names {a : α} (ha : a ≠ sep)
    (hchain : (a :: path).IsChain fun a b => a ≠ sep ∨ b ≠ sep)
    (hlast : (a :: path).getLast? ≠ some sep) :
    [sep].intercalate (names sep (a :: path)) = a :: path := by
  have htail := ne_nil_of_mem_tail_splitOn hchain hlast
  obtain ⟨piece, pieces, -, hcons⟩ := splitOn_cons_ne ha path
  have hall : names sep (a :: path) = (a :: path).splitOn sep := by
    unfold names
    rw [List.filter_eq_self]
    rw [hcons] at htail ⊢
    intro piece' hmem
    rcases List.mem_cons.mp hmem with rfl | hmem
    · simp
    · simpa using htail piece' hmem
  rw [hall, List.intercalate_splitOn]

theorem rejoined_of_canonical (h : Canonical sep path) : rejoined sep path = path := by
  rw [rejoined_eq]
  cases path with
  | nil => simp [names]
  | cons a path =>
    by_cases ha : a = sep
    · obtain rfl := ha
      rw [names_cons_sep, if_pos List.head?_cons]
      cases path with
      | nil => simp [names]
      | cons b path =>
        obtain ⟨hhead, hchain⟩ := List.isChain_cons.mp h.single
        have hb : b ≠ a := (hhead b rfl).resolve_left (not_not_intro rfl)
        have hlast : (b :: path).getLast? ≠ some a := by
          intro hlast
          have hroot := h.last (by rw [List.getLast?_cons_of_ne_nil (by simp), hlast])
          simp at hroot
        rw [intercalate_names hb hchain hlast]
        rfl
    · have hlast : (a :: path).getLast? ≠ some sep := by
        intro hlast
        exact ha (List.cons.inj (h.last hlast)).1
      rw [if_neg (by simpa using ha), intercalate_names ha h.single hlast]
      rfl

/-- The way back leads to the path it started from when that is canonical. -/
theorem rejoined_eq_self_iff (hpath : path ≠ []) :
    rejoined sep path = path ↔ Canonical sep path := by
  constructor
  · intro h
    rw [← h]
    exact canonical_rejoined hpath
  · exact rejoined_of_canonical

end PathString
