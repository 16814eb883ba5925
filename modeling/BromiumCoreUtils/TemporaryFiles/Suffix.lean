import BromiumCoreUtils.TemporaryFiles.Basic

/-!
# The random part of a temporary file's name

`suffix.length` counts UTF-16 code units, and `mkstemps` counts bytes.  When the suffix
has more bytes than code units, `mkstemps` looks for the run of `X` in the middle of the
suffix and finds none, so nothing is random and the call can succeed once only.

`namesRandomised_iff` says that the names are random exactly when the two counts agree
and no byte is 0.  Among the suffixes that Foundation does not decompose, they agree
for ASCII and for nothing else.
-/

namespace BromiumCoreUtils

open TextEncoding

/-- The template in its directory, without the `X` at its end. -/
def stemPath (sys : TemporaryFilesSystem) (basenameTemplate : List Char)
    (dir : Option (List Char)) : List Char :=
  (templatePath sys basenameTemplate dir).rdropWhile (· = 'X')

/-! ## Runs at the end of a list -/

section Runs

variable {α : Type} [DecidableEq α] {a : α} {front : List α}

theorem rtakeWhile_replicate (hfront : front.getLast? ≠ some a) (k : Nat) :
    (front ++ List.replicate k a).rtakeWhile (· = a) = List.replicate k a ∧
      (front ++ List.replicate k a).rdropWhile (· = a) = front := by
  induction k with
  | zero =>
    rw [List.replicate_zero, List.append_nil]
    have hlast : ∀ hne : front ≠ [], ¬ decide (front.getLast hne = a) = true := by
      intro hne heq
      apply hfront
      rw [List.getLast?_eq_some_getLast hne]
      simpa using heq
    refine ⟨?_, List.rdropWhile_eq_self_iff.mpr hlast⟩
    rw [List.rtakeWhile_eq_nil_iff]
    exact hlast
  | succ k ih =>
    rw [List.replicate_succ', ← List.append_assoc, List.rtakeWhile_concat_pos _ _ _ (by simp),
      List.rdropWhile_concat_pos _ _ _ (by simp), ih.1]
    exact ⟨rfl, ih.2⟩

/-- Every list ends with such a run. -/
theorem exists_replicate (a : α) (l : List α) :
    ∃ k, l = l.rdropWhile (· = a) ++ List.replicate k a := by
  induction l using List.reverseRecOn with
  | nil => exact ⟨0, rfl⟩
  | append_singleton l b ih =>
    by_cases hb : b = a
    · obtain ⟨k, hk⟩ := ih
      refine ⟨k + 1, ?_⟩
      rw [List.rdropWhile_concat_pos _ _ _ (by simpa using hb), List.replicate_succ',
        ← List.append_assoc, ← hk, hb]
    · refine ⟨0, ?_⟩
      rw [List.rdropWhile_concat_neg _ _ _ (by simpa using hb)]
      simp

theorem getLast?_rdropWhile (l : List α) : (l.rdropWhile (· = a)).getLast? ≠ some a := by
  intro hlast
  have hne : l.rdropWhile (· = a) ≠ [] := by
    intro heq
    rw [heq] at hlast
    cases hlast
  have hnot := List.rdropWhile_last_not _ _ hne
  rw [List.getLast?_eq_some_getLast hne] at hlast
  exact hnot (by simpa using Option.some.inj hlast)

omit [DecidableEq α] in
/-- The run is as long as a part of it that is known. -/
theorem le_of_replicate_isSuffix {n k : Nat} (hfront : front.getLast? ≠ some a)
    (h : List.replicate n a <:+ front ++ List.replicate k a) : n ≤ k := by
  by_contra hlong
  obtain ⟨rest, hrest⟩ := h
  have hsplit : List.replicate n a =
      List.replicate (n - k - 1) a ++ [a] ++ List.replicate k a := by
    rw [← List.replicate_succ', ← List.replicate_add]
    congr 1
    omega
  rw [hsplit, ← List.append_assoc, ← List.append_assoc] at hrest
  have hcancel := List.append_cancel_right hrest
  apply hfront
  rw [← hcancel, List.getLast?_concat]

end Runs

/-! ## What `mkstemps` is asked to do -/

/-- `mkstemps` splits the path where the suffix begins, with six `X` before it.  So the
name is the stem, letters and the suffix, and there are two names to choose from. -/
structure Randomises (path : List UInt8) (suffixlen : Nat) (stem suffix : List UInt8) :
    Prop where
  inside : suffixlen ≤ path.length
  split : path.drop (path.length - suffixlen) = suffix
  six : List.replicate 6 placeholder <:+ mkstempsFront path suffixlen
  name : ∀ random, mkstempsName random path suffixlen = stem ++ random ++ suffix
  run : 6 ≤ mkstempsRun path suffixlen
  choice : ∃ first second : List UInt8, first.length = mkstempsRun path suffixlen ∧
    second.length = mkstempsRun path suffixlen ∧ (∀ b ∈ first ++ second, isPadchar b = true) ∧
    mkstempsName first path suffixlen ≠ mkstempsName second path suffixlen

section Bytes

variable {stem suffix path : List UInt8} {k suffixlen : Nat}

theorem mkstempsFront_eq (front suffix : List UInt8) :
    mkstempsFront (front ++ suffix) suffix.length = front ∧
      (front ++ suffix).drop ((front ++ suffix).length - suffix.length) = suffix := by
  have hlength : (front ++ suffix).length - suffix.length = front.length := by
    rw [List.length_append]
    omega
  unfold mkstempsFront
  rw [hlength, List.take_left, List.drop_left]
  exact ⟨rfl, rfl⟩

/-- The path is one of its names. -/
theorem mkstempsName_self (path : List UInt8) (suffixlen : Nat) :
    mkstempsName (List.replicate (mkstempsRun path suffixlen) placeholder) path suffixlen =
      path := by
  have hrun : List.replicate (mkstempsRun path suffixlen) placeholder =
      (mkstempsFront path suffixlen).rtakeWhile (· = placeholder) := by
    symm
    rw [List.eq_replicate_iff]
    refine ⟨rfl, ?_⟩
    intro b hb
    simpa using List.mem_rtakeWhile_imp hb
  unfold mkstempsName
  rw [hrun, List.rdropWhile_append_rtakeWhile, mkstempsFront, List.take_append_drop]

/-- A suffix of the right length. -/
theorem randomises_of_length (hstem : stem.getLast? ≠ some placeholder) (hk : 6 ≤ k) :
    Randomises (stem ++ List.replicate k placeholder ++ suffix) suffix.length stem suffix := by
  obtain ⟨hfront, hsplit⟩ :=
    mkstempsFront_eq (stem ++ List.replicate k placeholder) suffix
  obtain ⟨htake, hdrop⟩ := rtakeWhile_replicate hstem k
  have hname : ∀ random, mkstempsName random
      (stem ++ List.replicate k placeholder ++ suffix) suffix.length =
        stem ++ random ++ suffix := by
    intro random
    unfold mkstempsName
    rw [hfront, hdrop, hsplit]
  have hrun : mkstempsRun (stem ++ List.replicate k placeholder ++ suffix) suffix.length = k := by
    unfold mkstempsRun
    rw [hfront, htake, List.length_replicate]
  refine ⟨?_, hsplit, ?_, hname, ?_, ?_⟩
  · rw [List.length_append]
    exact Nat.le_add_left _ _
  · refine ⟨stem ++ List.replicate (k - 6) placeholder, ?_⟩
    rw [hfront, List.append_assoc, ← List.replicate_add, Nat.sub_add_cancel hk]
  · rw [hrun]
    exact hk
  · -- all letters `A`, or all letters `B`
    refine ⟨List.replicate k 65, List.replicate k 66, ?_, ?_, ?_, ?_⟩
    · rw [hrun, List.length_replicate]
    · rw [hrun, List.length_replicate]
    · intro b hb
      rcases List.mem_append.mp hb with hb | hb
      · rw [List.eq_of_mem_replicate hb]
        decide
      · rw [List.eq_of_mem_replicate hb]
        decide
    · rw [hname, hname]
      intro heq
      have hletters := List.append_cancel_left (List.append_cancel_right heq)
      have hmem : (65 : UInt8) ∈ List.replicate k 65 := by
        rw [List.mem_replicate]
        exact ⟨by omega, rfl⟩
      rw [hletters] at hmem
      have hsame := List.eq_of_mem_replicate hmem
      revert hsame
      decide

/-- `mkstemps` is asked for the right thing exactly when no byte of the path is 0 and the
length it is given is that of the suffix. -/
theorem randomises_iff (hstem : stem.getLast? ≠ some placeholder) (hk : 6 ≤ k) :
    Randomises (cString (stem ++ List.replicate k placeholder ++ suffix)) suffixlen stem suffix ↔
      0 ∉ stem ++ List.replicate k placeholder ++ suffix ∧ suffix.length = suffixlen := by
  constructor
  · intro h
    have hlength : suffix.length = suffixlen := by
      rw [← h.split, List.length_drop]
      have hinside := h.inside
      omega
    refine ⟨?_, hlength⟩
    intro hzero
    -- the path has the stem and the suffix in it, and no byte 0
    have hself := mkstempsName_self
      (cString (stem ++ List.replicate k placeholder ++ suffix)) suffixlen
    rw [h.name] at hself
    have hpath : (0 : UInt8) ∈ cString (stem ++ List.replicate k placeholder ++ suffix) := by
      rw [← hself]
      have hne : (0 : UInt8) ∉ List.replicate k placeholder := by
        intro hmem
        have hsame := List.eq_of_mem_replicate hmem
        revert hsame
        decide
      simp only [List.mem_append] at hzero ⊢
      rcases hzero with (hzero | hzero) | hzero
      · exact Or.inl (Or.inl hzero)
      · exact absurd hzero hne
      · exact Or.inr hzero
    simpa using List.mem_takeWhile_imp hpath
  · rintro ⟨hzero, rfl⟩
    have hpath : cString (stem ++ List.replicate k placeholder ++ suffix) =
        stem ++ List.replicate k placeholder ++ suffix := by
      unfold cString
      rw [List.takeWhile_eq_self_iff]
      intro b hb
      have hne : b ≠ 0 := fun heq => hzero (heq ▸ hb)
      simpa using hne
    rw [hpath]
    exact randomises_of_length hstem hk

end Bytes

/-! ## The path of a template -/

section Template

variable {sys : TemporaryFilesSystem} {basenameTemplate : List Char}
  {suffix dir : Option (List Char)}

/-- The path is the stem and at least six `X`. -/
theorem templatePath_eq (h : checkBasenameTemplate basenameTemplate = .ok ()) :
    ∃ k, 6 ≤ k ∧ templatePath sys basenameTemplate dir =
      stemPath sys basenameTemplate dir ++ List.replicate k 'X' := by
  obtain ⟨hends, hslash⟩ := checkBasenameTemplate_eq_ok.mp h
  have hname : PathString.IsName '/' basenameTemplate := by
    refine ⟨?_, hslash⟩
    intro hnil
    rw [hnil] at hends
    revert hends
    decide
  obtain ⟨lead, hlead, -⟩ :=
    PathString.exists_appendComponent (dir.getD sys.temporaryDirectory) hname
  obtain ⟨k, hk⟩ := exists_replicate 'X' (templatePath sys basenameTemplate dir)
  refine ⟨k, ?_, hk⟩
  apply le_of_replicate_isSuffix (getLast?_rdropWhile (templatePath sys basenameTemplate dir))
  rw [← hk]
  have hsix : List.replicate 6 'X' <:+ basenameTemplate := hends
  unfold templatePath
  rw [hlead]
  exact hsix.trans (List.suffix_append lead basenameTemplate)

theorem decompose_replicate (r : FileSystemRepresentation) (s t : List Char) (k : Nat) :
    r.decompose (s ++ List.replicate (k + 1) 'X' ++ t) =
      r.decompose s ++ List.replicate (k + 1) 'X' ++ r.decompose t := by
  induction k generalizing s with
  | zero =>
    rw [List.replicate_one, List.append_assoc, List.singleton_append, r.decompose_append,
      List.append_assoc, List.singleton_append]
  | succ k ih =>
    have hrest := ih []
    rw [List.nil_append, r.decompose_nil, List.nil_append] at hrest
    rw [List.replicate_succ, List.append_assoc, List.cons_append, r.decompose_append, hrest,
      List.append_assoc, List.cons_append]

theorem utf8_replicate (k : Nat) :
    utf8 (List.replicate k 'X') = List.replicate k placeholder := by
  induction k with
  | zero => rfl
  | succ k ih =>
    rw [List.replicate_succ, utf8_cons, ih, List.replicate_succ]
    rfl

/-- The bytes of the stem do not end with an `X`. -/
theorem getLast?_bytes_stemPath :
    (sys.representation.bytes (stemPath sys basenameTemplate dir)).getLast? ≠
      some placeholder := by
  intro hlast
  obtain ⟨c, hc, hbyte⟩ := getLast?_utf8 hlast (by decide)
  have hX : c = 'X' := Char.toNat_inj.mp (hbyte.trans rfl)
  rw [hX] at hc
  exact getLast?_rdropWhile _ (sys.representation.getLast?_decompose _ hc)

/-- The bytes of the whole template. -/
theorem bytes_template (h : checkBasenameTemplate basenameTemplate = .ok ()) :
    ∃ k, 6 ≤ k ∧ sys.representation.bytes (template sys basenameTemplate suffix dir) =
      sys.representation.bytes (stemPath sys basenameTemplate dir) ++
        List.replicate k placeholder ++ sys.representation.bytes (suffix.getD []) := by
  obtain ⟨k, hk, hpath⟩ : ∃ k, 6 ≤ k ∧ templatePath sys basenameTemplate dir =
      stemPath sys basenameTemplate dir ++ List.replicate k 'X' := templatePath_eq h
  refine ⟨k, hk, ?_⟩
  obtain ⟨j, rfl⟩ : ∃ j, k = j + 1 := ⟨k - 1, by omega⟩
  unfold template FileSystemRepresentation.bytes
  rw [hpath, decompose_replicate, utf8_append, utf8_append, utf8_replicate]

/-- The call of `mkstemps` for a template and a suffix, and the name it makes. -/
def NamesRandomised (sys : TemporaryFilesSystem) (basenameTemplate : List Char)
    (suffix dir : Option (List Char)) : Prop :=
  Randomises (tmpPath sys basenameTemplate suffix dir) (suffixLength suffix)
    (sys.representation.bytes (stemPath sys basenameTemplate dir))
    (sys.representation.bytes (suffix.getD []))

/-- For every template that passes the check, every directory and every suffix: the names
are random exactly when the path has no byte 0, and the suffix as many bytes as UTF-16 code
units. -/
theorem namesRandomised_iff (h : checkBasenameTemplate basenameTemplate = .ok ()) :
    NamesRandomised sys basenameTemplate suffix dir ↔
      0 ∉ sys.representation.bytes (template sys basenameTemplate suffix dir) ∧
        (sys.representation.bytes (suffix.getD [])).length = suffixLength suffix := by
  obtain ⟨k, hk, hbytes⟩ := @bytes_template sys basenameTemplate suffix dir h
  unfold NamesRandomised tmpPath
  rw [hbytes]
  exact randomises_iff getLast?_bytes_stemPath hk

/-- A suffix that is not decomposed has as many bytes as code units when it is ASCII. -/
theorem length_bytes_suffix_iff
    (h : sys.representation.decompose (suffix.getD []) = suffix.getD []) :
    (sys.representation.bytes (suffix.getD [])).length = suffixLength suffix ↔
      ∀ c ∈ suffix.getD [], c.val ≤ 127 := by
  unfold FileSystemRepresentation.bytes suffixLength
  rw [h]
  exact length_utf8_eq_iff _

/-- A file that is opened has such a name, when the call is asked for the right thing. -/
theorem name_of_openTemporaryFile {fd : Nat} {name : List UInt8}
    (hrandom : NamesRandomised sys basenameTemplate suffix dir)
    (h : openTemporaryFileWithBasenameTemplate sys basenameTemplate suffix dir =
      .ok (fd, name)) :
    ∃ n, 6 ≤ n ∧ name = sys.representation.bytes (stemPath sys basenameTemplate dir) ++
      sys.random n ++ sys.representation.bytes (suffix.getD []) := by
  obtain ⟨-, -, hmkstemps⟩ := openTemporaryFile_eq_ok h
  obtain ⟨-, -, hname⟩ := mkstemps_eq_ok hmkstemps
  refine ⟨_, hrandom.run, ?_⟩
  rw [hname]
  exact hrandom.name _

end Template

/-! ## ASCII, and not -/

/-- Text that no decomposition changes. -/
def asciiRepresentation : FileSystemRepresentation where
  decompose := id
  decompose_nil := rfl
  decompose_append := fun _ _ => rfl
  getLast?_decompose := fun _ h => h

/-- A file system in which every name is free. -/
def asciiSystem : TemporaryFilesSystem where
  representation := asciiRepresentation
  temporaryDirectory := "/tmp".toList
  random := fun n => List.replicate n 97
  openExclusive := fun _ => .ok 3

theorem namesRandomised_txt :
    NamesRandomised asciiSystem DEFAULT_TMP_BASENAME_TEMPLATE (some ".txt".toList) none := by
  refine (namesRandomised_iff checkBasenameTemplate_default).mpr ⟨?_, ?_⟩
  · decide
  · decide

/-- A suffix of one code unit and three bytes.  The only name for it is the template. -/
theorem not_namesRandomised :
    checkBasenameTemplate DEFAULT_TMP_BASENAME_TEMPLATE = .ok () ∧
      checkSuffix (some "⌘".toList) = .ok () ∧
      createTemporaryFileWithSuffix asciiSystem (some "⌘".toList) =
        .ok (utf8 "/tmp/BRUTemporaryFiles.XXXXXX⌘".toList) ∧
      mkstempsRun (tmpPath asciiSystem DEFAULT_TMP_BASENAME_TEMPLATE (some "⌘".toList) none)
        (suffixLength (some "⌘".toList)) = 0 ∧
      ¬ NamesRandomised asciiSystem DEFAULT_TMP_BASENAME_TEMPLATE (some "⌘".toList) none := by
  have hrun : mkstempsRun
      (tmpPath asciiSystem DEFAULT_TMP_BASENAME_TEMPLATE (some "⌘".toList) none)
      (suffixLength (some "⌘".toList)) = 0 := by decide
  refine ⟨checkBasenameTemplate_default, by decide, by decide, hrun, ?_⟩
  intro h
  have hsix := h.run
  rw [hrun] at hsix
  omega

end BromiumCoreUtils
