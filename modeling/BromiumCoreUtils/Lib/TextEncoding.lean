import Mathlib.Data.List.Basic

/-!
# Two lengths of a text

A text is a list of characters.  Its UTF-8 form is a list of bytes, and its UTF-16 form
is only counted.  `utf16Length_le` compares the two lengths, and
`length_utf8_eq_iff` says for which texts they are the same.  `getLast?_utf8` reads an
ASCII character at the end off the bytes.
-/

namespace TextEncoding

/-- The UTF-8 bytes of a text. -/
def utf8 (s : List Char) : List UInt8 := s.flatMap String.utf8EncodeChar

/-- How many UTF-16 code units a character takes: one, or a surrogate pair. -/
def utf16Size (c : Char) : Nat := if c.val ≤ 0xFFFF then 1 else 2

/-- How many UTF-16 code units a text has. -/
def utf16Length : List Char → Nat
  | [] => 0
  | c :: s => utf16Size c + utf16Length s

@[simp] theorem utf8_nil : utf8 [] = [] := rfl

@[simp] theorem utf8_append (s t : List Char) : utf8 (s ++ t) = utf8 s ++ utf8 t :=
  List.flatMap_append

@[simp] theorem utf8_cons (c : Char) (s : List Char) :
    utf8 (c :: s) = String.utf8EncodeChar c ++ utf8 s :=
  List.flatMap_cons

/-! ## The two lengths -/

theorem utf16Size_le (c : Char) : utf16Size c ≤ c.utf8Size := by
  unfold utf16Size
  have hpos := c.utf8Size_pos
  split
  · omega
  · rename_i hbig
    rw [UInt32.not_le] at hbig
    rw [Char.utf8Size_eq_four_iff.mpr hbig]
    omega

theorem utf16Size_eq_iff (c : Char) : c.utf8Size = utf16Size c ↔ c.val ≤ 127 := by
  constructor
  · intro h
    unfold utf16Size at h
    split at h
    · exact Char.utf8Size_eq_one_iff.mp h
    · rename_i hbig
      rw [UInt32.not_le] at hbig
      rw [Char.utf8Size_eq_four_iff.mpr hbig] at h
      omega
  · intro h
    have hsmall : c.val ≤ 0xFFFF := by
      rw [UInt32.le_iff_toNat_le] at h ⊢
      show c.val.toNat ≤ 65535
      have h : c.val.toNat ≤ 127 := h
      omega
    unfold utf16Size
    rw [if_pos hsmall]
    exact Char.utf8Size_eq_one_iff.mpr h

/-- No text has more code units than bytes. -/
theorem utf16Length_le (s : List Char) : utf16Length s ≤ (utf8 s).length := by
  induction s with
  | nil => exact Nat.le_refl 0
  | cons c s ih =>
    have hc := utf16Size_le c
    rw [utf8_cons, List.length_append, String.length_utf8EncodeChar]
    show utf16Size c + utf16Length s ≤ _
    omega

/-- The lengths are the same for ASCII, and for nothing else. -/
theorem length_utf8_eq_iff (s : List Char) :
    (utf8 s).length = utf16Length s ↔ ∀ c ∈ s, c.val ≤ 127 := by
  induction s with
  | nil => simp [utf16Length]
  | cons c s ih =>
    have hc := utf16Size_le c
    have hs := utf16Length_le s
    rw [utf8_cons, List.length_append, String.length_utf8EncodeChar, List.forall_mem_cons, ← ih,
      ← utf16Size_eq_iff]
    show _ = utf16Size c + utf16Length s ↔ _
    omega

/-! ## ASCII bytes -/

/-- The bytes of a longer character are not ASCII. -/
theorem not_ascii_ofNat {n : Nat} (hlow : 128 ≤ n) (hhigh : n < 256) :
    ¬ (UInt8.ofNat n).toNat < 128 := by
  rw [UInt8.toNat_ofNat']
  omega

/-- A byte below 128 is a character of its own. -/
theorem utf8EncodeChar_of_mem {c : Char} {b : UInt8} (hmem : b ∈ String.utf8EncodeChar c)
    (hb : b.toNat < 128) : String.utf8EncodeChar c = [b] ∧ c.toNat = b.toNat := by
  revert hmem
  fun_cases String.utf8EncodeChar with
  | case1 v hv =>
    intro hmem
    rw [List.mem_singleton] at hmem
    rw [hmem, UInt8.toNat_ofNat']
    refine ⟨rfl, ?_⟩
    show v = v % 2 ^ 8
    omega
  | case2 v _ hv =>
    intro hmem
    simp only [List.mem_cons, List.not_mem_nil, or_false] at hmem
    rcases hmem with rfl | rfl
    · exact absurd hb (not_ascii_ofNat (by omega) (by omega))
    · exact absurd hb (not_ascii_ofNat (by omega) (by omega))
  | case3 v _ _ hv =>
    intro hmem
    simp only [List.mem_cons, List.not_mem_nil, or_false] at hmem
    rcases hmem with rfl | rfl | rfl
    · exact absurd hb (not_ascii_ofNat (by omega) (by omega))
    · exact absurd hb (not_ascii_ofNat (by omega) (by omega))
    · exact absurd hb (not_ascii_ofNat (by omega) (by omega))
  | case4 v _ _ _ =>
    intro hmem
    simp only [List.mem_cons, List.not_mem_nil, or_false] at hmem
    rcases hmem with rfl | rfl | rfl | rfl
    · exact absurd hb (not_ascii_ofNat (by omega) (by omega))
    · exact absurd hb (not_ascii_ofNat (by omega) (by omega))
    · exact absurd hb (not_ascii_ofNat (by omega) (by omega))
    · exact absurd hb (not_ascii_ofNat (by omega) (by omega))

/-- The ASCII bytes of a text are its ASCII characters. -/
theorem mem_utf8_iff {s : List Char} {b : UInt8} {c : Char}
    (hc : String.utf8EncodeChar c = [b]) (hb : b.toNat < 128) : b ∈ utf8 s ↔ c ∈ s := by
  constructor
  · intro hmem
    obtain ⟨d, hd, hmem⟩ := List.mem_flatMap.mp hmem
    have hdb := (utf8EncodeChar_of_mem hmem hb).2
    have hcb := (utf8EncodeChar_of_mem (by rw [hc]; exact List.mem_singleton_self b) hb).2
    rw [Char.toNat_inj.mp (hcb.trans hdb.symm)]
    exact hd
  · intro hmem
    exact List.mem_flatMap.mpr ⟨c, hmem, by rw [hc]; exact List.mem_singleton_self b⟩

/-- A text can be read back from its bytes. -/
theorem utf8_injective : Function.Injective utf8 := by
  intro s t heq
  apply String.ofList_injective
  rw [← String.toByteArray_inj, String.toByteArray_ofList, String.toByteArray_ofList]
  show (utf8 s).toByteArray = (utf8 t).toByteArray
  rw [heq]

/-- The last byte of a text, when it is ASCII, is the last character. -/
theorem getLast?_utf8 {s : List Char} {b : UInt8} (h : (utf8 s).getLast? = some b)
    (hb : b.toNat < 128) : ∃ c, s.getLast? = some c ∧ c.toNat = b.toNat := by
  induction s with
  | nil => cases h
  | cons c s ih =>
    cases s with
    | nil =>
      rw [utf8_cons, utf8_nil, List.append_nil] at h
      exact ⟨c, rfl, (utf8EncodeChar_of_mem (List.mem_of_getLast? h) hb).2⟩
    | cons d s =>
      have hne : utf8 (d :: s) ≠ [] := by
        rw [utf8_cons]
        exact List.append_ne_nil_of_left_ne_nil String.utf8EncodeChar_ne_nil _
      rw [utf8_cons, List.getLast?_append_of_ne_nil _ hne] at h
      obtain ⟨e, he, hb⟩ := ih h
      exact ⟨e, by rw [List.getLast?_cons_of_ne_nil (by simp), he], hb⟩

end TextEncoding
