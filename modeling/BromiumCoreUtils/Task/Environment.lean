import BromiumCoreUtils.Lib.Separated
import BromiumCoreUtils.Task.Arguments

/-!
# What the program of a `BRUTask` is given

`launch_arrays` says what `launchWithError:` does with its two arrays: what the program finds
in them, and what is left of them on the heap of the parent.  `getenv_launched` is about
the environment, which is a dictionary on one side and a list of `key=value` on the other.
-/

namespace BromiumCoreUtils

open TextEncoding CHeap

/-- An entry of a dictionary, and whether there is enough memory for the copy of its string. -/
structure EnvironmentEntry where
  key : List Char
  value : List Char
  enough : Bool
deriving DecidableEq, Repr

/-- `stringWithFormat:@"%@=%@"`. -/
def EnvironmentEntry.string (e : EnvironmentEntry) : ArrayString where
  text := e.key ++ '=' :: e.value
  enough := e.enough

/-- The entries come in the order of `keyEnumerator`. -/
def buildEnvironmentWithDictionary (enough : Bool) (envDict : List EnvironmentEntry)
    (h : CHeap) : Except HeapFault (Option Nat × CHeap) :=
  deepMallocedNullTerminatedArrayOfCUTF8StringsWithArray enough
    (envDict.map EnvironmentEntry.string) h

/-- The strings of a task, and whether there is enough memory for the two arrays. -/
structure LaunchStrings where
  launchPath : ArrayString
  arguments : List ArrayString
  environment : Option (List EnvironmentEntry)
  enoughArgv : Bool
  enoughEnvp : Bool
deriving DecidableEq, Repr

/-- The variable `argvNS`. -/
def LaunchStrings.argvNS (t : LaunchStrings) : List ArrayString := t.launchPath :: t.arguments

/-- The variable `envArray`, with no element if there is no environment. -/
def LaunchStrings.envArray (t : LaunchStrings) : List ArrayString :=
  (t.environment.getD []).map EnvironmentEntry.string

/-- What `execve` is given. -/
structure ExecArguments where
  path : Option (List UInt8)
  argv : List (List UInt8)
  envp : List (List UInt8)
deriving DecidableEq, Repr

/-- `execve(argv[0], argv, envp)`.  The child has a copy of the heap of its parent. -/
def execArguments (argv envp : Option Nat) (h : CHeap) : Except HeapFault ExecArguments := do
  let first ← match argv with
    | some p => loadCell p 0 h
    | none => .error .invalidAccess
  let path ← match first with
    | some s => (loadChars s h).map some
    | none => pure none
  let argv ← readArray argv h
  let envp ← readArray envp h
  pure { path, argv, envp }

/-- The variable `envp`. -/
def buildEnvp (t : LaunchStrings) (h : CHeap) : Except HeapFault (Option Nat × CHeap) :=
  match t.environment with
  | none => .ok (none, h)
  | some envDict => buildEnvironmentWithDictionary t.enoughEnvp envDict h

/-- What `launchWithError:` does with the two arrays. -/
def launchArrays (t : LaunchStrings) (h : CHeap) :
    Except HeapFault (ExecArguments × CHeap) := do
  let (argv, h) ← deepMallocedNullTerminatedArrayOfCUTF8StringsWithArray t.enoughArgv t.argvNS h
  let (envp, h) ← buildEnvp t h
  let seen ← execArguments argv envp h
  let h ← freeDeepMallocedNullTerminatedArrayOfCUTF8StringsWithArray argv h
  let h ← freeDeepMallocedNullTerminatedArrayOfCUTF8StringsWithArray envp h
  pure (seen, h)

/-! ## The arrays -/

/-- There is memory for the arrays themselves. -/
def LaunchStrings.ArraysFit (t : LaunchStrings) : Prop :=
  t.enoughArgv = true ∧ (t.envArray ≠ [] → t.enoughEnvp = true)

instance (t : LaunchStrings) : Decidable t.ArraysFit :=
  inferInstanceAs (Decidable (_ ∧ (_ → _)))

/-- What the program should be given: the strings up to the first one without memory. -/
def LaunchStrings.seen (t : LaunchStrings) : ExecArguments where
  path := if t.launchPath.enough then some t.launchPath.bytes else none
  argv := (t.argvNS.takeWhile (·.enough)).map ArrayString.bytes
  envp := (t.envArray.takeWhile (·.enough)).map ArrayString.bytes

/-- The strings that were copied behind that one. -/
def copiedBehind (arr : List ArrayString) : List ArrayString :=
  (arr.dropWhile (·.enough)).filter (·.enough)

/-- One heap is the other with a new block for each of the strings. -/
def Leaked (h h' : CHeap) (strings : List ArrayString) : Prop :=
  ∃ addresses : List Nat, addresses.Nodup ∧
    List.Forall₂ (fun a (s : ArrayString) =>
      h.blocks a = none ∧ h'.blocks a = some (.chars s.bytes)) addresses strings ∧
    ∀ a, a ∉ addresses → h'.blocks a = h.blocks a

theorem buildEnvp_eq (t : LaunchStrings) (h : CHeap) :
    buildEnvp t h =
      deepMallocedNullTerminatedArrayOfCUTF8StringsWithArray t.enoughEnvp t.envArray h := by
  unfold buildEnvp LaunchStrings.envArray
  cases t.environment with
  | none => rfl
  | some envDict => rfl

/-- The child reads what the two arrays hold. -/
theorem execArguments_eq {lo lo' : Nat} {h : CHeap} {argv envp : Option Nat}
    {copies copies' : List (Option Nat)} {t : LaunchStrings}
    (hargv : Holds lo h argv copies t.argvNS) (henvp : Holds lo' h envp copies' t.envArray) :
    execArguments argv envp h = .ok t.seen := by
  have hreadArgv := hargv.readArray
  have hreadEnvp := henvp.readArray
  cases argv with
  | none => exact absurd (hargv.empty rfl) (List.cons_ne_nil _ _)
  | some p =>
    obtain ⟨_, hblock⟩ := hargv.array p rfl
    have heach := hargv.each
    cases heach with
    | @cons copy _ copies _ hcopy _ =>
      have hfirst : loadCell p 0 h = .ok copy := loadCell_eq_ok hblock (by simp)
      simp only [execArguments, hfirst, hreadArgv, hreadEnvp, bind, Except.bind]
      cases copy with
      | none =>
        have henough : t.launchPath.enough = false := hcopy
        simp [LaunchStrings.seen, henough, pure, Except.pure]
      | some a =>
        obtain ⟨henough, _, hchars⟩ := hcopy
        simp [LaunchStrings.seen, henough, loadChars_eq_ok hchars, Except.map, pure,
          Except.pure]

/-- Both arrays are taken back, but for what is behind a `NULL`. -/
theorem exists_freeArrays {lo lo' : Nat} {h : CHeap} {argv envp : Option Nat}
    {copies copies' : List (Option Nat)} {arr arr' : List ArrayString}
    (hargv : Holds lo h argv copies arr) (henvp : Holds lo' h envp copies' arr')
    (hdisjoint : ∀ a ∈ owned argv copies, a ∉ owned envp copies') :
    ∃ m h', freeDeepMallocedNullTerminatedArrayOfCUTF8StringsWithArray argv h = .ok m ∧
      freeDeepMallocedNullTerminatedArrayOfCUTF8StringsWithArray envp m = .ok h' ∧
      ∀ a, h'.blocks a =
        if a ∈ behind copies ∨ a ∈ behind copies' then h.blocks a
        else if a ∈ owned argv copies ∨ a ∈ owned envp copies' then none
        else h.blocks a := by
  obtain ⟨m, hfree, hblocks⟩ := hargv.exists_free
  have henvp' : Holds lo' m envp copies' arr' := by
    refine henvp.frame ?_
    intro a ha
    rw [hblocks, if_neg fun hand => hdisjoint a hand.1 ha]
  obtain ⟨h', hfree', hblocks'⟩ := henvp'.exists_free
  refine ⟨m, h', hfree, hfree', ?_⟩
  intro a
  rw [hblocks', hblocks]
  have hown : a ∈ behind copies → a ∈ owned argv copies := behind_subset_owned
  have hown' : a ∈ behind copies' → a ∈ owned envp copies' := behind_subset_owned
  have hdis := hdisjoint a
  by_cases hbehind : a ∈ behind copies
  · have hnot : a ∉ owned envp copies' := hdis (hown hbehind)
    rw [if_neg (fun hand => hnot hand.1), if_neg (fun hand => hand.2 hbehind),
      if_pos (.inl hbehind)]
  · by_cases hbehind' : a ∈ behind copies'
    · have hnot : a ∉ owned argv copies := fun hmem => hdis hmem (hown' hbehind')
      rw [if_neg (fun hand => hand.2 hbehind'), if_neg (fun hand => hnot hand.1),
        if_pos (.inr hbehind')]
    · by_cases hmem' : a ∈ owned envp copies'
      · rw [if_pos ⟨hmem', hbehind'⟩, if_neg (by simp [hbehind, hbehind']), if_pos (.inr hmem')]
      · by_cases hmem : a ∈ owned argv copies
        · rw [if_neg (fun hand => hmem' hand.1), if_pos ⟨hmem, hbehind⟩,
            if_neg (by simp [hbehind, hbehind']), if_pos (.inl hmem)]
        · rw [if_neg (fun hand => hmem' hand.1), if_neg (fun hand => hmem hand.1),
            if_neg (by simp [hbehind, hbehind']), if_neg (by simp [hmem, hmem'])]

/-- Without memory for it an array with elements is not built. -/
theorem build_eq_error {arr : List ArrayString} (hne : arr ≠ []) (h : CHeap) :
    deepMallocedNullTerminatedArrayOfCUTF8StringsWithArray false arr h =
      .error .invalidAccess := by
  cases arr with
  | nil => exact absurd rfl hne
  | cons s arr => rfl

/-- The two arrays, from the copies to the frees. -/
theorem exists_launchArrays {t : LaunchStrings} (hfit : t.ArraysFit) (h : CHeap) :
    ∃ h', launchArrays t h = .ok (t.seen, h') ∧
      Leaked h h' (copiedBehind t.argvNS ++ copiedBehind t.envArray) := by
  obtain ⟨henough, henough'⟩ := hfit
  obtain ⟨argv, copies, h₁, hbuild, hargv, hframe, hnext⟩ :=
    exists_build t.argvNS h fun _ => henough
  obtain ⟨envp, copies', h₂, hbuild', henvp, hframe', hnext'⟩ :=
    exists_build t.envArray h₁ henough'
  -- the second array is built behind the first
  have hdisjoint : ∀ a ∈ owned argv copies, a ∉ owned envp copies' := by
    intro a ha ha'
    obtain ⟨content, hblock⟩ := Option.isSome_iff_exists.mp (hargv.owned_live ha).2
    have hlt := Heap.lt_next hblock
    have hle := (henvp.owned_live ha').1
    omega
  have hargv' : Holds h.next h₂ argv copies t.argvNS :=
    hargv.frame fun a ha => hframe' a (hdisjoint a ha)
  obtain ⟨m, h', hfree, hfree', hblocks⟩ := exists_freeArrays hargv' henvp hdisjoint
  refine ⟨h', ?_, behind copies ++ behind copies', ?_, ?_, ?_⟩
  · simp only [launchArrays, hbuild, buildEnvp_eq, hbuild', execArguments_eq hargv' henvp, hfree,
      hfree', bind, Except.bind, pure, Except.pure]
  · refine List.nodup_append.mpr ⟨hargv.behind_nodup, henvp.behind_nodup, ?_⟩
    rintro a ha _ ha' rfl
    exact hdisjoint a (behind_subset_owned ha) (behind_subset_owned ha')
  · have hbehind := (List.forall₂_and_left _ _).mpr
      ⟨fun a ha => (hblocks a).trans (if_pos (.inl ha)), hargv'.behind⟩
    have hbehind' := (List.forall₂_and_left _ _).mpr
      ⟨fun a ha => (hblocks a).trans (if_pos (.inr ha)), henvp.behind⟩
    refine List.rel_append (hbehind.imp ?_) (hbehind'.imp ?_)
    · rintro a s ⟨hsame, hle, hchars⟩
      exact ⟨h.fresh a hle, by rw [hsame, hchars]⟩
    · rintro a s ⟨hsame, hle, hchars⟩
      exact ⟨h.fresh a (Nat.le_trans hnext hle), by rw [hsame, hchars]⟩
  · intro a ha
    rw [List.mem_append, not_or] at ha
    rw [hblocks, if_neg (by simp [ha.1, ha.2])]
    split
    · rename_i hmem
      rcases hmem with hmem | hmem
      · exact (h.fresh a (hargv.owned_live hmem).1).symm
      · exact (h.fresh a (Nat.le_trans hnext (henvp.owned_live hmem).1)).symm
    · rename_i hmem
      rw [not_or] at hmem
      rw [hframe' a hmem.2, hframe a hmem.1]

theorem launchArrays_eq_error {t : LaunchStrings} (hfit : ¬ t.ArraysFit) (h : CHeap) :
    launchArrays t h = .error .invalidAccess := by
  cases henough : t.enoughArgv with
  | false =>
    simp only [launchArrays, henough, build_eq_error (List.cons_ne_nil _ _), bind, Except.bind,
      LaunchStrings.argvNS]
  | true =>
    obtain ⟨argv, copies, h₁, hbuild, _⟩ := exists_build t.argvNS h fun _ => henough
    have hnot : t.envArray ≠ [] ∧ t.enoughEnvp = false := by
      simpa [LaunchStrings.ArraysFit, henough] using hfit
    simp only [launchArrays, hbuild, buildEnvp_eq, hnot.2, build_eq_error hnot.1, bind, Except.bind]

/-- A launch that gets through has given the program what it should. -/
theorem seen_of_launchArrays {t : LaunchStrings} {h h' : CHeap} {seen : ExecArguments}
    (hlaunch : launchArrays t h = .ok (seen, h')) : seen = t.seen := by
  by_cases hfit : t.ArraysFit
  · obtain ⟨m, hlaunch', _⟩ := exists_launchArrays hfit h
    rw [hlaunch] at hlaunch'
    cases hlaunch'
    rfl
  · rw [launchArrays_eq_error hfit] at hlaunch
    cases hlaunch

/-- With memory for the arrays the program is given the strings up to the first one without
memory, and the copies of the strings behind it are never freed.  Without, the parent writes
through `NULL`. -/
theorem launch_arrays (t : LaunchStrings) (h : CHeap) :
    (t.ArraysFit → ∃ h', launchArrays t h = .ok (t.seen, h') ∧
      Leaked h h' (copiedBehind t.argvNS ++ copiedBehind t.envArray)) ∧
    (¬ t.ArraysFit → launchArrays t h = .error .invalidAccess) :=
  ⟨fun hfit => exists_launchArrays hfit h, fun hfit => launchArrays_eq_error hfit h⟩

/-! ## The environment -/

/-- How a program finds a variable. -/
def getenv (environ : List (List UInt8)) (name : List UInt8) : Option (List UInt8) :=
  environ.findSome? fun s =>
    if name ++ [61] <+: s then some (s.drop (name.length + 1)) else none

theorem equals_mem_utf8 {s : List Char} : (61 : UInt8) ∈ utf8 s ↔ '=' ∈ s :=
  mem_utf8_iff (by decide) (by decide)

theorem nul_mem_utf8 {s : List Char} : (0 : UInt8) ∈ utf8 s ↔ '\x00' ∈ s :=
  mem_utf8_iff (by decide) (by decide)

/-- A NUL cuts a string off, and what has none is kept. -/
theorem cString_append_cons {front : List UInt8} {b : UInt8} (rest : List UInt8)
    (hb : b ≠ 0) :
    cString (front ++ b :: rest) =
      if (0 : UInt8) ∈ front then cString front else front ++ b :: cString rest := by
  induction front with
  | nil => simp [cString, hb]
  | cons a front ih =>
    unfold cString at ih ⊢
    by_cases ha : a = 0
    · simp [ha]
    · rw [List.cons_append, List.takeWhile_cons_of_pos (by simpa using ha), ih]
      by_cases hmem : (0 : UInt8) ∈ front
      · simp [hmem, ha]
      · simp [hmem, Ne.symm ha]

/-- The bytes of an entry, whose key may have a NUL in it. -/
theorem EnvironmentEntry.bytes_string (e : EnvironmentEntry) :
    e.string.bytes =
      if '\x00' ∈ e.key then cString (utf8 e.key)
      else utf8 e.key ++ 61 :: cString (utf8 e.value) := by
  show cString (utf8 (e.key ++ '=' :: e.value)) = _
  rw [utf8_append, utf8_cons, show String.utf8EncodeChar '=' = [61] from by decide,
    List.singleton_append, cString_append_cons _ (by decide)]
  simp only [nul_mem_utf8]

section Getenv

variable {name : List Char}

/-- The entry of a variable is the one with its name for a key. -/
theorem EnvironmentEntry.isPrefix_iff (e : EnvironmentEntry) (hkey : '=' ∉ e.key)
    (hname : '=' ∉ name) (hnul : '\x00' ∉ name) :
    utf8 name ++ [61] <+: e.string.bytes ↔ e.key = name := by
  rw [e.bytes_string]
  have hkey' : (61 : UInt8) ∉ utf8 e.key := fun hmem => hkey (equals_mem_utf8.mp hmem)
  split
  · rename_i hcut
    constructor
    · intro h
      have hmem := Separated.mem_of_append_isPrefix h
      exact absurd (List.takeWhile_subset _ hmem) hkey'
    · rintro rfl
      exact absurd hcut hnul
  · rw [Separated.append_isPrefix_iff (fun hmem => hname (equals_mem_utf8.mp hmem)) hkey',
      utf8_injective.eq_iff, eq_comm]

/-- The environment of a program is its dictionary. -/
theorem getenv_strings {entries : List EnvironmentEntry} (hkeys : ∀ e ∈ entries, '=' ∉ e.key)
    (hdistinct : (entries.map EnvironmentEntry.key).Nodup) (hname : '=' ∉ name)
    (hnul : '\x00' ∉ name) (value : List UInt8) :
    getenv (entries.map fun e => e.string.bytes) (utf8 name) = some value ↔
      ∃ e ∈ entries, e.key = name ∧ cString (utf8 e.value) = value := by
  induction entries with
  | nil => simp [getenv]
  | cons e entries ih =>
    rw [List.map_cons, List.nodup_cons] at hdistinct
    have ih := ih (fun e he => hkeys e (List.mem_cons_of_mem _ he)) hdistinct.2
    unfold getenv at ih ⊢
    have hkeyed := e.isPrefix_iff (hkeys e List.mem_cons_self) hname hnul
    rw [List.map_cons, List.findSome?_cons]
    by_cases hkey : e.key = name
    · -- no other entry has the key
      have hcut : '\x00' ∉ e.key := by rw [hkey]; exact hnul
      have hdrop : e.string.bytes.drop ((utf8 name).length + 1) = cString (utf8 e.value) := by
        rw [e.bytes_string, if_neg hcut, hkey, List.append_cons]
        exact List.drop_left' (by simp)
      rw [if_pos (hkeyed.mpr hkey), hdrop]
      constructor
      · rintro ⟨⟩
        exact ⟨e, List.mem_cons_self, hkey, rfl⟩
      · rintro ⟨e', he', hkey', rfl⟩
        rcases List.mem_cons.mp he' with rfl | he'
        · rfl
        · exact absurd (List.mem_map.mpr ⟨e', he', by rw [hkey', hkey]⟩) hdistinct.1
    · rw [if_neg (mt hkeyed.mp hkey), ih]
      constructor
      · rintro ⟨e', he', hrest⟩
        exact ⟨e', List.mem_cons_of_mem _ he', hrest⟩
      · rintro ⟨e', he', hkey', hvalue⟩
        rcases List.mem_cons.mp he' with rfl | he'
        · exact absurd hkey' hkey
        · exact ⟨e', he', hkey', hvalue⟩

/-- A launched program finds the value of every key that was copied before memory ran out, in
whatever order the dictionary was written, and no other variable. -/
theorem getenv_launched {t : LaunchStrings} {h h' : CHeap} {seen : ExecArguments}
    (hlaunch : launchArrays t h = .ok (seen, h'))
    (hkeys : ∀ e ∈ t.environment.getD [], '=' ∉ e.key)
    (hdistinct : ((t.environment.getD []).map EnvironmentEntry.key).Nodup)
    (hname : '=' ∉ name) (hnul : '\x00' ∉ name) (value : List UInt8) :
    getenv seen.envp (utf8 name) = some value ↔
      ∃ e ∈ (t.environment.getD []).takeWhile (·.enough),
        e.key = name ∧ cString (utf8 e.value) = value := by
  have hseen : seen.envp =
      ((t.environment.getD []).takeWhile (·.enough)).map fun e => e.string.bytes := by
    rw [seen_of_launchArrays hlaunch]
    show (List.takeWhile _ ((t.environment.getD []).map EnvironmentEntry.string)).map _ = _
    rw [List.takeWhile_map, List.map_map]
    rfl
  rw [hseen]
  refine getenv_strings ?_ ?_ hname hnul value
  · exact fun e he => hkeys e (List.takeWhile_subset _ he)
  · exact hdistinct.sublist ((List.takeWhile_sublist _).map _)

end Getenv

/-- A task with a variable whose string cannot be copied, behind two that can. -/
def lsTask : LaunchStrings where
  launchPath := ⟨"/bin/ls".toList, true⟩
  arguments := [⟨"-l".toList, true⟩]
  environment := some [⟨"LANG".toList, "C".toList, true⟩, ⟨"PATH".toList, "/bin".toList, true⟩,
    ⟨"TERM".toList, "vt100".toList, false⟩]
  enoughArgv := true
  enoughEnvp := true

theorem getenv_launched_path : ∃ seen h',
    launchArrays lsTask { blocks := fun _ => none, next := 0, fresh := fun _ _ => rfl } =
      .ok (seen, h') ∧
    getenv seen.envp (utf8 "PATH".toList) = some (utf8 "/bin".toList) := by
  obtain ⟨seen, h', hlaunch⟩ : ∃ seen h',
      launchArrays lsTask { blocks := fun _ => none, next := 0, fresh := fun _ _ => rfl } =
        .ok (seen, h') := ⟨_, _, rfl⟩
  refine ⟨seen, h', hlaunch,
    (getenv_launched hlaunch (by decide) (by decide) (by decide) (by decide) _).mpr ?_⟩
  exact ⟨⟨"PATH".toList, "/bin".toList, true⟩, by decide, rfl, by decide⟩

end BromiumCoreUtils
