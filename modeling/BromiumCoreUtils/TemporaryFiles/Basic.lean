import BromiumCoreUtils.Foundation
import BromiumCoreUtils.Lib.PathString
import BromiumCoreUtils.Lib.TextEncoding

/-!
# `BRUTemporaryFiles`

A temporary file is opened in three steps: the template and the suffix are checked, the
path is put together and turned into bytes, and `mkstemps` fills in the run of `X` that
ends `suffix_length` bytes before the end of the path.

Foundation decomposes a text before it is written as UTF-8.  The tables of Unicode are
not here: `FileSystemRepresentation` is a decomposition with the properties of the
letter `X` that matter.  What `mkstemps` draws and what `open` answers are arguments.
-/

namespace BromiumCoreUtils

open TextEncoding

def NSLocalizedDescriptionKey : String := "NSLocalizedDescription"

def NSFilePathErrorKey : String := "NSFilePath"

def INT_MAX : Nat := 2147483647

/-- The decomposition behind `fileSystemRepresentation`.  `X` is a starter that does not
decompose, so texts before and after it are decomposed on their own, and no
decomposition of another character ends with it. -/
structure FileSystemRepresentation where
  decompose : List Char → List Char
  decompose_nil : decompose [] = []
  decompose_append : ∀ s t, decompose (s ++ 'X' :: t) = decompose s ++ 'X' :: decompose t
  getLast?_decompose : ∀ s, (decompose s).getLast? = some 'X' → s.getLast? = some 'X'

/-- The bytes of a text for the file system. -/
def FileSystemRepresentation.bytes (r : FileSystemRepresentation) (s : List Char) :
    List UInt8 :=
  utf8 (r.decompose s)

/-- What a C function sees of these bytes. -/
def cString (bytes : List UInt8) : List UInt8 := bytes.takeWhile (· ≠ 0)

/-! ## `mkstemps` -/

/-- The byte of the letter `X`. -/
def placeholder : UInt8 := 88

/-- The letters that `mkstemps` draws from. -/
def isPadchar (b : UInt8) : Bool :=
  (48 ≤ b ∧ b ≤ 57) ∨ (65 ≤ b ∧ b ≤ 90) ∨ (97 ≤ b ∧ b ≤ 122)

/-- The path before the last `suffixlen` bytes. -/
def mkstempsFront (path : List UInt8) (suffixlen : Nat) : List UInt8 :=
  path.take (path.length - suffixlen)

/-- How many letters are filled in: the run of `X` before the suffix. -/
def mkstempsRun (path : List UInt8) (suffixlen : Nat) : Nat :=
  ((mkstempsFront path suffixlen).rtakeWhile (· = placeholder)).length

/-- The path with the letters in the place of the run. -/
def mkstempsName (random path : List UInt8) (suffixlen : Nat) : List UInt8 :=
  (mkstempsFront path suffixlen).rdropWhile (· = placeholder) ++ random ++
    path.drop (path.length - suffixlen)

/-- What a call depends on: the temporary directory of Foundation, the letters that
`mkstemps` ends with for a run, and the answer of `open` with `O_CREAT|O_EXCL`. -/
structure TemporaryFilesSystem where
  representation : FileSystemRepresentation
  temporaryDirectory : List Char
  random : Nat → List UInt8
  openExclusive : List UInt8 → Except Int Nat

/-- `mkstemps`, with the descriptor and the path that it leaves. -/
def mkstemps (sys : TemporaryFilesSystem) (path : List UInt8) (suffixlen : Nat) :
    Except Int (Nat × List UInt8) :=
  if path.length ≤ suffixlen then .error EINVAL
  else
    let name := mkstempsName (sys.random (mkstempsRun path suffixlen)) path suffixlen
    (sys.openExclusive name).map fun fd => (fd, name)

/-! ## The methods -/

def DEFAULT_TMP_BASENAME_TEMPLATE : List Char := "BRUTemporaryFiles.XXXXXX".toList

/-- The check of the template. -/
def checkBasenameTemplate (basenameTemplate : List Char) : Except NSError Unit :=
  if ¬ "XXXXXX".toList <:+ basenameTemplate ∨ '/' ∈ basenameTemplate then
    .error {
      domain := NSPOSIXErrorDomain
      code := EINVAL
      userInfo := [(NSLocalizedDescriptionKey,
        "Template for template file must not be nil or contain '/' and has to end in 'XXXXXX'")] }
  else .ok ()

/-- `suffix.length`, which is 0 for `nil`. -/
def suffixLength (suffix : Option (List Char)) : Nat := utf16Length (suffix.getD [])

/-- The check of the suffix. -/
def checkSuffix (suffix : Option (List Char)) : Except NSError Unit :=
  if INT_MAX < suffixLength suffix ∨ '/' ∈ suffix.getD [] then
    .error {
      domain := NSPOSIXErrorDomain
      code := EINVAL
      userInfo := [(NSLocalizedDescriptionKey, "Suffix is too long or contains '/'")] }
  else .ok ()

/-- The template in its directory. -/
def templatePath (sys : TemporaryFilesSystem) (basenameTemplate : List Char)
    (dir : Option (List Char)) : List Char :=
  PathString.appendComponent '/' (dir.getD sys.temporaryDirectory) basenameTemplate

/-- The variable `template`. -/
def template (sys : TemporaryFilesSystem) (basenameTemplate : List Char)
    (suffix dir : Option (List Char)) : List Char :=
  templatePath sys basenameTemplate dir ++ suffix.getD []

/-- The variable `tmpPath`, before the call of `mkstemps`. -/
def tmpPath (sys : TemporaryFilesSystem) (basenameTemplate : List Char)
    (suffix dir : Option (List Char)) : List UInt8 :=
  cString (sys.representation.bytes (template sys basenameTemplate suffix dir))

/-- `openTemporaryFileWithBasenameTemplate:suffix:inDirectory:outFilename:error:`, with
the descriptor of the handle and the bytes of the file name. -/
def openTemporaryFileWithBasenameTemplate (sys : TemporaryFilesSystem)
    (basenameTemplate : List Char) (suffix dir : Option (List Char)) :
    Except NSError (Nat × List UInt8) := do
  checkBasenameTemplate basenameTemplate
  checkSuffix suffix
  match mkstemps sys (tmpPath sys basenameTemplate suffix dir) (suffixLength suffix) with
  | .ok file => pure file
  | .error errno =>
    throw {
      domain := NSPOSIXErrorDomain
      code := errno
      userInfo := [(NSFilePathErrorKey,
        String.ofList (template sys basenameTemplate suffix dir))] }

/-- `createTemporaryFileWithBasenameTemplate:suffix:inDirectory:error:`, which closes the
handle. -/
def createTemporaryFileWithBasenameTemplate (sys : TemporaryFilesSystem)
    (basenameTemplate : List Char) (suffix dir : Option (List Char)) :
    Except NSError (List UInt8) := do
  let file ← openTemporaryFileWithBasenameTemplate sys basenameTemplate suffix dir
  pure file.2

/-- `createTemporaryFileWithSuffix:error:`. -/
def createTemporaryFileWithSuffix (sys : TemporaryFilesSystem) (suffix : Option (List Char)) :
    Except NSError (List UInt8) :=
  createTemporaryFileWithBasenameTemplate sys DEFAULT_TMP_BASENAME_TEMPLATE suffix none

/-! ## What the checks say -/

theorem checkBasenameTemplate_eq_ok {basenameTemplate : List Char} :
    checkBasenameTemplate basenameTemplate = .ok () ↔
      "XXXXXX".toList <:+ basenameTemplate ∧ '/' ∉ basenameTemplate := by
  unfold checkBasenameTemplate
  split
  · rename_i h
    refine iff_of_false (by simp) ?_
    rintro ⟨hsuffix, hslash⟩
    exact h.elim (fun hne => hne hsuffix) hslash
  · rename_i h
    refine iff_of_true rfl ?_
    rw [not_or, not_not] at h
    exact h

/-- The default template passes the check. -/
theorem checkBasenameTemplate_default :
    checkBasenameTemplate DEFAULT_TMP_BASENAME_TEMPLATE = .ok () := by
  rw [checkBasenameTemplate_eq_ok]
  decide

/-- What `mkstemps` opens. -/
theorem mkstemps_eq_ok {sys : TemporaryFilesSystem} {path name : List UInt8} {suffixlen fd : Nat}
    (h : mkstemps sys path suffixlen = .ok (fd, name)) :
    suffixlen < path.length ∧ sys.openExclusive name = .ok fd ∧
      name = mkstempsName (sys.random (mkstempsRun path suffixlen)) path suffixlen := by
  unfold mkstemps at h
  split at h
  · cases h
  · rename_i hlength
    refine ⟨Nat.lt_of_not_le hlength, ?_⟩
    generalize mkstempsName (sys.random (mkstempsRun path suffixlen)) path suffixlen = made at h ⊢
    cases hopen : sys.openExclusive made with
    | error errno => simp [hopen, Except.map] at h
    | ok fd' =>
      obtain ⟨rfl, rfl⟩ : fd' = fd ∧ made = name := by simpa [hopen, Except.map] using h
      exact ⟨hopen, rfl⟩

/-- A file that has been opened has the name that `mkstemps` has made, and `open` has
answered for this name. -/
theorem openTemporaryFile_eq_ok {sys : TemporaryFilesSystem} {basenameTemplate : List Char}
    {suffix dir : Option (List Char)} {fd : Nat} {name : List UInt8}
    (h : openTemporaryFileWithBasenameTemplate sys basenameTemplate suffix dir =
      .ok (fd, name)) :
    checkBasenameTemplate basenameTemplate = .ok () ∧ checkSuffix suffix = .ok () ∧
      mkstemps sys (tmpPath sys basenameTemplate suffix dir) (suffixLength suffix) =
        .ok (fd, name) := by
  unfold openTemporaryFileWithBasenameTemplate at h
  cases htemplate : checkBasenameTemplate basenameTemplate with
  | error error =>
    rw [htemplate] at h
    cases h
  | ok _ =>
    cases hsuffix : checkSuffix suffix with
    | error error =>
      rw [htemplate, hsuffix] at h
      cases h
    | ok _ =>
      rw [htemplate, hsuffix] at h
      refine ⟨rfl, rfl, ?_⟩
      cases hfile : mkstemps sys (tmpPath sys basenameTemplate suffix dir)
          (suffixLength suffix) with
      | error errno =>
        rw [hfile] at h
        cases h
      | ok file =>
        rw [hfile] at h
        have heq : file = (fd, name) := Except.ok.inj h
        rw [heq]

end BromiumCoreUtils
