import BromiumCoreUtils.TemporaryFiles.Suffix

/-!
# Temporary directories

`createTemporaryDirectoryWithBasenameTemplate:inDirectory:error:` is a second copy of the code
that opens a file.  Its check is the same, with another text, and it has no suffix.  `mkdtemp`
therefore finds the run of `X` where the template ends, and the name is random for every template
that passes the check, unless a byte of the path is 0.
-/

namespace BromiumCoreUtils

open TextEncoding

/-- `mkdtemp`, with the path that it leaves.  `mkdir` is what the directory is made with. -/
def mkdtemp (sys : TemporaryFilesSystem) (mkdir : List UInt8 → Except Int Unit)
    (path : List UInt8) : Except Int (List UInt8) :=
  if path = [] then .error EINVAL
  else
    let name := mkstempsName (sys.random (mkstempsRun path 0)) path 0
    (mkdir name).map fun _ => name

/-- The check of the template of a directory. -/
def checkDirectoryTemplate (basenameTemplate : List Char) : Except NSError Unit :=
  if ¬ "XXXXXX".toList <:+ basenameTemplate ∨ '/' ∈ basenameTemplate then
    .error {
      domain := NSPOSIXErrorDomain
      code := EINVAL
      userInfo := [(NSLocalizedDescriptionKey,
        "template template must not be nil or contain '/' and has to end in 'XXXXXX'")] }
  else .ok ()

/-- `createTemporaryDirectoryWithBasenameTemplate:inDirectory:error:`, with the bytes of the
path. -/
def createTemporaryDirectoryWithBasenameTemplate (sys : TemporaryFilesSystem)
    (mkdir : List UInt8 → Except Int Unit) (basenameTemplate : List Char)
    (dir : Option (List Char)) : Except NSError (List UInt8) := do
  checkDirectoryTemplate basenameTemplate
  match mkdtemp sys mkdir (tmpPath sys basenameTemplate none dir) with
  | .ok name => pure name
  | .error errno =>
    throw {
      domain := NSPOSIXErrorDomain
      code := errno
      userInfo := [(NSFilePathErrorKey, String.ofList (templatePath sys basenameTemplate dir))] }

/-- `createTemporaryDirectoryInDirectory:error:`. -/
def createTemporaryDirectoryInDirectory (sys : TemporaryFilesSystem)
    (mkdir : List UInt8 → Except Int Unit) (dir : Option (List Char)) :
    Except NSError (List UInt8) :=
  createTemporaryDirectoryWithBasenameTemplate sys mkdir DEFAULT_TMP_BASENAME_TEMPLATE dir

/-- `createTemporaryDirectoryError:`. -/
def createTemporaryDirectoryError (sys : TemporaryFilesSystem)
    (mkdir : List UInt8 → Except Int Unit) : Except NSError (List UInt8) :=
  createTemporaryDirectoryInDirectory sys mkdir none

variable {sys : TemporaryFilesSystem} {mkdir : List UInt8 → Except Int Unit}
  {basenameTemplate : List Char} {dir : Option (List Char)}

/-- The two checks let the same templates pass. -/
theorem checkDirectoryTemplate_eq_ok :
    checkDirectoryTemplate basenameTemplate = .ok () ↔
      checkBasenameTemplate basenameTemplate = .ok () := by
  unfold checkDirectoryTemplate checkBasenameTemplate
  split <;> simp

theorem mkdtemp_eq_ok {path name : List UInt8} (h : mkdtemp sys mkdir path = .ok name) :
    mkdir name = .ok () ∧ name = mkstempsName (sys.random (mkstempsRun path 0)) path 0 := by
  unfold mkdtemp at h
  split at h
  · cases h
  · generalize mkstempsName (sys.random (mkstempsRun path 0)) path 0 = made at h ⊢
    cases hmade : mkdir made with
    | error errno => simp [hmade, Except.map] at h
    | ok _ =>
      obtain rfl : made = name := by simpa [hmade, Except.map] using h
      exact ⟨hmade, rfl⟩

/-- A directory that was made has the name of `mkdtemp`, and `mkdir` has answered for it. -/
theorem createTemporaryDirectory_eq_ok {name : List UInt8}
    (h : createTemporaryDirectoryWithBasenameTemplate sys mkdir basenameTemplate dir = .ok name) :
    checkBasenameTemplate basenameTemplate = .ok () ∧
      mkdtemp sys mkdir (tmpPath sys basenameTemplate none dir) = .ok name := by
  unfold createTemporaryDirectoryWithBasenameTemplate at h
  cases hcheck : checkDirectoryTemplate basenameTemplate with
  | error error =>
    rw [hcheck] at h
    cases h
  | ok _ =>
    refine ⟨checkDirectoryTemplate_eq_ok.mp hcheck, ?_⟩
    rw [hcheck] at h
    cases hmade : mkdtemp sys mkdir (tmpPath sys basenameTemplate none dir) with
    | error errno =>
      rw [hmade] at h
      cases h
    | ok made =>
      rw [hmade] at h
      rw [Except.ok.inj h]

@[simp] theorem FileSystemRepresentation.bytes_nil (r : FileSystemRepresentation) :
    r.bytes [] = [] := by
  show utf8 (r.decompose []) = []
  rw [r.decompose_nil]
  rfl

/-- Without a suffix there is nothing to count, so the name is random. -/
theorem namesRandomised_directory (h : checkBasenameTemplate basenameTemplate = .ok ()) :
    NamesRandomised sys basenameTemplate none dir ↔
      0 ∉ sys.representation.bytes (templatePath sys basenameTemplate dir) := by
  obtain ⟨k, hk, hbytes⟩ := @bytes_template sys basenameTemplate none dir h
  have htemplate : template sys basenameTemplate none dir =
      templatePath sys basenameTemplate dir := List.append_nil _
  unfold NamesRandomised tmpPath
  rw [hbytes, randomises_iff getLast?_bytes_stemPath hk, ← hbytes, htemplate]
  exact and_iff_left (by simp [suffixLength, utf16Length])

/-- The name of a directory: the template in its directory, with at least six letters in the
place of its run of `X`. -/
theorem name_of_createTemporaryDirectory {name : List UInt8}
    (hzero : 0 ∉ sys.representation.bytes (templatePath sys basenameTemplate dir))
    (h : createTemporaryDirectoryWithBasenameTemplate sys mkdir basenameTemplate dir = .ok name) :
    ∃ n, 6 ≤ n ∧ name = sys.representation.bytes (stemPath sys basenameTemplate dir) ++
      sys.random n := by
  obtain ⟨hcheck, hmkdtemp⟩ := createTemporaryDirectory_eq_ok h
  obtain ⟨-, hname⟩ := mkdtemp_eq_ok hmkdtemp
  have hrandom := (namesRandomised_directory hcheck).mpr hzero
  refine ⟨_, hrandom.run, ?_⟩
  rw [hname]
  have hmade := hrandom.name (sys.random (mkstempsRun (tmpPath sys basenameTemplate none dir) 0))
  simpa [suffixLength, utf16Length] using hmade

end BromiumCoreUtils
