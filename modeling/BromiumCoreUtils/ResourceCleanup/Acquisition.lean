import BromiumCoreUtils.TemporaryFiles.Disk

/-!
# Acquiring resources step by step

The header of `BRUResourceCleanup` says how it is used: after each step that acquires a resource,
the client adds blocks that destruct it, and after a step that fails it runs all the blocks.
`setUp` is such a client.  What it asks for next may depend on what it was given, so a file can go
into a directory that an earlier step has made.

`BRUResourceCleanup.Addition` has the answer of a block from the start.  Here a block answers in
the world that it finds when it runs, and the object is given these answers.  Which blocks run,
and in which order, the object decides.

`setUp_disk` says that temporary files and directories are all there in the end, or that the disk
is as it was.  The disk is idealised: nobody else makes, removes or closes anything between the
first step and the last block, and no path goes through `.`, `..` or a link.
-/

namespace BromiumCoreUtils

open Machine Undo BRUResourceCleanup

/-- A client: it asks for a resource, and goes on with what it is given. -/
inductive Client (R A : Type) where
  | done
  | ask (request : R) (next : A → Client R A)

/-- The client was given one resource for each request, as `Q` says, and goes on as the last
one. -/
inductive Client.Given {R A : Type} (Q : R → A → Prop) : Client R A → List A → Client R A → Prop
    where
  | nil (client : Client R A) : Given Q client [] client
  | cons {request : R} {next : A → Client R A} {a : A} {granted : List A} {rest : Client R A}
      (h : Q request a) (hrest : Given Q (next a) granted rest) :
      Given Q (.ask request next) (a :: granted) rest

section

variable {W R A : Type}

/-- What a client has after its last step. -/
structure Acquired (W A : Type) where
  world : W
  granted : List A
  /-- The error of the step that failed. -/
  error : Option NSError

/-- The steps.  A step that fails changes nothing and is the last one. -/
def acquireAll (acquire : R → W → Except NSError (A × W)) : Client R A → W → Acquired W A
  | .done, w => ⟨w, [], none⟩
  | .ask request next, w =>
    match acquire request w with
    | .error error => ⟨w, [], some error⟩
    | .ok (a, w') =>
      let rest := acquireAll acquire (next a) w'
      { rest with granted := a :: rest.granted }

/-- The blocks, in the order in which they were added, with what they answer if they run in the
reverse order in this world. -/
def answered (blocks : List (Block W NSError)) (w : W) : List (Addition (Block W NSError)) :=
  List.zipWith .fallible blocks (runBlocks blocks.reverse w).2.reverse

/-- How the acquisition went. -/
structure SetUp (W A : Type) where
  world : W
  granted : List A
  error : Option NSError
  /-- The answer of `-runAllCleanupsWithError:` and the error that it leaves. -/
  unwound : Option (Bool × Option (Option NSError))
  cleanup : BRUResourceCleanup (Block W NSError)

/-- The client with its `BRUResourceCleanup`.  What the object executes changes the world. -/
def setUp (acquire : R → W → Except NSError (A × W)) (blocks : A → List (Block W NSError))
    (client : Client R A) (w : W) : Exec Assertion (SetUp W A) := do
  let { world, granted, error } := acquireAll acquire client w
  let added := granted.flatMap blocks
  let cleanup ← run step init ((answered added world).map Addition.event)
  let (unwound, cleanup) ←
    match error with
    | none => pure (none, cleanup.discardAllCleanups)
    | some _ => do
      let (success, cleanupError, cleanup) ← cleanup.runAllCleanupsWithError (some none)
      pure (some (success, cleanupError), cleanup)
  pure ⟨(runBlocks cleanup.executed world).1, granted, error, unwound, cleanup⟩

/-- The blocks of a resource take back the step that acquired it. -/
def Reversible (acquire : R → W → Except NSError (A × W)) (blocks : A → List (Block W NSError)) :
    Prop :=
  ∀ (request : R) (w w' : W) (a : A), acquire request w = .ok (a, w') → Trail w (blocks a) w'

/-! ## All or nothing -/

variable {acquire : R → W → Except NSError (A × W)} {blocks : A → List (Block W NSError)}

@[simp] theorem length_answered (added : List (Block W NSError)) (w : W) :
    (answered added w).length = added.length := by
  simp [answered]

theorem map_block_answered (added : List (Block W NSError)) (w : W) :
    (answered added w).map Addition.block = added := by
  unfold answered
  rw [List.map_zipWith]
  simp only [Addition.block]
  refine List.ext_getElem (by simp) ?_
  intro i _ _
  simp

/-- What was acquired can be taken back, however far the client came. -/
theorem trail_acquireAll (hreversible : Reversible acquire blocks) (client : Client R A) (w : W) :
    Trail w ((acquireAll acquire client w).granted.flatMap blocks)
      (acquireAll acquire client w).world := by
  induction client generalizing w with
  | done => exact .nil
  | ask request next ih =>
    unfold acquireAll
    cases hstep : acquire request w with
    | error error => exact .nil
    | ok acquired =>
      obtain ⟨a, w'⟩ := acquired
      exact (hreversible _ _ _ _ hstep).append (ih a w')

/-- A client that did not fail has all that it asked for.  One that failed did so with its next
request, in the world that it had come to. -/
theorem given_acquireAll {Q : R → A → Prop}
    (hQ : ∀ request w a w', acquire request w = .ok (a, w') → Q request a) (client : Client R A)
    (w : W) :
    ((acquireAll acquire client w).error = none →
      client.Given Q (acquireAll acquire client w).granted .done) ∧
    ∀ error, (acquireAll acquire client w).error = some error → ∃ request next,
      client.Given Q (acquireAll acquire client w).granted (.ask request next) ∧
        acquire request (acquireAll acquire client w).world = .error error := by
  induction client generalizing w with
  | done =>
    refine ⟨fun _ => .nil _, ?_⟩
    rintro error ⟨⟩
  | ask request next ih =>
    unfold acquireAll
    cases hstep : acquire request w with
    | error e =>
      refine ⟨nofun, ?_⟩
      rintro error ⟨⟩
      exact ⟨request, next, .nil _, hstep⟩
    | ok acquired =>
      obtain ⟨a, w'⟩ := acquired
      have hgiven := hQ _ _ _ _ hstep
      obtain ⟨hdone, hfailed⟩ := ih a w'
      refine ⟨fun h => .cons hgiven (hdone h), ?_⟩
      intro error h
      obtain ⟨request', next', hrest, hlast⟩ := hfailed error h
      exact ⟨request', next', .cons hgiven hrest, hlast⟩

/-- On a trail no block fails. -/
theorem ownError_answered {start w : W} {added : List (Block W NSError)}
    (h : Trail start added w) : ∀ addition ∈ answered added w, addition.ownError = none := by
  intro addition haddition
  unfold answered at haddition
  rw [h.runBlocks, List.reverse_replicate] at haddition
  obtain ⟨i, hi, rfl⟩ := List.mem_iff_getElem.mp haddition
  simp [Addition.ownError]

/-- The object of the client, when all its steps are done. -/
theorem run_answered (added : List (Block W NSError)) (w : W) :
    run step init ((answered added w).map Addition.event) =
      .ok { init with cleanupBlocks := (answered added w).map Addition.cleanupBlock } :=
  run_additions _ rfl

/-- Blocks that all succeed leave no error. -/
theorem runAllCleanups_of_noError {B : Type} {additions : List (Addition B)}
    (hnone : ∀ addition ∈ additions, addition.ownError = none) :
    runAllCleanupsWithError (some none)
        { init with cleanupBlocks := additions.map Addition.cleanupBlock } =
      .ok (true, some none, ⟨false, [], (additions.map Addition.block).reverse⟩) := by
  have hall : (additions.all fun addition => addition.ownError.isNone) = true := by
    simpa using hnone
  have hfirst : additions.findSome? Addition.ownError = none :=
    List.findSome?_eq_none_iff.mpr hnone
  have hunwound := runCleanups_reverse [] additions
  rw [hall, hfirst] at hunwound
  simp [runAllCleanupsWithError, init, hunwound]

/-- A client whose steps all succeed keeps what it has, and nothing is executed. -/
theorem setUp_acquired {client : Client R A} {w : W}
    (hnone : (acquireAll acquire client w).error = none) :
    setUp acquire blocks client w = .ok
      { world := (acquireAll acquire client w).world
        granted := (acquireAll acquire client w).granted
        error := none
        unwound := none
        cleanup := ⟨false, [], []⟩ } := by
  unfold setUp
  simp only [hnone, run_answered]
  rfl

/-- A client with a step that fails is back where it started. -/
theorem setUp_failed (hreversible : Reversible acquire blocks) {client : Client R A} {w : W}
    {error : NSError} (hsome : (acquireAll acquire client w).error = some error) :
    setUp acquire blocks client w = .ok
      { world := w
        granted := (acquireAll acquire client w).granted
        error := some error
        unwound := some (true, some none)
        cleanup :=
          ⟨false, [], ((acquireAll acquire client w).granted.flatMap blocks).reverse⟩ } := by
  have htrail := trail_acquireAll hreversible client w
  have hunwound := runAllCleanups_of_noError (ownError_answered htrail)
  rw [map_block_answered] at hunwound
  unfold setUp
  simp only [hsome, run_answered, bind, Except.bind, hunwound, pure, Except.pure,
    htrail.runBlocks]

end

/-! ## Temporary files and directories -/

/-- A call of `BRUTemporaryFiles`, with what it depends on apart from the disk. -/
inductive Request where
  | file (sys : TemporaryFilesSystem) (basenameTemplate : List Char)
      (suffix dir : Option (List Char))
  | directory (sys : TemporaryFilesSystem) (basenameTemplate : List Char)
      (dir : Option (List Char))

/-- What it returns: a file is open, and a directory is not. -/
structure Resource where
  name : List UInt8
  fd : Option Nat

/-- A request for a file gives an open one, and a request for a directory gives a directory. -/
def Request.Gives : Request → Resource → Prop
  | .file .., a => a.fd.isSome = true
  | .directory .., a => a.fd = none

/-- The disk after `open` or `mkdir`. -/
def diskAfter (d : Disk) : Except Int Disk → Disk
  | .ok d' => d'
  | .error _ => d

/-- `open` answers for this disk. -/
def TemporaryFilesSystem.on (sys : TemporaryFilesSystem) (d : Disk) : TemporaryFilesSystem :=
  { sys with openExclusive := fun path => (d.openExclusive path).map Prod.fst }

/-- The calls. -/
def acquire : Request → Disk → Except NSError (Resource × Disk)
  | .file sys basenameTemplate suffix dir, d => do
    let (fd, name) ← openTemporaryFileWithBasenameTemplate (sys.on d) basenameTemplate suffix dir
    pure (⟨name, some fd⟩, diskAfter d ((d.openExclusive name).map Prod.snd))
  | .directory sys basenameTemplate dir, d => do
    let mkdir := fun path => (d.mkdirExclusive path).map fun _ => ()
    let name ← createTemporaryDirectoryWithBasenameTemplate sys mkdir basenameTemplate dir
    pure (⟨name, none⟩, diskAfter d (d.mkdirExclusive name))

namespace Resource

def location (a : Resource) : Location :=
  .ofPath a.name

def item (a : Resource) : Item where
  location := a.location
  isDirectory := a.fd.isNone

/-- The blocks of `-addCleanupBlockForDeletingFileSystemItemAtPath:` and
`-addCleanupBlockForClosingFileDescriptor:`. -/
def blocks (a : Resource) : List (Block Disk NSError) :=
  Disk.removeItemAtPath a.name :: a.fd.toList.map Disk.closeDescriptor

end Resource

/-- The resources are new, and they are all that is new. -/
structure HasNew (d : Disk) (granted : List Resource) (d' : Disk) : Prop where
  new : ∀ a ∈ granted, ¬ d.Exists a.location
  distinct : (granted.map Resource.location).Nodup
  freshDescriptors : ∀ fd ∈ granted.filterMap Resource.fd, fd < d.limit ∧ fd ∉ d.descriptors
  distinctDescriptors : (granted.filterMap Resource.fd).Nodup
  items : d'.items = (granted.map Resource.item).reverse ++ d.items
  descriptors : d'.descriptors = (granted.filterMap Resource.fd).reverse ++ d.descriptors
  limit : d'.limit = d.limit

variable {request : Request} {a : Resource} {d d' : Disk}

theorem exists_of_map_eq_ok {E S T : Type} {x : Except E S} {f : S → T} {t : T}
    (h : x.map f = .ok t) : ∃ s, x = .ok s ∧ f s = t := by
  cases x with
  | error e => cases h
  | ok s => exact ⟨s, rfl, Except.ok.inj h⟩

/-- A call that succeeds has made a file, and `open` has answered for it, or a directory. -/
theorem acquire_eq_ok (h : acquire request d = .ok (a, d')) :
    request.Gives a ∧ ((∃ fd, a.fd = some fd ∧ d.openExclusive a.name = .ok (fd, d')) ∨
      (a.fd = none ∧ d.mkdirExclusive a.name = .ok d')) := by
  cases request with
  | file sys basenameTemplate suffix dir =>
    cases hfile : openTemporaryFileWithBasenameTemplate (sys.on d) basenameTemplate suffix dir with
    | error error =>
      rw [acquire, hfile] at h
      cases h
    | ok file =>
      obtain ⟨fd, name⟩ := file
      obtain ⟨-, -, hmkstemps⟩ := openTemporaryFile_eq_ok hfile
      obtain ⟨-, hopen, -⟩ := mkstemps_eq_ok hmkstemps
      obtain ⟨⟨fd', m⟩, hmade, hfd⟩ := exists_of_map_eq_ok hopen
      obtain rfl : fd' = fd := hfd
      rw [acquire, hfile] at h
      have heq : (⟨name, some fd'⟩, m) = (a, d') := by
        simpa [hmade, Except.map, diskAfter, bind, Except.bind, pure, Except.pure] using h
      obtain ⟨rfl, rfl⟩ := heq
      exact ⟨rfl, Or.inl ⟨fd', rfl, hmade⟩⟩
  | directory sys basenameTemplate dir =>
    cases hdirectory : createTemporaryDirectoryWithBasenameTemplate sys
        (fun path => (d.mkdirExclusive path).map fun _ => ()) basenameTemplate dir with
    | error error =>
      simp only [acquire, hdirectory] at h
      cases h
    | ok name =>
      obtain ⟨-, hmkdtemp⟩ := createTemporaryDirectory_eq_ok hdirectory
      obtain ⟨m, hmade, -⟩ := exists_of_map_eq_ok (mkdtemp_eq_ok hmkdtemp).1
      simp only [acquire, hdirectory] at h
      have heq : (⟨name, none⟩, m) = (a, d') := by
        simpa [hmade, diskAfter, bind, Except.bind, pure, Except.pure] using h
      obtain ⟨rfl, rfl⟩ := heq
      exact ⟨rfl, Or.inr ⟨rfl, hmade⟩⟩

theorem reversible_acquire : Reversible acquire Resource.blocks := by
  intro request d d' a hstep
  obtain ⟨name, fd?⟩ := a
  unfold Resource.blocks
  rcases (acquire_eq_ok hstep).2 with ⟨fd, hfd, hopen⟩ | ⟨hfd, hmkdir⟩
  · rw [hfd]
    exact Disk.trail_openExclusive hopen
  · rw [hfd]
    exact Disk.trail_mkdirExclusive hmkdir

theorem hasNew_acquire (h : acquire request d = .ok (a, d')) : HasNew d [a] d' := by
  obtain ⟨name, fd?⟩ := a
  rcases (acquire_eq_ok h).2 with ⟨fd, hfd, hopen⟩ | ⟨hfd, hmkdir⟩
  · obtain rfl : fd? = some fd := hfd
    obtain ⟨hfresh, m, hmade, rfl⟩ := Disk.openExclusive_eq_ok hopen
    obtain ⟨hnew, hitems, hdescriptors, hlimit⟩ := Disk.create_eq_ok hmade
    refine ⟨?_, by simp, ?_, by simp, hitems, ?_, hlimit⟩
    · intro a ha
      rw [List.mem_singleton.mp ha]
      exact hnew
    · intro fd' hfd'
      obtain rfl : fd' = fd := by simpa using hfd'
      exact hfresh
    · show fd :: m.descriptors = _
      rw [hdescriptors]
      rfl
  · obtain rfl : fd? = none := hfd
    obtain ⟨hnew, hitems, hdescriptors, hlimit⟩ := Disk.create_eq_ok hmkdir
    refine ⟨?_, by simp, by simp, List.nodup_nil, hitems, hdescriptors, hlimit⟩
    intro a ha
    rw [List.mem_singleton.mp ha]
    exact hnew

namespace HasNew

variable {m : Disk} {granted granted' : List Resource}

theorem nil (d : Disk) : HasNew d [] d where
  new := by simp
  distinct := List.nodup_nil
  freshDescriptors := by simp
  distinctDescriptors := List.nodup_nil
  items := rfl
  descriptors := rfl
  limit := rfl

theorem exists_of_mem (h : HasNew d granted m) (ha : a ∈ granted) : m.Exists a.location := by
  refine Or.inr ⟨a.item, ?_, rfl⟩
  rw [h.items]
  exact List.mem_append_left _ (List.mem_reverse.mpr (List.mem_map_of_mem ha))

theorem exists_of_exists {l : Location} (h : HasNew d granted m) (hexists : d.Exists l) :
    m.Exists l := by
  refine hexists.imp_right ?_
  rintro ⟨item, hitem, hlocation⟩
  refine ⟨item, ?_, hlocation⟩
  rw [h.items]
  exact List.mem_append_right _ hitem

/-- What is granted later is new on a disk that has what was granted before. -/
theorem append (h : HasNew d granted m) (h' : HasNew m granted' d') :
    HasNew d (granted ++ granted') d' where
  new a ha := by
    rcases List.mem_append.mp ha with ha | ha
    · exact h.new a ha
    · exact fun hexists => h'.new a ha (h.exists_of_exists hexists)
  distinct := by
    rw [List.map_append, List.nodup_append]
    refine ⟨h.distinct, h'.distinct, ?_⟩
    intro l hl l' hl' heq
    obtain ⟨a, ha, rfl⟩ := List.mem_map.mp hl
    obtain ⟨b, hb, hlocation⟩ := List.mem_map.mp hl'
    apply h'.new b hb
    rw [hlocation, ← heq]
    exact h.exists_of_mem ha
  freshDescriptors fd hfd := by
    rw [List.filterMap_append, List.mem_append] at hfd
    rcases hfd with hfd | hfd
    · exact h.freshDescriptors fd hfd
    · obtain ⟨hlimit, hout⟩ := h'.freshDescriptors fd hfd
      rw [h.limit] at hlimit
      rw [h.descriptors, List.mem_append, not_or] at hout
      exact ⟨hlimit, hout.2⟩
  distinctDescriptors := by
    rw [List.filterMap_append, List.nodup_append]
    refine ⟨h.distinctDescriptors, h'.distinctDescriptors, ?_⟩
    intro fd hfd fd' hfd' heq
    have hout := (h'.freshDescriptors fd' hfd').2
    apply hout
    rw [h.descriptors, ← heq]
    exact List.mem_append_left _ (List.mem_reverse.mpr hfd)
  items := by simp [h'.items, h.items]
  descriptors := by simp [h'.descriptors, h.descriptors]
  limit := h'.limit.trans h.limit

end HasNew

theorem hasNew_acquireAll (client : Client Request Resource) (d : Disk) :
    HasNew d (acquireAll acquire client d).granted (acquireAll acquire client d).world := by
  induction client generalizing d with
  | done => exact .nil d
  | ask request next ih =>
    unfold acquireAll
    cases hstep : acquire request d with
    | error error => exact .nil d
    | ok acquired =>
      obtain ⟨a, d'⟩ := acquired
      exact (hasNew_acquire hstep).append (ih a d')

/-- The client has all that it asked for, or the disk is as it was before. -/
structure AllOrNothing (client : Client Request Resource) (d : Disk) (t : SetUp Disk Resource) :
    Prop where
  /-- The object may be deallocated. -/
  ended : t.cleanup.active = false ∧ t.cleanup.ExecutesNoMore
  all : t.error = none → client.Given Request.Gives t.granted .done ∧ HasNew d t.granted t.world ∧
    t.cleanup.executed = []
  /-- There was a disk with all that was granted.  The step that failed was made there, and what
  the object executed on it, the last block first, has led back without an error. -/
  nothing : ∀ error, t.error = some error →
    (∃ request next m, client.Given Request.Gives t.granted (.ask request next) ∧
      HasNew d t.granted m ∧ acquire request m = .error error ∧
      runBlocks t.cleanup.executed m = (d, List.replicate t.cleanup.executed.length none)) ∧
    t.unwound = some (true, some none) ∧
    t.cleanup.executed = (t.granted.flatMap Resource.blocks).reverse ∧ t.world = d

/-- Whatever a client asks for, in whichever order, and wherever it fails. -/
theorem setUp_disk (client : Client Request Resource) (d : Disk) :
    ∃ t, setUp acquire Resource.blocks client d = .ok t ∧ AllOrNothing client d t := by
  have hnew := hasNew_acquireAll client d
  have hgives : ∀ request d r d', acquire request d = .ok (r, d') → request.Gives r :=
    fun _ _ _ _ h => (acquire_eq_ok h).1
  obtain ⟨hdone, hfailed⟩ := given_acquireAll hgives client d
  cases herror : (acquireAll acquire client d).error with
  | none =>
    refine ⟨_, setUp_acquired herror, ⟨rfl, executesNoMore rfl⟩,
      fun _ => ⟨hdone herror, hnew, rfl⟩, ?_⟩
    rintro error ⟨⟩
  | some error =>
    refine ⟨_, setUp_failed reversible_acquire herror, ⟨rfl, executesNoMore rfl⟩, ?_, ?_⟩
    · rintro ⟨⟩
    · rintro _ ⟨⟩
      obtain ⟨request, next, hgiven, hrequest⟩ := hfailed error herror
      refine ⟨⟨request, next, _, hgiven, hnew, hrequest, ?_⟩, rfl, rfl, rfl⟩
      rw [(trail_acquireAll reversible_acquire client d).runBlocks, List.length_reverse]

end BromiumCoreUtils
