import AntRuntime.Tar.Parser

/-!
# Extracting an archive

The extractor feeds the stream to the parser and makes directories, links and files
below its output directory. Names and link targets are checked before they are used, so
every link below the output directory leads inward, and nothing outside is touched.
-/

namespace AntRuntime.Tar

open Files (Location SameOutside LinksInward)

section Model

/-- The content of a file; the number tells files apart that were at one location. -/
structure FileContent where
  id : Nat
  data : Bytes
deriving DecidableEq, Repr

/-- A tree of files with their modes; the mode of a new node is left to the system. -/
abbrev FileTree := Files.Tree Bytes (Option Nat) FileContent

/-- An open file. -/
structure Handle where
  location : Location Bytes
  id : Nat
deriving DecidableEq, Repr

/-- The fields of `Extractor` other than the parser, with the tree of files. -/
structure Output where
  tree : FileTree
  nextId : Nat
  outputDir : Location Bytes
  currentFile : Option Handle
  currentFilePath : Bytes
  currentFileMode : Nat
  filesExtracted : Nat
  bytesExtracted : Nat
  archiveFinished : Bool

/-- The fields of a new extractor, whose output directory exists. -/
def Output.init (tree : FileTree) (nextId : Nat) (outputDir : Location Bytes) :
    Output where
  tree := tree
  nextId := nextId
  outputDir := outputDir
  currentFile := none
  currentFilePath := []
  currentFileMode := 0o644
  filesExtracted := 0
  bytesExtracted := 0
  archiveFinished := false

/-- How many links the system follows on one path. -/
def linkLimit : Nat := 40

variable (output : Output)

/-- Where a path in the output directory leads. -/
def Output.locate (follow : Bool) (path : Bytes) : Option (Location Bytes) :=
  Files.walk output.tree follow linkLimit output.outputDir (toPath path).steps

/-- Change the node at a location. -/
def Output.setNode (location : Location Bytes)
    (node : Option (Files.Node Bytes (Option Nat) FileContent)) : Output :=
  { output with tree := Function.update output.tree location node }

/-- `Dir.createDirPath`. -/
def Output.createDirPath (parts : List Bytes) : Option Output :=
  (Files.makeDirs linkLimit none output.outputDir output.tree []
    (parts.map segmentStep)).map fun tree => { output with tree }

/-- `Dir.access`. -/
def Output.access (path : Bytes) : Bool :=
  ((output.locate true path).bind output.tree).isSome

/-- `Dir.createFile`: an existing file is emptied. -/
def Output.openFile (path : Bytes) : Option (Output × Handle) :=
  match output.locate true path with
  | none => none
  | some location =>
    match output.tree location with
    | none =>
      some ({ output.setNode location (some (.file none ⟨output.nextId, []⟩)) with
        nextId := output.nextId + 1 }, ⟨location, output.nextId⟩)
    | some (.file mode content) =>
      some (output.setNode location (some (.file mode { content with data := [] })),
        ⟨location, content.id⟩)
    | some _ => none

/-- `Dir.deleteFile`, with errors left aside. -/
def Output.deleteFile (path : Bytes) : Output :=
  match output.locate false path with
  | none => output
  | some location =>
    match output.tree location with
    | some (.file _ _) => output.setNode location none
    | some (.link _) => output.setNode location none
    | _ => output

/-- `createSymlinkOrCopy`, with errors left aside. -/
def Output.symLink (target path : Bytes) : Output :=
  match output.locate false path with
  | none => output
  | some location =>
    match output.tree location with
    | none => output.setNode location (some (.link (toPath target)))
    | some _ => output

/-- `fchmodat`, with errors left aside. -/
def Output.chmod (path : Bytes) (mode : Nat) : Output :=
  match output.locate true path with
  | none => output
  | some location =>
    match output.tree location with
    | some (.file _ content) => output.setNode location (some (.file (some mode) content))
    | some (.dir _) => output.setNode location (some (.dir (some mode)))
    | _ => output

/-- The mode of an executable file. -/
def Output.chmodExecutable : Output :=
  if output.currentFileMode &&& 0o111 ≠ 0 then
    output.chmod output.currentFilePath (output.currentFileMode &&& 0o777)
  else output

/-- `applyFileMode`. -/
def Output.applyFileMode : Output :=
  if output.currentFilePath = [] then output
  else
    { output.chmodExecutable with currentFilePath := [] }

/-- `closeCurrentFile`. -/
def Output.closeCurrentFile : Output :=
  if output.currentFile = none then output
  else { output.applyFileMode with currentFile := none }

/-- `deinit`: the file that is open is closed. -/
def Output.deinit : Output :=
  if output.currentFile = none then output else output.applyFileMode

/-- `createDirPath` of the directory of a path. -/
def Output.createParents (path : Bytes) : Option Output :=
  match dirname path with
  | none => some output
  | some parents => output.createDirPath parents

/-- `createFile`. -/
def Output.createFile (entry : Entry) : Output × Option ExtractError :=
  let closed := output.closeCurrentFile
  match closed.createParents entry.path with
  | none => (closed, some .ioError)
  | some ready =>
    match ready.openFile entry.path with
    | none => (ready, some .ioError)
    | some (opened, handle) =>
      ({ opened with
          currentFile := some handle
          currentFilePath := entry.path
          currentFileMode := entry.mode
          filesExtracted :=
            if ready.access entry.path then opened.filesExtracted
            else opened.filesExtracted + 1 },
        none)

/-- `createSymlink`, whose errors are not reported. -/
def Output.createSymlink (entry : Entry) : Output :=
  if entry.linkTarget = [] then output
  else if validatePath entry.linkTarget = false then output
  else
    match output.createParents entry.path with
    | none => output
    | some ready => (ready.deleteFile entry.path).symLink entry.linkTarget entry.path

/-- `handleEntry`. -/
def Output.handleEntry (entry : Entry) : Output × Option ExtractError :=
  if entry.path = [] then (output, none)
  else
    match entry.entryType with
    | .directory => ((output.createDirPath (segments entry.path)).getD output, none)
    | .file => output.createFile entry
    | .symlink => (output.createSymlink entry, none)

/-- Append to an open file. A file that has been removed takes the data with it. -/
def appendTo (tree : FileTree) (handle : Handle) (data : Bytes) : FileTree :=
  match tree handle.location with
  | some (.file mode content) =>
    if content.id = handle.id then
      Function.update tree handle.location
        (some (.file mode { content with data := content.data ++ data }))
    else tree
  | _ => tree

/-- `writeFileData`. -/
def Output.writeFileData (data : Bytes) : Output :=
  match output.currentFile with
  | none => output
  | some handle =>
    { output with
      tree := appendTo output.tree handle data
      bytesExtracted := output.bytesExtracted + data.length }

/-- What `feedTar` does with a result of the parser. -/
def Output.handleKind : Kind → Output × Option ExtractError
  | .needMoreData => (output, none)
  | .entry entry => output.handleEntry entry
  | .fileData data => (output.writeFileData data, none)
  | .endOfArchive => ({ output with archiveFinished := true }.closeCurrentFile, none)
  | .err error => (output, some error)

/-- The extractor. -/
structure Extractor where
  parser : TarParser
  output : Output

/-- `Extractor.init`. -/
def Extractor.init (tree : FileTree) (nextId : Nat) (outputDir : Location Bytes) :
    Extractor where
  parser := TarParser.init (ascii "package/")
  output := Output.init tree nextId outputDir

/-- A call of the parser with what is done about its result. -/
def Extractor.turn (extractor : Extractor) (data : Bytes) : Extractor × Option ExtractError :=
  let result := extractor.parser.feed data
  let handled := extractor.output.handleKind result.2.1
  (⟨result.1, handled.1⟩, handled.2)

/-- The loop of `feedTar`; every turn uses at least one byte. -/
def Extractor.feedLoop : Nat → Extractor → Bytes → Extractor × Option ExtractError
  | 0, extractor, _ => (extractor, none)
  | fuel + 1, extractor, remaining =>
    let result := extractor.parser.feed remaining
    let handled := extractor.turn remaining
    if remaining = [] then (extractor, none)
    else if handled.2 ≠ none then handled
    else if result.2.1 = .endOfArchive then handled
    else if result.2.1 = .needMoreData ∧ result.2.2 = 0 then handled
    else feedLoop fuel handled.1 (remaining.drop result.2.2)

/-- `feedTar`. -/
def Extractor.feedTar (extractor : Extractor) (data : Bytes) : Extractor × Option ExtractError :=
  extractor.feedLoop data.length data

/-- The stream in pieces, up to the first error. -/
def Extractor.feedChunks : Extractor → List Bytes → Extractor × Option ExtractError
  | extractor, [] => (extractor, none)
  | extractor, chunk :: chunks =>
    match extractor.feedTar chunk with
    | (failed, some error) => (failed, some error)
    | (fed, none) => fed.feedChunks chunks

end Model

section Confinement

variable {extractor : Extractor} {entry : Entry} {location : Location Bytes} {made : Output}

/-- Nothing outside the output directory has changed, the links below it lead inward,
and so do the names that are still to be used. -/
structure Confined (before : FileTree) (base : Location Bytes) (output : Output) :
    Prop where
  outputDir : output.outputDir = base
  same : SameOutside base before output.tree
  inward : LinksInward output.tree base
  handle : ∀ handle, output.currentFile = some handle → base <+: handle.location
  path : output.currentFilePath = [] ∨ validatePath output.currentFilePath = true

variable {before : FileTree} {base : Location Bytes} {output : Output} {path : Bytes}

section

variable (confined : Confined before base output)
include confined

/-- An accepted path leads to a place below the output directory. -/
theorem Confined.locate (valid : validatePath path = true)
    (located : output.locate follow path = some location) : base <+: location := by
  rw [Output.locate, confined.outputDir] at located
  exact Files.walk_inward confined.inward List.prefix_rfl (inward_of_validatePath valid).2 located

/-- A change below the output directory that adds no link, or one that leads inward. -/
theorem Confined.setNode
    {node : Option (Files.Node Bytes (Option Nat) FileContent)} (below : base <+: location)
    (nodeInward : ∀ target, node = some (.link target) → target.Inward) :
    Confined before base (output.setNode location node) where
  outputDir := confined.outputDir
  same := confined.same.trans (Files.sameOutside_update _ node below)
  inward := confined.inward.update location node nodeInward
  handle := confined.handle
  path := confined.path

theorem Confined.createDirPath
    {parts : List Bytes} (descends : Files.Descends (parts.map segmentStep))
    (isMade : output.createDirPath parts = some made) : Confined before base made := by
  rw [Output.createDirPath, Option.map_eq_some_iff] at isMade
  obtain ⟨tree, treeEq, rfl⟩ := isMade
  rw [confined.outputDir] at treeEq
  obtain ⟨same, inward⟩ := Files.makeDirs_inward confined.inward List.not_mem_nil descends treeEq
  exact { confined with same := confined.same.trans same, inward }

section

variable (valid : validatePath path = true)
include valid

theorem Confined.createParents
    (isMade : output.createParents path = some made) : Confined before base made := by
  unfold Output.createParents at isMade
  cases isDirname : dirname path with
  | none =>
    rw [isDirname] at isMade
    obtain rfl := Option.some.inj isMade
    exact confined
  | some parents =>
    rw [isDirname] at isMade
    exact confined.createDirPath (descends_dirname valid isDirname) isMade

theorem Confined.openFile
    {opened : Output} {handle : Handle} (isOpened : output.openFile path = some (opened, handle)) :
    Confined before base opened ∧ base <+: handle.location := by
  unfold Output.openFile at isOpened
  split at isOpened
  · cases isOpened
  · rename_i location located
    have below := confined.locate valid located
    split at isOpened
    · obtain ⟨rfl, rfl⟩ := Prod.mk.inj (Option.some.inj isOpened)
      have changed : Confined before base
          (output.setNode location (some (.file none ⟨output.nextId, []⟩))) :=
        confined.setNode below nofun
      exact ⟨{ changed with }, below⟩
    · obtain ⟨rfl, rfl⟩ := Prod.mk.inj (Option.some.inj isOpened)
      exact ⟨confined.setNode below nofun, below⟩
    · cases isOpened

theorem Confined.deleteFile : Confined before base (output.deleteFile path) := by
  unfold Output.deleteFile
  split
  · exact confined
  · rename_i location located
    have below := confined.locate valid located
    split
    · exact confined.setNode below nofun
    · exact confined.setNode below nofun
    · exact confined

theorem Confined.symLink {target : Bytes} (targetValid : validatePath target = true) :
    Confined before base (output.symLink target path) := by
  unfold Output.symLink
  split
  · exact confined
  · rename_i location located
    have below := confined.locate valid located
    split
    · apply confined.setNode below
      rintro _ ⟨rfl⟩
      exact inward_of_validatePath targetValid
    · exact confined

theorem Confined.chmod : Confined before base (output.chmod path mode) := by
  unfold Output.chmod
  split
  · exact confined
  · rename_i location located
    have below := confined.locate valid located
    split
    · exact confined.setNode below nofun
    · exact confined.setNode below nofun
    · exact confined

end

theorem Confined.applyFileMode : Confined before base output.applyFileMode := by
  unfold Output.applyFileMode
  split_ifs with isEmpty
  · exact confined
  · have changed : Confined before base output.chmodExecutable := by
      unfold Output.chmodExecutable
      split_ifs
      · exact confined.chmod (confined.path.resolve_left isEmpty)
      · exact confined
    exact { changed with path := Or.inl rfl }

theorem Confined.closeCurrentFile : Confined before base output.closeCurrentFile := by
  unfold Output.closeCurrentFile
  split_ifs
  · exact confined
  · have changed := confined.applyFileMode
    exact { changed with handle := fun handle isOpen => absurd isOpen (by simp) }

theorem Confined.deinit : Confined before base output.deinit := by
  unfold Output.deinit
  split_ifs
  · exact confined
  · exact confined.applyFileMode

theorem Confined.createFile (valid : validatePath entry.path = true) :
    Confined before base (output.createFile entry).1 := by
  have closed := confined.closeCurrentFile
  unfold Output.createFile
  simp only
  split
  · exact closed
  · rename_i ready isReady
    have readyConfined := closed.createParents valid isReady
    split
    · exact readyConfined
    · rename_i opened handle isOpened
      obtain ⟨openedConfined, below⟩ := readyConfined.openFile valid isOpened
      refine { openedConfined with handle := ?_, path := Or.inr valid }
      rintro _ ⟨rfl⟩
      exact below

theorem Confined.createSymlink (valid : validatePath entry.path = true) :
    Confined before base (output.createSymlink entry) := by
  unfold Output.createSymlink
  split_ifs with isEmpty refused
  · exact confined
  · exact confined
  · rw [Bool.not_eq_false] at refused
    split
    · exact confined
    · rename_i ready isReady
      exact ((confined.createParents valid isReady).deleteFile valid).symLink valid refused

theorem Confined.handleEntry (valid : entry.path = [] ∨ validatePath entry.path = true) :
    Confined before base (output.handleEntry entry).1 := by
  unfold Output.handleEntry
  split_ifs with isEmpty
  · exact confined
  · have accepted := valid.resolve_left isEmpty
    split
    · cases isMade : output.createDirPath (segments entry.path) with
      | none => exact confined
      | some made => exact confined.createDirPath (inward_of_validatePath accepted).2 isMade
    · exact confined.createFile accepted
    · exact confined.createSymlink accepted

theorem Confined.writeFileData {data : Bytes} :
    Confined before base (output.writeFileData data) := by
  unfold Output.writeFileData
  split
  · exact confined
  · rename_i handle isOpen
    have below := confined.handle handle isOpen
    have written : Confined before base
        { output with tree := appendTo output.tree handle data } := by
      unfold appendTo
      split
      · split_ifs
        · exact confined.setNode below nofun
        · exact confined
      · exact confined
    exact { written with }

theorem Confined.handleKind (kind : Kind)
    (valid : ∀ entry, kind = .entry entry →
      entry.path = [] ∨ validatePath entry.path = true) :
    Confined before base (output.handleKind kind).1 := by
  cases kind with
  | needMoreData => exact confined
  | entry entry => exact confined.handleEntry (valid entry rfl)
  | fileData data => exact confined.writeFileData
  | endOfArchive =>
    apply Confined.closeCurrentFile
    exact { confined with }
  | err error => exact confined

end

section

variable (confined : Confined before base extractor.output)
include confined

/-- A turn of the loop. -/
theorem Confined.turn (data : Bytes) : Confined before base (extractor.turn data).1.output :=
  confined.handleKind (extractor.parser.feed data).2.1 fun _ isEntry => valid_of_feed isEntry

/-- The whole loop. -/
theorem Confined.feedLoop (fuel : Nat)
    (data : Bytes) : Confined before base (extractor.feedLoop fuel data).1.output := by
  induction fuel generalizing extractor data with
  | zero => exact confined
  | succ fuel ih =>
    have handled := confined.turn data
    rw [Extractor.feedLoop]
    split_ifs
    · exact confined
    · exact handled
    · exact handled
    · exact handled
    · exact ih handled _

/-- Any number of pieces. -/
theorem Confined.feedChunks
    (chunks : List Bytes) : Confined before base (extractor.feedChunks chunks).1.output := by
  induction chunks generalizing extractor with
  | nil => exact confined
  | cons chunk chunks ih =>
    have fed := confined.feedLoop chunk.length chunk
    rw [Extractor.feedChunks]
    split
    · rename_i failed error resultEq
      rw [Extractor.feedTar] at resultEq
      rw [resultEq] at fed
      exact fed
    · rename_i next resultEq
      rw [Extractor.feedTar] at resultEq
      rw [resultEq] at fed
      exact ih fed

end

/-- Whatever bytes come in whatever pieces, extraction into a directory without links
changes nothing outside the directory, at no time and not when it is closed. -/
theorem extraction_confined (tree : FileTree) (nextId : Nat) (base : Location Bytes)
    (noLinks : ∀ location target, base <+: location → tree location ≠ some (.link target))
    (chunks : List Bytes) :
    SameOutside base tree ((Extractor.init tree nextId base).feedChunks chunks).1.output.tree ∧
      SameOutside base tree
        ((Extractor.init tree nextId base).feedChunks chunks).1.output.deinit.tree := by
  have start : Confined tree base (Extractor.init tree nextId base).output :=
    ⟨rfl, SameOutside.refl base tree,
      fun location target below isLink => absurd isLink (noLinks location target below),
      nofun, Or.inl rfl⟩
  have finished := start.feedChunks chunks
  exact ⟨finished.same, finished.deinit.same⟩

/-- A root with an empty directory `o`. -/
def emptyOutput : FileTree :=
  fun location => if location = [] ∨ location = [[111]] then some (.dir none) else none

/-- A header block with the fields that the parser reads. -/
def makeHeader (name : Bytes) (type : UInt8) (mode size link : Bytes) : Bytes :=
  name ++ List.replicate (100 - name.length) 0 ++ mode ++ List.replicate 17 0 ++ size ++
    List.replicate 21 0 ++ type :: link ++ List.replicate (355 - link.length) 0

/-- A directory `d`, a link `l` to it and an executable file `l/a`, cut inside a header. -/
def linkArchive : List Bytes :=
  let bytes :=
    makeHeader (ascii "package/") 53 (ascii "0000755") (ascii "00000000000") [] ++
    makeHeader (ascii "package/d/") 53 (ascii "0000755") (ascii "00000000000") [] ++
    makeHeader (ascii "package/l") 50 (ascii "0000777") (ascii "00000000000") (ascii "d") ++
    makeHeader (ascii "package/l/a") 48 (ascii "0000755") (ascii "00000000001") [] ++
    120 :: List.replicate 1023 0
  [bytes.take 700, bytes.drop 700]

/-- The file is written through the link, and stays in the output directory. -/
theorem extraction_confined_throughLink :
    let extractor := ((Extractor.init emptyOutput 0 [[111]]).feedChunks linkArchive).1
    extractor.output.deinit.tree [[111], ascii "l"] =
        some (.link ⟨false, [.down (ascii "d")]⟩) ∧
      extractor.output.deinit.tree [[111], ascii "d", ascii "a"] =
        some (.file (some 0o755) ⟨0, [120]⟩) ∧
      SameOutside [[111]] emptyOutput extractor.output.tree ∧
      SameOutside [[111]] emptyOutput extractor.output.deinit.tree := by
  refine ⟨by decide +kernel, by decide +kernel,
    extraction_confined emptyOutput 0 [[111]] (fun location target _ isLink => ?_) linkArchive⟩
  unfold emptyOutput at isLink
  split_ifs at isLink
  cases isLink

end Confinement

end AntRuntime.Tar
