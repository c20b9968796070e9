import Havemind.RemoteApply

/-!
The headless client's vault: a folder on disk behind an index in memory. The
index is seeded when the folder is opened and follows this vault's own writes
alone, while every read and write goes to the disk, where other processes are at
work between any two operations. `trace` is a history variable: the operations
of the apply so far, each with the disk it found and the disk it left.
-/
namespace Havemind.FsVault

open Endings JsText RemoteApply SyncState Transaction VaultFilePort VaultPayload

abbrev FsDisk := AList fun _ : Path => Entry

/-- What the index keeps of a path. -/
inductive FsEntry
  | file
  | folder
  deriving DecidableEq

/-- `create` is the write of `vault.create` and `vault.createBinary`, `modify` that
of `process`, `modify` and `modifyBinary`, `adapterWrite` that of a settings file. -/
inductive FsOp
  | stat (path : Path)
  | readFile (path : Path)
  | create (path : Path) (content : Content)
  | modify (path : Path) (content : Content)
  | adapterWrite (path : Path) (content : Content)
  | mkdir (path : Path)
  | mkdirAll (folders : List Path)
  | rename (path target : Path)
  | rm (path : Path)
  deriving DecidableEq

structure FsStep where
  op : FsOp
  before : FsDisk
  after : FsDisk

structure Headless where
  state : PersistedSyncState
  disk : FsDisk
  index : AList fun _ : Path => FsEntry
  trace : List FsStep

def Headless.did (device : Headless) (step : FsStep) : Headless :=
  { device with disk := step.after, trace := device.trace ++ [step] }

/-- The paths of a vault with a trash folder: `trashPath path` is the same path
under it, `isHidden` says that a name of the path starts with a dot. -/
structure TrashRules extends PathRules where
  trashPath : Path → Path
  trashPath_injective : Function.Injective trashPath
  trashPath_under : ∀ folder path, folder ∈ ancestorFolders path →
    trashPath folder ∈ ancestorFolders (trashPath path)
  isHidden : Path → Bool

/-- `others n` is what other processes do to the disk before the apply's
operation `n`. -/
structure FsContext where
  rules : TrashRules
  port : VaultPort
  others : ℕ → FsDisk → FsDisk

abbrev FsApply := EStateM Thrown Headless

section
variable (rules : TrashRules)

def onDisk (disk : FsDisk) (path : Path) : Option Entry := disk.lookup path

def readFileOn (path : Path) (disk : FsDisk) : Option (Content × FsDisk) :=
  match onDisk disk path with
  | some (.file content) => some (content, disk)
  | _ => none

def parentExists (disk : FsDisk) (path : Path) : Bool :=
  (rules.parentFolder path).all fun folder => onDisk disk folder = some .folder

/-- Creates or replaces a file; the folder above must be there. -/
def writeFileOn (path : Path) (content : Content) (disk : FsDisk) : Option (Unit × FsDisk) :=
  if onDisk disk path = some .folder ∨ parentExists rules disk path = false then none
  else some ((), disk.insert path (.file content))

def mkdirOn (path : Path) (disk : FsDisk) : Option (Unit × FsDisk) :=
  if onDisk disk path ≠ none ∨ parentExists rules disk path = false then none
  else some ((), disk.insert path .folder)

/-- A recursive `mkdir`: the folders, the shallowest first. -/
def mkdirAllOn : List Path → FsDisk → Option (Unit × FsDisk)
  | [], disk => some ((), disk)
  | folder :: rest, disk =>
      match onDisk disk folder with
      | none => mkdirAllOn rest (disk.insert folder .folder)
      | some .folder => mkdirAllOn rest disk
      | some (.file _) => none

def isInside (folder path : Path) : Bool := path = folder ∨ folder ∈ rules.ancestorFolders path

/-- What is in the folder goes to the same place under the trash. -/
def moveInside (folder : Path) (disk : FsDisk) : FsDisk :=
  let inside := disk.keys.filter (isInside rules folder)
  let left := inside.foldl (fun left path => left.erase path) disk
  inside.foldl
    (fun moved path =>
      match onDisk disk path with
      | some entry => moved.insert (rules.trashPath path) entry
      | none => moved)
    left

/-- A file replaces a file at the target. A folder replaces at most an empty
folder, and never goes into itself. -/
def renameOn (path : Path) (disk : FsDisk) : Option (Unit × FsDisk) :=
  let target := rules.trashPath path
  match onDisk disk path with
  | none => none
  | some (.file content) =>
      if onDisk disk target = some .folder ∨ parentExists rules disk target = false then none
      else some ((), (disk.erase path).insert target (.file content))
  | some .folder =>
      if path ∈ rules.ancestorFolders target ∨
          (∃ other ∈ disk.keys, isInside rules target other = true ∧
            ¬ (other = target ∧ onDisk disk other = some .folder)) ∨
          parentExists rules disk target = false then
        none
      else some ((), moveInside rules path disk)

def rmOn (path : Path) (disk : FsDisk) : Option (Unit × FsDisk) :=
  if onDisk disk path = some .folder then none else some ((), disk.erase path)

end

section
variable (ctx : FsContext)

/-- One operation on the disk as the others left it; a failed one changes
nothing. -/
def fsCall {α : Type} (op : FsOp) (act : FsDisk → Option (α × FsDisk)) : FsApply α := do
  let device ← get
  let before := ctx.others device.trace.length device.disk
  match act before with
  | none => do
      set (device.did { op, before, after := before })
      throw .failure
  | some (value, after) => do
      set (device.did { op, before, after })
      return value

def remember (path : Path) (entry : FsEntry) : FsApply Unit :=
  modify fun device => { device with index := device.index.insert path entry }

def readFile (path : Path) : FsApply Content := fsCall ctx (.readFile path) (readFileOn path)

def create (path : Path) (content : Content) : FsApply Unit := do
  fsCall ctx (.create path content) (writeFileOn ctx.rules path content)
  remember path .file

def modifyFile (path : Path) (content : Content) : FsApply Unit := do
  fsCall ctx (.modify path content) (writeFileOn ctx.rules path content)
  remember path .file

/-- Two operations, with a gap between them. -/
def process (path : Path) (transform : JsString → Option JsString) : FsApply Unit := do
  let current ← readFile ctx path
  match transform (ctx.port.asText current) with
  | none => throw .applyDeferred
  | some next => modifyFile ctx path (.text next)

def createFolder (path : Path) : FsApply Unit := do
  fsCall ctx (.mkdir path) (mkdirOn ctx.rules path)
  remember path .folder

def trash (path : Path) : FsApply Unit := do
  let folders := ctx.rules.ancestorFolders (ctx.rules.trashPath path)
  fsCall ctx (.mkdirAll folders) (mkdirAllOn folders)
  fsCall ctx (.rename path (ctx.rules.trashPath path)) (renameOn ctx.rules path)
  modify fun device => { device with index := device.index.erase path }

end

section
variable (ctx : FsContext)

def adapterExists (path : Path) : FsApply Bool :=
  fsCall ctx (.stat path) fun disk => some (onDisk disk path ≠ none, disk)

def adapterMkdir (path : Path) : FsApply Unit :=
  let folders := ctx.rules.ancestorFolders path ++ [path]
  fsCall ctx (.mkdirAll folders) (mkdirAllOn folders)

def adapterWrite (path : Path) (content : Content) : FsApply Unit := do
  let folders := ctx.rules.ancestorFolders path
  fsCall ctx (.mkdirAll folders) (mkdirAllOn folders)
  fsCall ctx (.adapterWrite path content) (writeFileOn ctx.rules path content)

def adapterRemove (path : Path) : FsApply Unit := fsCall ctx (.rm path) (rmOn path)

/-- A folder that cannot be made is passed over. -/
def ensureConfigParentDirs : List Path → FsApply Unit
  | [] => return ()
  | folder :: rest => do
      catching (adapterMkdir ctx folder) fun _ => return ()
      ensureConfigParentDirs rest

def writeConfig (path : Path) (content : Content) : FsApply Unit := do
  ensureConfigParentDirs ctx (ctx.rules.ancestorFolders path)
  adapterWrite ctx path content

def removeConfig (path : Path) : FsApply Unit := do
  if ← adapterExists ctx path then adapterRemove ctx path

end

section
variable (ctx : FsContext)

def readByPath (path : Path) : FsApply (Option JsString) := do
  if ctx.rules.isSyncableConfigPath path then
    if ← adapterExists ctx path then
      let content ← readFile ctx path
      return some (canonicalizeMarkdown
        (ctx.port.normalizeConfigContent path (ctx.port.asText content)))
    else return none
  else
    let device ← get
    match device.index.lookup path with
    | none => return none
    | some _ => do
        let content ← readFile ctx path
        return some (canonicalizeMarkdown (ctx.port.asText content))

def readBinaryByPath (path : Path) : FsApply (Option Bytes) := do
  if ctx.rules.isSyncableConfigPath path then
    if ← adapterExists ctx path then
      let content ← readFile ctx path
      return some (ctx.port.asBytes content)
    else return none
  else
    let device ← get
    match device.index.lookup path with
    | none => return none
    | some _ => do
        let content ← readFile ctx path
        return some (ctx.port.asBytes content)

/-- Creates the folders above a path that the index does not know. -/
def ensureFolders : List Path → FsApply Unit
  | [] => return ()
  | folder :: rest => do
      let device ← get
      match device.index.lookup folder with
      | none => do
          createFolder ctx folder
          ensureFolders rest
      | some .folder => ensureFolders rest
      | some .file => throw .parentFolderOccupied

def ensureParentFolders (path : Path) : FsApply Unit :=
  ensureFolders ctx (ctx.rules.ancestorFolders path)

/-- What `process` puts in place of the text it finds, when that is the text the
caller expects. -/
def replaceExpected (content : JsString) (expected : Option JsString) (current : JsString) :
    Option JsString :=
  if some (canonicalizeMarkdown current) = expected then some content else none

def writeByPath (path : Path) (content : JsString) (expectedContent : Option (Option JsString)) :
    FsApply Unit := do
  if ctx.rules.isSyncableConfigPath path then
    if ← adapterExists ctx path then
      let current ← readFile ctx path
      writeConfig ctx path
        (.text (ctx.port.mergeConfigContent path (some (ctx.port.asText current)) content))
    else writeConfig ctx path (.text (ctx.port.mergeConfigContent path none content))
  else
    let device ← get
    match device.index.lookup path with
    | none =>
        if expectedContent.any Option.isSome then throw .applyDeferred
        else do
          ensureParentFolders ctx path
          create ctx path (.text content)
    | some _ =>
        match expectedContent with
        | some expected => process ctx path (replaceExpected content expected)
        | none => modifyFile ctx path (.text content)

def writeBinaryByPath (path : Path) (bytes : Bytes) : FsApply Unit := do
  if ctx.rules.isSyncableConfigPath path then writeConfig ctx path (.bytes bytes)
  else
    let device ← get
    match device.index.lookup path with
    | none => do
        ensureParentFolders ctx path
        create ctx path (.bytes bytes)
    | some _ => modifyFile ctx path (.bytes bytes)

def deleteByPath (path : Path) : FsApply Unit := do
  if ctx.rules.isSyncableConfigPath path then removeConfig ctx path
  else
    let device ← get
    match device.index.lookup path with
    | none => return ()
    | some _ => trash ctx path

/-- The folder to write under: a file in its place diverts to another folder or
to the root. -/
def ensureWritableConflictFolder (folder : Path) : FsApply (Option Path) := do
  let device ← get
  match device.index.lookup folder with
  | none => do
      createFolder ctx folder
      return some folder
  | some .folder => return some folder
  | some .file =>
      let fallback := ctx.rules.filesFolder folder
      match device.index.lookup fallback with
      | none => do
          createFolder ctx fallback
          return some fallback
      | some .folder => return some fallback
      | some .file => return none

def resolveConflictTarget (path : Path) : FsApply Path := do
  match ctx.rules.parentFolder path with
  | none => return path
  | some folder =>
      let resolved ← ensureWritableConflictFolder ctx folder
      return ctx.rules.rebased path resolved

def holdsSame (content existing : Content) : Bool :=
  match content with
  | .text value => ctx.port.asText existing = value
  | .bytes value => ctx.port.asBytes existing = value

/-- The names from `attempt` on, `fuel` of them at most. The index does not change
while they are tried, so one more name than it has paths is enough. -/
def placeConflictArtifact (path : Path) (content : Content) : ℕ → ℕ → FsApply Unit
  | 0, _ => return ()
  | fuel + 1, attempt => do
      let target := ctx.rules.numbered path attempt
      let device ← get
      match device.index.lookup target with
      | none => create ctx target content
      | some .folder => placeConflictArtifact path content fuel (attempt + 1)
      | some .file => do
          let existing ← readFile ctx target
          if holdsSame ctx content existing then return ()
          else placeConflictArtifact path content fuel (attempt + 1)

def writeConflictArtifact (path : Path) (content : Content) : FsApply Unit := do
  let target ← resolveConflictTarget ctx path
  let device ← get
  placeConflictArtifact ctx target content (device.index.keys.length + 1) 0

/-- The first name the index does not know. -/
def freeName (name : ℕ → Path) (device : Headless) : ℕ :=
  ((List.range (device.index.keys.length + 1)).find? fun n =>
    device.index.lookup (name n) = none).getD 0

/-- The port over the folder. No editor is open and no list of a folder's
children is offered, so the checks that need them find nothing. -/
def fsPort : FilePort Headless where
  stateOf := Headless.state
  withState state device := { device with state }
  openBufferStates _ := return []
  readByPath _ path := readByPath ctx path
  readBinaryByPath _ path := readBinaryByPath ctx path
  writeByPath _ path content expected := writeByPath ctx path content expected
  writeBinaryByPath _ path bytes := writeBinaryByPath ctx path bytes
  deleteByPath _ path := deleteByPath ctx path
  writeConflictArtifact path content := writeConflictArtifact ctx path content
  freeName name device := freeName name device
  pathCaseVariant _ _ := none

end

variable (rules : TrashRules)

/-- The index of a folder just opened: everything on disk but what is hidden. -/
def seed (disk : FsDisk) : AList fun _ : Path => FsEntry :=
  (disk.keys.filter fun path => rules.isHidden path = false).foldl
    (fun index path =>
      index.insert path (if onDisk disk path = some .folder then .folder else .file))
    ∅

def openFsVault (device : Headless) : Headless :=
  { device with index := seed rules device.disk, trace := [] }

end Havemind.FsVault
