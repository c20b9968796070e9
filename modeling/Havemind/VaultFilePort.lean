import Mathlib.Data.List.AList
import Havemind.Endings
import Havemind.SyncState

/-!
The vault behind the apply path: files and folders on disk, the texts open in
editors, and the port's reads, writes and removals. The user and other programs
act on the disk between two calls, at the moments below. `writes` is a history
variable: every change the port makes to a file, with the bytes it replaced or
removed.
-/
namespace Havemind.VaultFilePort

open JsText RevisionSchema SyncState VaultPayload List

inductive Entry
  | folder
  | file (content : Content)
  deriving DecidableEq

/-- `editors path` holds the texts of the source-mode editors of a file. -/
structure Disk where
  entries : AList fun _ : Path => Entry
  editors : Path → List JsString

inductive VaultWrite
  | created (path : Path) (content : Content)
  | replaced (path : Path) (before after : Content)
  | removed (path : Path) (content : Content)
  deriving DecidableEq

structure Device where
  state : PersistedSyncState
  disk : Disk
  writes : List VaultWrite

inductive Thrown
  | applyDeferred
  | permanentApply
  | parentFolderOccupied
  | failure
  deriving DecidableEq

abbrev Apply := EStateM Thrown Device

/-- The calls before which others may have changed the disk. -/
inductive Moment
  | openBuffers
  | readTarget
  | readPrevious
  | readDestination
  | read
  | reread
  | writeText
  | writeBinary
  | mergeWrite
  | conflictCopy
  | remove
  deriving DecidableEq

/-- What the port is built over. `asText` and `asBytes` are what the two ways of
reading a file give. -/
structure VaultPort where
  rules : PathRules
  asText : Content → JsString
  asBytes : Content → Bytes
  asText_text : ∀ value, asText (.text value) = value
  asBytes_bytes : ∀ value, asBytes (.bytes value) = value
  normalizeConfigContent : Path → JsString → JsString
  mergeConfigContent : Path → Option JsString → JsString → JsString
  edit : Moment → Disk → Disk

def Disk.entryAt (disk : Disk) (path : Path) : Option Entry := disk.entries.lookup path

def Disk.put (disk : Disk) (path : Path) (entry : Entry) : Disk :=
  { disk with entries := disk.entries.insert path entry }

def Disk.drop (disk : Disk) (path : Path) : Disk :=
  { disk with entries := disk.entries.erase path }

def editorTexts (disk : Disk) (path : Path) : List JsString :=
  (disk.editors path).map canonicalizeMarkdown

section
variable (port : VaultPort)

def disturb (moment : Moment) : Apply Unit :=
  modify fun device => { device with disk := port.edit moment device.disk }

def createFolder (path : Path) : Apply Unit :=
  modify fun device => { device with disk := device.disk.put path .folder }

def create (path : Path) (content : Content) : Apply Unit :=
  modify fun device =>
    { device with
      disk := device.disk.put path (.file content)
      writes := device.writes ++ [.created path content] }

def replace (path : Path) (before after : Content) : Apply Unit :=
  modify fun device =>
    { device with
      disk := device.disk.put path (.file after)
      writes := device.writes ++ [.replaced path before after] }

def trash (path : Path) (content : Content) : Apply Unit :=
  modify fun device =>
    { device with
      disk := device.disk.drop path
      writes := device.writes ++ [.removed path content] }

/-- A folder goes with everything in it. -/
def trashFolder (path : Path) : Apply Unit :=
  modify fun device =>
    let inside := device.disk.entries.keys.filter fun other =>
      other = path ∨ path ∈ port.rules.ancestorFolders other
    { device with
      disk :=
        { device.disk with
          entries := inside.foldl (fun entries other => entries.erase other) device.disk.entries }
      writes := device.writes ++ inside.filterMap fun other =>
        match device.disk.entryAt other with
        | some (.file content) => some (.removed other content)
        | _ => none }

/-- What a read of a note gives: its canonical text, for a settings file that of
the part that is synced. -/
def readText (path : Path) (content : Content) : JsString :=
  canonicalizeMarkdown
    (if port.rules.isSyncableConfigPath path then
      port.normalizeConfigContent path (port.asText content)
    else port.asText content)

def readByPath (moment : Moment) (path : Path) : Apply (Option JsString) := do
  disturb port moment
  let device ← get
  match device.disk.entryAt path with
  | none => return none
  | some .folder => throw .failure
  | some (.file content) => return some (readText port path content)

def readBinaryByPath (moment : Moment) (path : Path) : Apply (Option Bytes) := do
  disturb port moment
  let device ← get
  match device.disk.entryAt path with
  | none => return none
  | some .folder => throw .failure
  | some (.file content) => return some (port.asBytes content)

def openBufferStates (fileId : Id) : Apply (List Bool) := do
  disturb port .openBuffers
  let device ← get
  match pathForFileId device.state fileId with
  | none => return []
  | some path =>
      if editorTexts device.disk path = [] then return []
      else
        match device.disk.entryAt path with
        | none => return (editorTexts device.disk path).map fun _ => true
        | some .folder => throw .failure
        | some (.file content) =>
            return (editorTexts device.disk path).map fun text =>
              text ≠ canonicalizeMarkdown (port.asText content)

/-- Creates the missing folders above a path; a file among them is in the way. -/
def ensureFolders : List Path → Apply Unit
  | [] => return ()
  | folder :: rest => do
      let device ← get
      match device.disk.entryAt folder with
      | none => do
          createFolder folder
          ensureFolders rest
      | some .folder => ensureFolders rest
      | some (.file _) => throw .parentFolderOccupied

def ensureParentFolders (path : Path) : Apply Unit := ensureFolders (port.rules.ancestorFolders path)

/-- As for a note, but a folder that cannot be made is passed over. -/
def ensureConfigFolders : List Path → Apply Unit
  | [] => return ()
  | folder :: rest => do
      let device ← get
      if device.disk.entryAt folder = none then createFolder folder
      ensureConfigFolders rest

def writeConfig (path : Path) (content : Option Content → Content) : Apply Unit := do
  ensureConfigFolders (port.rules.ancestorFolders path)
  let device ← get
  match device.disk.entryAt path with
  | none => create path (content none)
  | some .folder => throw .failure
  | some (.file current) => replace path current (content (some current))

/-- `expectedContent` is what the caller read: nothing given, no file, or a text. -/
def writeByPath (moment : Moment) (path : Path) (content : JsString)
    (expectedContent : Option (Option JsString)) : Apply Unit := do
  disturb port moment
  if port.rules.isSyncableConfigPath path then
    writeConfig port path fun current =>
      .text (port.mergeConfigContent path (current.map port.asText) content)
  else do
    let device ← get
    match device.disk.entryAt path with
    | none =>
        if expectedContent.any Option.isSome then throw .applyDeferred
        else do
          ensureParentFolders port path
          let device ← get
          if editorTexts device.disk path ≠ [] then throw .applyDeferred
          else create path (.text content)
    | some .folder => throw .failure
    | some (.file current) =>
        let canonical := canonicalizeMarkdown (port.asText current)
        if expectedContent.any fun expected =>
            expected ≠ some canonical ∨ ∃ text ∈ editorTexts device.disk path, text ≠ canonical then
          throw .applyDeferred
        else replace path current (.text content)

def writeBinaryByPath (moment : Moment) (path : Path) (bytes : Bytes) : Apply Unit := do
  disturb port moment
  if port.rules.isSyncableConfigPath path then writeConfig port path fun _ => .bytes bytes
  else do
    let device ← get
    match device.disk.entryAt path with
    | none => do
        ensureParentFolders port path
        create path (.bytes bytes)
    | some .folder => throw .failure
    | some (.file current) => replace path current (.bytes bytes)

def deleteByPath (moment : Moment) (path : Path) : Apply Unit := do
  disturb port moment
  let device ← get
  match device.disk.entryAt path with
  | none => return ()
  | some .folder =>
      if port.rules.isSyncableConfigPath path ∨ editorTexts device.disk path ≠ [] then throw .failure
      else trashFolder port path
  | some (.file current) =>
      if port.rules.isSyncableConfigPath path = false ∧
          ∃ text ∈ editorTexts device.disk path,
            text ≠ canonicalizeMarkdown (port.asText current) then
        throw .applyDeferred
      else trash path current

end

/-- Of one more name than there are keys, one is none of them. -/
theorem exists_free_name {α : Type} (keys : List α) {name : ℕ → α}
    (hname : Function.Injective name) : ∃ n < keys.length + 1, name n ∉ keys := by
  by_contra! htaken
  have hsubset : ∀ key ∈ (List.range (keys.length + 1)).map name, key ∈ keys := by
    intro key hkey
    obtain ⟨n, hn, rfl⟩ := mem_map.mp hkey
    exact htaken n (mem_range.mp hn)
  have hnodup : ((List.range (keys.length + 1)).map name).Nodup :=
    (nodup_map_iff hname).mpr nodup_range
  have hlength := (subperm_of_subset hnodup hsubset).length_le
  rw [length_map, length_range] at hlength
  omega

/-- The first name of a sequence at which a search of the disk may stop. The
names differ, so one of the first `entries + 1` is free. -/
def firstName (disk : Disk) (name : ℕ → Path) (stop : Option Entry → Bool) : ℕ :=
  ((List.range (disk.entries.keys.length + 1)).find? fun n => stop (disk.entryAt (name n))).getD 0

theorem firstName_spec (disk : Disk) {name : ℕ → Path} {stop : Option Entry → Bool}
    (hname : Function.Injective name) (hstop : stop none = true) :
    stop (disk.entryAt (name (firstName disk name stop))) = true := by
  unfold firstName
  cases hfind : (List.range (disk.entries.keys.length + 1)).find?
      fun n => stop (disk.entryAt (name n)) with
  | some n =>
    have hfound := List.find?_some hfind
    exact hfound
  | none =>
    exfalso
    obtain ⟨n, hn, hfree⟩ := exists_free_name disk.entries.keys hname
    refine absurd ?_ (List.find?_eq_none.mp hfind n (mem_range.mpr hn))
    rw [Disk.entryAt, AList.lookup_eq_none.mpr (mt AList.mem_keys.mp hfree), hstop]

variable (port : VaultPort)

/-- The folder to write under: a file in its place diverts to another folder or
to the root. -/
def ensureWritableConflictFolder (folder : Path) : Apply (Option Path) := do
  let device ← get
  match device.disk.entryAt folder with
  | none => do
      createFolder folder
      return some folder
  | some .folder => return some folder
  | some (.file _) =>
      let fallback := port.rules.filesFolder folder
      match device.disk.entryAt fallback with
      | none => do
          createFolder fallback
          return some fallback
      | some .folder => return some fallback
      | some (.file _) => return none

def resolveConflictTarget (path : Path) : Apply Path := do
  match port.rules.parentFolder path with
  | none => return path
  | some folder =>
      let resolved ← ensureWritableConflictFolder port folder
      return port.rules.rebased path resolved

/-- The name is free, or a copy with the same content is there: an earlier
landing. -/
def takesCopy (content : Content) (entry : Option Entry) : Bool :=
  entry = none ∨ entry = some (.file content)

/-- A copy with another content was edited since: the next name is tried. -/
def placeConflictArtifact (path : Path) (content : Content) : Apply Unit := do
  let device ← get
  let target := port.rules.numbered path
    (firstName device.disk (port.rules.numbered path) (takesCopy content))
  if device.disk.entryAt target = none then create target content
  else return ()

def writeConflictArtifact (path : Path) (content : Content) : Apply Unit := do
  disturb port .conflictCopy
  let target ← resolveConflictTarget port path
  placeConflictArtifact port target content

end Havemind.VaultFilePort
