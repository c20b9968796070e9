import Havemind.ChangeObserver

/-!
The scan that compares the vault with the producer's mappings when a device connects, and
again when the user confirms a bulk deletion it held back. Each call is awaited; what the
scan knows of the files and the mappings is from the moments it listed them.
-/
namespace Havemind.VaultReconcile

open AwaitCode VaultPayload DurableState OutboxRepository ChangeObserver

/-- `visible` says which paths the vault lists, `syncableExtension` which of them by their
extension. A path the producer classifies is one of these or in the settings folder. -/
structure ScanOptions extends ObserverOptions where
  visible : Path → Bool
  syncableExtension : Path → Bool
  canRecord : Bool
  listed_of_classified : ∀ path classified, rules.classifyVaultPath path = some classified →
    (visible path = true ∧ syncableExtension path = true) ∨ rules.isSyncableConfigPath path = true
  classify_canonical : ∀ path classified, rules.classifyVaultPath path = some classified →
    rules.classifyVaultPath classified.canonicalPath = some classified

def bulkDeleteMin : ℕ := 25

def maxSkippedDetails : ℕ := 10

def racyStatMs : ℕ := 2000

/-- The paths to scan, and whether the settings folder could not be listed. -/
structure Listing where
  paths : List Path
  configListingFailed : Bool
  deriving DecidableEq

/-- `mappedKeys` reads the mappings for the listing that follows, which leaves out the files
held back from upload whose key is not among them. -/
inductive ScanCall
  | listAllPaths
  | mappedKeys
  | listSyncablePaths (mapped : List ℕ)
  | listMappings
  | stat (path : Path)
  | readContent (path : Path) (kind : SyncContentKind)
  | recordStats (entries : List StatEntry)
  | observeModify (path : Path)
  | observeRename (previousPath nextPath : Path)
  | observeCreate (path : Path)
  | observeDelete (mapping : LocalFileMapping)

/-- A read answers the content's hash, `none` for an attachment over the limit; a stat comes
with the time it was taken at. -/
def ScanCall.Answer : ScanCall → Type
  | .listAllPaths => List Path
  | .mappedKeys => List ℕ
  | .listSyncablePaths _ => Listing
  | .listMappings => List LocalFileMapping
  | .stat _ => ℕ × Option FileStat
  | .readContent _ _ => Option ContentHash
  | _ => Unit

inductive ScanError
  | collision
  | other
  deriving DecidableEq

def scanCalls : Signature where
  Memory := Unit
  Call := ScanCall
  Answer := ScanCall.Answer
  Error := ScanError

abbrev Scan := Code scanCalls

structure EligibleFile where
  readPath : Path
  kind : SyncContentKind
  deriving DecidableEq

/-- The listed files by collision key, those that share one apart. -/
structure Sorted where
  eligible : JsObject ℕ EligibleFile := ∅
  collisions : JsObject ℕ (List Path) := ∅
  ignored : ℕ := 0

structure EligibleVaultFile where
  collisionKey : ℕ
  contentHash : ContentHash
  kind : SyncContentKind
  readPath : Path
  deriving DecidableEq

structure ReconcileResult where
  attachmentsExcluded : ℕ
  binaryExcluded : ℕ
  created : ℕ
  deleted : ℕ
  ignored : ℕ
  renamed : ℕ
  skipped : ℕ
  skippedPaths : List Path
  unchanged : ℕ
  updated : ℕ
  deletesHeld : ℕ
  deriving DecidableEq

/-- What the comparison of the listed files has found so far. -/
structure Compared where
  mappings : JsObject ℕ LocalFileMapping
  unmatchedVault : List EligibleVaultFile := []
  unchanged : ℕ := 0
  updated : ℕ := 0
  skipped : ℕ := 0
  binaryExcluded : ℕ := 0
  skippedPaths : List Path := []
  statsToRecord : List StatEntry := []

section
variable (rules : PathRules)

def sortPath (sorted : Sorted) (rawPath : Path) : Sorted :=
  match rules.classifyVaultPath rawPath with
  | none => { sorted with ignored := sorted.ignored + 1 }
  | some classified =>
    let key := classified.collisionKey
    let earlier := sorted.eligible.get key
    if earlier.isSome ∨ (sorted.collisions.get key).isSome then
      { sorted with
        collisions := sorted.collisions.set key (((sorted.collisions.get key).getD []) ++
          (earlier.map EligibleFile.readPath).toList ++ [rawPath])
        eligible := sorted.eligible.erase key }
    else
      { sorted with eligible := sorted.eligible.set key ⟨rawPath, classified.kind⟩ }

def sortPaths (paths : List Path) : Sorted := paths.foldl (sortPath rules) {}

/-- The mappings by collision key, without those a failed listing says nothing about. -/
def mappingsByCollision (mappings : List LocalFileMapping) (configListingFailed : Bool) :
    JsObject ℕ LocalFileMapping :=
  let table := mappings.foldl (fun table mapping => table.set mapping.collisionKey mapping)
    (∅ : JsObject ℕ LocalFileMapping)
  if configListingFailed then
    table.filterEntries fun entry => rules.isSyncableConfigPath entry.2.path = false
  else table

def eraseAll {V : Type} (table : JsObject ℕ V) (keys : List ℕ) : JsObject ℕ V :=
  keys.foldl (fun table key => table.erase key) table

def recordSkip (skippedPaths : List Path) (path : Path) : List Path :=
  if skippedPaths.length < maxSkippedDetails then skippedPaths ++ [path] else skippedPaths

/-- Neither the mappings nor the files of a group of paths in conflict are looked at. -/
def startComparing (sorted : Sorted) (mappings : JsObject ℕ LocalFileMapping) : Compared where
  mappings := eraseAll mappings sorted.collisions.keys
  skipped := (sorted.collisions.values.map List.length).sum
  skippedPaths := sorted.collisions.values.flatten.foldl recordSkip []

end

section

/-- Whether the observation committed; a collision ends the scan. -/
def observeResilient (observation : ScanCall) : Scan Bool := do
  match ← Code.attempt (S := scanCalls) observation with
  | .ok _ => return true
  | .error .collision => Code.throw (S := scanCalls) ScanError.collision
  | .error .other => return false

variable (options : ScanOptions)

/-- A file's stat when the mapping's one is to be compared with it. -/
def statFor (known : Option LocalFileMapping) (path : Path) : Scan (Option (ℕ × FileStat)) :=
  if options.canRecord ∧ known.isSome then do
    let answer ← Code.call (S := scanCalls) (.stat path)
    return answer.2.map fun stat => (answer.1, stat)
  else return none

def matched (compared : Compared) (key : ℕ) (file : EligibleFile) (found : Option (ℕ × FileStat))
    (contentHash : ContentHash) (mapping : LocalFileMapping) : Scan Compared := do
  let rest := { compared with mappings := compared.mappings.erase key }
  if mapping.contentHash = contentHash then
    let stable := found.filter fun stat => stat.2.mtime + racyStatMs ≤ stat.1
    return { rest with
      unchanged := rest.unchanged + 1
      statsToRecord := rest.statsToRecord ++ (stable.map fun stat =>
        (⟨mapping.fileId, contentHash, stat.2⟩ : StatEntry)).toList }
  else if ← observeResilient (.observeModify file.readPath) then
    return { rest with updated := rest.updated + 1 }
  else
    return { rest with
      skipped := rest.skipped + 1
      skippedPaths := recordSkip rest.skippedPaths file.readPath }

/-- A listed file against the mapping with its key. -/
def compareFile (compared : Compared) (key : ℕ) (file : EligibleFile) : Scan Compared := do
  let known := compared.mappings.get key
  let found ← statFor options known file.readPath
  if found.any fun stat => known.bind LocalFileMapping.stat = some stat.2 then
    return { compared with
      mappings := compared.mappings.erase key
      unchanged := compared.unchanged + 1 }
  else
    match ← Code.call (S := scanCalls) (.readContent file.readPath file.kind) with
    | none =>
      return { compared with
        mappings := compared.mappings.erase key
        binaryExcluded := compared.binaryExcluded + 1 }
    | some contentHash =>
      match known with
      | none =>
        return { compared with
          unmatchedVault := compared.unmatchedVault ++
            [⟨key, contentHash, file.kind, file.readPath⟩] }
      | some mapping => matched compared key file found contentHash mapping

def compareFiles (compared : Compared) : List (ℕ × EligibleFile) → Scan Compared
  | [] => return compared
  | entry :: rest => do
    let next ← compareFile options compared entry.1 entry.2
    compareFiles next rest

end

/-- A file and a mapping nothing else has the content of: the file was renamed. -/
def renamePairs (unmatchedVault : List EligibleVaultFile) (unmatchedMappings : List LocalFileMapping) :
    List (EligibleVaultFile × LocalFileMapping) :=
  let contents := (unmatchedVault.map fun file => (file.kind, file.contentHash)).eraseDups
  contents.filterMap fun content =>
    let files := unmatchedVault.filter fun file => (file.kind, file.contentHash) = content
    let candidates := unmatchedMappings.filter fun mapping =>
      (mapping.contentKind.getD .markdown, mapping.contentHash) = content
    match files, candidates with
    | [file], [mapping] => some (file, mapping)
    | _, _ => none

/-- How many of the observations committed, how many were skipped, and at which paths. -/
structure Tally where
  committed : ℕ := 0
  skipped : ℕ := 0
  skippedPaths : List Path

def observeAll (tally : Tally) : List (Path × ScanCall) → Scan Tally
  | [] => return tally
  | observation :: rest => do
    if ← observeResilient observation.2 then
      observeAll { tally with committed := tally.committed + 1 } rest
    else
      observeAll { tally with
        skipped := tally.skipped + 1
        skippedPaths := recordSkip tally.skippedPaths observation.1 } rest

/-- Whether so many mappings without a file look like a loss; `none` turns the breaker off. -/
def breakerTrips (breakerTotal : Option ℕ) (pending : ℕ) : Bool :=
  breakerTotal.any fun total => bulkDeleteMin ≤ pending ∧ 3 * total ≤ 10 * pending

structure ChangeCounts where
  created : ℕ
  deleted : ℕ
  deletesHeld : ℕ
  renamed : ℕ
  skipped : ℕ
  skippedPaths : List Path

def applyRenamesCreatesDeletes (unmatchedVault : List EligibleVaultFile)
    (unmatchedMappings : List LocalFileMapping) (skippedPaths : List Path)
    (breakerTotal : Option ℕ) : Scan ChangeCounts := do
  let pairs := renamePairs unmatchedVault unmatchedMappings
  let renames ← observeAll { skippedPaths } (pairs.map fun pair =>
    (pair.1.readPath, .observeRename pair.2.path pair.1.readPath))
  let files := unmatchedVault.filter fun file => ¬ (pairs.map Prod.fst).contains file
  let creates ← observeAll { skippedPaths := renames.skippedPaths } (files.map fun file =>
    (file.readPath, .observeCreate file.readPath))
  let pending := unmatchedMappings.filter fun mapping => ¬ (pairs.map Prod.snd).contains mapping
  if breakerTrips breakerTotal pending.length then
    return {
      created := creates.committed
      deleted := 0
      deletesHeld := pending.length
      renamed := renames.committed
      skipped := renames.skipped + creates.skipped
      skippedPaths := creates.skippedPaths }
  else
    let deletes ← observeAll { skippedPaths := creates.skippedPaths } (pending.map fun mapping =>
      (mapping.path, .observeDelete mapping))
    return {
      created := creates.committed
      deleted := deletes.committed
      deletesHeld := 0
      renamed := renames.committed
      skipped := renames.skipped + creates.skipped + deletes.skipped
      skippedPaths := deletes.skippedPaths }

variable (options : ScanOptions) (allowBulkDeletes : Bool)

def recordStats : List StatEntry → Scan Unit
  | [] => return ()
  | entry :: rest => Code.call (S := scanCalls) (.recordStats (entry :: rest))

/-- What the breaker measures against; a confirmed pass turns it off. -/
def breakerTotal (mappings : ℕ) : Option ℕ := if allowBulkDeletes then none else some mappings

/-- The scan once it has read the mappings. -/
def scanMappings (allPaths : List Path) (listing : Listing) (allMappings : List LocalFileMapping) :
    Scan ReconcileResult := do
  let sorted := sortPaths options.rules listing.paths
  let table := mappingsByCollision options.rules allMappings listing.configListingFailed
  let compared ← compareFiles options (startComparing sorted table) sorted.eligible.entries
  recordStats compared.statsToRecord
  let changes ← applyRenamesCreatesDeletes compared.unmatchedVault compared.mappings.values
    compared.skippedPaths (breakerTotal allowBulkDeletes allMappings.length)
  return {
    attachmentsExcluded := (allPaths.filter fun path =>
      options.rules.isSyncableConfigPath path = false ∧
        options.syncableExtension path = false).length
    binaryExcluded := compared.binaryExcluded
    created := changes.created
    deleted := changes.deleted
    ignored := sorted.ignored
    renamed := changes.renamed
    skipped := compared.skipped + changes.skipped
    skippedPaths := changes.skippedPaths
    unchanged := compared.unchanged
    updated := compared.updated
    deletesHeld := changes.deletesHeld }

/-- The scan once it has listed the files. -/
def scanListing (allPaths : List Path) (listing : Listing) : Scan ReconcileResult := do
  let allMappings ← Code.call (S := scanCalls) .listMappings
  scanMappings options allowBulkDeletes allPaths listing allMappings

/-- The scan once it knows which files held back from upload are mapped. -/
def scanPaths (allPaths : List Path) (mapped : List ℕ) : Scan ReconcileResult := do
  let listing ← Code.call (S := scanCalls) (.listSyncablePaths mapped)
  scanListing options allowBulkDeletes allPaths listing

def scanKeys (allPaths : List Path) : Scan ReconcileResult := do
  let mapped ← Code.call (S := scanCalls) .mappedKeys
  scanPaths options allowBulkDeletes allPaths mapped

def reconcileVaultState : Scan ReconcileResult := do
  let allPaths ← Code.call (S := scanCalls) .listAllPaths
  scanKeys options allowBulkDeletes allPaths

end Havemind.VaultReconcile
