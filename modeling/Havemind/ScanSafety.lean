import Havemind.Runs
import Havemind.VaultReconcile

/-!
The scan against everything that happens between its calls. Its listing and the mappings
it reads are of different moments: a mapping it misses the file of is one whose file was
not on disk when it listed the files, or one the listing left out.
-/
namespace Havemind.ScanSafety

open Runs AwaitCode JsObject JsText RevisionSchema VaultPayload DurableState OutboxRepository List
  ChangeObserver VaultReconcile Option

section
variable {rules : PathRules} {listing : Listing} {key : ℕ} {mapping : LocalFileMapping}
  {sorted : Sorted} {file : EligibleFile} {classified : ClassifiedPath}
  {mappings : List LocalFileMapping}

/-- The mappings the scan takes for those of deleted files. -/
structure Missing (rules : PathRules) (listing : Listing) (mappings : List LocalFileMapping)
    (mapping : LocalFileMapping) : Prop where
  mapped : mapping ∈ mappings
  unlisted : ∀ path ∈ listing.paths, ∀ classified,
    rules.classifyVaultPath path = some classified → classified.collisionKey ≠ mapping.collisionKey
  told : listing.configListingFailed = true → rules.isSyncableConfigPath mapping.path = false

/-- The key is that of a listed file, alone or among others. -/
def Held (sorted : Sorted) (key : ℕ) : Prop :=
  sorted.eligible.get key ≠ none ∨ sorted.collisions.get key ≠ none

theorem held_sortPath (rawPath : Path) (h : Held sorted key) :
    Held (sortPath rules sorted rawPath) key := by
  unfold sortPath
  cases rules.classifyVaultPath rawPath with
  | none => exact h
  | some classified =>
    dsimp only
    by_cases hkey : key = classified.collisionKey
    · split_ifs
      · right
        rw [get_set, if_pos hkey]
        exact some_ne_none _
      · left
        rw [get_set, if_pos hkey]
        exact some_ne_none _
    · split_ifs
      · refine h.imp (fun halone => ?_) fun hshared => ?_
        · rwa [get_erase, if_neg hkey]
        · rwa [get_set, if_neg hkey]
      · refine h.imp (fun halone => ?_) id
        rwa [get_set, if_neg hkey]

theorem held_classified (sorted : Sorted) {rawPath : Path}
    (hclassified : rules.classifyVaultPath rawPath = some classified) :
    Held (sortPath rules sorted rawPath) classified.collisionKey := by
  unfold sortPath
  rw [hclassified]
  dsimp only
  split_ifs
  · right
    rw [get_set, if_pos rfl]
    exact some_ne_none _
  · left
    rw [get_set, if_pos rfl]
    exact some_ne_none _

theorem held_foldl (paths : List Path) (h : Held sorted key) :
    Held (paths.foldl (sortPath rules) sorted) key := by
  induction paths generalizing sorted with
  | nil => exact h
  | cons path rest ih => exact ih (held_sortPath path h)

/-- Every listed file's key is held. -/
theorem held_of_listed (paths : List Path) (sorted : Sorted) {path : Path} (hpath : path ∈ paths)
    (hclassified : rules.classifyVaultPath path = some classified) :
    Held (paths.foldl (sortPath rules) sorted) classified.collisionKey := by
  induction paths generalizing sorted with
  | nil => cases hpath
  | cons first rest ih =>
    rcases mem_cons.mp hpath with rfl | hrest
    · exact held_foldl rest (held_classified sorted hclassified)
    · exact ih (sortPath rules sorted first) hrest

theorem eligible_sortPath (rawPath : Path)
    (h : (sortPath rules sorted rawPath).eligible.get key = some file) :
    sorted.eligible.get key = some file ∨ file.readPath = rawPath := by
  unfold sortPath at h
  cases hclassified : rules.classifyVaultPath rawPath with
  | none =>
    rw [hclassified] at h
    exact .inl h
  | some classified =>
    rw [hclassified] at h
    dsimp only at h
    split_ifs at h
    · rw [get_erase] at h
      split_ifs at h
      exact .inl h
    · rw [get_set] at h
      split_ifs at h
      · rw [← some.inj h]
        exact .inr rfl
      · exact .inl h

theorem eligible_foldl (paths : List Path)
    (h : (paths.foldl (sortPath rules) sorted).eligible.get key = some file) :
    sorted.eligible.get key = some file ∨ file.readPath ∈ paths := by
  induction paths generalizing sorted with
  | nil => exact .inl h
  | cons path rest ih =>
    rcases ih h with hbefore | hrest
    · refine (eligible_sortPath path hbefore).imp id fun hsame => ?_
      rw [hsame]
      exact mem_cons_self
    · exact .inr (mem_cons_of_mem path hrest)

/-- A file to compare is a listed one. -/
theorem eligible_listed (paths : List Path)
    (h : (sortPaths rules paths).eligible.get key = some file) : file.readPath ∈ paths := by
  rcases eligible_foldl paths h with hempty | hlisted
  · cases hempty
  · exact hlisted

/-- Each entry is a mapping under its own key. -/
def Tabled (mappings : List LocalFileMapping) (table : JsObject ℕ LocalFileMapping) : Prop :=
  ∀ key mapping, table.get key = some mapping → mapping ∈ mappings ∧ mapping.collisionKey = key

theorem tabled_foldl (rest : List LocalFileMapping) {table : JsObject ℕ LocalFileMapping}
    (h : Tabled mappings table) (hrest : ∀ mapping ∈ rest, mapping ∈ mappings) :
    Tabled mappings (rest.foldl (fun table mapping => table.set mapping.collisionKey mapping)
      table) := by
  induction rest generalizing table with
  | nil => exact h
  | cons first rest ih =>
    obtain ⟨hfirst, hlater⟩ := forall_mem_cons.mp hrest
    refine ih (fun key mapping hget => ?_) hlater
    rw [get_set] at hget
    split_ifs at hget with hkey
    · cases hget
      exact ⟨hfirst, hkey.symm⟩
    · exact h key mapping hget

theorem mappingsByCollision_get {failed : Bool}
    (h : (mappingsByCollision rules mappings failed).get key = some mapping) :
    (mapping ∈ mappings ∧ mapping.collisionKey = key) ∧
      (failed = true → rules.isSyncableConfigPath mapping.path = false) := by
  have hempty : Tabled mappings (∅ : JsObject ℕ LocalFileMapping) := by
    intro _ _ hget
    cases hget
  have htabled := tabled_foldl mappings hempty fun _ hmem => hmem
  unfold mappingsByCollision at h
  dsimp only at h
  split_ifs at h with hfailed
  · rw [get_filterEntries, filter_eq_some_iff] at h
    exact ⟨htabled key mapping h.1, fun _ => of_decide_eq_true h.2⟩
  · exact ⟨htabled key mapping h, fun htrue => absurd htrue hfailed⟩

theorem eraseAll_get {V : Type} (keys : List ℕ) {table : JsObject ℕ V} {value : V}
    (h : (eraseAll table keys).get key = some value) :
    table.get key = some value ∧ key ∉ keys := by
  induction keys generalizing table with
  | nil => exact ⟨h, not_mem_nil⟩
  | cons first rest ih =>
    obtain ⟨hget, hrest⟩ := ih h
    rw [get_erase] at hget
    split_ifs at hget with hkey
    exact ⟨hget, not_mem_cons_of_ne_of_not_mem hkey hrest⟩

end

section
variable {options : ScanOptions} {listed : Path → Prop} {missing : LocalFileMapping → Prop}
  {file : EligibleFile} {unmatchedVault : List EligibleVaultFile}
  {unmatchedMappings : List LocalFileMapping}

/-- What a call observes: a listed file, as the new place of a missing mapping's or on its own,
or the deletion of a missing mapping. -/
def Observes (listed : Path → Prop) (missing : LocalFileMapping → Prop) : ScanCall → Prop
  | .observeModify path => listed path
  | .observeCreate path => listed path
  | .observeRename previousPath nextPath =>
      (∃ mapping, missing mapping ∧ mapping.path = previousPath) ∧ listed nextPath
  | .observeDelete mapping => missing mapping
  | _ => True

abbrev AsksObserved (listed : Path → Prop) (missing : LocalFileMapping → Prop) {α : Type}
    (V : α → Prop) (code : Scan α) : Prop := Asks (S := scanCalls) (Observes listed missing) V code

theorem asks_observeResilient {observation : ScanCall} (h : Observes listed missing observation) :
    AsksObserved listed missing (fun _ => True) (observeResilient observation) := by
  refine ⟨h, fun answer => ?_⟩
  cases answer with
  | ok value => trivial
  | error error =>
    cases error with
    | collision => trivial
    | other => trivial

/-- The mappings left are among those there were, and not under the key; the files without a
mapping are listed. -/
structure Fewer (listed : Path → Prop) (before : Compared) (key : ℕ) (after : Compared) :
    Prop where
  kept : ∀ other mapping, after.mappings.get other = some mapping →
    before.mappings.get other = some mapping
  gone : after.mappings.get key = none
  vault : ∀ file ∈ after.unmatchedVault, file ∈ before.unmatchedVault ∨ listed file.readPath

theorem fewer_erase (compared : Compared) (key : ℕ) {after : Compared}
    (h : after.mappings = compared.mappings.erase key)
    (hvault : after.unmatchedVault = compared.unmatchedVault) : Fewer listed compared key after := by
  refine ⟨fun other mapping hget => ?_, ?_, fun file hfile => ?_⟩
  · rw [h, get_erase] at hget
    split_ifs at hget
    exact hget
  · rw [h, get_erase, if_pos rfl]
  · rw [hvault] at hfile
    exact .inl hfile

theorem asks_statFor (known : Option LocalFileMapping) (path : Path) :
    AsksObserved listed missing (fun _ => True) (statFor options known path) := by
  unfold statFor
  split_ifs
  · exact Asks.bind (V := fun _ => True) (Asks.call trivial fun _ => trivial)
      fun _ _ => trivial
  · trivial

theorem asks_matched (compared : Compared) (key : ℕ) (found : Option (ℕ × FileStat))
    (contentHash : ContentHash) (mapping : LocalFileMapping) (hfile : listed file.readPath) :
    AsksObserved listed missing (Fewer listed compared key)
      (matched compared key file found contentHash mapping) := by
  unfold matched
  dsimp only
  split_ifs
  · exact fewer_erase compared key rfl rfl
  · have hmodify : Observes listed missing (.observeModify file.readPath) := hfile
    refine (asks_observeResilient hmodify).bind fun committed _ => ?_
    cases committed with
    | true => exact fewer_erase compared key rfl rfl
    | false => exact fewer_erase compared key rfl rfl

theorem asks_compareFile (compared : Compared) (key : ℕ) (hfile : listed file.readPath) :
    AsksObserved listed missing (Fewer listed compared key)
      (compareFile options compared key file) := by
  unfold compareFile
  refine (asks_statFor _ _).bind fun found _ => ?_
  split_ifs
  · exact fewer_erase compared key rfl rfl
  · refine Asks.bind (V := fun _ => True) (Asks.call trivial fun _ => trivial) fun read _ => ?_
    cases read with
    | none => exact fewer_erase compared key rfl rfl
    | some contentHash =>
      cases hknown : compared.mappings.get key with
      | none =>
        refine ⟨fun _ _ hget => hget, hknown, fun other hother => ?_⟩
        refine (mem_append.mp hother).imp id fun hlast => ?_
        rw [mem_singleton.mp hlast]
        exact hfile
      | some mapping => exact asks_matched compared key found contentHash mapping hfile

/-- Once the listed files are compared, the mappings left are under no file's key. -/
theorem asks_compareFiles {files : List (ℕ × EligibleFile)} (compared : Compared)
    (hfiles : ∀ entry ∈ files, listed entry.2.readPath)
    (hvault : ∀ file ∈ compared.unmatchedVault, listed file.readPath) :
    AsksObserved listed missing (fun after =>
      (∀ other mapping, after.mappings.get other = some mapping →
        compared.mappings.get other = some mapping) ∧
      (∀ entry ∈ files, after.mappings.get entry.1 = none) ∧
      ∀ file ∈ after.unmatchedVault, listed file.readPath) (compareFiles options compared files) := by
  induction files generalizing compared with
  | nil =>
    refine ⟨fun _ _ hget => hget, fun _ hmem => ?_, hvault⟩
    cases hmem
  | cons entry rest ih =>
    obtain ⟨hfirst, hrest⟩ := forall_mem_cons.mp hfiles
    refine (asks_compareFile compared entry.1 hfirst).bind fun next hnext => ?_
    have hlater : ∀ file ∈ next.unmatchedVault, listed file.readPath := fun file hfile =>
      (hnext.vault file hfile).elim (hvault file) id
    refine (ih next hrest hlater).mono (fun _ hcall => hcall) fun after hafter => ?_
    refine ⟨fun other mapping hget => hnext.kept other mapping (hafter.1 other mapping hget), ?_,
      hafter.2.2⟩
    refine forall_mem_cons.mpr ⟨?_, hafter.2.1⟩
    cases hgone : after.mappings.get entry.1 with
    | none => rfl
    | some mapping =>
      have hkept := hafter.1 entry.1 mapping hgone
      rw [hnext.gone] at hkept
      cases hkept

theorem asks_observeAll (observations : List (Path × ScanCall)) (tally : Tally)
    (h : ∀ observation ∈ observations, Observes listed missing observation.2) :
    AsksObserved listed missing (fun _ => True) (observeAll tally observations) := by
  induction observations generalizing tally with
  | nil => trivial
  | cons observation rest ih =>
    obtain ⟨hfirst, hrest⟩ := forall_mem_cons.mp h
    refine (asks_observeResilient hfirst).bind fun committed _ => ?_
    cases committed with
    | true => exact ih _ hrest
    | false => exact ih _ hrest

/-- A rename pairs one of the files with one of the mappings. -/
theorem of_mem_renamePairs {pair : EligibleVaultFile × LocalFileMapping}
    (h : pair ∈ renamePairs unmatchedVault unmatchedMappings) :
    pair.1 ∈ unmatchedVault ∧ pair.2 ∈ unmatchedMappings := by
  obtain ⟨content, -, hpair⟩ := mem_filterMap.mp h
  dsimp only at hpair
  split at hpair
  · next file mapping hfiles hcandidates =>
    rw [← some.inj hpair]
    constructor
    · exact mem_of_mem_filter (hfiles ▸ mem_singleton_self file)
    · exact mem_of_mem_filter (hcandidates ▸ mem_singleton_self mapping)
  · cases hpair

theorem asks_applyRenamesCreatesDeletes (hvault : ∀ file ∈ unmatchedVault, listed file.readPath)
    (hmappings : ∀ mapping ∈ unmatchedMappings, missing mapping) (skippedPaths : List Path)
    (breakerTotal : Option ℕ) :
    AsksObserved listed missing (fun _ => True) (applyRenamesCreatesDeletes unmatchedVault
      unmatchedMappings skippedPaths breakerTotal) := by
  unfold applyRenamesCreatesDeletes
  refine (asks_observeAll _ _ fun observation hmem => ?_).bind fun renames _ => ?_
  · obtain ⟨pair, hpair, rfl⟩ := mem_map.mp hmem
    obtain ⟨hfile, hmapping⟩ := of_mem_renamePairs hpair
    exact ⟨⟨pair.2, hmappings _ hmapping, rfl⟩, hvault _ hfile⟩
  refine (asks_observeAll _ _ fun observation hmem => ?_).bind fun creates _ => ?_
  · obtain ⟨file, hfile, rfl⟩ := mem_map.mp hmem
    exact hvault file (mem_filter.mp hfile).1
  dsimp only
  split_ifs
  · trivial
  · refine (asks_observeAll _ _ fun observation hmem => ?_).bind fun deletes _ => trivial
    obtain ⟨mapping, hpending, rfl⟩ := mem_map.mp hmem
    exact hmappings mapping (mem_filter.mp hpending).1

theorem asks_recordStats (entries : List StatEntry) :
    AsksObserved listed missing (fun _ => True) (recordStats entries) := by
  cases entries with
  | nil => trivial
  | cons entry rest =>
    have hcall : Observes listed missing (.recordStats (entry :: rest)) := trivial
    refine ⟨hcall, fun answer => ?_⟩
    cases answer with
    | ok value => trivial
    | error error => trivial

/-- The scan observes listed files and the deletion of missing mappings only. -/
theorem observes_scanMappings (allowBulkDeletes : Bool) (allPaths : List Path) (listing : Listing)
    (allMappings : List LocalFileMapping) :
    AsksObserved (· ∈ listing.paths) (Missing options.rules listing allMappings) (fun _ => True)
      (scanMappings options allowBulkDeletes allPaths listing allMappings) := by
  unfold scanMappings
  have hfiles : ∀ entry ∈ (sortPaths options.rules listing.paths).eligible.entries,
      entry.2.readPath ∈ listing.paths := fun entry hentry =>
    eligible_listed listing.paths (get_eq_some.mpr hentry)
  have hempty : ∀ file ∈ (startComparing (sortPaths options.rules listing.paths)
      (mappingsByCollision options.rules allMappings listing.configListingFailed)).unmatchedVault,
      file.readPath ∈ listing.paths := by
    intro file hfile
    cases hfile
  refine (asks_compareFiles _ hfiles hempty).bind fun compared hcompared => ?_
  have hmissing : ∀ mapping ∈ compared.mappings.values,
      Missing options.rules listing allMappings mapping := by
    intro mapping hmem
    obtain ⟨key, hget⟩ := mem_values.mp hmem
    obtain ⟨htable, hnotshared⟩ := eraseAll_get _ (hcompared.1 key mapping hget)
    obtain ⟨⟨hmapped, hkey⟩, htold⟩ := mappingsByCollision_get htable
    refine ⟨hmapped, fun path hpath classified hclassified hsame => ?_, htold⟩
    rcases held_of_listed listing.paths {} hpath hclassified with halone | hshared
    · rw [hsame, hkey] at halone
      obtain ⟨file, hfile⟩ := ne_none_iff_exists'.mp halone
      have hnone := hcompared.2.1 (key, file) (get_eq_some.mp hfile)
      rw [hget] at hnone
      cases hnone
    · rw [hsame, hkey] at hshared
      exact hshared (get_eq_none.mpr hnotshared)
  refine (asks_recordStats _).bind fun _ _ => ?_
  exact (asks_applyRenamesCreatesDeletes hcompared.2.2 hmissing _ _).bind fun _ _ => trivial

/-- The only mappings a call observes the deletion of are missing. -/
def Deletes (missing : LocalFileMapping → Prop) : ScanCall → Prop
  | .observeDelete mapping => missing mapping
  | _ => True

abbrev AsksDeletes (missing : LocalFileMapping → Prop) {α : Type} (V : α → Prop) (code : Scan α) :
    Prop := Asks (S := scanCalls) (Deletes missing) V code

/-- The scan observes the deletion of missing mappings only. -/
theorem asks_scanMappings (allowBulkDeletes : Bool) (allPaths : List Path) (listing : Listing)
    (allMappings : List LocalFileMapping) :
    AsksDeletes (Missing options.rules listing allMappings) (fun _ => True)
      (scanMappings options allowBulkDeletes allPaths listing allMappings) := by
  refine (observes_scanMappings allowBulkDeletes allPaths listing allMappings).mono
    (fun call hcall => ?_) fun _ hvalue => hvalue
  cases call with
  | observeDelete mapping => exact hcall
  | _ => trivial

end

section

/-- How far a scan is. `unlisted` holds the keys of the files that were on disk when it listed
them, or came later, and are not in its listing. -/
inductive Stage
  | listing
  | listed (unlisted : List ℕ) (configListingFailed : Bool)
  | compared

structure RunningScan where
  code : Scan ReconcileResult
  stage : Stage

/-- `blocked` holds the collision keys of the files held back from upload. -/
structure ScanWorld where
  files : Files
  mappings : List LocalFileMapping
  blocked : List ℕ := []
  queued : List LocalChangeCommit := []
  scan : Option RunningScan := none

/-- What the outside gives a call: whether the settings folder cannot be listed, which
folders in it cannot, the time and the stat it answers, and the ids it makes up. -/
structure Outside where
  configFails : Bool := false
  unreadable : List Path := []
  time : ℕ := 0
  stat : Option FileStat := none
  ids : FreshIds := ⟨0, 0⟩

/-- What happens: an apply or the user writes or removes a file, an apply adopts or forgets a
mapping, a scan starts, and the call the scan waits for is answered or throws. -/
inductive ScanAction
  | put (path : Path) (content : Content)
  | vacate (path : Path)
  | adopt (path : Path) (fileId : Id) (contentHash : ContentHash)
  | forget (collisionKey : ℕ) (fileId : Id)
  | reconcile (allowBulkDeletes : Bool)
  | answer (outside : Outside)
  | throws (error : ScanError)

variable (options : ScanOptions)

def keyOnDisk (files : Files) (key : ℕ) : Bool :=
  files.keys.any fun path => keyOf options.rules path = some key

def listedPaths (files : Files) (outside : Outside) : List Path :=
  (files.keys.filter fun path => options.visible path && options.syncableExtension path) ++
    if outside.configFails then []
    else files.keys.filter fun path => options.rules.isSyncableConfigPath path &&
      (options.rules.ancestorFolders path).all fun folder => ¬ outside.unreadable.contains folder

/-- Without the files held back that have no mapping. -/
def pathsToScan (blocked mapped : List ℕ) (paths : List Path) : List Path :=
  paths.filter fun path =>
    (keyOf options.rules path).all fun key => ¬ blocked.contains key || mapped.contains key

def listingOf (world : ScanWorld) (mapped : List ℕ) (outside : Outside) : Listing where
  paths := pathsToScan options world.blocked mapped (listedPaths options world.files outside)
  configListingFailed := outside.configFails

def unlistedKeys (files : Files) (listing : Listing) : List ℕ :=
  (files.keys.filterMap (keyOf options.rules)).filter fun key =>
    ¬ listing.paths.any fun path => keyOf options.rules path = some key

def readEligibleContent (files : Files) (path : Path) : SyncContentKind → Option ContentHash
  | .binary =>
    let bytes := readBinary options.toObserverOptions files path
    if bytes.length > maxBinaryFileBytes then none else some (options.digests.hashBlob bytes)
  | .markdown => some (options.digests.hashText (canonicalizeMarkdown (canonicalizeMarkdown
      (options.normalizeConfigContent path (readText options.toObserverOptions files path)))))

def observe (world : ScanWorld) : Option LocalChangeCommit → ScanWorld
  | none => world
  | some commit =>
    { world with
      mappings := nextMappings world.mappings commit
      queued := world.queued ++ [commit] }

/-- What the observer commits; a collision of two files' paths is its one error. -/
def observation (world : ScanWorld) (ids : FreshIds) :
    ScanCall → Except LocalVaultError (Option LocalChangeCommit)
  | .observeModify path =>
    .ok (handleModify options.toObserverOptions world.files world.mappings ids path false)
  | .observeRename previousPath nextPath =>
    handleRename options.toObserverOptions world.files world.mappings ids previousPath nextPath
  | .observeCreate path =>
    .ok (handleCreate options.toObserverOptions world.files world.mappings ids path)
  | .observeDelete mapping =>
    .ok (handleDelete options.toObserverOptions world.mappings ids mapping.path)
  | _ => .ok none

def observed (world : ScanWorld) (ids : FreshIds) (call : ScanCall) :
    Except ScanError Unit × ScanWorld :=
  match observation options world ids call with
  | .error _ => (.error .collision, world)
  | .ok commit => (.ok (), observe world commit)

def respond (world : ScanWorld) (outside : Outside) :
    (call : ScanCall) → Except ScanError call.Answer × ScanWorld
  | .listAllPaths => (.ok (world.files.keys.filter options.visible), world)
  | .mappedKeys => (.ok (world.mappings.map LocalFileMapping.collisionKey), world)
  | .listSyncablePaths mapped => (.ok (listingOf options world mapped outside), world)
  | .listMappings => (.ok world.mappings, world)
  | .stat _ => (.ok (outside.time, outside.stat), world)
  | .readContent path kind => (.ok (readEligibleContent options world.files path kind), world)
  | .recordStats entries =>
    (.ok (), { world with mappings := world.mappings.map (withStat entries) })
  | .observeModify path => observed options world outside.ids (.observeModify path)
  | .observeRename previousPath nextPath =>
    observed options world outside.ids (.observeRename previousPath nextPath)
  | .observeCreate path => observed options world outside.ids (.observeCreate path)
  | .observeDelete mapping => observed options world outside.ids (.observeDelete mapping)

def stageAfter (world : ScanWorld) (outside : Outside) : Stage → ScanCall → Stage
  | .listing, .listSyncablePaths mapped =>
    .listed (unlistedKeys options world.files (listingOf options world mapped outside))
      outside.configFails
  | .listed _ _, .listMappings => .compared
  | stage, _ => stage

/-- A file that comes after the listing is not in it. -/
def arrived (path : Path) : Stage → Stage
  | .listed unlisted failed => .listed ((keyOf options.rules path).toList ++ unlisted) failed
  | stage => stage

/-- The mapping an apply adopts for a file. -/
def adoptedMapping (path : Path) (fileId : Id) (contentHash : ContentHash) :
    Option LocalFileMapping :=
  (options.rules.classifyVaultPath path).map fun classified =>
    { collisionKey := classified.collisionKey
      contentHash
      contentKind := some classified.kind
      fileId
      path := classified.canonicalPath }

def scanStep (world : ScanWorld) : ScanAction → Option ScanWorld
  | .put path content =>
    some { world with
      files := world.files.set path content
      scan := world.scan.map fun running =>
        { running with stage := arrived options path running.stage } }
  | .vacate path => some { world with files := world.files.erase path }
  | .adopt path fileId contentHash =>
    (adoptedMapping options path fileId contentHash).map fun mapping =>
      { world with mappings := upsertMapping world.mappings mapping }
  | .forget collisionKey fileId =>
    some { world with
      mappings := world.mappings.filter fun mapping =>
        mapping.collisionKey ≠ collisionKey ∧ mapping.fileId ≠ fileId }
  | .reconcile allowBulkDeletes =>
    match world.scan with
    | none => some { world with
        scan := some ⟨reconcileVaultState options allowBulkDeletes, .listing⟩ }
    | some _ => none
  | .answer outside =>
    match world.scan with
    | some ⟨.await call next, stage⟩ =>
      some { (respond options world outside call).2 with
        scan := some ⟨next (respond options world outside call).1,
          stageAfter options world outside stage call⟩ }
    | _ => none
  | .throws error =>
    match world.scan with
    | some ⟨.await _ next, stage⟩ => some { world with scan := some ⟨next (.error error), stage⟩ }
    | _ => none

/-- No mapping the scan is about to read is of a file on disk that its listing does not have,
unless the failed listing says nothing about it. -/
def ListedAll (world : ScanWorld) (unlisted : List ℕ) (failed : Bool) : Prop :=
  ∀ mapping ∈ world.mappings, mapping.collisionKey ∈ unlisted →
    (failed = true → options.rules.isSyncableConfigPath mapping.path = false) →
    keyOnDisk options world.files mapping.collisionKey = false

/-- No file is put at a path whose mapping the scan may still take for a deleted file's, and
the mappings are read while the listing has the file of each. -/
def Undisturbed (world : ScanWorld) : ScanAction → Prop
  | .put path _ => ∀ code, world.scan = some ⟨code, .compared⟩ → ∀ key,
      keyOf options.rules path = some key →
      AsksDeletes (fun mapping => mapping.collisionKey ≠ key) (fun _ => True) code
  | .answer _ => ∀ next unlisted failed,
      world.scan = some ⟨.await .listMappings next, .listed unlisted failed⟩ →
      ListedAll options world unlisted failed
  | _ => True

end

section
variable {options : ScanOptions} {world : ScanWorld} {path : Path} {mapping : LocalFileMapping}
  {commit : LocalChangeCommit} {ids : FreshIds} {call : ScanCall} {mappings : List LocalFileMapping}
  {outside : Outside}

/-- A mapping's key is that of its path. -/
def Consistent (options : ScanOptions) (mapping : LocalFileMapping) : Prop :=
  keyOf options.rules mapping.path = some mapping.collisionKey

def AllConsistent (options : ScanOptions) (mappings : List LocalFileMapping) : Prop :=
  ∀ mapping ∈ mappings, Consistent options mapping

theorem consistent_classified {classified : ClassifiedPath}
    (hclassified : options.rules.classifyVaultPath path = some classified)
    (hpath : mapping.path = classified.canonicalPath)
    (hkey : mapping.collisionKey = classified.collisionKey) : Consistent options mapping := by
  unfold Consistent keyOf
  rw [hpath, hkey, options.classify_canonical path classified hclassified]
  rfl

theorem allConsistent_upsert (h : AllConsistent options mappings)
    (hmapping : Consistent options mapping) :
    AllConsistent options (upsertMapping mappings mapping) := by
  intro other hmem
  rcases mem_upsertMapping hmem with hold | rfl
  · exact h other hold
  · exact hmapping

theorem allConsistent_next (h : AllConsistent options mappings)
    (hupserts : Upserts options.toObserverOptions commit) :
    AllConsistent options (nextMappings mappings commit) := by
  intro mapping hmem
  rcases mem_nextMappings hmem with hold | hnew
  · exact h mapping hold
  · obtain ⟨path, classified, hclassified, hpath, hkey⟩ := hupserts mapping hnew
    exact consistent_classified hclassified hpath hkey

theorem withStat_place (entries : List StatEntry) (mapping : LocalFileMapping) :
    (withStat entries mapping).path = mapping.path ∧
      (withStat entries mapping).collisionKey = mapping.collisionKey := by
  unfold withStat
  cases entries.reverse.find? fun entry => entry.fileId = mapping.fileId with
  | none => exact ⟨rfl, rfl⟩
  | some entry =>
    dsimp only
    split_ifs
    · exact ⟨rfl, rfl⟩
    · exact ⟨rfl, rfl⟩

theorem observation_upserts (h : observation options world ids call = .ok (some commit)) :
    Upserts options.toObserverOptions commit := by
  cases call with
  | observeModify path => exact upserts_handleModify (Except.ok.inj h)
  | observeRename previousPath nextPath => exact upserts_handleRename h
  | observeCreate path => exact upserts_handleCreate (Except.ok.inj h)
  | observeDelete mapping =>
    obtain ⟨-, -, -, -, -, -, hnone⟩ := handleDelete_some (Except.ok.inj h)
    intro other hother
    rw [hnone] at hother
    cases hother
  | _ => cases h

theorem allConsistent_observed (h : AllConsistent options world.mappings) :
    AllConsistent options (observed options world ids call).2.mappings := by
  unfold observed
  cases hobservation : observation options world ids call with
  | error error => exact h
  | ok commit =>
    cases commit with
    | none => exact h
    | some commit => exact allConsistent_next h (observation_upserts hobservation)

theorem allConsistent_respond (call : ScanCall) (h : AllConsistent options world.mappings) :
    AllConsistent options (respond options world outside call).2.mappings := by
  cases call with
  | recordStats entries =>
    intro mapping hmem
    obtain ⟨old, hold, rfl⟩ := mem_map.mp hmem
    obtain ⟨hpath, hkey⟩ := withStat_place entries old
    unfold Consistent
    rw [hpath, hkey]
    exact h old hold
  | observeModify path => exact allConsistent_observed h
  | observeRename previousPath nextPath => exact allConsistent_observed h
  | observeCreate path => exact allConsistent_observed h
  | observeDelete mapping => exact allConsistent_observed h
  | _ => exact h

theorem observed_files : (observed options world ids call).2.files = world.files := by
  unfold observed
  cases observation options world ids call with
  | error error => rfl
  | ok commit =>
    cases commit with
    | none => rfl
    | some commit => rfl

/-- The scan's calls leave the files as they are. -/
theorem respond_files (call : ScanCall) :
    (respond options world outside call).2.files = world.files := by
  cases call with
  | observeModify path => exact observed_files
  | observeRename previousPath nextPath => exact observed_files
  | observeCreate path => exact observed_files
  | observeDelete mapping => exact observed_files
  | _ => rfl

end

section
variable {options : ScanOptions} {files : Files} {path : Path} {key : ℕ}

theorem keyOnDisk_iff :
    keyOnDisk options files key = true ↔ ∃ path ∈ files.keys, keyOf options.rules path = some key := by
  unfold keyOnDisk
  rw [List.any_eq_true]
  simp only [decide_eq_true_eq]

theorem mem_keys_of_existsAt (h : existsAt files path = true) : path ∈ files.keys := by
  by_contra hnot
  unfold existsAt at h
  rw [get_eq_none.mpr hnot] at h
  cases h

theorem keyOnDisk_of_existsAt (h : existsAt files path = true) (hkey : keyOf options.rules path = some key) :
    keyOnDisk options files key = true := keyOnDisk_iff.mpr ⟨path, mem_keys_of_existsAt h, hkey⟩

theorem keyOnDisk_set {content : Content}
    (h : keyOnDisk options (files.set path content) key = true) :
    keyOnDisk options files key = true ∨ keyOf options.rules path = some key := by
  obtain ⟨other, hmem, hkey⟩ := keyOnDisk_iff.mp h
  by_cases hsame : other = path
  · exact .inr (hsame ▸ hkey)
  · refine .inl (keyOnDisk_iff.mpr ⟨other, ?_, hkey⟩)
    by_contra hnot
    have hmissing : (files.set path content).get other = none := by
      rw [get_set, if_neg hsame]
      exact get_eq_none.mpr hnot
    exact get_eq_none.mp hmissing hmem

theorem keyOnDisk_erase (h : keyOnDisk options (files.erase path) key = true) :
    keyOnDisk options files key = true := by
  obtain ⟨other, hmem, hkey⟩ := keyOnDisk_iff.mp h
  refine keyOnDisk_iff.mpr ⟨other, ?_, hkey⟩
  by_contra hnot
  have hmissing : (files.erase path).get other = none := by
    rw [get_erase, get_eq_none.mpr hnot, ite_self]
  exact get_eq_none.mp hmissing hmem

/-- A file that is on disk when the files are listed is in the listing or among the keys that
are not. -/
theorem listed_or_unlisted (listing : Listing) (h : keyOnDisk options files key = true) :
    (∃ path ∈ listing.paths, keyOf options.rules path = some key) ∨
      key ∈ unlistedKeys options files listing := by
  by_cases hlisted : ∃ path ∈ listing.paths, keyOf options.rules path = some key
  · exact .inl hlisted
  · right
    obtain ⟨path, hmem, hkey⟩ := keyOnDisk_iff.mp h
    refine mem_filter.mpr ⟨mem_filterMap.mpr ⟨path, hmem, hkey⟩, ?_⟩
    refine decide_eq_true fun hany => hlisted ?_
    obtain ⟨other, hother, hsame⟩ := any_eq_true.mp hany
    exact ⟨other, hother, of_decide_eq_true hsame⟩

end

section
variable {options : ScanOptions} {start world world' : ScanWorld} {files : Files}
  {code : Scan ReconcileResult} {stage : Stage} {action : ScanAction} {mapping : LocalFileMapping}

/-- The code observes no deletion any more. -/
def Harmless (code : Scan ReconcileResult) : Prop :=
  AsksDeletes (fun _ => False) (fun _ => True) code

/-- A mapping of a file that is not on disk. -/
def Absent (options : ScanOptions) (files : Files) (mapping : LocalFileMapping) : Prop :=
  keyOnDisk options files mapping.collisionKey = false ∧ Consistent options mapping

/-- What a scan knows at each stage. -/
def Sound (options : ScanOptions) (files : Files) (code : Scan ReconcileResult) : Stage → Prop
  | .listing => Harmless code ∨ ∃ allowBulkDeletes,
      code = reconcileVaultState options allowBulkDeletes ∨
        (∃ allPaths, code = scanKeys options allowBulkDeletes allPaths) ∨
        ∃ allPaths mapped, code = scanPaths options allowBulkDeletes allPaths mapped
  | .listed unlisted failed => Harmless code ∨ ∃ allowBulkDeletes allPaths listing,
      code = scanListing options allowBulkDeletes allPaths listing ∧
        listing.configListingFailed = failed ∧
        ∀ key, keyOnDisk options files key = true →
          (∃ path ∈ listing.paths, keyOf options.rules path = some key) ∨ key ∈ unlisted
  | .compared => AsksDeletes (Absent options files) (fun _ => True) code

theorem Harmless.sound (h : Harmless code) (stage : Stage) : Sound options files code stage := by
  cases stage with
  | listing => exact .inl h
  | listed unlisted failed => exact .inl h
  | compared =>
    refine Asks.mono h (fun call hcall => ?_) fun _ hvalue => hvalue
    cases call with
    | observeDelete mapping => exact hcall.elim
    | _ => trivial

theorem absent_of_key {mapping : LocalFileMapping} {files' : Files}
    (h : Absent options files mapping)
    (hsame : keyOnDisk options files' mapping.collisionKey = true →
      keyOnDisk options files mapping.collisionKey = true) : Absent options files' mapping := by
  refine ⟨?_, h.2⟩
  by_contra hthere
  have hondisk := hsame (Bool.eq_true_of_not_eq_false hthere)
  rw [h.1] at hondisk
  cases hondisk

theorem deletes_mono {missing missing' : LocalFileMapping → Prop} {call : ScanCall}
    (h : Deletes missing call) (hmono : ∀ mapping, missing mapping → missing' mapping) :
    Deletes missing' call := by
  cases call with
  | observeDelete mapping => exact hmono mapping h
  | _ => trivial

theorem deletes_and {missing missing' : LocalFileMapping → Prop} {call : ScanCall}
    (h : Deletes missing call ∧ Deletes missing' call) :
    Deletes (fun mapping => missing mapping ∧ missing' mapping) call := by
  cases call with
  | observeDelete mapping => exact h
  | _ => trivial

theorem sound_put {path : Path} (content : Content) (h : Sound options files code stage)
    (hspared : stage = .compared → ∀ key, keyOf options.rules path = some key →
      AsksDeletes (fun mapping => mapping.collisionKey ≠ key) (fun _ => True) code) :
    Sound options (files.set path content) code (arrived options path stage) := by
  cases stage with
  | listing => exact h
  | listed unlisted failed =>
    refine h.imp id ?_
    rintro ⟨allowBulkDeletes, allPaths, listing, hcode, hfailed, hlisted⟩
    refine ⟨allowBulkDeletes, allPaths, listing, hcode, hfailed, fun key hondisk => ?_⟩
    rcases keyOnDisk_set hondisk with hold | hnew
    · exact (hlisted key hold).imp id (mem_append_right _)
    · refine .inr (mem_append_left _ ?_)
      rw [hnew]
      exact mem_singleton.mpr rfl
  | compared =>
    cases hkey : keyOf options.rules path with
    | none =>
      refine Asks.mono h (fun call hcall => deletes_mono hcall fun mapping habsent => ?_) fun _ hv => hv
      refine absent_of_key habsent fun hondisk => ?_
      rcases keyOnDisk_set hondisk with hold | hnew
      · exact hold
      · rw [hkey] at hnew
        cases hnew
    | some key =>
      have hboth := Asks.and h (hspared rfl key hkey)
      refine Asks.mono hboth (fun call hcall => ?_) fun _ hv => hv
      refine deletes_mono (deletes_and hcall) fun mapping ⟨habsent, hother⟩ => ?_
      refine absent_of_key habsent fun hondisk => ?_
      rcases keyOnDisk_set hondisk with hold | hnew
      · exact hold
      · rw [hkey] at hnew
        exact absurd (some.inj hnew).symm hother

theorem sound_vacate (path : Path) (h : Sound options files code stage) :
    Sound options (files.erase path) code stage := by
  cases stage with
  | listing => exact h
  | listed unlisted failed =>
    refine h.imp id ?_
    rintro ⟨allowBulkDeletes, allPaths, listing, hcode, hfailed, hlisted⟩
    exact ⟨allowBulkDeletes, allPaths, listing, hcode, hfailed,
      fun key hondisk => hlisted key (keyOnDisk_erase hondisk)⟩
  | compared =>
    refine Asks.mono h (fun call hcall => ?_) fun _ hv => hv
    exact deletes_mono hcall fun mapping habsent => absent_of_key habsent keyOnDisk_erase

variable {call : ScanCall} {next : Except ScanError call.Answer → Scan ReconcileResult}

theorem sound_throws (h : Sound options files (.await call next) stage) (error : ScanError) :
    Sound options files (next (.error error)) stage := by
  cases stage with
  | listing =>
    rcases h with hharmless | ⟨allowBulkDeletes, hcode | ⟨allPaths, hcode⟩ | ⟨allPaths, mapped, hcode⟩⟩
    · exact Harmless.sound (hharmless.2 _) .listing
    all_goals
      cases hcode
      exact .inl trivial
  | listed unlisted failed =>
    rcases h with hharmless | ⟨allowBulkDeletes, allPaths, listing, hcode, -⟩
    · exact .inl (hharmless.2 _)
    · cases hcode
      exact .inl trivial
  | compared => exact h.2 _

/-- What the scan deletes of the mappings it read is of no file on disk. -/
theorem absent_of_missing {listing : Listing} {unlisted : List ℕ} {mappings : List LocalFileMapping}
    (hconsistent : AllConsistent options mappings)
    (hlisted : ∀ key, keyOnDisk options files key = true →
      (∃ path ∈ listing.paths, keyOf options.rules path = some key) ∨ key ∈ unlisted)
    (hall : ∀ mapping ∈ mappings, mapping.collisionKey ∈ unlisted →
      (listing.configListingFailed = true →
        options.rules.isSyncableConfigPath mapping.path = false) →
      keyOnDisk options files mapping.collisionKey = false)
    (h : Missing options.rules listing mappings mapping) : Absent options files mapping := by
  refine ⟨?_, hconsistent mapping h.mapped⟩
  by_contra hthere
  have hondisk := Bool.eq_true_of_not_eq_false hthere
  rcases hlisted mapping.collisionKey hondisk with ⟨path, hpath, hkey⟩ | hunlisted
  · obtain ⟨classified, hclassified, hsame⟩ := map_eq_some_iff.mp hkey
    exact h.unlisted path hpath classified hclassified hsame
  · rw [hall mapping h.mapped hunlisted h.told] at hondisk
    cases hondisk

theorem sound_answer (outside : Outside) (hconsistent : AllConsistent options world.mappings)
    (h : Sound options world.files (.await call next) stage)
    (hall : ∀ unlisted failed, call = .listMappings → stage = .listed unlisted failed →
      ListedAll options world unlisted failed) :
    Sound options world.files (next (respond options world outside call).1)
      (stageAfter options world outside stage call) := by
  cases stage with
  | listing =>
    rcases h with hharmless | ⟨allowBulkDeletes, hcode | ⟨allPaths, hcode⟩ | ⟨allPaths, mapped, hcode⟩⟩
    · exact Harmless.sound (hharmless.2 _) _
    · cases hcode
      exact .inr ⟨allowBulkDeletes, .inr (.inl ⟨_, rfl⟩)⟩
    · cases hcode
      exact .inr ⟨allowBulkDeletes, .inr (.inr ⟨allPaths, _, rfl⟩)⟩
    · cases hcode
      refine .inr ⟨allowBulkDeletes, allPaths, _, rfl, rfl, fun key hondisk => ?_⟩
      exact listed_or_unlisted (listingOf options world mapped outside) hondisk
  | listed unlisted failed =>
    rcases h with hharmless | ⟨allowBulkDeletes, allPaths, listing, hcode, rfl, hlisted⟩
    · exact Harmless.sound (hharmless.2 _) _
    · cases hcode
      refine Asks.mono (asks_scanMappings allowBulkDeletes allPaths listing world.mappings)
        (fun call hcall => ?_) fun _ hv => hv
      exact deletes_mono hcall fun mapping hmissing =>
        absent_of_missing hconsistent hlisted (hall unlisted _ rfl rfl) hmissing
  | compared => exact h.2 _

theorem scanStep_reconcile {allowBulkDeletes : Bool}
    (h : scanStep options world (.reconcile allowBulkDeletes) = some world') :
    world.scan = none ∧
      world' = { world with scan := some ⟨reconcileVaultState options allowBulkDeletes, .listing⟩ } := by
  cases hscan : world.scan with
  | none =>
    simp only [scanStep, hscan] at h
    exact ⟨rfl, (some.inj h).symm⟩
  | some running =>
    simp only [scanStep, hscan] at h
    cases h

theorem scanStep_answer {outside : Outside}
    (h : scanStep options world (.answer outside) = some world') :
    ∃ call next stage, world.scan = some ⟨.await call next, stage⟩ ∧
      world' = { (respond options world outside call).2 with
        scan := some ⟨next (respond options world outside call).1,
          stageAfter options world outside stage call⟩ } := by
  unfold scanStep at h
  dsimp only at h
  split at h
  · rename_i call next stage hscan
    exact ⟨call, next, stage, hscan, (some.inj h).symm⟩
  · cases h

theorem scanStep_throws {error : ScanError}
    (h : scanStep options world (.throws error) = some world') :
    ∃ call next stage, world.scan = some ⟨.await call next, stage⟩ ∧
      world' = { world with scan := some ⟨next (.error error), stage⟩ } := by
  unfold scanStep at h
  dsimp only at h
  split at h
  · rename_i call next stage hscan
    exact ⟨call, next, stage, hscan, (some.inj h).symm⟩
  · cases h

/-- A running scan's code knows what is needed, and every mapping is under its path's key. -/
structure Inv (options : ScanOptions) (world : ScanWorld) : Prop where
  consistent : AllConsistent options world.mappings
  sound : ∀ code stage, world.scan = some ⟨code, stage⟩ → Sound options world.files code stage

theorem inv_step (h : Inv options world) (hallowed : Undisturbed options world action)
    (hstep : scanStep options world action = some world') : Inv options world' := by
  cases action with
  | put path content =>
    cases hstep
    refine ⟨h.consistent, fun code stage hscan => ?_⟩
    obtain ⟨⟨running, before⟩, hrunning, hsame⟩ := map_eq_some_iff.mp hscan
    cases hsame
    refine sound_put content (h.sound _ _ hrunning) ?_
    rintro rfl key hkey
    exact hallowed _ hrunning key hkey
  | vacate path =>
    cases hstep
    exact ⟨h.consistent, fun code stage hscan => sound_vacate path (h.sound code stage hscan)⟩
  | adopt path fileId contentHash =>
    obtain ⟨mapping, hmapping, rfl⟩ := map_eq_some_iff.mp hstep
    obtain ⟨classified, hclassified, rfl⟩ := map_eq_some_iff.mp hmapping
    exact ⟨allConsistent_upsert h.consistent (consistent_classified hclassified rfl rfl), h.sound⟩
  | forget collisionKey fileId =>
    cases hstep
    exact ⟨fun mapping hmem => h.consistent mapping (mem_filter.mp hmem).1, h.sound⟩
  | reconcile allowBulkDeletes =>
    obtain ⟨-, rfl⟩ := scanStep_reconcile hstep
    refine ⟨h.consistent, fun code stage hstarted => ?_⟩
    cases hstarted
    exact .inr ⟨allowBulkDeletes, .inl rfl⟩
  | answer outside =>
    obtain ⟨call, next, stage, hscan, rfl⟩ := scanStep_answer hstep
    refine ⟨allConsistent_respond call h.consistent, fun code' stage' hafter => ?_⟩
    cases hafter
    have hsame : (respond options world outside call).2.files = world.files := respond_files call
    refine (congrArg (fun files => Sound options files _ _) hsame).mpr ?_
    refine sound_answer outside h.consistent (h.sound _ _ hscan) ?_
    rintro unlisted failed rfl rfl
    exact hallowed next unlisted failed hscan
  | throws error =>
    obtain ⟨call, next, stage, hscan, rfl⟩ := scanStep_throws hstep
    refine ⟨h.consistent, fun code' stage' hafter => ?_⟩
    cases hafter
    exact sound_throws (h.sound _ _ hscan) error

theorem inv_reached (hconsistent : AllConsistent options start.mappings)
    (hstart : start.scan = none)
    (reached : Reached (scanStep options) (Undisturbed options) start world) :
    Inv options world := by
  refine reached.invariant ⟨hconsistent, fun code stage hscan => ?_⟩
    fun _ _ _ hbefore hallowed hstep => inv_step hbefore hallowed hstep
  rw [hstart] at hscan
  cases hscan

/-- A deletion the scan is waiting for is of a file that is not on disk. -/
theorem absent_of_waiting {next : Except ScanError Unit → Scan ReconcileResult}
    (h : Inv options world)
    (hscan : world.scan = some ⟨.await (.observeDelete mapping) next, stage⟩) :
    Absent options world.files mapping := by
  have hsound := h.sound _ _ hscan
  cases stage with
  | listing =>
    rcases hsound with hharmless | ⟨_, hcode | ⟨_, hcode⟩ | ⟨_, _, hcode⟩⟩
    · exact hharmless.1.elim
    all_goals cases hcode
  | listed unlisted failed =>
    rcases hsound with hharmless | ⟨_, _, _, hcode, -⟩
    · exact hharmless.1.elim
    · cases hcode
  | compared => exact hsound.1

theorem not_existsAt_of_absent {other : LocalFileMapping} (h : Absent options files mapping)
    (hother : Consistent options other) (hkey : other.collisionKey = mapping.collisionKey) :
    existsAt files other.path = false := by
  by_contra hthere
  have hondisk := keyOnDisk_of_existsAt (Bool.eq_true_of_not_eq_false hthere) hother
  rw [hkey, h.1] at hondisk
  cases hondisk

/-- In every undisturbed run a scan observes the deletion of a mapping only while no file is on
disk under its key, and what it then queues is no deletion of a file on disk. -/
theorem scan_deletes_absent (hconsistent : AllConsistent options start.mappings)
    (hstart : start.scan = none)
    (reached : Reached (scanStep options) (Undisturbed options) start world)
    (hscan : ∃ next, world.scan = some ⟨.await (.observeDelete mapping) next, stage⟩) :
    keyOnDisk options world.files mapping.collisionKey = false ∧
      existsAt world.files mapping.path = false ∧
      ∀ outside world', scanStep options world (.answer outside) = some world' →
        ∀ commit ∈ world'.queued, commit ∉ world.queued →
          existsAt world'.files commit.operation.path = false := by
  have hinv := inv_reached hconsistent hstart reached
  obtain ⟨next, hscan⟩ := hscan
  have habsent := absent_of_waiting hinv hscan
  refine ⟨habsent.1, not_existsAt_of_absent habsent habsent.2 rfl, ?_⟩
  intro outside world' hstep commit hqueued hnew
  simp only [scanStep, hscan] at hstep
  cases hstep
  cases hcommit : handleDelete options.toObserverOptions world.mappings outside.ids
      mapping.path with
  | none =>
    simp only [respond, observed, observation, hcommit, observe] at hqueued
    exact absurd hqueued hnew
  | some queued =>
    simp only [respond, observed, observation, hcommit, observe] at hqueued ⊢
    rcases mem_append.mp hqueued with hold | hlast
    · exact absurd hold hnew
    · cases mem_singleton.mp hlast
      obtain ⟨classified, found, hfound, hclassified, hkey, hpath, -⟩ := handleDelete_some hcommit
      have hsame : classified.collisionKey = mapping.collisionKey := by
        have hplace := habsent.2
        unfold Consistent keyOf at hplace
        rw [hclassified] at hplace
        exact some.inj hplace
      rw [hpath]
      exact not_existsAt_of_absent habsent (hinv.consistent found hfound) (hkey.trans hsame)

end

theorem noteScan_listed (path : Path) (classified : ClassifiedPath)
    (_ : noteRules.classifyVaultPath path = some classified) :
    (true = true ∧ true = true) ∨ noteRules.isSyncableConfigPath path = true := .inl ⟨rfl, rfl⟩

theorem noteScan_canonical (path : Path) (classified : ClassifiedPath)
    (h : noteRules.classifyVaultPath path = some classified) :
    noteRules.classifyVaultPath classified.canonicalPath = some classified := by
  cases h
  rfl

/-- A vault of notes whose stats are not recorded. -/
def noteScan : ScanOptions where
  toObserverOptions := noteObserver
  visible _ := true
  syncableExtension _ := true
  canRecord := false
  listed_of_classified := noteScan_listed
  classify_canonical := noteScan_canonical

def noteMapping (path : Path) : LocalFileMapping where
  collisionKey := path
  contentHash := .text [97, lineFeed]
  contentKind := some .markdown
  fileId := path + 10
  path := path

def worldAfter (start : ScanWorld) (actions : List ScanAction) : ScanWorld :=
  (run (scanStep noteScan) start actions).getD start

/-- A vault the one mapped note is gone from. -/
def emptiedWorld : ScanWorld where
  files := ∅
  mappings := [noteMapping 1]

/-- A confirmed pass, up to its deletions. -/
def confirmedPass : List ScanAction :=
  [.reconcile true, .answer {}, .answer {}, .answer {}, .answer {}]

/-- With no file on disk nothing disturbs a scan's calls. -/
theorem undisturbed_answer {world : ScanWorld} (hempty : world.files = ∅) (outside : Outside) :
    Undisturbed noteScan world (.answer outside) := by
  intro next unlisted failed _ mapping _ _ _
  rw [hempty]
  rfl

theorem confirmedPass_reached : Reached (scanStep noteScan) (Undisturbed noteScan) emptiedWorld
    (worldAfter emptiedWorld confirmedPass) := by
  have hstarted : Undisturbed noteScan emptiedWorld (.reconcile true) := trivial
  have hlisting : Reached (scanStep noteScan) (Undisturbed noteScan) emptiedWorld
      (worldAfter emptiedWorld [.reconcile true]) := .step .start hstarted rfl
  have hkeys := hlisting.step (undisturbed_answer rfl {}) rfl
  have hpaths := hkeys.step (undisturbed_answer rfl {}) rfl
  have hmappings := hpaths.step (undisturbed_answer rfl {}) rfl
  exact hmappings.step (undisturbed_answer rfl {}) rfl

/-- The deletion of the note that is gone is observed. -/
theorem scan_deletes_absent_note :
    keyOnDisk noteScan (worldAfter emptiedWorld confirmedPass).files 1 = false := by
  have hconsistent : AllConsistent noteScan emptiedWorld.mappings := by
    intro mapping hmem
    rw [mem_singleton.mp hmem]
    rfl
  have hwaiting : ∃ next, (worldAfter emptiedWorld confirmedPass).scan =
      some ⟨.await (.observeDelete (noteMapping 1)) next, .compared⟩ := ⟨_, rfl⟩
  exact (scan_deletes_absent hconsistent rfl confirmedPass_reached hwaiting).1

/-- A vault with one note as its mapping says. -/
def syncedWorld : ScanWorld where
  files := JsObject.empty.set 1 (.text [97, lineFeed])
  mappings := [noteMapping 1]

/-- While a confirmed pass has listed the files and not read the mappings, an apply creates
another note and adopts its mapping. -/
def passWithApply : List ScanAction :=
  [.reconcile true, .answer {}, .answer {}, .answer {}, .put 2 (.text [98, lineFeed]),
    .adopt 2 12 (.text [98, lineFeed]), .answer {}, .answer {}]

/-- The pass then deletes the note that has just come, for every device. -/
theorem scan_deletes_present :
    run (scanStep noteScan) syncedWorld passWithApply = some (worldAfter syncedWorld passWithApply) ∧
      existsAt (worldAfter syncedWorld passWithApply).files 2 = true ∧
      (∃ mapping next, (worldAfter syncedWorld passWithApply).scan =
        some ⟨.await (.observeDelete mapping) next, .compared⟩ ∧ mapping.path = 2) ∧
      ∃ world', scanStep noteScan (worldAfter syncedWorld passWithApply) (.answer {}) = some world' ∧
        world'.queued.map (fun commit => (commit.operation.kind, commit.operation.path)) =
          [(.delete, 2)] ∧
        existsAt world'.files 2 = true :=
  ⟨rfl, rfl, ⟨_, _, rfl, rfl⟩, _, rfl, rfl, rfl⟩

end Havemind.ScanSafety
