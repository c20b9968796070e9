import Havemind.ProducerIndex
import Havemind.ScanSafety

/-!
A scan that nothing else writes beside. It creates no file of a key that was mapped when it
started or is held back: it lists a file of a held key only once the key is mapped, and it
takes a mapping away only when its listing has no file of the key.
-/
namespace Havemind.ScanCreates

open Runs VaultPayload DurableState OutboxRepository List Option ChangeObserver VaultReconcile
  ScanSafety ProducerIndex

def Mapped (mappings : List LocalFileMapping) (key : ℕ) : Prop :=
  ∃ mapping ∈ mappings, mapping.collisionKey = key

section
variable (options : ScanOptions) (mappings : List LocalFileMapping) (ids : FreshIds)

/-- What an observation commits, by the key of the path it finds a file at and the key of the
path the file was at. -/
inductive Commits (source target : Option ℕ) (commit : LocalChangeCommit) : Prop
  | create (classified : ClassifiedPath) (read : ReadContent)
      (committed : commit = contentCommit ids .create ids.fileId classified none read)
      (placed : keyOf options.rules classified.canonicalPath = some classified.collisionKey)
      (found : target = some classified.collisionKey)
      (unmapped : ¬ Mapped mappings classified.collisionKey)
  | update (classified : ClassifiedPath) (read : ReadContent) (mapping : LocalFileMapping)
      (committed : commit = contentCommit ids .update mapping.fileId classified none read)
      (found : target = some classified.collisionKey)
      (mapped : mapping ∈ mappings) (key : mapping.collisionKey = classified.collisionKey)
  | rename (classified : ClassifiedPath) (previousPath : Path) (read : ReadContent)
      (mapping : LocalFileMapping)
      (committed : commit =
        contentCommit ids .rename mapping.fileId classified (some previousPath) read)
      (found : target = some classified.collisionKey)
      (mapped : mapping ∈ mappings) (key : source = some mapping.collisionKey)
      (free : ∀ occupant, findMapping mappings classified.collisionKey = some occupant →
        occupant.fileId = mapping.fileId)
  | delete (mapping : LocalFileMapping) (mapped : mapping ∈ mappings)
      (key : source = some mapping.collisionKey)
      (committed : commitDelete mappings ids mapping.collisionKey = some commit)

variable {options mappings ids} {files : Files} {path : Path} {classified : ClassifiedPath}
  {mapping : LocalFileMapping} {commit : LocalChangeCommit} {source target : Option ℕ} {key : ℕ}
  {force : Bool}

theorem commits_create (hclassified : options.rules.classifyVaultPath path = some classified)
    (hfound : findMapping mappings classified.collisionKey = none)
    (h : commitCreate options.toObserverOptions files ids path classified = some commit) :
    Commits options mappings ids source (keyOf options.rules path) commit := by
  obtain ⟨read, -, hcommit⟩ := map_eq_some_iff.mp h
  have hcanonical := keyOf_classified (options.classify_canonical path classified hclassified)
  apply Commits.create classified read hcommit.symm hcanonical (keyOf_classified hclassified)
  rintro ⟨mapping, hmem, hkey⟩
  exact List.find?_eq_none.mp hfound mapping hmem (decide_eq_true hkey)

theorem commits_modify (hclassified : options.rules.classifyVaultPath path = some classified)
    (hfound : findMapping mappings classified.collisionKey = some mapping)
    (h : commitModify options.toObserverOptions files ids path classified mapping force =
      some commit) : Commits options mappings ids source (keyOf options.rules path) commit := by
  obtain ⟨hmem, hkey⟩ := findMapping_some hfound
  obtain ⟨read, -, hcommit⟩ := commitModify_some h
  exact .update classified read mapping hcommit.symm (keyOf_classified hclassified) hmem hkey

theorem commits_handleModify
    (h : handleModify options.toObserverOptions files mappings ids path force = some commit) :
    Commits options mappings ids source (keyOf options.rules path) commit := by
  obtain ⟨classified, hclassified, ⟨hfound, h⟩ | ⟨mapping, hfound, h⟩⟩ := handleModify_cases h
  · exact commits_create hclassified hfound h
  · exact commits_modify hclassified hfound h

theorem commits_handleCreate
    (h : handleCreate options.toObserverOptions files mappings ids path = some commit) :
    Commits options mappings ids source (keyOf options.rules path) commit :=
  commits_handleModify (handleCreate_eq.symm.trans h)

theorem commits_delete {collisionKey : ℕ}
    (h : commitDelete mappings ids collisionKey = some commit) :
    Commits options mappings ids (some collisionKey) target commit := by
  obtain ⟨mapping, hfound, -⟩ := map_eq_some_iff.mp h
  obtain ⟨hmem, hkey⟩ := findMapping_some hfound
  rw [← hkey] at h ⊢
  exact .delete mapping hmem rfl h

/-- A rename from a path that is classified. -/
theorem commits_handleRename {previousPath : Path} (hprevious : keyOf options.rules previousPath ≠ none)
    (h : handleRename options.toObserverOptions files mappings ids previousPath path =
      .ok (some commit)) :
    Commits options mappings ids (keyOf options.rules previousPath) (keyOf options.rules path) commit := by
  cases hsource : options.rules.classifyVaultPath previousPath with
  | none =>
    unfold keyOf at hprevious
    rw [hsource] at hprevious
    exact absurd rfl hprevious
  | some source =>
    rw [keyOf_classified hsource]
    unfold handleRename at h
    rw [hsource] at h
    cases htarget : options.rules.classifyVaultPath path with
    | none =>
      rw [htarget] at h
      exact commits_delete (Except.ok.inj h)
    | some classified =>
      rw [htarget] at h
      dsimp only at h
      cases hfound : findMapping mappings source.collisionKey with
      | none =>
        rw [hfound] at h
        exact commits_handleCreate (Except.ok.inj h)
      | some mapping =>
        rw [hfound] at h
        dsimp only at h
        split_ifs at h with hoccupied
        obtain ⟨hmem, hkey⟩ := findMapping_some hfound
        obtain ⟨read, -, hcommit⟩ := map_eq_some_iff.mp (Except.ok.inj h)
        apply Commits.rename classified source.canonicalPath read mapping hcommit.symm
          (keyOf_classified htarget) hmem (congrArg some hkey.symm)
        intro occupant hoccupant
        by_contra hother
        rw [hoccupant] at hoccupied
        exact hoccupied (decide_eq_true hother)

/-- A commit keeps a file's mapping at its key, unless it is the file's rename or deletion. -/
theorem kept_next (hunique : UniqueMappings mappings)
    (hfresh : ∀ mapping ∈ mappings, mapping.fileId ≠ ids.fileId)
    (hcommits : Commits options mappings ids source target commit) (hmem : mapping ∈ mappings) :
    (∃ kept ∈ nextMappings mappings commit,
      kept.fileId = mapping.fileId ∧ kept.collisionKey = mapping.collisionKey) ∨
    (source = some mapping.collisionKey ∧ commit.operation.fileId = mapping.fileId ∧
      (commit.operation.kind = .rename ∨ commit.operation.kind = .delete)) := by
  cases hcommits with
  | create classified read committed placed found unmapped =>
    left
    rw [committed]
    refine ⟨mapping, mem_upsertMapping_of_ne hmem (hfresh mapping hmem) ?_, rfl, rfl⟩
    exact fun hkey => unmapped ⟨mapping, hmem, hkey⟩
  | update classified read updated committed found mapped key =>
    left
    rw [committed]
    by_cases hsame : mapping = updated
    · rw [hsame]
      exact ⟨_, mem_append_right _ (mem_singleton_self _), rfl, key.symm⟩
    · refine ⟨mapping, mem_upsertMapping_of_ne hmem ?_ ?_, rfl, rfl⟩
      · exact fun hfile => hsame (hunique.eq_of_file hmem mapped hfile)
      · exact fun hkey => hsame (hunique.eq_of_key hmem mapped (hkey.trans key.symm))
  | rename classified previousPath read renamed committed found mapped key free =>
    by_cases hsame : mapping = renamed
    · right
      rw [hsame, committed]
      exact ⟨key, rfl, .inl rfl⟩
    · left
      rw [committed]
      have hfile : mapping.fileId ≠ renamed.fileId := fun hfile =>
        hsame (hunique.eq_of_file hmem mapped hfile)
      refine ⟨mapping, mem_upsertMapping_of_ne hmem hfile ?_, rfl, rfl⟩
      intro hkey
      have hoccupant := findMapping_of_mem hunique hmem
      rw [hkey] at hoccupant
      exact hfile (free mapping hoccupant)
  | delete deleted mapped key committed =>
    unfold commitDelete at committed
    rw [findMapping_of_mem hunique mapped] at committed
    have hcommit := some.inj committed
    by_cases hsame : mapping = deleted
    · right
      rw [hsame, ← hcommit]
      exact ⟨key, rfl, .inr rfl⟩
    · left
      rw [← hcommit]
      refine ⟨mapping, mem_filter.mpr ⟨hmem, decide_eq_true ?_⟩, rfl, rfl⟩
      exact fun hfile => hsame (hunique.eq_of_file hmem mapped hfile)

/-- Only the key of the path a file is found at can become mapped. -/
theorem unmapped_next (hcommits : Commits options mappings ids source target commit)
    (htarget : target ≠ some key) (h : ¬ Mapped mappings key) :
    ¬ Mapped (nextMappings mappings commit) key := by
  rintro ⟨mapping, hmem, hkey⟩
  rcases mem_nextMappings hmem with hold | hnew
  · exact h ⟨mapping, hold, hkey⟩
  · rw [← hkey] at htarget
    cases hcommits with
    | create classified read committed placed found unmapped =>
      rw [committed] at hnew
      rw [← some.inj hnew] at htarget
      exact htarget found
    | update classified read updated committed found mapped key =>
      rw [committed] at hnew
      rw [← some.inj hnew] at htarget
      exact htarget found
    | rename classified previousPath read renamed committed found mapped key free =>
      rw [committed] at hnew
      rw [← some.inj hnew] at htarget
      exact htarget found
    | delete deleted mapped key committed =>
      obtain ⟨_, -, hcommit⟩ := map_eq_some_iff.mp committed
      rw [← hcommit] at hnew
      cases hnew

/-- A file is created under a key that was not mapped. -/
theorem created_key (hcommits : Commits options mappings ids source target commit)
    (hkind : commit.operation.kind = .create) :
    keyOf options.rules commit.operation.path = target ∧ ∀ key, target = some key →
      ¬ Mapped mappings key := by
  cases hcommits with
  | create classified read committed placed found unmapped =>
    rw [committed, found]
    refine ⟨placed, fun key hkey => ?_⟩
    rw [← some.inj hkey]
    exact unmapped
  | update classified read updated committed found mapped key =>
    rw [committed] at hkind
    cases hkind
  | rename classified previousPath read renamed committed found mapped key free =>
    rw [committed] at hkind
    cases hkind
  | delete deleted mapped key committed =>
    obtain ⟨_, -, hcommit⟩ := map_eq_some_iff.mp committed
    rw [← hcommit] at hkind
    cases hkind

end

section
variable (options : ScanOptions)

/-- The key of the path a call finds a file at. -/
def target : ScanCall → Option ℕ
  | .observeModify path | .observeCreate path | .observeRename _ path => keyOf options.rules path
  | _ => none

/-- The key of the path a call takes a file away from. -/
def source : ScanCall → Option ℕ
  | .observeRename previousPath _ => keyOf options.rules previousPath
  | .observeDelete mapping => keyOf options.rules mapping.path
  | _ => none

/-- What is known of the listing a scan works from: a listed file of the key is mapped, and a
mapping it misses the file of is of no listed file. -/
structure Spares (mappings : List LocalFileMapping) (key : ℕ) (listed : Path → Prop)
    (missing : LocalFileMapping → Prop) : Prop where
  mapped : ∀ path, listed path → keyOf options.rules path = some key → Mapped mappings key
  placed : ∀ mapping, missing mapping → Consistent options mapping
  unlisted : ∀ mapping, missing mapping → mapping.collisionKey = key → ∀ path, listed path →
    keyOf options.rules path ≠ some key

/-- What a scan makes of a key that was mapped when it started or is held back: no file of it
is created, and its mapping stays until the file is renamed or deleted. -/
structure Kept (start : ScanWorld) (key : ℕ) (world : ScanWorld) : Prop where
  unique : UniqueMappings world.mappings
  blocked : world.blocked = start.blocked
  uncreated : ∀ commit ∈ world.queued, commit.operation.kind = .create →
    keyOf options.rules commit.operation.path ≠ some key
  unmapped : ¬ Mapped start.mappings key → ¬ Mapped world.mappings key
  mapped : ∀ mapping ∈ start.mappings, mapping.collisionKey = key →
    (∃ kept ∈ world.mappings, kept.fileId = mapping.fileId ∧ kept.collisionKey = key) ∨
    ∃ commit ∈ world.queued, commit.operation.fileId = mapping.fileId ∧
      (commit.operation.kind = .rename ∨ commit.operation.kind = .delete)

variable {options} {start world : ScanWorld} {key : ℕ} {listed : Path → Prop}
  {missing : LocalFileMapping → Prop} {call : ScanCall} {ids : FreshIds}
  {commit : LocalChangeCommit}

theorem commits_observation
    (hplaced : ∀ mapping, missing mapping → Consistent options mapping)
    (hobserves : Observes listed missing call)
    (h : observation options world ids call = .ok (some commit)) :
    Commits options world.mappings ids (source options call) (target options call) commit := by
  cases call with
  | observeModify path => exact commits_handleModify (Except.ok.inj h)
  | observeCreate path => exact commits_handleCreate (Except.ok.inj h)
  | observeRename previousPath nextPath =>
    obtain ⟨⟨mapping, hmissing, rfl⟩, -⟩ := hobserves
    apply commits_handleRename _ h
    rw [hplaced mapping hmissing]
    exact some_ne_none _
  | observeDelete mapping =>
    have hmapping := hplaced mapping hobserves
    have hdelete := Except.ok.inj h
    unfold handleDelete at hdelete
    cases hclassified : options.rules.classifyVaultPath mapping.path with
    | none =>
      rw [hclassified] at hdelete
      cases hdelete
    | some classified =>
      rw [hclassified] at hdelete
      have hsource : source options (.observeDelete mapping) = some classified.collisionKey :=
        keyOf_classified hclassified
      rw [hsource]
      exact commits_delete hdelete
  | _ => cases h

/-- A call takes no file away from the key of a listed file. -/
theorem Spares.source_ne (h : Spares options world.mappings key listed missing)
    (hobserves : Observes listed missing call) {path : Path} (hpath : listed path)
    (hkey : keyOf options.rules path = some key) : source options call ≠ some key := by
  have hmissing : ∀ mapping, missing mapping → keyOf options.rules mapping.path ≠ some key := by
    intro mapping hmapping hsame
    rw [h.placed mapping hmapping] at hsame
    exact h.unlisted mapping hmapping (some.inj hsame) path hpath hkey
  cases call with
  | observeRename previousPath nextPath =>
    obtain ⟨⟨mapping, hmapping, rfl⟩, -⟩ := hobserves
    exact hmissing mapping hmapping
  | observeDelete mapping => exact hmissing mapping hobserves
  | _ => exact nofun

/-- A call that finds a file at the key finds a listed one. -/
theorem Spares.target_mapped (h : Spares options world.mappings key listed missing)
    (hobserves : Observes listed missing call) (htarget : target options call = some key) :
    Mapped world.mappings key := by
  cases call with
  | observeModify path => exact h.mapped path hobserves htarget
  | observeCreate path => exact h.mapped path hobserves htarget
  | observeRename previousPath nextPath => exact h.mapped nextPath hobserves.2 htarget
  | _ => cases htarget

theorem kept_observed (h : Kept options start key world)
    (hspares : Spares options world.mappings key listed missing)
    (hobserves : Observes listed missing call)
    (hfresh : ∀ mapping ∈ world.mappings, mapping.fileId ≠ ids.fileId) :
    Kept options start key (observed options world ids call).2 ∧
      Spares options (observed options world ids call).2.mappings key listed missing := by
  unfold observed
  cases hobservation : observation options world ids call with
  | error error => exact ⟨h, hspares⟩
  | ok committed =>
    cases committed with
    | none => exact ⟨h, hspares⟩
    | some commit =>
      have hcommits := commits_observation hspares.placed hobserves hobservation
      have hkept : ∀ mapping ∈ world.mappings,
          (∃ kept ∈ nextMappings world.mappings commit, kept.fileId = mapping.fileId ∧
            kept.collisionKey = mapping.collisionKey) ∨ _ := fun mapping hmem =>
        kept_next h.unique hfresh hcommits hmem
      refine ⟨⟨h.unique.next commit, h.blocked, ?_, ?_, ?_⟩, ?_, hspares.placed, hspares.unlisted⟩
      · intro queued hqueued hkind
        rcases mem_append.mp hqueued with hold | hnew
        · exact h.uncreated queued hold hkind
        · rw [mem_singleton.mp hnew] at hkind ⊢
          obtain ⟨hplace, hunmapped⟩ := created_key hcommits hkind
          intro hkey
          have htarget := hplace.symm.trans hkey
          exact hunmapped key htarget (hspares.target_mapped hobserves htarget)
      · intro hstart
        have hunmapped := h.unmapped hstart
        apply unmapped_next hcommits _ hunmapped
        exact fun htarget => hunmapped (hspares.target_mapped hobserves htarget)
      · intro mapping hmem hkey
        rcases h.mapped mapping hmem hkey with ⟨kept, hin, hfile, hkept'⟩ | ⟨queued, hqueued, hof⟩
        · rcases hkept kept hin with ⟨next, hnext, hnextFile, hnextKey⟩ | ⟨-, hof, hkind⟩
          · exact .inl ⟨next, hnext, hnextFile.trans hfile, hnextKey.trans hkept'⟩
          · exact .inr ⟨commit, mem_append_right _ (mem_singleton_self _),
              hof.trans hfile, hkind⟩
        · exact .inr ⟨queued, mem_append_left _ hqueued, hof⟩
      · intro path hpath hkey
        obtain ⟨mapping, hmem, hmapping⟩ := hspares.mapped path hpath hkey
        rcases hkept mapping hmem with ⟨next, hnext, -, hnextKey⟩ | ⟨hsource, -⟩
        · exact ⟨next, hnext, hnextKey.trans hmapping⟩
        · rw [hmapping] at hsource
          exact absurd hsource (hspares.source_ne hobserves hpath hkey)

theorem mapped_stats {mappings : List LocalFileMapping} (entries : List StatEntry) :
    Mapped (mappings.map (withStat entries)) key ↔ Mapped mappings key := by
  constructor
  · rintro ⟨mapping, hmem, hkey⟩
    obtain ⟨old, hold, rfl⟩ := mem_map.mp hmem
    exact ⟨old, hold, (withStat_same entries old).2.symm.trans hkey⟩
  · rintro ⟨mapping, hmem, hkey⟩
    exact ⟨withStat entries mapping, mem_map_of_mem hmem,
      (withStat_same entries mapping).2.trans hkey⟩

theorem kept_stats (h : Kept options start key world) (entries : List StatEntry) :
    Kept options start key { world with mappings := world.mappings.map (withStat entries) } := by
  refine ⟨h.unique.stats entries, h.blocked, h.uncreated, fun hstart => ?_, ?_⟩
  · exact fun hmapped => h.unmapped hstart ((mapped_stats entries).mp hmapped)
  · intro mapping hmem hkey
    refine (h.mapped mapping hmem hkey).imp ?_ id
    rintro ⟨kept, hin, hfile, hkept⟩
    obtain ⟨hsameFile, hsameKey⟩ := withStat_same entries kept
    exact ⟨withStat entries kept, mem_map_of_mem hin, hsameFile.trans hfile,
      hsameKey.trans hkept⟩

/-- Whatever call a scan waits for is answered, the key is kept. -/
theorem kept_respond {outside : Outside} (h : Kept options start key world)
    (hspares : Spares options world.mappings key listed missing)
    (hobserves : Observes listed missing call)
    (hfresh : ∀ mapping ∈ world.mappings, mapping.fileId ≠ outside.ids.fileId) :
    Kept options start key (respond options world outside call).2 ∧
      Spares options (respond options world outside call).2.mappings key listed missing := by
  cases call with
  | observeModify path => exact kept_observed h hspares hobserves hfresh
  | observeCreate path => exact kept_observed h hspares hobserves hfresh
  | observeRename previousPath nextPath => exact kept_observed h hspares hobserves hfresh
  | observeDelete mapping => exact kept_observed h hspares hobserves hfresh
  | recordStats entries =>
    refine ⟨kept_stats h entries, fun path hpath hkey => ?_, hspares.placed, hspares.unlisted⟩
    exact (mapped_stats entries).mpr (hspares.mapped path hpath hkey)
  | _ => exact ⟨h, hspares⟩

end

variable {options : ScanOptions} {start world world' : ScanWorld} {key : ℕ}
  {code : Scan ReconcileResult} {stage : Stage} {action : ScanAction} {call : ScanCall}
  {blocked mapped : List ℕ} {paths : List Path}
  {next : Except ScanError call.Answer → Scan ReconcileResult} {outside : Outside}

/-- A step of the scan alone. The ids it makes up are of no file yet. -/
def OwnStep (world : ScanWorld) : ScanAction → Prop
  | .reconcile _ | .throws _ => True
  | .answer outside => ∀ mapping ∈ world.mappings, mapping.fileId ≠ outside.ids.fileId
  | _ => False

/-- The code observes nothing any more. -/
def Quiet (code : Scan ReconcileResult) : Prop :=
  AsksObserved (fun _ => False) (fun _ => False) (fun _ => True) code

/-- What the scan's code knows of the key at each stage. -/
def Knows (options : ScanOptions) (world : ScanWorld) (key : ℕ) (code : Scan ReconcileResult) :
    Stage → Prop
  | .listing => Quiet code ∨ (Mapped world.mappings key ∨ key ∈ world.blocked) ∧
      ∃ allowBulkDeletes, code = reconcileVaultState options allowBulkDeletes ∨
        (∃ allPaths, code = scanKeys options allowBulkDeletes allPaths) ∨
        ∃ allPaths, code = scanPaths options allowBulkDeletes allPaths
          (world.mappings.map LocalFileMapping.collisionKey)
  | .listed _ _ => Quiet code ∨ ∃ allowBulkDeletes allPaths listing,
      code = scanListing options allowBulkDeletes allPaths listing ∧
        ∀ path ∈ listing.paths, keyOf options.rules path = some key → Mapped world.mappings key
  | .compared => ∃ listed missing, AsksObserved listed missing (fun _ => True) code ∧
      Spares options world.mappings key listed missing

structure KeyInv (options : ScanOptions) (start : ScanWorld) (key : ℕ) (world : ScanWorld) :
    Prop where
  kept : Kept options start key world
  consistent : AllConsistent options world.mappings
  idle : world.scan = none → Mapped world.mappings key ∨ key ∈ world.blocked
  knows : ∀ code stage, world.scan = some ⟨code, stage⟩ → Knows options world key code stage

theorem Kept.scan (h : Kept options start key world) (running : Option RunningScan) :
    Kept options start key { world with scan := running } :=
  ⟨h.unique, h.blocked, h.uncreated, h.unmapped, h.mapped⟩

theorem spares_nothing (mappings : List LocalFileMapping) :
    Spares options mappings key (fun _ => False) (fun _ => False) :=
  ⟨fun _ hlisted => hlisted.elim, fun _ hmissing => hmissing.elim,
    fun _ hmissing => hmissing.elim⟩

/-- Code that observes nothing knows enough at each stage. -/
theorem Quiet.knows (h : Quiet code) (stage : Stage) : Knows options world key code stage := by
  cases stage with
  | listing => exact .inl h
  | listed unlisted failed => exact .inl h
  | compared => exact ⟨_, _, h, spares_nothing world.mappings⟩

/-- A file left to scan is not held back, or it is mapped. -/
theorem scanned_key {path : Path} (hpath : path ∈ pathsToScan options blocked mapped paths)
    (hkey : keyOf options.rules path = some key) : key ∉ blocked ∨ key ∈ mapped := by
  have hscanned := (mem_filter.mp hpath).2
  rw [hkey, Option.all_some] at hscanned
  refine (Bool.or_eq_true_iff.mp hscanned).imp (fun hfree => ?_) contains_iff_mem.mp
  simpa using hfree

/-- A listing that leaves out the held files without a mapping. -/
theorem listing_mapped (h : Mapped world.mappings key ∨ key ∈ world.blocked) (outside : Outside) :
    ∀ path ∈ (listingOf options world (world.mappings.map LocalFileMapping.collisionKey)
      outside).paths, keyOf options.rules path = some key → Mapped world.mappings key := by
  intro path hpath hkey
  rcases scanned_key hpath hkey with hfree | hmapped
  · exact h.resolve_right hfree
  · exact mem_map.mp hmapped

/-- What the scan finds missing of the mappings it has read. -/
theorem spares_missing {listing : Listing} (hconsistent : AllConsistent options world.mappings)
    (hlisted : ∀ path ∈ listing.paths, keyOf options.rules path = some key → Mapped world.mappings key) :
    Spares options world.mappings key (· ∈ listing.paths)
      (Missing options.rules listing world.mappings) := by
  refine ⟨hlisted, fun mapping hmissing => hconsistent mapping hmissing.mapped, ?_⟩
  intro mapping hmissing hmapping path hpath hkey
  obtain ⟨classified, hclassified, hsame⟩ := map_eq_some_iff.mp hkey
  exact hmissing.unlisted path hpath classified hclassified (hsame.trans hmapping.symm)

theorem knows_answer (h : KeyInv options start key world)
    (hknows : Knows options world key (.await call next) stage)
    (hfresh : ∀ mapping ∈ world.mappings, mapping.fileId ≠ outside.ids.fileId) :
    Kept options start key (respond options world outside call).2 ∧
      Knows options (respond options world outside call).2 key
        (next (respond options world outside call).1)
        (stageAfter options world outside stage call) := by
  have hquiet : Quiet (.await call next) → Kept options start key (respond options world outside
      call).2 ∧ ∀ stage, Knows options (respond options world outside call).2 key
        (next (respond options world outside call).1) stage := fun hnone =>
    ⟨(kept_respond h.kept (spares_nothing world.mappings) hnone.1 hfresh).1,
      fun stage => Quiet.knows (hnone.2 _) stage⟩
  cases stage with
  | listing =>
    rcases hknows with hnone | ⟨hkey, allowBulkDeletes, hcode | ⟨allPaths, hcode⟩ | ⟨allPaths, hcode⟩⟩
    · exact (hquiet hnone).imp id fun hall => hall _
    · cases hcode
      exact ⟨h.kept, .inr ⟨hkey, allowBulkDeletes, .inr (.inl ⟨_, rfl⟩)⟩⟩
    · cases hcode
      exact ⟨h.kept, .inr ⟨hkey, allowBulkDeletes, .inr (.inr ⟨allPaths, rfl⟩)⟩⟩
    · cases hcode
      exact ⟨h.kept, .inr ⟨allowBulkDeletes, allPaths, _, rfl, listing_mapped hkey outside⟩⟩
  | listed unlisted failed =>
    rcases hknows with hnone | ⟨allowBulkDeletes, allPaths, listing, hcode, hlisted⟩
    · exact (hquiet hnone).imp id fun hall => hall _
    · cases hcode
      exact ⟨h.kept, _, _, observes_scanMappings allowBulkDeletes allPaths listing world.mappings,
        spares_missing h.consistent hlisted⟩
  | compared =>
    obtain ⟨listed, missing, hasks, hspares⟩ := hknows
    have hafter := kept_respond h.kept hspares hasks.1 hfresh
    exact ⟨hafter.1, listed, missing, hasks.2 _, hafter.2⟩

theorem knows_throws (hknows : Knows options world key (.await call next) stage)
    (error : ScanError) : Knows options world key (next (.error error)) stage := by
  cases stage with
  | listing =>
    rcases hknows with hnone | ⟨-, allowBulkDeletes, hcode | ⟨allPaths, hcode⟩ | ⟨allPaths, hcode⟩⟩
    · exact .inl (hnone.2 _)
    all_goals
      cases hcode
      exact .inl trivial
  | listed unlisted failed =>
    rcases hknows with hnone | ⟨allowBulkDeletes, allPaths, listing, hcode, -⟩
    · exact .inl (hnone.2 _)
    · cases hcode
      exact .inl trivial
  | compared =>
    obtain ⟨listed, missing, hasks, hspares⟩ := hknows
    exact ⟨listed, missing, hasks.2 _, hspares⟩

theorem keyInv_step (h : KeyInv options start key world) (hown : OwnStep world action)
    (hstep : scanStep options world action = some world') : KeyInv options start key world' := by
  cases action with
  | reconcile allowBulkDeletes =>
    obtain ⟨hidle, rfl⟩ := scanStep_reconcile hstep
    refine ⟨h.kept.scan _, h.consistent, nofun, fun code stage hscan => ?_⟩
    cases hscan
    exact .inr ⟨h.idle hidle, allowBulkDeletes, .inl rfl⟩
  | answer outside =>
    obtain ⟨call, next, stage, hscan, rfl⟩ := scanStep_answer hstep
    obtain ⟨hkept, hknows⟩ := knows_answer h (h.knows _ _ hscan) hown
    refine ⟨hkept.scan _, allConsistent_respond call h.consistent, nofun, fun code' stage' hafter => ?_⟩
    cases hafter
    exact hknows
  | throws error =>
    obtain ⟨call, next, stage, hscan, rfl⟩ := scanStep_throws hstep
    refine ⟨h.kept.scan _, h.consistent, nofun, fun code' stage' hafter => ?_⟩
    cases hafter
    exact knows_throws (h.knows _ _ hscan) error
  | _ => exact hown.elim

/-- A scan alone keeps every key that was mapped when it started or is held back. -/
theorem scan_keeps (hunique : UniqueMappings start.mappings)
    (hconsistent : AllConsistent options start.mappings) (hidle : start.scan = none)
    (hqueued : start.queued = []) (hkey : Mapped start.mappings key ∨ key ∈ start.blocked)
    (reached : Reached (scanStep options) OwnStep start world) :
    Kept options start key world := by
  have hstart : KeyInv options start key start := by
    refine ⟨⟨hunique, rfl, fun commit hmem => ?_, id, fun mapping hmem hmapping =>
      .inl ⟨mapping, hmem, rfl, hmapping⟩⟩, hconsistent, fun _ => hkey, fun code stage hscan => ?_⟩
    · rw [hqueued] at hmem
      cases hmem
    · rw [hidle] at hscan
      cases hscan
  have hinv : KeyInv options start key world :=
    reached.invariant hstart fun _ _ _ hbefore hown hstep => keyInv_step hbefore hown hstep
  exact hinv.kept

theorem unique_observed {ids : FreshIds} (h : UniqueMappings world.mappings) :
    UniqueMappings (observed options world ids call).2.mappings := by
  unfold observed
  cases observation options world ids call with
  | error error => exact h
  | ok committed =>
    cases committed with
    | none => exact h
    | some commit => exact h.next commit

theorem unique_respond (h : UniqueMappings world.mappings) :
    UniqueMappings (respond options world outside call).2.mappings := by
  cases call with
  | observeModify path => exact unique_observed h
  | observeCreate path => exact unique_observed h
  | observeRename previousPath nextPath => exact unique_observed h
  | observeDelete mapping => exact unique_observed h
  | recordStats entries => exact h.stats entries
  | _ => exact h

/-- The scan keeps the index. -/
theorem unique_reached (hunique : UniqueMappings start.mappings)
    (reached : Reached (scanStep options) OwnStep start world) : UniqueMappings world.mappings := by
  refine reached.invariant (P := fun world => UniqueMappings world.mappings) hunique
    fun before action after hbefore hown hstep => ?_
  cases action with
  | reconcile allowBulkDeletes =>
    obtain ⟨-, rfl⟩ := scanStep_reconcile hstep
    exact hbefore
  | answer outside =>
    obtain ⟨call, next, stage, -, rfl⟩ := scanStep_answer hstep
    exact unique_respond hbefore
  | throws error =>
    obtain ⟨call, next, stage, -, rfl⟩ := scanStep_throws hstep
    exact hbefore
  | _ => exact hown.elim

/-- No file of a held key without a mapping is left to scan. -/
theorem not_scanned (hblocked : key ∈ blocked) (hunmapped : key ∉ mapped) :
    ∀ path ∈ pathsToScan options blocked mapped paths, keyOf options.rules path ≠ some key := by
  intro path hpath hkey
  rcases scanned_key hpath hkey with hfree | hmapped
  · exact hfree hblocked
  · exact hunmapped hmapped

end Havemind.ScanCreates
