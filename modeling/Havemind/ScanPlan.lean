import Havemind.CallLogs
import Havemind.ScanSafety

/-!
The scan of a vault nothing else touches. Its observations then follow a plan that the
listing, the contents and the mappings fix before it starts: updates of mapped files,
renames, creations, and deletions unless they look like a loss.
-/
namespace Havemind.ScanPlan

open AwaitCode CallLogs VaultPayload DurableState List OutboxRepository VaultReconcile

/-- What the scan reads. `content` answers `none` for an attachment over the limit. -/
structure Disk where
  allPaths : List Path
  listing : Listing
  mappings : List LocalFileMapping
  stat : Path → Option FileStat
  content : Path → SyncContentKind → Option ContentHash

/-- How an await ends: the call is done, at a time, or throws. -/
inductive Reply
  | done (now : ℕ)
  | thrown (error : ScanError)

def Disk.answer (disk : Disk) (now : ℕ) : (call : ScanCall) → call.Answer
  | .listAllPaths => disk.allPaths
  | .mappedKeys => disk.mappings.map LocalFileMapping.collisionKey
  | .listSyncablePaths _ => disk.listing
  | .listMappings => disk.mappings
  | .stat path => (now, disk.stat path)
  | .readContent path kind => disk.content path kind
  | .recordStats _ => ()
  | .observeModify _ => ()
  | .observeRename _ _ => ()
  | .observeCreate _ => ()
  | .observeDelete _ => ()

def Disk.reply (disk : Disk) : Reply → (call : ScanCall) → Except ScanError call.Answer
  | .done now, call => .ok (disk.answer now call)
  | .thrown error, _ => .error error

def isObservation : ScanCall → Bool
  | .observeModify _ => true
  | .observeRename _ _ => true
  | .observeCreate _ => true
  | .observeDelete _ => true
  | _ => false

/-- What the scan decides about a file, a mapping, or both. An observation that fails is
the file's skip. -/
inductive Disposal
  | update (mapping : LocalFileMapping) (path : Path)
  | rename (mapping : LocalFileMapping) (file : EligibleVaultFile)
  | create (file : EligibleVaultFile)
  | delete (mapping : LocalFileMapping)

namespace Disposal

def call : Disposal → ScanCall
  | update _ path => .observeModify path
  | rename mapping file => .observeRename mapping.path file.readPath
  | create file => .observeCreate file.readPath
  | delete mapping => .observeDelete mapping

def mapping : Disposal → Option LocalFileMapping
  | update mapping _ => some mapping
  | rename mapping _ => some mapping
  | create _ => none
  | delete mapping => some mapping

def path : Disposal → Option Path
  | update _ path => some path
  | rename _ file => some file.readPath
  | create file => some file.readPath
  | delete _ => none

/-- The path a failed observation is reported at. -/
def reported : Disposal → Path
  | update _ path => path
  | rename _ file => file.readPath
  | create file => file.readPath
  | delete mapping => mapping.path

end Disposal

/-- What the comparison finds about a file listed alone under its key. -/
inductive Finding
  | unchanged
  | tooLarge
  | changed (mapping : LocalFileMapping)
  | unmapped (contentHash : ContentHash)

section
variable (options : ScanOptions) (disk : Disk)

def sorted : Sorted := sortPaths options.rules disk.listing.paths

/-- The mappings the listed files are compared with. -/
def compared : JsObject ℕ LocalFileMapping :=
  eraseAll (mappingsByCollision options.rules disk.mappings disk.listing.configListingFailed)
    (sorted options disk).collisions.keys

/-- The stat of a file that has a mapping to compare it with. -/
def statOf (known : Option LocalFileMapping) (path : Path) : Option FileStat :=
  if options.canRecord ∧ known.isSome then disk.stat path else none

def finding (known : Option LocalFileMapping) (file : EligibleFile) : Finding :=
  if (statOf options disk known file.readPath).any fun stat =>
      known.bind LocalFileMapping.stat = some stat then .unchanged
  else
    match disk.content file.readPath file.kind, known with
    | none, _ => .tooLarge
    | some contentHash, none => .unmapped contentHash
    | some contentHash, some mapping =>
      if mapping.contentHash = contentHash then .unchanged else .changed mapping

def findingAt (entry : ℕ × EligibleFile) : Finding :=
  finding options disk ((compared options disk).get entry.1) entry.2

def updateOf (entry : ℕ × EligibleFile) : Option Disposal :=
  match findingAt options disk entry with
  | .changed mapping => some (.update mapping entry.2.readPath)
  | _ => none

def unmappedOf (entry : ℕ × EligibleFile) : Option EligibleVaultFile :=
  match findingAt options disk entry with
  | .unmapped contentHash => some ⟨entry.1, contentHash, entry.2.kind, entry.2.readPath⟩
  | _ => none

def unmatchedVault : List EligibleVaultFile :=
  (sorted options disk).eligible.entries.filterMap (unmappedOf options disk)

def unmatchedMappings : List LocalFileMapping :=
  ((compared options disk).filterEntries fun entry =>
    ¬ (sorted options disk).eligible.keys.contains entry.1).values

def renames : List (EligibleVaultFile × LocalFileMapping) :=
  renamePairs (unmatchedVault options disk) (unmatchedMappings options disk)

def creations : List EligibleVaultFile :=
  (unmatchedVault options disk).filter fun file =>
    ¬ ((renames options disk).map Prod.fst).contains file

/-- The mappings that are neither compared with a file nor renamed. -/
def pending : List LocalFileMapping :=
  (unmatchedMappings options disk).filter fun mapping =>
    ¬ ((renames options disk).map Prod.snd).contains mapping

/-- The deletions the breaker lets through. -/
def deletions (allowBulkDeletes : Bool) : List LocalFileMapping :=
  if breakerTrips (breakerTotal allowBulkDeletes disk.mappings.length)
      (pending options disk).length then []
  else pending options disk

def plan (allowBulkDeletes : Bool) : List Disposal :=
  (sorted options disk).eligible.entries.filterMap (updateOf options disk) ++
    ((renames options disk).map fun pair => .rename pair.2 pair.1) ++
    (creations options disk).map .create ++
    (deletions options disk allowBulkDeletes).map .delete

end

variable {options : ScanOptions} {disk : Disk}

abbrev Follows (disk : Disk) {α : Type} (disposals : List Disposal) (V : α → Prop)
    (code : Scan α) : Prop :=
  Puts (S := scanCalls) disk.reply isObservation (disposals.map Disposal.call) V code

theorem follows_bind {α β : Type} {first rest : List Disposal} {V : α → Prop} {U : β → Prop}
    {code : Scan α} {f : α → Scan β} (h : Follows disk first V code)
    (hf : ∀ value, V value → Follows disk rest U (f value)) :
    Follows disk (first ++ rest) U (code >>= f) := by
  have happend : (first ++ rest).map Disposal.call =
      first.map Disposal.call ++ rest.map Disposal.call := map_append
  have hsame := congrArg (fun calls =>
    Puts (S := scanCalls) disk.reply isObservation calls U (code >>= f)) happend
  exact hsame.mpr (Puts.bind h hf)

theorem follows_observeResilient (disposal : Disposal) :
    Follows disk [disposal] (fun _ => True) (observeResilient disposal.call) := by
  have hkeep : isObservation disposal.call = true := by cases disposal <;> rfl
  unfold observeResilient
  refine (Puts.attempt (S := scanCalls) hkeep).bind_last fun answer _ => ?_
  cases answer with
  | ok value => exact Puts.pure trivial
  | error error =>
    cases error with
    | collision => exact Puts.throw
    | other => exact Puts.pure trivial

theorem follows_read (call : ScanCall) {V : call.Answer → Prop} (hkeep : isObservation call = false)
    (hv : ∀ now, V (disk.answer now call)) :
    Follows disk [] V (Code.call (S := scanCalls) call) := by
  refine Puts.call (S := scanCalls) hkeep fun event value hvalue => ?_
  cases event with
  | done now =>
    cases hvalue
    exact hv now
  | thrown error => cases hvalue

theorem follows_statFor (known : Option LocalFileMapping) (path : Path) :
    Follows disk [] (fun found => found.map Prod.snd = statOf options disk known path)
      (statFor options known path) := by
  unfold statFor statOf
  split_ifs
  · refine (follows_read (.stat path) (V := fun answer => Prod.snd answer = disk.stat path) rfl
      fun _ => rfl).bind_nil fun answer hanswer => Puts.pure ?_
    rw [← hanswer, Option.map_map]
    exact congrFun Option.map_id_fun' _
  · exact Puts.pure rfl

theorem follows_readContent (path : Path) (kind : SyncContentKind) :
    Follows disk [] (fun answer : Option ContentHash => answer = disk.content path kind)
      (Code.call (S := scanCalls) (.readContent path kind)) :=
  follows_read (.readContent path kind) rfl fun _ => rfl

/-- What one comparison leaves. -/
structure Settled (options : ScanOptions) (disk : Disk) (before : Compared)
    (entry : ℕ × EligibleFile) (after : Compared) : Prop where
  mappings : after.mappings = before.mappings.erase entry.1
  unmatchedVault : after.unmatchedVault =
    before.unmatchedVault ++ (unmappedOf options disk entry).toList

theorem follows_matched (before : Compared) (entry : ℕ × EligibleFile)
    (found : Option (ℕ × FileStat)) (contentHash : ContentHash) (mapping : LocalFileMapping) :
    Follows disk (if mapping.contentHash = contentHash then []
        else [.update mapping entry.2.readPath])
      (fun after => after.mappings = before.mappings.erase entry.1 ∧
        after.unmatchedVault = before.unmatchedVault)
      (matched before entry.1 entry.2 found contentHash mapping) := by
  unfold matched
  dsimp only
  split_ifs
  · exact Puts.pure ⟨rfl, rfl⟩
  · refine (follows_observeResilient (.update mapping entry.2.readPath)).bind_last
      fun committed _ => ?_
    cases committed with
    | true => exact Puts.pure ⟨rfl, rfl⟩
    | false => exact Puts.pure ⟨rfl, rfl⟩

theorem follows_compareFile (before : Compared) (entry : ℕ × EligibleFile)
    (hknown : before.mappings.get entry.1 = (compared options disk).get entry.1) :
    Follows disk (updateOf options disk entry).toList (Settled options disk before entry)
      (compareFile options before entry.1 entry.2) := by
  unfold compareFile
  refine (follows_statFor _ _).bind_nil fun found hfound => ?_
  rw [hknown] at hfound ⊢
  have hany : (found.any fun stat =>
      ((compared options disk).get entry.1).bind LocalFileMapping.stat = some stat.2) =
      (statOf options disk ((compared options disk).get entry.1) entry.2.readPath).any fun stat =>
        ((compared options disk).get entry.1).bind LocalFileMapping.stat = some stat := by
    rw [← hfound]
    cases found <;> rfl
  rw [hany]
  split
  · next hshort =>
    have hfinding : findingAt options disk entry = .unchanged := if_pos hshort
    rw [updateOf, hfinding]
    refine Puts.pure ⟨rfl, ?_⟩
    rw [unmappedOf, hfinding]
    exact (append_nil _).symm
  · next hread =>
    refine (follows_readContent entry.2.readPath entry.2.kind).bind_nil fun content hcontent => ?_
    subst hcontent
    have hfinding : findingAt options disk entry =
        match disk.content entry.2.readPath entry.2.kind, (compared options disk).get entry.1 with
        | none, _ => .tooLarge
        | some contentHash, none => .unmapped contentHash
        | some contentHash, some mapping =>
          if mapping.contentHash = contentHash then .unchanged else .changed mapping :=
      if_neg hread
    cases hcontent : disk.content entry.2.readPath entry.2.kind with
    | none =>
      rw [hcontent] at hfinding
      rw [updateOf, hfinding]
      refine Puts.pure ⟨rfl, ?_⟩
      rw [unmappedOf, hfinding]
      exact (append_nil _).symm
    | some contentHash =>
      cases hmapping : (compared options disk).get entry.1 with
      | none =>
        rw [hcontent, hmapping] at hfinding
        rw [updateOf, hfinding]
        refine Puts.pure ⟨?_, ?_⟩
        · exact (JsObject.erase_of_get_none (hknown.trans hmapping)).symm
        · rw [unmappedOf, hfinding]
          rfl
      | some mapping =>
        rw [hcontent, hmapping] at hfinding
        have hsettled : Follows disk (if mapping.contentHash = contentHash then []
            else [.update mapping entry.2.readPath]) _ _ :=
          follows_matched before entry found contentHash mapping
        have hupdate : (updateOf options disk entry).toList =
            if mapping.contentHash = contentHash then []
            else [.update mapping entry.2.readPath] := by
          rw [updateOf, hfinding]
          dsimp only
          split_ifs <;> rfl
        have hunmapped : unmappedOf options disk entry = none := by
          rw [unmappedOf, hfinding]
          dsimp only
          split_ifs <;> rfl
        rw [hupdate]
        refine hsettled.mono fun after hafter => ⟨hafter.1, ?_⟩
        rw [hafter.2, hunmapped]
        exact (append_nil _).symm

theorem filterMap_cons_toList {α β : Type} (f : α → Option β) (a : α) (rest : List α) :
    (a :: rest).filterMap f = (f a).toList ++ rest.filterMap f := by
  rw [filterMap_cons]
  cases f a <;> rfl

/-- The comparison of files under different keys, each key as the scan first found it. -/
theorem follows_compareFiles (files : List (ℕ × EligibleFile)) (before : Compared)
    (hnodup : (files.map Prod.fst).Nodup)
    (hknown : ∀ entry ∈ files, before.mappings.get entry.1 = (compared options disk).get entry.1) :
    Follows disk (files.filterMap (updateOf options disk))
      (fun after => after.mappings = eraseAll before.mappings (files.map Prod.fst) ∧
        after.unmatchedVault = before.unmatchedVault ++ files.filterMap (unmappedOf options disk))
      (compareFiles options before files) := by
  induction files generalizing before with
  | nil => exact Puts.pure ⟨rfl, (append_nil _).symm⟩
  | cons entry rest ih =>
    obtain ⟨hfirst, hrest⟩ := forall_mem_cons.mp hknown
    obtain ⟨hfresh, hnodup'⟩ := nodup_cons.mp hnodup
    rw [filterMap_cons_toList, filterMap_cons_toList (unmappedOf options disk)]
    refine follows_bind (follows_compareFile before entry hfirst) fun next hnext => ?_
    refine (ih next hnodup' fun other hother => ?_).mono fun after hafter => ?_
    · have hne : other.1 ≠ entry.1 := by
        intro hsame
        exact hfresh (hsame ▸ mem_map_of_mem hother)
      rw [hnext.mappings, JsObject.get_erase, if_neg hne]
      exact hrest other hother
    · rw [hafter.1, hafter.2, hnext.mappings, hnext.unmatchedVault, append_assoc]
      exact ⟨rfl, rfl⟩

theorem follows_observeAll (disposals : List Disposal) (tally : Tally) :
    Follows disk disposals (fun _ => True)
      (observeAll tally (disposals.map fun disposal => (disposal.reported, disposal.call))) := by
  induction disposals generalizing tally with
  | nil => exact Puts.pure trivial
  | cons disposal rest ih =>
    refine follows_bind (follows_observeResilient disposal) fun committed _ => ?_
    cases committed with
    | true => exact ih _
    | false => exact ih _

/-- The same for the disposals of one kind. -/
theorem follows_observeEach {α : Type} (items : List α) (disposal : α → Disposal) (tally : Tally) :
    Follows disk (items.map disposal) (fun _ => True)
      (observeAll tally (items.map fun item => ((disposal item).reported, (disposal item).call))) := by
  have hall : Follows disk (items.map disposal) _ _ :=
    follows_observeAll (items.map disposal) tally
  rwa [map_map] at hall

theorem follows_applyRenamesCreatesDeletes (allowBulkDeletes : Bool) (skippedPaths : List Path) :
    Follows disk
      (((renames options disk).map fun pair => .rename pair.2 pair.1) ++
        ((creations options disk).map .create ++
          (deletions options disk allowBulkDeletes).map .delete)) (fun _ => True)
      (applyRenamesCreatesDeletes (unmatchedVault options disk) (unmatchedMappings options disk)
        skippedPaths (breakerTotal allowBulkDeletes disk.mappings.length)) := by
  unfold applyRenamesCreatesDeletes
  refine follows_bind (follows_observeEach (renames options disk)
    (fun pair => .rename pair.2 pair.1) _) fun renamed _ => ?_
  refine follows_bind (follows_observeEach (creations options disk) .create _) fun created _ => ?_
  unfold deletions
  dsimp only
  split
  · next htrips =>
    split
    · exact Puts.pure trivial
    · next hlets => exact absurd htrips hlets
  · next hlets =>
    split
    · next htrips => exact absurd htrips hlets
    · exact (follows_observeEach (pending options disk) .delete _).bind_last
        fun deleted _ => Puts.pure trivial

theorem eraseAll_keys {V : Type} (keys : List ℕ) (table : JsObject ℕ V) :
    eraseAll table keys = table.filterEntries fun entry => ¬ keys.contains entry.1 := by
  induction keys generalizing table with
  | nil =>
    apply JsObject.ext
    exact (filter_eq_self.mpr fun entry _ => rfl).symm
  | cons key rest ih =>
    have hstep : eraseAll table (key :: rest) = eraseAll (table.erase key) rest := rfl
    rw [hstep, ih]
    apply JsObject.ext
    unfold JsObject.erase JsObject.filterEntries
    dsimp only
    rw [filter_filter]
    refine filter_congr fun entry _ => ?_
    by_cases hkey : entry.1 = key <;> simp [hkey]

theorem follows_recordStats (entries : List StatEntry) :
    Follows disk [] (fun _ => True) (recordStats entries) := by
  cases entries with
  | nil => exact Puts.pure trivial
  | cons entry rest => exact follows_read (.recordStats (entry :: rest)) rfl fun _ => trivial

theorem follows_scanMappings (allowBulkDeletes : Bool) :
    Follows disk (plan options disk allowBulkDeletes) (fun _ => True)
      (scanMappings options allowBulkDeletes disk.allPaths disk.listing disk.mappings) := by
  unfold scanMappings plan
  rw [append_assoc, append_assoc]
  refine follows_bind (follows_compareFiles (sorted options disk).eligible.entries
    (startComparing (sorted options disk) (mappingsByCollision options.rules disk.mappings
      disk.listing.configListingFailed)) (sorted options disk).eligible.keys_nodup
    fun entry _ => rfl) fun after hafter => ?_
  have hmappings : after.mappings.values = unmatchedMappings options disk := by
    rw [hafter.1, eraseAll_keys]
    rfl
  have hvault : after.unmatchedVault = unmatchedVault options disk := hafter.2
  rw [hmappings, hvault]
  refine (follows_recordStats after.statsToRecord).bind_nil fun _ _ => ?_
  exact (follows_applyRenamesCreatesDeletes allowBulkDeletes after.skippedPaths).bind_last
    fun _ _ => Puts.pure trivial

/-- The observations of a scan are those of the plan, in its order. -/
theorem follows_reconcile (allowBulkDeletes : Bool) :
    Follows disk (plan options disk allowBulkDeletes) (fun _ => True)
      (reconcileVaultState options allowBulkDeletes) := by
  unfold reconcileVaultState
  refine (follows_read .listAllPaths (V := fun paths => paths = disk.allPaths) rfl
    fun _ => rfl).bind_nil fun allPaths hall => ?_
  unfold scanKeys
  refine (follows_read .mappedKeys (V := fun _ => True) rfl fun _ => trivial).bind_nil
    fun mapped _ => ?_
  unfold scanPaths
  refine (follows_read (.listSyncablePaths mapped) (V := fun listing => listing = disk.listing) rfl
    fun _ => rfl).bind_nil fun listing hlisting => ?_
  unfold scanListing
  refine (follows_read .listMappings (V := fun mappings => mappings = disk.mappings) rfl
    fun _ => rfl).bind_nil fun mappings hmappings => ?_
  rw [hall, hlisting, hmappings]
  exact follows_scanMappings allowBulkDeletes

end Havemind.ScanPlan
