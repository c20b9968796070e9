import Havemind.BlobStore
import Havemind.ServerDatabase

/-!
One run of createBackup behind its snapshot of the database. It lists the directory of
the blobs, shard after shard, reads the files it found one by one, and copies those that
are under the digest of their bytes. A directory read returns every file that was there
when it began and was not removed, in any order, and may return later ones.
-/
namespace Havemind.CreateBackup

open JsText RevisionSchema ServerDatabase BlobStore List Option

structure BlobManifestEntry where
  hash : BlobHash
  size : ℕ
  deriving DecidableEq

inductive BackupPhase
  | opening
  | listingRoot (started : List JsString)
  | listing (pending : List JsString) (found : List BlobPath)
  | listingShard (shard : JsString) (started pending : List JsString) (found : List BlobPath)
  | reading (pending : List BlobPath)
  | copying (path : BlobPath) (bytes : Bytes) (pending : List BlobPath)
  | finished
  | failed
  deriving DecidableEq

/-- The artifact as far as it is written. Of the manifest, the identity of the instance
and the date are left out. -/
structure Backup where
  previous : Option BlobTree
  database : Database
  phase : BackupPhase
  blobs : BlobTree
  manifest : List BlobManifestEntry

inductive BackupEvent
  | readRoot
  | rootRead (names : List JsString)
  | readShard
  | shardRead (names : List JsString)
  | openFiles
  | readFile
  | copy (linkable : Bool)
  | finish
  | fail

def shards (tree : BlobTree) : List JsString := tree.keys.map BlobPath.shard

/-- The names of the files in a shard. -/
def namesIn (tree : BlobTree) (shard : JsString) : List JsString :=
  (tree.keys.filter fun path => path.shard = shard).map BlobPath.name

section
variable (address : BlobAddress) (directory : JsString)

/-- The bytes of the previous artifact's file when the new one can be a link to it. -/
def linkUnchangedBlob (previous : Option BlobTree) (hash : BlobHash) (bytes : Bytes)
    (artifact : BlobTree) (linkable : Bool) : Option Bytes := do
  let source ← previous
  let held ← source.lookup (pathForHash address hash)
  if held = bytes ∧ linkable ∧ (artifact.lookup (pathForHash address hash)).isNone then some held
  else none

/-- The turn of the loop for one file that was read. -/
def copyBlob (backup : Backup) (path : BlobPath) (bytes : Bytes) (linkable : Bool) : Backup :=
  let hash := address.hashBlob bytes
  if (address.text hash).isSuffixOf (absolutePath directory path) then
    let content :=
      (linkUnchangedBlob address backup.previous hash bytes backup.blobs linkable).getD bytes
    { backup with
      blobs := backup.blobs.insert (pathForHash address hash) content
      manifest := backup.manifest ++ [⟨hash, bytes.length⟩] }
  else backup

def sortManifest (manifest : List BlobManifestEntry) : List BlobManifestEntry :=
  manifest.mergeSort fun left right => decide (address.text left.hash < address.text right.hash)

/-- A new run at the moment its snapshot of the database is taken. -/
def begun (previous : Option BlobTree) (database : Database) : Backup where
  previous := previous
  database := database
  phase := .opening
  blobs := ∅
  manifest := []

/-- One step of a run; `none` when it awaits something else. -/
def backupStep (tree : BlobTree) (backup : Backup) : BackupEvent → Option Backup
  | .readRoot =>
    match backup.phase with
    | .opening => some { backup with phase := .listingRoot (shards tree) }
    | _ => none
  | .rootRead names =>
    match backup.phase with
    | .listingRoot started =>
      if started.all names.contains then some { backup with phase := .listing names [] } else none
    | _ => none
  | .readShard =>
    match backup.phase with
    | .listing (shard :: pending) found =>
      some { backup with phase := .listingShard shard (namesIn tree shard) pending found }
    | _ => none
  | .shardRead names =>
    match backup.phase with
    | .listingShard shard started pending found =>
      let remained := started.filter fun name => (tree.lookup ⟨shard, name⟩).isSome
      if remained.all names.contains then
        some { backup with phase := .listing pending (found ++ names.map fun name => ⟨shard, name⟩) }
      else none
    | _ => none
  | .openFiles =>
    match backup.phase with
    | .listing [] found => some { backup with phase := .reading found }
    | _ => none
  | .readFile =>
    match backup.phase with
    | .reading (path :: pending) =>
      match tree.lookup path with
      | some bytes => some { backup with phase := .copying path bytes pending }
      | none => some { backup with phase := .failed }
    | _ => none
  | .copy linkable =>
    match backup.phase with
    | .copying path bytes pending =>
      some { copyBlob address directory backup path bytes linkable with phase := .reading pending }
    | _ => none
  | .finish =>
    match backup.phase with
    | .reading [] =>
      some { backup with phase := .finished, manifest := sortManifest address backup.manifest }
    | _ => none
  | .fail => if backup.phase = .finished then none else some { backup with phase := .failed }

end

variable {address : BlobAddress} {directory : JsString} {tree : BlobTree} {hash : BlobHash}
  {backup backup' : Backup} {bytes : Bytes} {linkable : Bool} {event : BackupEvent}

/-- The artifact holds bytes with the digest under its path, and its manifest has them. -/
def Copied (address : BlobAddress) (backup : Backup) (hash : BlobHash) : Prop :=
  ∃ bytes, backup.blobs.lookup (pathForHash address hash) = some bytes ∧
    address.hashBlob bytes = hash ∧ ⟨hash, bytes.length⟩ ∈ backup.manifest

/-- The run is yet to list the blob, or has it on one of its lists, or has copied it. -/
def Accounted (address : BlobAddress) (backup : Backup) (hash : BlobHash) : Prop :=
  let path := pathForHash address hash
  match backup.phase with
  | .opening => True
  | .listingRoot started => path.shard ∈ started
  | .listing pending found => path.shard ∈ pending ∨ path ∈ found
  | .listingShard shard started pending found =>
    (path.shard = shard ∧ path.name ∈ started) ∨ path.shard ∈ pending ∨ path ∈ found
  | .reading pending => path ∈ pending ∨ Copied address backup hash
  | .copying current bytes pending =>
    (path = current ∧ address.hashBlob bytes = hash) ∨ path ∈ pending ∨
      Copied address backup hash
  | .finished => Copied address backup hash
  | .failed => True

theorem Settled.mem_keys (h : Settled address tree hash) : pathForHash address hash ∈ tree.keys := by
  obtain ⟨bytes, hlookup, _⟩ := h
  have hsome : (tree.lookup (pathForHash address hash)).isSome := by simp [hlookup]
  exact AList.mem_keys.mp (AList.lookup_isSome.mp hsome)

theorem Settled.mem_shards (h : Settled address tree hash) :
    (pathForHash address hash).shard ∈ shards tree := by
  have hkey := Settled.mem_keys h
  exact mem_map_of_mem hkey

theorem Settled.mem_namesIn (h : Settled address tree hash) :
    (pathForHash address hash).name ∈ namesIn tree (pathForHash address hash).shard := by
  have hkey := Settled.mem_keys h
  apply List.mem_map_of_mem
  simpa using hkey

/-- A link holds the same bytes as a copy. -/
theorem linkUnchangedBlob_getD (previous : Option BlobTree) (bytes : Bytes) (artifact : BlobTree)
    (linkable : Bool) :
    (linkUnchangedBlob address previous hash bytes artifact linkable).getD bytes = bytes := by
  cases hlink : linkUnchangedBlob address previous hash bytes artifact linkable with
  | none => rfl
  | some held =>
    simp only [linkUnchangedBlob, bind_eq_bind, bind_eq_some_iff] at hlink
    obtain ⟨source, _, found, _, htest⟩ := hlink
    split_ifs at htest with hsame
    cases htest
    exact hsame.1

/-- The blob of the file that was read is in the artifact behind its turn. -/
theorem copied_of_read (hdigest : address.hashBlob bytes = hash) :
    Copied address
      (copyBlob address directory backup (pathForHash address hash) bytes linkable) hash := by
  have hsuffix : (address.text (address.hashBlob bytes)).isSuffixOf
      (absolutePath directory (pathForHash address hash)) = true := by
    rw [hdigest, isSuffixOf_iff_suffix]
    exact text_suffix directory
  unfold copyBlob
  rw [if_pos hsuffix, hdigest, linkUnchangedBlob_getD]
  refine ⟨bytes, AList.lookup_insert _, hdigest, ?_⟩
  simp

/-- A turn for another file, or for other bytes of the same digest, loses no blob. -/
theorem Copied.copyBlob {path : BlobPath} (h : Copied address backup hash) :
    Copied address (copyBlob address directory backup path bytes linkable) hash := by
  unfold CreateBackup.copyBlob
  by_cases hsuffix : (address.text (address.hashBlob bytes)).isSuffixOf
      (absolutePath directory path) = true
  · rw [if_pos hsuffix, linkUnchangedBlob_getD]
    by_cases hsame : address.hashBlob bytes = hash
    · refine ⟨bytes, ?_, hsame, ?_⟩
      · rw [hsame]
        exact AList.lookup_insert _
      · simp [hsame]
    · obtain ⟨found, hlookup, hdigest, hentry⟩ := h
      have hpath : pathForHash address hash ≠ pathForHash address (address.hashBlob bytes) :=
        fun heq => hsame (pathForHash_injective heq).symm
      refine ⟨found, ?_, hdigest, mem_append_left _ hentry⟩
      rw [AList.lookup_insert_ne hpath]
      exact hlookup
  · rw [if_neg hsuffix]
    exact h

/-- While the blob is under its address, every step of the run keeps account of it. -/
theorem Accounted.step (hsettled : Settled address tree hash) (h : Accounted address backup hash)
    (htaken : backupStep address directory tree backup event = some backup') :
    Accounted address backup' hash := by
  obtain ⟨previous, database, phase, blobs, manifest⟩ := backup
  cases event with
  | readRoot =>
    cases phase with
    | opening =>
      cases htaken
      exact Settled.mem_shards hsettled
    | _ => simp [backupStep] at htaken
  | rootRead names =>
    cases phase with
    | listingRoot started =>
      simp only [backupStep] at htaken
      split_ifs at htaken with hall
      cases htaken
      have hname := all_eq_true.mp hall _ h
      exact Or.inl (by simpa using hname)
    | _ => simp [backupStep] at htaken
  | readShard =>
    cases phase with
    | listing pending found =>
      cases pending with
      | nil => simp [backupStep] at htaken
      | cons shard pending =>
        cases htaken
        rcases h with hpending | hfound
        · rcases mem_cons.mp hpending with hsame | hlater
          · refine Or.inl ⟨hsame, ?_⟩
            rw [← hsame]
            exact Settled.mem_namesIn hsettled
          · exact Or.inr (Or.inl hlater)
        · exact Or.inr (Or.inr hfound)
    | _ => simp [backupStep] at htaken
  | shardRead names =>
    cases phase with
    | listingShard shard started pending found =>
      simp only [backupStep] at htaken
      split_ifs at htaken with hall
      cases htaken
      rcases h with ⟨hshard, hstarted⟩ | hpending | hfound
      · right
        -- Nothing removed the file since the read began.
        obtain ⟨bytes, hlookup, _⟩ := hsettled
        have hpath : pathForHash address hash = ⟨shard, (pathForHash address hash).name⟩ := by
          rw [← hshard]
        have hremained : (pathForHash address hash).name ∈
            started.filter fun name => (tree.lookup ⟨shard, name⟩).isSome := by
          rw [mem_filter, ← hpath, hlookup]
          exact ⟨hstarted, rfl⟩
        have hname := all_eq_true.mp hall _ hremained
        apply mem_append_right
        rw [hpath]
        exact mem_map_of_mem (f := fun name => (⟨shard, name⟩ : BlobPath)) (by simpa using hname)
      · exact Or.inl hpending
      · exact Or.inr (mem_append_left _ hfound)
    | _ => simp [backupStep] at htaken
  | openFiles =>
    cases phase with
    | listing pending found =>
      cases pending with
      | nil =>
        cases htaken
        rcases h with hpending | hfound
        · cases hpending
        · exact Or.inl hfound
      | cons shard pending => simp [backupStep] at htaken
    | _ => simp [backupStep] at htaken
  | readFile =>
    cases phase with
    | reading pending =>
      cases pending with
      | nil => simp [backupStep] at htaken
      | cons path pending =>
        cases hread : tree.lookup path with
        | none =>
          simp only [backupStep, hread, some.injEq] at htaken
          subst htaken
          trivial
        | some bytes =>
          simp only [backupStep, hread, some.injEq] at htaken
          subst htaken
          rcases h with hpending | hcopied
          · rcases mem_cons.mp hpending with rfl | hlater
            · obtain ⟨found, hlookup, hdigest⟩ := hsettled
              have hbytes : found = bytes := some.inj (hlookup.symm.trans hread)
              exact Or.inl ⟨rfl, hbytes ▸ hdigest⟩
            · exact Or.inr (Or.inl hlater)
          · exact Or.inr (Or.inr hcopied)
    | _ => simp [backupStep] at htaken
  | copy linkable =>
    cases phase with
    | copying path bytes pending =>
      cases htaken
      rcases h with ⟨rfl, hdigest⟩ | hpending | hcopied
      · exact Or.inr (copied_of_read hdigest)
      · exact Or.inl hpending
      · exact Or.inr (Copied.copyBlob hcopied)
    | _ => simp [backupStep] at htaken
  | finish =>
    cases phase with
    | reading pending =>
      cases pending with
      | nil =>
        cases htaken
        rcases h with hpending | ⟨bytes, hlookup, hdigest, hentry⟩
        · cases hpending
        · exact ⟨bytes, hlookup, hdigest, mem_mergeSort.mpr hentry⟩
      | cons path pending => simp [backupStep] at htaken
    | _ => simp [backupStep] at htaken
  | fail =>
    simp only [backupStep] at htaken
    split_ifs at htaken
    cases htaken
    trivial

/-- No step changes the snapshot. -/
theorem database_backupStep
    (htaken : backupStep address directory tree backup event = some backup') :
    backup'.database = backup.database := by
  have hcopy {path : BlobPath} {bytes : Bytes} {linkable : Bool} :
      (copyBlob address directory backup path bytes linkable).database = backup.database := by
    unfold copyBlob
    grind
  cases event <;> grind [backupStep]

end Havemind.CreateBackup
