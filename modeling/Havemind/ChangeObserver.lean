import Havemind.OutboxRepository

/-!
What the producer commits for a file it observes. The events of the vault, the settled
modifications and the startup scan all end in one of these decisions, made on the files
on disk and the producer's mappings.
-/
namespace Havemind.ChangeObserver

open JsText RevisionSchema VaultPayload DurableState OutboxRepository Option List

/-- The files on disk. -/
abbrev Files := JsObject Path Content

/-- `asText` and `asBytes` are what the two ways of reading a file give. -/
structure ObserverOptions where
  rules : PathRules
  digests : ContentDigests
  asText : Content → JsString
  asBytes : Content → Bytes
  normalizeConfigContent : Path → JsString → JsString

def maxBinaryFileBytes : ℕ := 25 * 1024 * 1024

structure ReadContent where
  content : JsString
  contentHash : ContentHash
  deriving DecidableEq

section
variable (options : ObserverOptions) (files : Files)

def existsAt (path : Path) : Bool := (files.get path).isSome

def readText (path : Path) : JsString := ((files.get path).map options.asText).getD []

def readBinary (path : Path) : Bytes := ((files.get path).map options.asBytes).getD []

/-- The canonical path first, then the path as it was given. -/
def resolveReadPath (canonicalPath originalPath : Path) : Option Path :=
  if existsAt files canonicalPath then some canonicalPath
  else if originalPath ≠ canonicalPath ∧ existsAt files originalPath then some originalPath
  else none

/-- `none` for a file that is not there and for an attachment over the limit. -/
def readContentForKind (canonicalPath originalPath : Path) (kind : SyncContentKind) :
    Option ReadContent :=
  match resolveReadPath files canonicalPath originalPath with
  | none => none
  | some readPath =>
    match kind with
    | .binary =>
      let bytes := readBinary options files readPath
      if bytes.length > maxBinaryFileBytes then none
      else some ⟨PayloadCodec.bytesToBase64 bytes, options.digests.hashBlob bytes⟩
    | .markdown =>
      let content := canonicalizeMarkdown
        (options.normalizeConfigContent canonicalPath (readText options files readPath))
      some ⟨content, options.digests.hashText content⟩

end

def findMapping (mappings : List LocalFileMapping) (collisionKey : ℕ) : Option LocalFileMapping :=
  mappings.find? fun mapping => mapping.collisionKey = collisionKey

/-- The ids an observation makes up. -/
structure FreshIds where
  fileId : Id
  operationId : Id
  deriving DecidableEq

section
variable (options : ObserverOptions) (files : Files) (mappings : List LocalFileMapping)
  (ids : FreshIds)

/-- The commit of a file's content under a mapping at the classified path. -/
def contentCommit (kind : LocalChangeKind) (fileId : Id) (classified : ClassifiedPath)
    (previousPath : Option Path) (read : ReadContent) : LocalChangeCommit where
  operation :=
    { content := some read.content
      contentKind := some classified.kind
      fileId
      kind
      operationId := ids.operationId
      path := classified.canonicalPath
      previousPath }
  removeFileId := none
  upsertMapping := some
    { collisionKey := classified.collisionKey
      contentHash := read.contentHash
      contentKind := some classified.kind
      fileId
      path := classified.canonicalPath }

def commitCreate (readPath : Path) (classified : ClassifiedPath) : Option LocalChangeCommit :=
  (readContentForKind options files classified.canonicalPath readPath classified.kind).map
    (contentCommit ids .create ids.fileId classified none)

def commitModify (readPath : Path) (classified : ClassifiedPath) (mapping : LocalFileMapping)
    (force : Bool) : Option LocalChangeCommit :=
  match readContentForKind options files classified.canonicalPath readPath classified.kind with
  | none => none
  | some read =>
    if force = false ∧ read.contentHash = mapping.contentHash then none
    else some (contentCommit ids .update mapping.fileId classified none read)

def commitDelete (collisionKey : ℕ) : Option LocalChangeCommit :=
  (findMapping mappings collisionKey).map fun mapping =>
    { operation :=
        { content := none
          contentKind := mapping.contentKind
          fileId := mapping.fileId
          kind := .delete
          operationId := ids.operationId
          path := mapping.path }
      removeFileId := some mapping.fileId
      upsertMapping := none }

def handleCreate (path : Path) : Option LocalChangeCommit :=
  match options.rules.classifyVaultPath path with
  | none => none
  | some classified =>
    match findMapping mappings classified.collisionKey with
    | some existing => commitModify options files ids path classified existing false
    | none => commitCreate options files ids path classified

def handleModify (path : Path) (force : Bool) : Option LocalChangeCommit :=
  match options.rules.classifyVaultPath path with
  | none => none
  | some classified =>
    match findMapping mappings classified.collisionKey with
    | none => commitCreate options files ids path classified
    | some mapping => commitModify options files ids path classified mapping force

inductive LocalVaultError
  | pathCollision
  deriving DecidableEq

def handleRename (previousPath nextPath : Path) :
    Except LocalVaultError (Option LocalChangeCommit) :=
  match options.rules.classifyVaultPath previousPath, options.rules.classifyVaultPath nextPath with
  | none, none => .ok none
  | none, some target => .ok (commitCreate options files ids nextPath target)
  | some source, none => .ok (commitDelete mappings ids source.collisionKey)
  | some source, some target =>
    match findMapping mappings source.collisionKey with
    | none => .ok (handleCreate options files mappings ids nextPath)
    | some mapping =>
      if (findMapping mappings target.collisionKey).any fun occupant =>
          occupant.fileId ≠ mapping.fileId then
        .error .pathCollision
      else
        .ok ((readContentForKind options files target.canonicalPath nextPath target.kind).map
          (contentCommit ids .rename mapping.fileId target (some source.canonicalPath)))

def handleDelete (path : Path) : Option LocalChangeCommit :=
  match options.rules.classifyVaultPath path with
  | none => none
  | some classified => commitDelete mappings ids classified.collisionKey

end

section
variable {options : ObserverOptions} {files : Files} {mappings : List LocalFileMapping}
  {ids : FreshIds} {path : Path} {classified : ClassifiedPath} {mapping : LocalFileMapping}
  {commit : LocalChangeCommit} {force : Bool} {collisionKey : ℕ} {readPath : Path}

theorem findMapping_some (h : findMapping mappings collisionKey = some mapping) :
    mapping ∈ mappings ∧ mapping.collisionKey = collisionKey := by
  have hmem := mem_of_find?_eq_some h
  have hkey := List.find?_some h
  exact ⟨hmem, of_decide_eq_true hkey⟩

theorem handleCreate_eq : handleCreate options files mappings ids path =
    handleModify options files mappings ids path false := by
  unfold handleCreate handleModify
  cases options.rules.classifyVaultPath path with
  | none => rfl
  | some classified =>
    dsimp only
    cases findMapping mappings classified.collisionKey <;> rfl

theorem commitModify_some
    (h : commitModify options files ids readPath classified mapping force = some commit) :
    ∃ read, readContentForKind options files classified.canonicalPath readPath classified.kind =
      some read ∧ contentCommit ids .update mapping.fileId classified none read = commit := by
  unfold commitModify at h
  cases hread : readContentForKind options files classified.canonicalPath readPath
      classified.kind with
  | none =>
    rw [hread] at h
    cases h
  | some read =>
    rw [hread] at h
    dsimp only at h
    split_ifs at h
    exact ⟨read, rfl, some.inj h⟩

/-- A commit for a modified file creates one that was not mapped or updates its mapping. -/
theorem handleModify_cases (h : handleModify options files mappings ids path force = some commit) :
    ∃ classified, options.rules.classifyVaultPath path = some classified ∧
      ((findMapping mappings classified.collisionKey = none ∧
          commitCreate options files ids path classified = some commit) ∨
        ∃ mapping, findMapping mappings classified.collisionKey = some mapping ∧
          commitModify options files ids path classified mapping force = some commit) := by
  unfold handleModify at h
  cases hclassified : options.rules.classifyVaultPath path with
  | none =>
    rw [hclassified] at h
    cases h
  | some classified =>
    rw [hclassified] at h
    dsimp only at h
    refine ⟨classified, rfl, ?_⟩
    cases hfound : findMapping mappings classified.collisionKey with
    | none =>
      rw [hfound] at h
      exact .inl ⟨rfl, h⟩
    | some mapping =>
      rw [hfound] at h
      exact .inr ⟨mapping, rfl, h⟩

/-- A commit for a modified file carries what was read of it. -/
theorem handleModify_some (h : handleModify options files mappings ids path force = some commit) :
    ∃ classified read, options.rules.classifyVaultPath path = some classified ∧
      readContentForKind options files classified.canonicalPath path classified.kind = some read ∧
      commit.operation.content = some read.content ∧
      commit.operation.path = classified.canonicalPath := by
  obtain ⟨classified, hclassified, ⟨-, h⟩ | ⟨mapping, -, h⟩⟩ := handleModify_cases h
  · obtain ⟨read, hread, rfl⟩ := map_eq_some_iff.mp h
    exact ⟨classified, read, hclassified, hread, rfl, rfl⟩
  · obtain ⟨read, hread, rfl⟩ := commitModify_some h
    exact ⟨classified, read, hclassified, hread, rfl, rfl⟩

/-- The mapping a commit puts in place is at a classified path. -/
def Upserts (options : ObserverOptions) (commit : LocalChangeCommit) : Prop :=
  ∀ mapping, commit.upsertMapping = some mapping → ∃ path classified,
    options.rules.classifyVaultPath path = some classified ∧
      mapping.path = classified.canonicalPath ∧ mapping.collisionKey = classified.collisionKey

theorem upserts_contentCommit (hclassified : options.rules.classifyVaultPath path = some classified)
    (kind : LocalChangeKind) (fileId : Id) (previousPath : Option Path) (read : ReadContent) :
    Upserts options (contentCommit ids kind fileId classified previousPath read) := by
  intro mapping hmapping
  cases hmapping
  exact ⟨path, classified, hclassified, rfl, rfl⟩

theorem upserts_commitCreate
    (hclassified : options.rules.classifyVaultPath path = some classified)
    (h : commitCreate options files ids readPath classified = some commit) :
    Upserts options commit := by
  obtain ⟨read, -, rfl⟩ := map_eq_some_iff.mp h
  exact upserts_contentCommit hclassified _ _ _ _

theorem upserts_commitModify
    (hclassified : options.rules.classifyVaultPath path = some classified)
    (h : commitModify options files ids readPath classified mapping force = some commit) :
    Upserts options commit := by
  obtain ⟨read, -, rfl⟩ := commitModify_some h
  exact upserts_contentCommit hclassified _ _ _ _

theorem upserts_commitDelete (h : commitDelete mappings ids collisionKey = some commit) :
    Upserts options commit := by
  obtain ⟨found, -, rfl⟩ := map_eq_some_iff.mp h
  intro mapping hmapping
  cases hmapping

theorem upserts_handleModify
    (h : handleModify options files mappings ids path force = some commit) :
    Upserts options commit := by
  obtain ⟨classified, hclassified, ⟨-, h⟩ | ⟨mapping, -, h⟩⟩ := handleModify_cases h
  · exact upserts_commitCreate hclassified h
  · exact upserts_commitModify hclassified h

theorem upserts_handleCreate
    (h : handleCreate options files mappings ids path = some commit) : Upserts options commit :=
  upserts_handleModify (handleCreate_eq.symm.trans h)

theorem upserts_handleRename {previousPath nextPath : Path}
    (h : handleRename options files mappings ids previousPath nextPath = .ok (some commit)) :
    Upserts options commit := by
  unfold handleRename at h
  cases hprevious : options.rules.classifyVaultPath previousPath with
  | none =>
    cases hnext : options.rules.classifyVaultPath nextPath with
    | none =>
      rw [hprevious, hnext] at h
      cases h
    | some target =>
      rw [hprevious, hnext] at h
      exact upserts_commitCreate hnext (Except.ok.inj h)
  | some source =>
    cases hnext : options.rules.classifyVaultPath nextPath with
    | none =>
      rw [hprevious, hnext] at h
      exact upserts_commitDelete (Except.ok.inj h)
    | some target =>
      rw [hprevious, hnext] at h
      dsimp only at h
      cases hfound : findMapping mappings source.collisionKey with
      | none =>
        rw [hfound] at h
        exact upserts_handleCreate (Except.ok.inj h)
      | some mapping =>
        rw [hfound] at h
        dsimp only at h
        split_ifs at h
        obtain ⟨read, -, rfl⟩ := map_eq_some_iff.mp (Except.ok.inj h)
        exact upserts_contentCommit hnext _ _ _ _

/-- A deletion is of the file that has the path's key among the mappings. -/
theorem handleDelete_some (h : handleDelete options mappings ids path = some commit) :
    ∃ classified, ∃ found ∈ mappings, options.rules.classifyVaultPath path = some classified ∧
      found.collisionKey = classified.collisionKey ∧ commit.operation.path = found.path ∧
      commit.upsertMapping = none := by
  unfold handleDelete at h
  cases hclassified : options.rules.classifyVaultPath path with
  | none =>
    rw [hclassified] at h
    cases h
  | some classified =>
    rw [hclassified] at h
    obtain ⟨found, hfound, rfl⟩ := map_eq_some_iff.mp h
    obtain ⟨hmem, hkey⟩ := findMapping_some hfound
    exact ⟨classified, found, hmem, rfl, hkey, rfl, rfl⟩

theorem mem_upsertMapping {upsert : LocalFileMapping} (h : mapping ∈ upsertMapping mappings upsert) :
    mapping ∈ mappings ∨ upsert = mapping := by
  rcases mem_append.mp h with hkept | hnew
  · exact .inl (mem_filter.mp hkept).1
  · exact .inr (mem_singleton.mp hnew).symm

theorem mem_nextMappings (h : mapping ∈ nextMappings mappings commit) :
    mapping ∈ mappings ∨ commit.upsertMapping = some mapping := by
  obtain ⟨operation, removeFileId, upsert⟩ := commit
  cases removeFileId with
  | none =>
    cases upsert with
    | none => exact .inl h
    | some upsert => exact (mem_upsertMapping h).imp_right (congrArg some)
  | some removed =>
    cases upsert with
    | none => exact .inl (mem_filter.mp h).1
    | some upsert =>
      rcases mem_upsertMapping h with hkept | rfl
      · exact .inl (mem_filter.mp hkept).1
      · exact .inr rfl

end

def noteObserver : ObserverOptions where
  rules := noteRules
  digests := plainDigests
  asText := textIn
  asBytes := bytesIn
  normalizeConfigContent _ text := text

end Havemind.ChangeObserver
