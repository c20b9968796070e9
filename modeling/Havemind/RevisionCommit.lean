import Havemind.RevisionRepository

/-!
What one commit does. A successful commit either replays a stored revision or
adds a new one, and the new one's effect on every table is a single record
update. Later proofs use these two descriptions and never unfold the commit.
-/
namespace Havemind.RevisionCommit

open RevisionSchema Transaction ServerDatabase RevisionRepository List

section
variable {db : Database} {id : Id}

theorem getExistingRevision_eq_some {row : RevisionRow} (h : getExistingRevision db id = some row) :
    row ∈ db.revisions ∧ row.id = id :=
  ⟨mem_of_find?_eq_some h, by simpa using List.find?_some h⟩

theorem getExistingRevision_eq_none :
    getExistingRevision db id = none ↔ ∀ row ∈ db.revisions, row.id ≠ id := by
  simp [getExistingRevision, List.find?_eq_none]

theorem getVault_eq_ok {vault : VaultRow} (h : getVault db id = .ok vault) :
    vault ∈ db.vaults ∧ vault.id = id ∧ vault.deletedAt = none := by
  unfold getVault at h
  split at h
  · cases h
  · rename_i row hfind
    cases h
    exact ⟨mem_of_find?_eq_some hfind, by simpa using List.find?_some hfind⟩

theorem getIdempotencyRecord_eq_none {prepared : PreparedHeader} :
    getIdempotencyRecord db prepared = none ↔ ∀ row ∈ db.idempotencyRecords,
      ¬ (row.deviceId = prepared.actor.deviceId ∧
        row.idempotencyKey = prepared.idempotencyKey) := by
  simp [getIdempotencyRecord, List.find?_eq_none]

theorem actorAuthorized_rows {actor : AuthenticatedRevisionActor}
    {header : ProtectedRevisionHeader} (h : actorAuthorized db actor header = true) :
    (∃ row ∈ db.memberships, row.id = actor.memberId) ∧
      ∃ row ∈ db.devices, row.id = actor.deviceId := by
  unfold actorAuthorized at h
  split at h
  · cases h
  · rename_i membership user device hactor
    simp only [findActor, Option.bind_eq_bind, Option.bind_eq_some_iff] at hactor
    obtain ⟨_, hm, _, _, _, hd, _⟩ := hactor
    exact ⟨⟨_, mem_of_find?_eq_some hm, by simpa using List.find?_some hm⟩,
      ⟨_, mem_of_find?_eq_some hd, by simpa using List.find?_some hd⟩⟩

end

section
variable {db : Database} {prepared : PreparedHeader}

theorem assertParents_eq_ok {vaultId fileId : Id} {ids : List Id} {u : Unit}
    (h : assertParents db vaultId fileId ids = .ok u) :
    ∀ id ∈ ids, ∃ row ∈ db.revisions, row.id = id ∧ row.vaultId = vaultId ∧ row.fileId = fileId := by
  induction ids with
  | nil => simp
  | cons first rest ih =>
    unfold assertParents at h
    split at h
    · cases h
    · rename_i parent hparent
      split at h
      · cases h
      · rename_i hsame
        obtain ⟨hmem, hid⟩ := getExistingRevision_eq_some hparent
        obtain ⟨hvault, hfile⟩ := not_or.mp hsame
        intro id hin
        rcases mem_cons.mp hin with rfl | hrest
        · exact ⟨parent, hmem, hid, not_not.mp hvault, not_not.mp hfile⟩
        · exact ih h id hrest

/-- A root is committable when its file id is free. -/
theorem fileGraph_root (h : assertFileGraphCommittable db prepared = .ok true) :
    prepared.header.parentRevisionIds = [] ∧ ∀ file ∈ db.files, file.id ≠ prepared.header.fileId := by
  unfold assertFileGraphCommittable at h
  dsimp only at h
  split at h
  · rename_i hlen
    split at h
    · cases h
    · rename_i hfile
      exact ⟨length_eq_zero_iff.mp hlen, by simpa [List.find?_eq_none] using hfile⟩
  · split at h
    · cases h
    · split at h
      · cases h
      · obtain ⟨_, _, hlast⟩ := except_bind_eq_ok.mp h
        split at hlast <;> cases hlast

/-- A child is committable when its file is in the vault and its parents are
revisions of that file. -/
theorem fileGraph_child (h : assertFileGraphCommittable db prepared = .ok false) :
    (∃ file ∈ db.files, file.id = prepared.header.fileId ∧
        file.vaultId = prepared.header.vaultId) ∧
      ∀ id ∈ prepared.header.parentRevisionIds, ∃ row ∈ db.revisions, row.id = id ∧
        row.vaultId = prepared.header.vaultId ∧ row.fileId = prepared.header.fileId := by
  unfold assertFileGraphCommittable at h
  dsimp only at h
  split at h
  · split at h <;> cases h
  · split at h
    · cases h
    · rename_i file hfile
      split at h
      · cases h
      · rename_i hvault
        obtain ⟨_, hparents, _⟩ := except_bind_eq_ok.mp h
        exact ⟨⟨file, mem_of_find?_eq_some hfile, by simpa using List.find?_some hfile,
          not_not.mp hvault⟩, assertParents_eq_ok hparents⟩

/-- The parents of a committable revision are revisions of its file. -/
theorem fileGraph_parents {isRoot : Bool}
    (h : assertFileGraphCommittable db prepared = .ok isRoot) :
    ∀ id ∈ prepared.header.parentRevisionIds, ∃ row ∈ db.revisions, row.id = id ∧
      row.vaultId = prepared.header.vaultId ∧ row.fileId = prepared.header.fileId := by
  cases isRoot with
  | true =>
    rw [(fileGraph_root h).1]
    simp
  | false => exact (fileGraph_child h).2

end
variable {ids : List Id} {order : ℕ}

def parentRows (revisionId : Id) : ℕ → List Id → List RevisionParentRow
  | _, [] => []
  | order, parentId :: rest => ⟨revisionId, parentId, order⟩ :: parentRows revisionId (order + 1) rest

theorem mem_parentRows {revisionId : ℕ} {row : RevisionParentRow}
    (h : row ∈ parentRows revisionId order ids) :
    row.revisionId = revisionId ∧ row.parentRevisionId ∈ ids ∧ order ≤ row.parentOrder := by
  induction ids generalizing order with
  | nil => cases h
  | cons first rest ih =>
    rcases mem_cons.mp h with rfl | hrest
    · simp
    · obtain ⟨hid, hmem, horder⟩ := ih hrest
      exact ⟨hid, mem_cons_of_mem _ hmem, by omega⟩

theorem exists_parentRow {revisionId : Id} (order : ℕ) {id : Id} (h : id ∈ ids) :
    ∃ row ∈ parentRows revisionId order ids,
      row.revisionId = revisionId ∧ row.parentRevisionId = id := by
  induction ids generalizing order with
  | nil => cases h
  | cons first rest ih =>
    rcases mem_cons.mp h with rfl | hrest
    · exact ⟨⟨revisionId, id, order⟩, by simp [parentRows], rfl, rfl⟩
    · obtain ⟨row, hmem, hrow⟩ := ih (order + 1) hrest
      exact ⟨row, mem_cons_of_mem _ hmem, hrow⟩

def withParents (header : ProtectedRevisionHeader) (order : ℕ) (ids : List Id) (db : Database) :
    Database :=
  { db with
    revisionParents := db.revisionParents ++ parentRows header.revisionId order ids
    fileHeads := db.fileHeads.filter fun head =>
      ¬ (head.fileId = header.fileId ∧ head.revisionId ∈ ids) }

theorem withParents_nil (header : ProtectedRevisionHeader) (order : ℕ) (db : Database) :
    withParents header order [] db = db := by
  simp [withParents, parentRows]

theorem withParents_cons (header : ProtectedRevisionHeader) (order : ℕ) (id : Id) (rest : List Id)
    (db : Database) : withParents header order (id :: rest) db =
      withParents header (order + 1) rest
        { db with
          revisionParents := db.revisionParents ++ [⟨header.revisionId, id, order⟩]
          fileHeads := db.fileHeads.filter fun head => head ≠ ⟨header.fileId, id⟩ } := by
  simp only [withParents, parentRows, append_assoc, singleton_append,
    filter_filter, Database.mk.injEq, true_and, and_true]
  apply filter_congr
  rintro ⟨fileId, revisionId⟩ _
  simp only [FileHeadRow.mk.injEq, mem_cons, ne_eq, ← Bool.decide_and, decide_eq_decide]
  tauto

theorem replaceParents_eq_ok {header : ProtectedRevisionHeader} {db db' : Database} {u : Unit}
    (h : replaceParents header order ids db = .ok u db') :
    db' = withParents header order ids db := by
  induction ids generalizing order db with
  | nil =>
    cases h
    exact (withParents_nil _ _ _).symm
  | cons first rest ih =>
    unfold replaceParents at h
    obtain ⟨_, _, hinsert, h⟩ := bind_eq_ok.mp h
    obtain ⟨_, rfl⟩ := guardedWrite_eq_ok.mp hinsert
    obtain ⟨_, _, hremove, h⟩ := bind_eq_ok.mp h
    obtain ⟨_, rfl⟩ := guardedWrite_eq_ok.mp hremove
    rw [withParents_cons]
    exact ih h

variable (options : RevisionRepositoryOptions) {prepared : PreparedHeader} {db db' : Database}
  {u : Unit} {sequence : ℕ} {result : CommitRevisionResult} {now : Option Timestamp}
  {input : CommitRevisionInput} {blobStore : BlobHash → BlobRead} {vault : VaultRow}
  {time : Timestamp} {receipt : OpaqueBlobReceipt} {seen : Database}

def withFile (prepared : PreparedHeader) (isRoot : Bool) (db : Database) : Database :=
  { db with
    files := if isRoot then db.files ++ [⟨prepared.header.fileId, prepared.header.vaultId⟩]
      else db.files }

def withRevision (row : RevisionRow) (db : Database) : Database :=
  { db with revisions := db.revisions ++ [row] }

def acceptedEvent (prepared : PreparedHeader) (receipt : OpaqueBlobReceipt) : VaultEventRow :=
  { vaultId := prepared.header.vaultId
    serverSequence := receipt.serverSequence
    revisionId := some prepared.header.revisionId
    payloadFileId := prepared.header.fileId
    receipt }

def recordOf (prepared : PreparedHeader) (result : CommitRevisionResult) (responseStatus : ℕ)
    (now : Timestamp) : IdempotencyRow :=
  { deviceId := prepared.actor.deviceId
    idempotencyKey := prepared.idempotencyKey
    requestHash := prepared.requestHash
    responseStatus
    responseBody := some result
    expiresAt := now + options.idempotencyTtlMs }

/-- The row update of the sequence allocator. -/
def advanced (vaultId : Id) (serverSequence : ℕ) (row : VaultRow) : VaultRow :=
  if row.id = vaultId ∧ row.nextServerSequence = serverSequence then
    { row with nextServerSequence := row.nextServerSequence + 1 }
  else row

/-- The database after a new revision was committed at `serverSequence`. -/
def committed (prepared : PreparedCommit) (isRoot : Bool) (serverSequence writeEpoch : ℕ)
    (time : Timestamp) (db : Database) : Database :=
  let receipt := commitReceipt prepared serverSequence time
  { db with
    files := (withFile prepared.toPreparedHeader isRoot db).files
    revisions := db.revisions ++ [revisionRow prepared serverSequence writeEpoch time]
    revisionParents := db.revisionParents ++
      parentRows prepared.header.revisionId 0 prepared.header.parentRevisionIds
    fileHeads := (db.fileHeads.filter fun head => ¬ (head.fileId = prepared.header.fileId ∧
        head.revisionId ∈ prepared.header.parentRevisionIds)) ++
      [⟨prepared.header.fileId, prepared.header.revisionId⟩]
    vaultEvents := db.vaultEvents ++ [acceptedEvent prepared.toPreparedHeader receipt]
    vaults := db.vaults.map (advanced prepared.header.vaultId serverSequence)
    idempotencyRecords := db.idempotencyRecords ++
      [recordOf options prepared.toPreparedHeader ⟨receipt, .accepted⟩ 201 time] }

/-- The constraints a new revision's rows meet beyond the checks before them. -/
structure Storable (prepared : PreparedCommit) (isRoot : Bool) (vault : VaultRow)
    (time : Timestamp) (db : Database) : Prop where
  write_epoch : vault.writeEpoch ≤ maxSafeInteger
  file : isRoot = true →
    FileInsertable ⟨prepared.header.fileId, prepared.header.vaultId⟩ db
  revision : RevisionInsertable
    (revisionRow prepared vault.nextServerSequence vault.writeEpoch time)
    (withFile prepared.toPreparedHeader isRoot db)
  receipt : (commitReceipt prepared vault.nextServerSequence time).schemaValid = true
  event_free : ∀ stored ∈ db.vaultEvents, ¬ (stored.vaultId = prepared.header.vaultId ∧
    stored.serverSequence = vault.nextServerSequence)
  cursor : db.vaults.countP (fun row => row.id = prepared.header.vaultId ∧
    row.nextServerSequence = vault.nextServerSequence) = 1

/-- A new revision was committed. -/
structure NewCommit (now : Option Timestamp) (prepared : PreparedCommit) (vault : VaultRow)
    (isRoot : Bool) (time : Timestamp) (db : Database) (result : CommitRevisionResult)
    (db' : Database) : Prop where
  clock : now = some time
  sequence_pos : 0 < vault.nextServerSequence
  sequence_lt : vault.nextServerSequence < maxSafeInteger
  quota : assertWithinQuota options db prepared vault = .ok ()
  graph : assertFileGraphCommittable db prepared.toPreparedHeader = .ok isRoot
  storable : Storable prepared isRoot vault time db
  result_eq : result = ⟨commitReceipt prepared vault.nextServerSequence time, .accepted⟩
  effect : db' = committed options prepared isRoot vault.nextServerSequence vault.writeEpoch time db

theorem validateAndPrepareFileGraph_eq_ok : validateAndPrepareFileGraph prepared db = .ok u db' ↔
      ∃ isRoot, assertFileGraphCommittable db prepared = .ok isRoot ∧
        (isRoot = true → FileInsertable ⟨prepared.header.fileId, prepared.header.vaultId⟩ db) ∧
        db' = withFile prepared isRoot db := by
  unfold validateAndPrepareFileGraph
  constructor
  · intro h
    rw [get_bind] at h
    obtain ⟨isRoot, hgraph, h⟩ := check_bind_eq_ok.mp h
    refine ⟨isRoot, hgraph, ?_⟩
    cases isRoot with
    | true =>
      rw [if_pos rfl] at h
      obtain ⟨hfile, rfl⟩ := guardedWrite_eq_ok.mp h
      exact ⟨fun _ => hfile, by simp [withFile]⟩
    | false =>
      rw [if_neg Bool.false_ne_true] at h
      cases h
      exact ⟨by simp, by simp [withFile]⟩
  · rintro ⟨isRoot, hgraph, hfile, rfl⟩
    rw [get_bind]
    refine check_bind_eq_ok.mpr ⟨isRoot, hgraph, ?_⟩
    cases isRoot with
    | true =>
      rw [if_pos rfl]
      exact guardedWrite_eq_ok.mpr ⟨hfile rfl, by simp [withFile]⟩
    | false =>
      rw [if_neg Bool.false_ne_true]
      simp [withFile]

theorem insertRevision_eq_ok {prepared : PreparedCommit} :
    insertRevision prepared vault sequence time db = .ok u db' ↔
      vault.writeEpoch ≤ maxSafeInteger ∧
        RevisionInsertable (revisionRow prepared sequence vault.writeEpoch time) db ∧
        db' = withRevision (revisionRow prepared sequence vault.writeEpoch time) db := by
  unfold insertRevision
  constructor
  · intro h
    obtain ⟨epoch, hepoch, h⟩ := check_bind_eq_ok.mp h
    unfold requireSafeNonNegativeInteger at hepoch
    split at hepoch
    · rename_i hsafe
      cases hepoch
      obtain ⟨hrow, rfl⟩ := guardedWrite_eq_ok.mp h
      exact ⟨hsafe, hrow, rfl⟩
    · cases hepoch
  · rintro ⟨hsafe, hrow, rfl⟩
    refine check_bind_eq_ok.mpr ⟨vault.writeEpoch, ?_, guardedWrite_eq_ok.mpr ⟨hrow, rfl⟩⟩
    exact if_pos hsafe

def withParentHeads (prepared : PreparedHeader) (db : Database) : Database :=
  let db' := withParents prepared.header 0 prepared.header.parentRevisionIds db
  { db' with fileHeads := db'.fileHeads ++ [⟨prepared.header.fileId, prepared.header.revisionId⟩] }

theorem replaceParentHeads_eq_ok (h : replaceParentHeads prepared db = .ok u db') :
    db' = withParentHeads prepared db := by
  unfold replaceParentHeads at h
  obtain ⟨_, _, hparents, h⟩ := bind_eq_ok.mp h
  obtain rfl := replaceParents_eq_ok hparents
  exact (guardedWrite_eq_ok.mp h).2

theorem advanceCursor_eq_ok {vaultId : Id} :
    advanceCursor vaultId sequence db = .ok u db' ↔
      db.vaults.countP (fun row => row.id = vaultId ∧ row.nextServerSequence = sequence) = 1 ∧
        db' = { db with vaults := db.vaults.map (advanced vaultId sequence) } := by
  unfold advanceCursor advanced
  dsimp only
  simp only [decide_eq_true_eq]
  split
  · rename_i hcount
    constructor
    · intro h
      cases h
      exact ⟨hcount, rfl⟩
    · rintro ⟨_, rfl⟩
      rfl
  · rename_i hcount
    exact ⟨nofun, fun h => absurd h.1 hcount⟩

theorem insertRevisionEvent_eq_ok :
    insertRevisionEvent prepared receipt db = .ok u db' ↔
      EventInsertable (acceptedEvent prepared receipt) db ∧
        db' = { db with vaultEvents := db.vaultEvents ++ [acceptedEvent prepared receipt] } := by
  unfold insertRevisionEvent insertEvent
  rw [guardedWrite_eq_ok]
  rfl

theorem insertIdempotencyRecord_eq_ok {responseStatus : ℕ} {now : Timestamp} :
    insertIdempotencyRecord options prepared result responseStatus now db = .ok u db' ↔
      IdempotencyInsertable (recordOf options prepared result responseStatus now) db ∧
        db' = { db with idempotencyRecords :=
          db.idempotencyRecords ++ [recordOf options prepared result responseStatus now] } := by
  unfold insertIdempotencyRecord insertIdempotencyRow
  rw [guardedWrite_eq_ok]
  rfl

theorem requireSafeSequence_eq_ok {value : ℕ} :
    requireSafeSequence value = .ok sequence ↔
      sequence = value ∧ 0 < value ∧ value ≤ maxSafeInteger := by
  unfold requireSafeSequence
  split <;> simp [*, eq_comm]

theorem parseReceipt_eq_ok {receipt' : OpaqueBlobReceipt} :
    parseReceipt receipt = .ok receipt' ↔ receipt' = receipt ∧ receipt.schemaValid = true := by
  unfold parseReceipt
  split <;> simp [*, eq_comm]

theorem readNow_eq_ok : readNow now = .ok time ↔ now = some time := by
  cases now <;> simp [readNow]

/-- A new revision's commit, read backwards: what it checked and wrote. -/
theorem commitNewRevision_newCommit {prepared : PreparedCommit}
    (h : commitNewRevision options now prepared vault db = .ok result db') :
    ∃ isRoot time, NewCommit options now prepared vault isRoot time db result db' := by
  unfold commitNewRevision at h
  obtain ⟨time, hclock, h⟩ := check_bind_eq_ok.mp h
  obtain ⟨sequence, hsequence, h⟩ := check_bind_eq_ok.mp h
  obtain ⟨rfl, hpos, _⟩ := requireSafeSequence_eq_ok.mp hsequence
  obtain ⟨_, hlast, h⟩ := check_bind_eq_ok.mp h
  rw [get_bind] at h
  obtain ⟨_, hquota, h⟩ := check_bind_eq_ok.mp h
  obtain ⟨_, _, hwrite, h⟩ := bind_eq_ok.mp h
  obtain ⟨isRoot, hgraph, hfile, rfl⟩ := validateAndPrepareFileGraph_eq_ok.mp hwrite
  obtain ⟨_, _, hwrite, h⟩ := bind_eq_ok.mp h
  obtain ⟨hepoch, hrevision, rfl⟩ := insertRevision_eq_ok.mp hwrite
  obtain ⟨_, _, hwrite, h⟩ := bind_eq_ok.mp h
  obtain rfl := replaceParentHeads_eq_ok hwrite
  obtain ⟨receipt, hreceipt, h⟩ := check_bind_eq_ok.mp h
  obtain ⟨rfl, hvalid⟩ := parseReceipt_eq_ok.mp hreceipt
  obtain ⟨_, _, hwrite, h⟩ := bind_eq_ok.mp h
  obtain ⟨⟨hfree, _⟩, rfl⟩ := insertRevisionEvent_eq_ok.mp hwrite
  obtain ⟨_, _, hwrite, h⟩ := bind_eq_ok.mp h
  obtain ⟨hcount, rfl⟩ := advanceCursor_eq_ok.mp hwrite
  obtain ⟨_, _, hwrite, h⟩ := bind_eq_ok.mp h
  obtain ⟨_, rfl⟩ := (insertIdempotencyRecord_eq_ok options).mp hwrite
  cases h
  exact ⟨isRoot, time, readNow_eq_ok.mp hclock, hpos, require_eq_ok.mp hlast, hquota, hgraph,
    ⟨hepoch, hfile, hrevision, hvalid, hfree, hcount⟩, rfl, rfl⟩

/-- A stored revision was replayed; at most an idempotency record is added. -/
structure Replayed (now : Option Timestamp) (prepared : PreparedCommit) (existing : RevisionRow)
    (db : Database) (result : CommitRevisionResult) (db' : Database) : Prop where
  found : getExistingRevision db prepared.header.revisionId = some existing
  stored_matches : storedRevisionMatches existing prepared = true
  answer : ∃ receipt, receiptFromStoredRevision existing = .ok receipt ∧
    ((∃ record, getIdempotencyRecord db prepared.toPreparedHeader = some record ∧
        record.requestHash = prepared.requestHash ∧
        parseStoredResult record.responseBody receipt = .ok result ∧ db' = db) ∨
      ∃ time, getIdempotencyRecord db prepared.toPreparedHeader = none ∧ now = some time ∧
        result = ⟨receipt, .replayed⟩ ∧ db' = { db with idempotencyRecords :=
          db.idempotencyRecords ++ [recordOf options prepared.toPreparedHeader result 200 time] })

theorem replayExisting_replayed {prepared : PreparedCommit} {existing : RevisionRow}
    (hfound : getExistingRevision db prepared.header.revisionId = some existing)
    (h : replayExisting options now prepared existing
      (getIdempotencyRecord db prepared.toPreparedHeader) db = .ok result db') :
    Replayed options now prepared existing db result db' := by
  unfold replayExisting at h
  obtain ⟨_, hmatch, h⟩ := check_bind_eq_ok.mp h
  obtain ⟨receipt, hreceipt, h⟩ := check_bind_eq_ok.mp h
  refine ⟨hfound, require_eq_ok.mp hmatch, receipt, hreceipt, ?_⟩
  cases hrecord : getIdempotencyRecord db prepared.toPreparedHeader with
  | some record =>
    rw [hrecord] at h
    obtain ⟨_, hrequest, h⟩ := check_bind_eq_ok.mp h
    obtain ⟨hparse, rfl⟩ := check_eq_ok.mp h
    exact Or.inl ⟨record, rfl, require_eq_ok.mp hrequest, hparse, rfl⟩
  | none =>
    rw [hrecord] at h
    obtain ⟨time, hclock, h⟩ := check_bind_eq_ok.mp h
    obtain ⟨_, _, hwrite, h⟩ := bind_eq_ok.mp h
    obtain ⟨_, rfl⟩ := (insertIdempotencyRecord_eq_ok options).mp hwrite
    cases h
    exact Or.inr ⟨time, rfl, readNow_eq_ok.mp hclock, rfl, rfl⟩

/-- A commit of a revision the database did not know. -/
structure Accepted (now : Option Timestamp) (prepared : PreparedCommit) (db : Database)
    (result : CommitRevisionResult) (db' : Database) : Prop where
  authorized : actorAuthorized db prepared.actor prepared.header = true
  id_free : ∀ row ∈ db.revisions, row.id ≠ prepared.header.revisionId
  key_free : getIdempotencyRecord db prepared.toPreparedHeader = none
  new : ∃ vault isRoot time, getVault db prepared.header.vaultId = .ok vault ∧
    NewCommit options now prepared vault isRoot time db result db'

/-- A successful commit replays a stored revision or accepts a new one. -/
theorem commitPrepared_cases {prepared : PreparedCommit}
    (h : commitPrepared options now prepared db = .ok result db') :
    (∃ existing, Replayed options now prepared existing db result db') ∨
      Accepted options now prepared db result db' := by
  unfold commitPrepared at h
  rw [get_bind] at h
  obtain ⟨_, hactor, h⟩ := check_bind_eq_ok.mp h
  obtain ⟨vault, hvault, h⟩ := check_bind_eq_ok.mp h
  cases hfound : getExistingRevision db prepared.header.revisionId with
  | some existing =>
    rw [hfound] at h
    exact Or.inl ⟨existing, replayExisting_replayed options hfound h⟩
  | none =>
    rw [hfound] at h
    cases hkey : getIdempotencyRecord db prepared.toPreparedHeader with
    | some record =>
      rw [hkey] at h
      obtain ⟨_, _, h⟩ := check_bind_eq_ok.mp h
      cases h
    | none =>
      rw [hkey] at h
      obtain ⟨isRoot, time, hnew⟩ := commitNewRevision_newCommit options h
      exact Or.inr ⟨require_eq_ok.mp hactor, getExistingRevision_eq_none.mp hfound, hkey, vault,
        isRoot, time, hvault, hnew⟩

/-- The checks of `prepareHeader`. -/
structure Preparable (db : Database) (input : CommitRevisionInput) : Prop where
  schema : input.header.schemaValid = true
  key : idempotencyKeyValid input.idempotencyKey = true
  actor : input.header.expectedMemberId = input.actor.memberId ∧
    input.header.expectedDeviceId = input.actor.deviceId
  authorized : actorAuthorized db input.actor input.header = true
  stored_matches : ∀ existing, getExistingRevision db input.header.revisionId = some existing →
    storedRevisionMatches existing
      { preparedHeader options input with blobSize := existing.blobSize } = true

theorem prepareHeader_eq_ok : prepareHeader options db input = .ok prepared ↔
      Preparable options db input ∧ prepared = preparedHeader options input := by
  constructor
  · intro h
    unfold prepareHeader at h
    obtain ⟨_, hschema, h⟩ := except_bind_eq_ok.mp h
    obtain ⟨_, hkey, h⟩ := except_bind_eq_ok.mp h
    obtain ⟨_, hactor, h⟩ := except_bind_eq_ok.mp h
    obtain ⟨_, hauthorized, h⟩ := except_bind_eq_ok.mp h
    dsimp only at h
    split at h
    · rename_i hnone
      cases h
      exact ⟨⟨require_eq_ok.mp hschema, require_eq_ok.mp hkey, require_eq_ok.mp hactor,
        require_eq_ok.mp hauthorized, fun _ hsome => by rw [hnone] at hsome; cases hsome⟩, rfl⟩
    · rename_i existing hsome
      obtain ⟨_, _, h⟩ := except_bind_eq_ok.mp h
      obtain ⟨_, hmatch, h⟩ := except_bind_eq_ok.mp h
      cases h
      refine ⟨⟨require_eq_ok.mp hschema, require_eq_ok.mp hkey, require_eq_ok.mp hactor,
        require_eq_ok.mp hauthorized, ?_⟩, rfl⟩
      intro row hrow
      cases hsome.symm.trans hrow
      exact require_eq_ok.mp hmatch
  · rintro ⟨P, rfl⟩
    unfold prepareHeader
    refine except_bind_eq_ok.mpr ⟨(), require_of P.schema, ?_⟩
    refine except_bind_eq_ok.mpr ⟨(), require_of P.key, ?_⟩
    refine except_bind_eq_ok.mpr ⟨(), require_of P.actor, ?_⟩
    refine except_bind_eq_ok.mpr ⟨(), require_of P.authorized, ?_⟩
    dsimp only
    split
    · rfl
    · rename_i existing hsome
      have hmatch := P.stored_matches existing hsome
      refine except_bind_eq_ok.mpr ⟨(), require_of ?_, ?_⟩
      · simp only [storedRevisionMatches, decide_eq_true_eq] at hmatch
        exact ⟨hmatch.2.2.2.2.2.2.2.1, hmatch.2.2.2.2.2.1, hmatch.2.2.2.2.2.2.1⟩
      · exact except_bind_eq_ok.mpr ⟨(), require_of hmatch, rfl⟩

theorem prepareCommit_eq_ok {prepared : PreparedCommit}
    (h : prepareCommit options db blobStore input = .ok prepared) :
    Preparable options db input ∧ prepared.toPreparedHeader = preparedHeader options input := by
  unfold prepareCommit at h
  obtain ⟨base, hbase, h⟩ := except_bind_eq_ok.mp h
  obtain ⟨P, rfl⟩ := (prepareHeader_eq_ok options).mp hbase
  obtain ⟨size, _, h⟩ := except_bind_eq_ok.mp h
  cases h
  exact ⟨P, rfl⟩

/-- A successful call: the input was preparable when it was prepared, and the
transaction replayed or accepted it. -/
theorem commitRevisionSeen_cases
    (h : commitRevisionSeen options seen blobStore now input db = .ok result db') :
    ∃ prepared : PreparedCommit, Preparable options seen input ∧
      prepared.toPreparedHeader = preparedHeader options input ∧
      ((∃ existing, Replayed options now prepared existing db result db') ∨
        Accepted options now prepared db result db') := by
  unfold commitRevisionSeen at h
  obtain ⟨prepared, hprepared, h⟩ := check_bind_eq_ok.mp h
  obtain ⟨P, heq⟩ := prepareCommit_eq_ok options hprepared
  exact ⟨prepared, P, heq, commitPrepared_cases options (transaction_eq_ok.mp h)⟩

/-- A failing call leaves the database as it was. -/
theorem commitRevisionSeen_error {e : RepositoryError}
    (h : commitRevisionSeen options seen blobStore now input db = .error e db') : db' = db := by
  unfold commitRevisionSeen at h
  cases hprepared : prepareCommit options seen blobStore input with
  | error e' =>
    rw [hprepared] at h
    cases h
    rfl
  | ok prepared =>
    rw [hprepared] at h
    exact (transaction_eq_error.mp h).1

end Havemind.RevisionCommit
