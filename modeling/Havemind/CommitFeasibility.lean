import Havemind.RevisionCommit

/-!
When the read-only feasibility check and the commit agree on one database. Both
make the same checks in the same order, except that a commit of a stored
revision also reads its idempotency record and rebuilds its receipt, and that a
commit of a new one reads the clock and inserts its rows.
-/
namespace Havemind.CommitFeasibility

open RevisionSchema Transaction ServerDatabase RevisionRepository RevisionCommit List

/-- Success, or the error's code. -/
def outcome {ε σ α : Type} : EStateM.Result ε σ α → Except ε Unit
  | .ok _ _ => .ok ()
  | .error e _ => .error e

theorem outcome_eq_ok {ε σ α : Type} {result : EStateM.Result ε σ α} {u : Unit} :
    outcome result = .ok u ↔ ∃ a s, result = .ok a s := by
  cases result <;> simp [outcome]

theorem outcome_transaction {ε σ α : Type} (body : EStateM ε σ α) (s : σ) :
    outcome (transaction body s) = outcome (body s) := by
  unfold transaction
  cases body s <;> rfl

theorem outcome_bind_error {ε σ α β : Type} {x : EStateM ε σ α} {f : α → EStateM ε σ β} {s s' : σ}
    {e : ε} (h : x s = .error e s') : outcome ((x >>= f) s) = .error e := by
  rw [bind_of_error h]
  rfl

section
variable {db : Database}

/-- The parent rows of a revision nobody knows can be inserted. -/
theorem replaceParents_of {header : ProtectedRevisionHeader} {order : ℕ} {ids : List Id}
    (hnodup : ids.Nodup) (hself : header.revisionId ∉ ids)
    (hchild : ∃ row ∈ db.revisions, row.id = header.revisionId)
    (hparents : ∀ id ∈ ids, ∃ row ∈ db.revisions, row.id = id)
    (hstored : ∀ row ∈ db.revisionParents, row.revisionId = header.revisionId →
      row.parentRevisionId ∉ ids ∧ row.parentOrder < order) :
    replaceParents header order ids db = .ok () (withParents header order ids db) := by
  induction ids generalizing order db with
  | nil => rw [withParents_nil]; rfl
  | cons first rest ih =>
    obtain ⟨hfirst, hrest⟩ := nodup_cons.mp hnodup
    unfold replaceParents
    refine bind_eq_ok.mpr ⟨(), _, guardedWrite_eq_ok.mpr ⟨?_, rfl⟩, ?_⟩
    · refine ⟨?_, ?_, hchild, hparents first (mem_cons_self ..)⟩
      · intro row hrow hid
        obtain ⟨hnot, hlt⟩ := hstored row hrow hid
        exact ⟨fun h => hnot (h ▸ mem_cons_self ..), Nat.ne_of_lt hlt⟩
      · exact fun h => hself (mem_cons.mpr (Or.inl h))
    refine bind_eq_ok.mpr ⟨(), _, guardedWrite_eq_ok.mpr ⟨trivial, rfl⟩, ?_⟩
    rw [withParents_cons]
    refine ih hrest (fun h => hself (mem_cons_of_mem _ h)) hchild
      (fun id hid => hparents id (mem_cons_of_mem _ hid)) ?_
    intro row hrow hid
    rcases mem_append.mp hrow with hold | hnew
    · obtain ⟨hnot, hlt⟩ := hstored row hold hid
      exact ⟨fun h => hnot (mem_cons_of_mem _ h), by omega⟩
    · obtain rfl := mem_singleton.mp hnew
      exact ⟨hfirst, Nat.lt_succ_self _⟩

theorem replaceParentHeads_of {prepared : PreparedHeader}
    (hnodup : prepared.header.parentRevisionIds.Nodup)
    (hself : prepared.header.revisionId ∉ prepared.header.parentRevisionIds)
    (hchild : ∃ row ∈ db.revisions, row.id = prepared.header.revisionId)
    (hparents : ∀ id ∈ prepared.header.parentRevisionIds, ∃ row ∈ db.revisions, row.id = id)
    (hstored : ∀ row ∈ db.revisionParents, row.revisionId ≠ prepared.header.revisionId)
    (hheads : ∀ row ∈ db.fileHeads, row.revisionId ≠ prepared.header.revisionId)
    (hfile : ∃ file ∈ db.files, file.id = prepared.header.fileId) :
    replaceParentHeads prepared db = .ok () (withParentHeads prepared db) := by
  unfold replaceParentHeads
  refine bind_eq_ok.mpr ⟨(), _, replaceParents_of hnodup hself hchild hparents
    (fun row hrow hid => absurd hid (hstored row hrow)), ?_⟩
  refine guardedWrite_eq_ok.mpr ⟨⟨?_, hfile, hchild⟩, rfl⟩
  exact fun hhead => hheads _ (mem_filter.mp hhead).1 rfl

end

section
variable (options : RevisionRepositoryOptions) {prepared : PreparedCommit} {vault : VaultRow}
  {isRoot : Bool} {time : Timestamp} {db : Database}

theorem schemaValid_parents {header : ProtectedRevisionHeader} (h : header.schemaValid = true) :
    header.parentRevisionIds.Nodup ∧ header.revisionId ∉ header.parentRevisionIds := by
  simp only [ProtectedRevisionHeader.schemaValid, decide_eq_true_eq] at h
  exact ⟨h.2.1, h.2.2.1⟩

/-- A new revision that passes every check and whose rows meet no stored key
is committed. -/
theorem commitNewRevision_of (S : db.SchemaHolds)
    (hvalid : prepared.header.schemaValid = true)
    (hauthorized : actorAuthorized db prepared.actor prepared.header = true)
    (hvault : getVault db prepared.header.vaultId = .ok vault)
    (hfree : ∀ row ∈ db.revisions, row.id ≠ prepared.header.revisionId)
    (hkey : getIdempotencyRecord db prepared.toPreparedHeader = none)
    (hpos : 0 < vault.nextServerSequence) (hlast : vault.nextServerSequence < maxSafeInteger)
    (hquota : assertWithinQuota options db prepared vault = .ok ())
    (hgraph : assertFileGraphCommittable db prepared.toPreparedHeader = .ok isRoot)
    (hstorable : Storable prepared isRoot vault time db) :
    commitNewRevision options (some time) prepared vault db =
      .ok ⟨commitReceipt prepared vault.nextServerSequence time, .accepted⟩
        (committed options prepared isRoot vault.nextServerSequence vault.writeEpoch time db) := by
  obtain ⟨hnodup, hself⟩ := schemaValid_parents hvalid
  obtain ⟨hvaultMem, hvaultId, _⟩ := getVault_eq_ok hvault
  have hvaultRow : ∃ row ∈ db.vaults, row.id = prepared.header.vaultId := ⟨vault, hvaultMem, hvaultId⟩
  have hfile := hstorable.revision.file
  have hparents := fileGraph_parents hgraph
  unfold commitNewRevision
  refine check_bind_eq_ok.mpr ⟨time, rfl, ?_⟩
  refine check_bind_eq_ok.mpr ⟨vault.nextServerSequence,
    requireSafeSequence_eq_ok.mpr ⟨rfl, hpos, Nat.le_of_lt hlast⟩, ?_⟩
  refine check_bind_eq_ok.mpr ⟨(), require_of hlast, ?_⟩
  rw [get_bind]
  refine check_bind_eq_ok.mpr ⟨(), hquota, ?_⟩
  refine bind_eq_ok.mpr ⟨(), _, validateAndPrepareFileGraph_eq_ok.mpr
    ⟨isRoot, hgraph, hstorable.file, rfl⟩, ?_⟩
  refine bind_eq_ok.mpr ⟨(), _, insertRevision_eq_ok.mpr
    ⟨hstorable.write_epoch, hstorable.revision, rfl⟩, ?_⟩
  refine bind_eq_ok.mpr ⟨(), _, replaceParentHeads_of hnodup hself ?_ ?_ ?_ ?_ hfile, ?_⟩
  · exact ⟨_, mem_append_right _ (mem_singleton_self _), rfl⟩
  · intro id hid
    obtain ⟨row, hrow, hrowId, _⟩ := hparents id hid
    exact ⟨row, mem_append_left _ hrow, hrowId⟩
  · intro row hrow hid
    obtain ⟨child, hchild, hchildId⟩ := S.parent_child row hrow
    exact hfree child hchild (hchildId.trans hid)
  · intro row hrow hid
    obtain ⟨revision, hrevision, hrevisionId⟩ := S.head_revision row hrow
    exact hfree revision hrevision (hrevisionId.trans hid)
  refine check_bind_eq_ok.mpr ⟨_, parseReceipt_eq_ok.mpr ⟨rfl, hstorable.receipt⟩, ?_⟩
  refine bind_eq_ok.mpr ⟨(), _, insertRevisionEvent_eq_ok.mpr ⟨⟨?_, ?_, hvaultRow, ?_⟩, rfl⟩, ?_⟩
  · exact hstorable.event_free
  · exact hpos
  · intro id hid
    obtain rfl := Option.mem_some.mp hid
    exact ⟨_, mem_append_right _ (mem_singleton_self _), rfl⟩
  refine bind_eq_ok.mpr ⟨(), _, advanceCursor_eq_ok.mpr ⟨hstorable.cursor, rfl⟩, ?_⟩
  refine bind_eq_ok.mpr ⟨(), _, (insertIdempotencyRecord_eq_ok options).mpr ⟨⟨?_, ?_, ?_, ?_⟩, rfl⟩,
    rfl⟩
  · exact getIdempotencyRecord_eq_none.mp hkey
  · simp [recordOf]
  · simp [recordOf]
  · exact (actorAuthorized_rows hauthorized).2

/-- The rows of a new revision meet no stored key and no bound. -/
structure InsertsFree (prepared : PreparedCommit) (vault : VaultRow) (db : Database) : Prop where
  write_epoch : vault.writeEpoch ≤ maxSafeInteger
  hash_free : ∀ stored ∈ db.revisions, stored.protectedHeaderHash ≠ prepared.headerHash
  sequence_free : ∀ stored ∈ db.revisions, ¬ (stored.vaultId = prepared.header.vaultId ∧
    stored.serverSequence = vault.nextServerSequence)
  event_free : ∀ stored ∈ db.vaultEvents, ¬ (stored.vaultId = prepared.header.vaultId ∧
    stored.serverSequence = vault.nextServerSequence)
  blob_size : prepared.blobSize ≤ maxSafeInteger

theorem countP_vault (S : db.SchemaHolds) (hmem : vault ∈ db.vaults) {vaultId : Id}
    (hid : vault.id = vaultId) : db.vaults.countP (fun row => row.id = vaultId ∧
      row.nextServerSequence = vault.nextServerSequence) = 1 := by
  obtain ⟨before, after, hsplit⟩ := append_of_mem hmem
  have hkeys := S.vault_keys
  rw [hsplit, map_append, map_cons] at hkeys
  obtain ⟨_, hafter, hdisjoint⟩ := nodup_append.mp hkeys
  obtain ⟨hnot, _⟩ := nodup_cons.mp hafter
  have hbefore0 : before.countP (fun row => row.id = vaultId ∧
      row.nextServerSequence = vault.nextServerSequence) = 0 := by
    apply countP_eq_zero.mpr
    intro row hrow h
    have hsame : row.id = vaultId := (of_decide_eq_true h).1
    exact hdisjoint row.id (mem_map_of_mem hrow) vault.id (mem_cons_self ..)
      (hsame.trans hid.symm)
  have hafter0 : after.countP (fun row => row.id = vaultId ∧
      row.nextServerSequence = vault.nextServerSequence) = 0 := by
    apply countP_eq_zero.mpr
    intro row hrow h
    have hsame : row.id = vaultId := (of_decide_eq_true h).1
    exact hnot (mem_map.mpr ⟨row, hrow, hsame.trans hid.symm⟩)
  rw [hsplit, countP_append, countP_cons_of_pos (by simp [hid]), hbefore0, hafter0]

theorem storable_iff (S : db.SchemaHolds) (hvalid : prepared.header.schemaValid = true)
    (hauthorized : actorAuthorized db prepared.actor prepared.header = true)
    (hvault : getVault db prepared.header.vaultId = .ok vault)
    (hfree : ∀ row ∈ db.revisions, row.id ≠ prepared.header.revisionId)
    (hlast : vault.nextServerSequence < maxSafeInteger)
    (hgraph : assertFileGraphCommittable db prepared.toPreparedHeader = .ok isRoot) :
    Storable prepared isRoot vault time db ↔ InsertsFree prepared vault db := by
  obtain ⟨hvaultMem, hvaultId, _⟩ := getVault_eq_ok hvault
  have hvaultRow : ∃ row ∈ db.vaults, row.id = prepared.header.vaultId := ⟨vault, hvaultMem, hvaultId⟩
  constructor
  · intro h
    have hreceipt := of_decide_eq_true h.receipt
    exact ⟨h.write_epoch, h.revision.hash_free, h.revision.sequence_free, h.event_free,
      hreceipt.2.2.1⟩
  · intro h
    have hpos := S.vault_sequences vault hvaultMem
    refine ⟨h.write_epoch, ?_, ?_, ?_, h.event_free, countP_vault S hvaultMem hvaultId⟩
    · rintro rfl
      exact ⟨(fileGraph_root hgraph).2, hvaultRow⟩
    · refine ⟨hfree, h.hash_free, h.sequence_free, hpos, hvaultRow, ?_,
        (actorAuthorized_rows hauthorized).1, (actorAuthorized_rows hauthorized).2⟩
      cases isRoot with
      | true => exact ⟨⟨prepared.header.fileId, prepared.header.vaultId⟩, by simp [withFile], rfl⟩
      | false =>
        obtain ⟨file, hmem, hid, _⟩ := (fileGraph_child hgraph).1
        exact ⟨file, by simpa [withFile] using hmem, hid⟩
    · simp only [ProtectedRevisionHeader.schemaValid, decide_eq_true_eq] at hvalid
      exact decide_eq_true ⟨hpos, Nat.le_of_lt hlast, h.blob_size, hvalid.1⟩

end

section
variable (options : RevisionRepositoryOptions) (now : Option Timestamp)

/-- A stored revision can be answered: its receipt is rebuilt, and a record
under the same key was written for the same request and holds that receipt. -/
def ReplayAnswerable (prepared : PreparedCommit) (existing : RevisionRow) (db : Database) : Prop :=
  ∃ time, existing.acceptedAt = some time ∧
    (commitReceipt prepared existing.serverSequence time).schemaValid = true ∧
    ((getIdempotencyRecord db prepared.toPreparedHeader = none ∧ now ≠ none) ∨
      ∃ record result, getIdempotencyRecord db prepared.toPreparedHeader = some record ∧
        record.requestHash = prepared.requestHash ∧ record.responseBody = some result ∧
        result.receipt.schemaValid = true ∧
        sameReceipt result.receipt (commitReceipt prepared existing.serverSequence time) = true)

/-- What a commit needs beyond the checks it shares with the feasibility
check. -/
structure Answerable (prepared : PreparedCommit) (vault : VaultRow) (db : Database) : Prop where
  replay : ∀ existing, getExistingRevision db prepared.header.revisionId = some existing →
    storedRevisionMatches existing prepared = true →
      ReplayAnswerable now prepared existing db
  clock : getExistingRevision db prepared.header.revisionId = none →
    getIdempotencyRecord db prepared.toPreparedHeader = none → now ≠ none
  inserts : getExistingRevision db prepared.header.revisionId = none →
    getIdempotencyRecord db prepared.toPreparedHeader = none →
      assertWithinQuota options db prepared vault = .ok () →
        ∀ isRoot, assertFileGraphCommittable db prepared.toPreparedHeader = .ok isRoot →
          InsertsFree prepared vault db

/-- The feasibility check and the commit give the same answer. -/
def Agrees (blobStore : BlobHash → BlobRead) (db : Database) (input : CommitRevisionInput)
    (blobSize : ℕ) : Prop :=
  assertCommittable options db input blobSize =
    outcome (commitRevision options blobStore now input db)

variable {options} {now} {prepared : PreparedCommit} {existing : RevisionRow} {vault : VaultRow}
  {db : Database}

theorem receiptFromStoredRevision_of_matches (hvalid : prepared.header.schemaValid = true)
    (hbytes : prepared.headerBytes = .canonicalJson prepared.header)
    (hmatch : storedRevisionMatches existing prepared = true) :
    receiptFromStoredRevision existing = match existing.acceptedAt with
      | none => .error .repositoryIntegrity
      | some time =>
          if (commitReceipt prepared existing.serverSequence time).schemaValid then
            .ok (commitReceipt prepared existing.serverSequence time)
          else .error .repositoryIntegrity := by
  simp only [storedRevisionMatches, decide_eq_true_eq] at hmatch
  obtain ⟨hid, _, _, hmember, hdevice, _, hheader, hblob, hsize⟩ := hmatch
  have hparse : existing.protectedHeader.parse = some prepared.header := by
    rw [hheader, hbytes]
    exact if_pos hvalid
  unfold receiptFromStoredRevision
  rw [hparse]
  cases existing.acceptedAt with
  | none => rfl
  | some time =>
    simp only [commitReceipt, hid, hmember, hdevice, hblob, hsize]
    rfl

/-- A replay succeeds exactly when it is answerable. -/
theorem outcome_replayExisting (hvalid : prepared.header.schemaValid = true)
    (hbytes : prepared.headerBytes = .canonicalJson prepared.header)
    (hdevice : ∃ row ∈ db.devices, row.id = prepared.actor.deviceId)
    (hmatch : storedRevisionMatches existing prepared = true) :
    outcome (replayExisting options now prepared existing
      (getIdempotencyRecord db prepared.toPreparedHeader) db) = .ok () ↔
        ReplayAnswerable now prepared existing db := by
  rw [outcome_eq_ok]
  have hreceipt := receiptFromStoredRevision_of_matches hvalid hbytes hmatch
  constructor
  · rintro ⟨result, db', h⟩
    unfold replayExisting at h
    obtain ⟨_, _, h⟩ := check_bind_eq_ok.mp h
    obtain ⟨receipt, hrebuilt, h⟩ := check_bind_eq_ok.mp h
    rw [hreceipt] at hrebuilt
    split at hrebuilt
    · cases hrebuilt
    · rename_i time htime
      split at hrebuilt
      · rename_i hok
        cases hrebuilt
        refine ⟨time, htime, hok, ?_⟩
        cases hrecord : getIdempotencyRecord db prepared.toPreparedHeader with
        | none =>
          rw [hrecord] at h
          obtain ⟨_, hclock, _⟩ := check_bind_eq_ok.mp h
          refine Or.inl ⟨rfl, ?_⟩
          rw [readNow_eq_ok.mp hclock]
          exact Option.some_ne_none _
        | some record =>
          rw [hrecord] at h
          obtain ⟨_, hrequest, h⟩ := check_bind_eq_ok.mp h
          obtain ⟨hparse, _⟩ := check_eq_ok.mp h
          unfold parseStoredResult at hparse
          split at hparse
          · cases hparse
          · rename_i stored hbody
            split at hparse
            · rename_i hsame
              exact Or.inr ⟨record, stored, rfl, require_eq_ok.mp hrequest, hbody, hsame⟩
            · cases hparse
      · cases hrebuilt
  · rintro ⟨time, htime, hok, hrecord⟩
    rw [htime] at hreceipt
    simp only [hok, if_true] at hreceipt
    unfold replayExisting
    rcases hrecord with ⟨hnone, hclock⟩ | ⟨record, result, hsome, hrequest, hbody, hsame⟩
    · obtain ⟨time', rfl⟩ := Option.ne_none_iff_exists'.mp hclock
      rw [hnone]
      refine ⟨_, _, check_bind_eq_ok.mpr ⟨(), require_of hmatch, check_bind_eq_ok.mpr
        ⟨_, hreceipt, check_bind_eq_ok.mpr ⟨time', rfl, bind_eq_ok.mpr
          ⟨(), _, (insertIdempotencyRecord_eq_ok options).mpr ⟨?_, rfl⟩, rfl⟩⟩⟩⟩⟩
      exact ⟨getIdempotencyRecord_eq_none.mp hnone, by simp [recordOf], by simp [recordOf], hdevice⟩
    · rw [hsome]
      refine ⟨result, db, check_bind_eq_ok.mpr ⟨(), require_of hmatch, check_bind_eq_ok.mpr
        ⟨_, hreceipt, check_bind_eq_ok.mpr ⟨(), require_of hrequest, check_eq_ok.mpr ⟨?_, rfl⟩⟩⟩⟩⟩
      rw [hbody]
      exact if_pos hsame

theorem assertParents_error {vaultId fileId : Id} {ids : List Id} {error : RepositoryError}
    (h : assertParents db vaultId fileId ids = .error error) :
    error = .missingParent ∨ error = .parentFileMismatch := by
  induction ids with
  | nil => cases h
  | cons first rest ih =>
    unfold assertParents at h
    split at h
    · cases h
      exact .inl rfl
    · split at h
      · cases h
        exact .inr rfl
      · exact ih h

/-- The reasons a revision does not fit its file's graph. -/
theorem fileGraph_error {prepared : PreparedHeader} {error : RepositoryError}
    (h : assertFileGraphCommittable db prepared = .error error) :
    error ∈ [.fileAlreadyExists, .missingParent, .parentFileMismatch, .headSetChanged] := by
  unfold assertFileGraphCommittable at h
  dsimp only at h
  split at h
  · split at h
    · split at h <;> cases h <;> decide
    · cases h
  · split at h
    · cases h
      decide
    · split at h
      · cases h
        decide
      · cases hparents : assertParents db prepared.header.vaultId prepared.header.fileId
            prepared.header.parentRevisionIds with
        | error first =>
          rw [hparents] at h
          cases h
          rcases assertParents_error hparents with rfl | rfl <;> decide
        | ok _ =>
          simp only [hparents, bind, Except.bind] at h
          split at h <;> cases h
          decide

section
variable (hauthorized : actorAuthorized db prepared.actor prepared.header = true)
  (hvault : getVault db prepared.header.vaultId = .ok vault)
include hauthorized hvault

theorem commitPrepared_stored
    (hfound : getExistingRevision db prepared.header.revisionId = some existing) :
    commitPrepared options now prepared db = replayExisting options now prepared existing
      (getIdempotencyRecord db prepared.toPreparedHeader) db := by
  simp only [commitPrepared, get_bind, assertAuthorizedActor, require_of hauthorized, hvault,
    bind_of_ok (check_ok _ db), hfound]

variable (hfound : getExistingRevision db prepared.header.revisionId = none)
include hfound

theorem commitPrepared_recorded {record : IdempotencyRow}
    (hkey : getIdempotencyRecord db prepared.toPreparedHeader = some record) :
    commitPrepared options now prepared db =
      (do check (assertIdempotencyRequest record prepared.toPreparedHeader)
          throw RepositoryError.repositoryIntegrity) db := by
  simp only [commitPrepared, get_bind, assertAuthorizedActor, require_of hauthorized, hvault,
    bind_of_ok (check_ok _ db), hfound, hkey]

theorem commitPrepared_new (hkey : getIdempotencyRecord db prepared.toPreparedHeader = none) :
    commitPrepared options now prepared db = commitNewRevision options now prepared vault db := by
  simp only [commitPrepared, get_bind, assertAuthorizedActor, require_of hauthorized, hvault,
    bind_of_ok (check_ok _ db), hfound, hkey]

omit hfound in
theorem assertWouldCommit_stored
    (hfound : getExistingRevision db prepared.header.revisionId = some existing) :
    assertWouldCommit options db prepared = assertStoredRevisionMatches existing prepared := by
  simp only [assertWouldCommit, assertAuthorizedActor, require_of hauthorized, hvault, bind,
    Except.bind, hfound]

theorem assertWouldCommit_recorded {record : IdempotencyRow}
    (hkey : getIdempotencyRecord db prepared.toPreparedHeader = some record) :
    assertWouldCommit options db prepared =
      (do assertIdempotencyRequest record prepared.toPreparedHeader
          .error .repositoryIntegrity) := by
  simp only [assertWouldCommit, assertAuthorizedActor, require_of hauthorized, hvault, bind,
    Except.bind, hfound, hkey]

theorem assertWouldCommit_new (hkey : getIdempotencyRecord db prepared.toPreparedHeader = none) :
    assertWouldCommit options db prepared =
      (do assertWithinQuota options db prepared vault
          let _ ← assertFileGraphCommittable db prepared.toPreparedHeader
          return ()) := by
  simp only [assertWouldCommit, assertAuthorizedActor, require_of hauthorized, hvault, bind,
    Except.bind, hfound, hkey]

end

/-- A new revision is committed where the feasibility check passes, exactly
when its rows can be inserted. -/
theorem agrees_new (S : db.SchemaHolds) (hvalid : prepared.header.schemaValid = true)
    (hauthorized : actorAuthorized db prepared.actor prepared.header = true)
    (hvault : getVault db prepared.header.vaultId = .ok vault)
    (hfree : ∀ row ∈ db.revisions, row.id ≠ prepared.header.revisionId)
    (hkey : getIdempotencyRecord db prepared.toPreparedHeader = none)
    (hlast : vault.nextServerSequence < maxSafeInteger) (time : Timestamp) :
    (do assertWithinQuota options db prepared vault
        let _ ← assertFileGraphCommittable db prepared.toPreparedHeader
        return ()) = outcome (commitNewRevision options (some time) prepared vault db) ↔
      (assertWithinQuota options db prepared vault = .ok () →
        ∀ isRoot, assertFileGraphCommittable db prepared.toPreparedHeader = .ok isRoot →
          InsertsFree prepared vault db) := by
  have hpos := S.vault_sequences vault (getVault_eq_ok hvault).1
  have hsequence : requireSafeSequence vault.nextServerSequence = .ok vault.nextServerSequence :=
    requireSafeSequence_eq_ok.mpr ⟨rfl, hpos, Nat.le_of_lt hlast⟩
  have hrun : commitNewRevision options (some time) prepared vault db =
      (do check (assertWithinQuota options db prepared vault)
          validateAndPrepareFileGraph prepared.toPreparedHeader
          insertRevision prepared vault vault.nextServerSequence time
          replaceParentHeads prepared.toPreparedHeader
          let receipt ← check (parseReceipt (commitReceipt prepared vault.nextServerSequence time))
          insertRevisionEvent prepared.toPreparedHeader receipt
          advanceCursor prepared.header.vaultId vault.nextServerSequence
          insertIdempotencyRecord options prepared.toPreparedHeader ⟨receipt, .accepted⟩ 201 time
          return (⟨receipt, .accepted⟩ : CommitRevisionResult)) db := by
    unfold commitNewRevision
    rw [readNow, bind_of_ok (check_ok time db), hsequence,
      bind_of_ok (check_ok vault.nextServerSequence db), require_of hlast,
      bind_of_ok (check_ok () db), get_bind]
  cases hquota : assertWithinQuota options db prepared vault with
  | error e =>
    rw [hrun, hquota, outcome_bind_error (check_error e db)]
    simp [bind, Except.bind]
  | ok u =>
    cases hgraph : assertFileGraphCommittable db prepared.toPreparedHeader with
    | error e =>
      have hfail : validateAndPrepareFileGraph prepared.toPreparedHeader db = .error e db := by
        unfold validateAndPrepareFileGraph
        rw [get_bind, hgraph, bind_of_error (check_error e db)]
      rw [hrun, hquota, bind_of_ok (check_ok u db), outcome_bind_error hfail]
      simp [bind, Except.bind]
    | ok isRoot =>
      have hstorable : Storable prepared isRoot vault time db ↔ InsertsFree prepared vault db :=
        storable_iff S hvalid hauthorized hvault hfree hlast hgraph
      constructor
      · intro hagree _ root hroot
        cases hroot
        obtain ⟨result, db', hcommit⟩ := outcome_eq_ok.mp hagree.symm
        obtain ⟨root, time', hnew⟩ := commitNewRevision_newCommit options hcommit
        cases hnew.clock
        have hsame : root = isRoot := Except.ok.inj (hnew.graph.symm.trans hgraph)
        subst hsame
        exact hstorable.mp hnew.storable
      · intro hinserts
        refine (outcome_eq_ok.mpr ⟨_, _, commitNewRevision_of options S hvalid hauthorized hvault
          hfree hkey hpos hlast hquota hgraph (hstorable.mpr (hinserts rfl isRoot rfl))⟩).symm

/-- After the checks that both share, they agree exactly when the revision is
answerable. -/
theorem agrees_prepared (S : db.SchemaHolds) (hvalid : prepared.header.schemaValid = true)
    (hbytes : prepared.headerBytes = .canonicalJson prepared.header)
    (hauthorized : actorAuthorized db prepared.actor prepared.header = true)
    (hvault : getVault db prepared.header.vaultId = .ok vault)
    (hlast : vault.nextServerSequence < maxSafeInteger) :
    assertWouldCommit options db prepared = outcome (commitPrepared options now prepared db) ↔
      Answerable options now prepared vault db := by
  cases hfound : getExistingRevision db prepared.header.revisionId with
  | some existing =>
    rw [commitPrepared_stored hauthorized hvault hfound,
      assertWouldCommit_stored hauthorized hvault hfound]
    by_cases hmatch : storedRevisionMatches existing prepared = true
    · rw [assertStoredRevisionMatches, require_of hmatch, eq_comm, outcome_replayExisting hvalid
        hbytes (actorAuthorized_rows hauthorized).2 hmatch]
      constructor
      · intro h
        refine ⟨?_, fun hnone => absurd (hfound.symm.trans hnone) (Option.some_ne_none existing),
          fun hnone => absurd (hfound.symm.trans hnone) (Option.some_ne_none existing)⟩
        rintro existing' hfound' _
        cases hfound.symm.trans hfound'
        exact h
      · exact fun h => h.replay existing hfound hmatch
    · have hfail : check (assertStoredRevisionMatches existing prepared) db =
          .error .revisionIdReuse db := by
        rw [assertStoredRevisionMatches, require_of_not hmatch, check_error]
      unfold replayExisting
      rw [outcome_bind_error hfail, assertStoredRevisionMatches, require_of_not hmatch]
      refine iff_of_true rfl ⟨?_, fun hnone => absurd (hfound.symm.trans hnone) (Option.some_ne_none existing),
        fun hnone => absurd (hfound.symm.trans hnone) (Option.some_ne_none existing)⟩
      intro existing' hfound' hmatch'
      cases hfound.symm.trans hfound'
      exact absurd hmatch' hmatch
  | none =>
    have hreplay : ∀ existing, getExistingRevision db prepared.header.revisionId = some existing →
        storedRevisionMatches existing prepared = true →
          ReplayAnswerable now prepared existing db :=
      fun existing hsome => absurd (hsome.symm.trans hfound) (Option.some_ne_none existing)
    cases hkey : getIdempotencyRecord db prepared.toPreparedHeader with
    | some record =>
      rw [commitPrepared_recorded hauthorized hvault hfound hkey,
        assertWouldCommit_recorded hauthorized hvault hfound hkey]
      have hfalse : getIdempotencyRecord db prepared.toPreparedHeader ≠ none := by
        rw [hkey]
        exact Option.some_ne_none record
      refine iff_of_true ?_ ⟨hreplay, fun _ h => absurd h hfalse, fun _ h => absurd h hfalse⟩
      by_cases hrequest : record.requestHash = prepared.requestHash
      · rw [assertIdempotencyRequest, require_of hrequest, bind_of_ok (check_ok () db)]
        rfl
      · rw [assertIdempotencyRequest, require_of_not hrequest, outcome_bind_error (check_error _ db)]
        rfl
    | none =>
      rw [commitPrepared_new hauthorized hvault hfound hkey,
        assertWouldCommit_new hauthorized hvault hfound hkey]
      cases now with
      | none =>
        refine iff_of_false ?_ fun h => h.clock hfound hkey rfl
        unfold commitNewRevision
        rw [readNow, outcome_bind_error (check_error _ db)]
        cases hquota : assertWithinQuota options db prepared vault with
        | error e =>
          unfold assertWithinQuota require at hquota
          split at hquota <;> cases hquota
          intro h
          cases h
        | ok u =>
          cases hgraph : assertFileGraphCommittable db prepared.toPreparedHeader with
          | error e =>
            intro h
            cases h
            exact absurd (fileGraph_error hgraph) (by decide)
          | ok isRoot =>
            intro h
            cases h
      | some time =>
        rw [agrees_new S hvalid hauthorized hvault (getExistingRevision_eq_none.mp hfound) hkey hlast
          time]
        exact ⟨fun h => ⟨hreplay, fun _ _ => Option.some_ne_none time, fun _ _ => h⟩,
          fun h => h.inserts hfound hkey⟩

end

/-- The feasibility check gives the commit's answer exactly when an input that
passes the checks both make, in a live vault, is answerable. -/
theorem assertCommittable_agrees_iff (options : RevisionRepositoryOptions)
    (blobStore : BlobHash → BlobRead) (now : Option Timestamp) (db : Database)
    (input : CommitRevisionInput) (blobSize : ℕ) (hschema : db.SchemaHolds)
    (hblob : commitBlobSize blobStore input.blobHash input.blobSize = .ok blobSize)
    (hlast : ∀ vault, getVault db input.header.vaultId = .ok vault →
      vault.nextServerSequence < maxSafeInteger) :
    Agrees options now blobStore db input blobSize ↔
      (Preparable options db input → ∀ vault, getVault db input.header.vaultId = .ok vault →
        Answerable options now { preparedHeader options input with blobSize } vault db) := by
  unfold Agrees assertCommittable commitRevision commitRevisionSeen
  cases hprepared : prepareHeader options db input with
  | error e =>
    have hcommit : prepareCommit options db blobStore input = .error e := by
      unfold prepareCommit
      rw [hprepared]
      rfl
    refine iff_of_true ?_ ?_
    · rw [hcommit, outcome_bind_error (check_error e db)]
      rfl
    · intro P
      have hok := (prepareHeader_eq_ok options).mpr ⟨P, rfl⟩
      rw [hprepared] at hok
      cases hok
  | ok base =>
    obtain ⟨P, rfl⟩ := (prepareHeader_eq_ok options).mp hprepared
    have hcommit : prepareCommit options db blobStore input =
        .ok { preparedHeader options input with blobSize } := by
      unfold prepareCommit
      exact except_bind_eq_ok.mpr ⟨_, hprepared, except_bind_eq_ok.mpr ⟨blobSize, hblob, rfl⟩⟩
    rw [hcommit, bind_of_ok (check_ok _ db), outcome_transaction]
    cases hvault : getVault db input.header.vaultId with
    | error e =>
      refine iff_of_true ?_ fun _ vault h => by cases h
      have hsame : getVault db (preparedHeader options input).header.vaultId = .error e := hvault
      have hactor : assertAuthorizedActor db (preparedHeader options input).actor
          (preparedHeader options input).header = .ok () := require_of P.authorized
      unfold commitPrepared
      rw [get_bind, hactor, bind_of_ok (check_ok () db), hsame, outcome_bind_error (check_error e db)]
      simp only [bind, Except.bind]
      unfold assertWouldCommit
      rw [hactor, hsame]
      rfl
    | ok vault =>
      refine (agrees_prepared hschema P.schema rfl P.authorized hvault (hlast vault hvault)).trans
        ⟨?_, fun h => h P vault rfl⟩
      intro h _ vault' hvault'
      cases hvault'
      exact h

/-- Two roots of the same device, stored under their own keys. -/
def reuseDatabase : Database :=
  afterCalls exampleOptions exampleDatabase [exampleCall 9 64 [], exampleCall 10 66 []]

/-- The first root again, under the second one's key. -/
def reuseInput : CommitRevisionInput :=
  { (exampleCall 9 64 []).input with idempotencyKey := [66] }

theorem assertCommittable_accepts_reused_key :
    assertCommittable exampleOptions reuseDatabase reuseInput 3 = .ok () ∧
      outcome (commitRevision exampleOptions (fun _ => .verified 3) (some 70) reuseInput
        reuseDatabase) = .error .idempotencyKeyReuse ∧
      ¬ Agrees exampleOptions (some 70) (fun _ => .verified 3) reuseDatabase reuseInput 3 := by
  have hcheck : assertCommittable exampleOptions reuseDatabase reuseInput 3 = .ok () := rfl
  have hcommit : outcome (commitRevision exampleOptions (fun _ => .verified 3) (some 70) reuseInput
      reuseDatabase) = .error .idempotencyKeyReuse := rfl
  refine ⟨hcheck, hcommit, ?_⟩
  unfold Agrees
  rw [hcheck, hcommit]
  exact nofun

theorem assertCommittable_agrees_iff_reused_key :
    Agrees exampleOptions (some 70) (fun _ => .verified 3) reuseDatabase reuseInput 3 ↔
      (Preparable exampleOptions reuseDatabase reuseInput →
        ∀ vault, getVault reuseDatabase reuseInput.header.vaultId = .ok vault →
          Answerable exampleOptions (some 70)
            { preparedHeader exampleOptions reuseInput with blobSize := 3 } vault reuseDatabase) :=
  assertCommittable_agrees_iff exampleOptions (fun _ => .verified 3) (some 70) reuseDatabase
    reuseInput 3
    ⟨by decide, by decide, by decide, by decide, by decide, by decide, by decide, by decide,
      by decide⟩ rfl
    (fun vault h => by
      have hvault : getVault reuseDatabase reuseInput.header.vaultId =
          .ok ⟨1, 0, 3, none, none⟩ := rfl
      rw [hvault] at h
      cases h
      decide)

end Havemind.CommitFeasibility
