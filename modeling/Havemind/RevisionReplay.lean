import Havemind.PushRoute
import Havemind.RevisionCommit
import Mathlib.Logic.Relation

/-!
Sending an accepted revision again. Whatever happens to the database later, the
stored revision keeps its row, and any idempotency record under its key holds
its receipt, also after the first record was pruned and a later replay wrote
another. So each replay answers with the first receipt.
-/
namespace Havemind.RevisionReplay

open RevisionSchema Transaction ServerDatabase RevisionRepository RevisionCommit PushRoute List

variable (options : RevisionRepositoryOptions) (actor : AuthenticatedRevisionActor)
  (revision : HashedRevisionInput)

/-- What preparing the revision's commit yields. -/
def pushedCommit : PreparedCommit :=
  { preparedHeader options (revision.commitInput actor) with blobSize := revision.byteLength }

/-- A push that the first one cannot be confused with. -/
def OtherPush (input : CommitRevisionInput) : Prop :=
  input.actor.deviceId ≠ actor.deviceId ∨ input.idempotencyKey ≠ revision.idempotencyKey

/-- What may happen to the database between two sends. Accounts and vault rows
may change in any way. -/
inductive LaterStep : Database → Database → Prop
  | commit {seen db db' : Database} {blobStore : BlobHash → BlobRead} {now : Option Timestamp}
      {input : CommitRevisionInput} {result : CommitRevisionResult} :
      OtherPush actor revision input →
      commitRevisionSeen options seen blobStore now input db = .ok result db' → LaterStep db db'
  | resend {context : PushContext} {db db' : Database} {result : CommitRevisionResult} :
      pushRevision options context actor revision db = .ok result db' → LaterStep db db'
  | prune {db : Database} (cutoff : Timestamp) :
      LaterStep db { db with
        idempotencyRecords := db.idempotencyRecords.filter fun row => ¬ row.expiresAt < cutoff }
  | administer {db : Database} (users : List UserRow) (devices : List DeviceRow)
      (memberships : List MembershipRow) (vaults : List VaultRow) :
      LaterStep db { db with users, devices, memberships, vaults }

def Later : Database → Database → Prop := Relation.ReflTransGen (LaterStep options actor revision)

/-- The revision as it was stored, and the receipt it was answered with. -/
structure StoredAs (row : RevisionRow) (receipt : OpaqueBlobReceipt) : Prop where
  matching : storedRevisionMatches row
    (pushedCommit options actor revision) = true
  receipt_eq : receiptFromStoredRevision row = .ok receipt
  receipt_valid : receipt.schemaValid = true

/-- What every later database keeps of the accepted revision. -/
structure Kept (row : RevisionRow) (receipt : OpaqueBlobReceipt) (db : Database) : Prop where
  found : getExistingRevision db revision.header.revisionId = some row
  records : ∀ record ∈ db.idempotencyRecords, record.deviceId = actor.deviceId →
    record.idempotencyKey = revision.idempotencyKey →
      record.requestHash = options.digests.requestHash actor revision.blobHash revision.header ∧
      ∃ status, record.responseBody = some ⟨receipt, status⟩

section
variable {options} {actor} {revision} {db : Database} {blobStore : BlobHash → BlobRead}
  {db' : Database} {result : CommitRevisionResult}

theorem pushRevision_eq_ok {context : PushContext} :
    pushRevision options context actor revision db =
        .ok result db' ↔
      assertCommittable options context.checked (revision.commitInput actor) revision.byteLength =
          .ok () ∧ context.stored = .ok () ∧
        commitRevisionSeen options context.seen context.blobStore context.now
          (revision.commitInput actor) db = .ok result db' := by
  unfold pushRevision
  simp only [check_bind_eq_ok]
  constructor
  · rintro ⟨_, hcheck, _, hstored, h⟩
    exact ⟨hcheck, hstored, h⟩
  · rintro ⟨hcheck, hstored, h⟩
    exact ⟨(), hcheck, (), hstored, h⟩

/-- Preparing a push keeps its payload's length. -/
theorem prepareCommit_push {prepared : PreparedCommit}
    (h : prepareCommit options db blobStore (revision.commitInput actor) = .ok prepared) :
    Preparable options db (revision.commitInput actor) ∧
      prepared = pushedCommit options actor revision := by
  unfold prepareCommit at h
  obtain ⟨base, hbase, h⟩ := except_bind_eq_ok.mp h
  obtain ⟨P, rfl⟩ := (prepareHeader_eq_ok options).mp hbase
  cases h
  exact ⟨P, rfl⟩

theorem prepareCommit_push_of (P : Preparable options db (revision.commitInput actor)) :
    prepareCommit options db blobStore (revision.commitInput actor) =
      .ok (pushedCommit options actor revision) := by
  unfold prepareCommit
  exact except_bind_eq_ok.mpr ⟨_, (prepareHeader_eq_ok options).mpr ⟨P, rfl⟩, rfl⟩

/-- The outcome of a push that was accepted or replayed. -/
theorem commitRevisionSeen_push {seen : Database} {now : Option Timestamp}
    (h : commitRevisionSeen options seen blobStore now (revision.commitInput actor) db =
      .ok result db') :
    Preparable options seen (revision.commitInput actor) ∧
      commitPrepared options now (pushedCommit options actor revision) db = .ok result db' := by
  unfold commitRevisionSeen at h
  obtain ⟨prepared, hprepared, h⟩ := check_bind_eq_ok.mp h
  obtain ⟨P, rfl⟩ := prepareCommit_push hprepared
  exact ⟨P, transaction_eq_ok.mp h⟩

end

section
variable {options} {actor} {revision} {row : RevisionRow} {receipt : OpaqueBlobReceipt}
  {db db' : Database} {result : CommitRevisionResult} {now : Option Timestamp}

theorem getExistingRevision_append {id : Id} (rows : List RevisionRow)
    (h : getExistingRevision db id = some row) :
    getExistingRevision { db with revisions := db.revisions ++ rows } id = some row := by
  unfold getExistingRevision at h ⊢
  simp only [List.find?_append, h, Option.some_or]

theorem getExistingRevision_appended (row : RevisionRow)
    (h : getExistingRevision db row.id = none) :
    getExistingRevision { db with revisions := db.revisions ++ [row] } row.id = some row := by
  unfold getExistingRevision at h ⊢
  simp only [List.find?_append, h, Option.none_or]
  simp

/-- A record under another key is no record of this revision. -/
theorem Kept.addOther (K : Kept options actor revision row receipt db) {record : IdempotencyRow}
    (h : record.deviceId ≠ actor.deviceId ∨ record.idempotencyKey ≠ revision.idempotencyKey) :
    Kept options actor revision row receipt
      { db with idempotencyRecords := db.idempotencyRecords ++ [record] } := by
  refine ⟨K.found, ?_⟩
  intro stored hstored hdevice hkey
  rcases mem_append.mp hstored with hold | hnew
  · exact K.records stored hold hdevice hkey
  · obtain rfl := mem_singleton.mp hnew
    rcases h with h | h
    · exact absurd hdevice h
    · exact absurd hkey h

theorem Kept.commit (K : Kept options actor revision row receipt db) {seen : Database}
    {blobStore : BlobHash → BlobRead} {input : CommitRevisionInput}
    (hother : OtherPush actor revision input)
    (h : commitRevisionSeen options seen blobStore now input db = .ok result db') :
    Kept options actor revision row receipt db' := by
  obtain ⟨prepared, _, hprepared, hcases⟩ := commitRevisionSeen_cases options h
  have hkey : ∀ (result : CommitRevisionResult) (status : ℕ) (time : Timestamp),
      (recordOf options prepared.toPreparedHeader result status time).deviceId ≠ actor.deviceId ∨
      (recordOf options prepared.toPreparedHeader result status time).idempotencyKey ≠
        revision.idempotencyKey := by
    intro result status time
    rw [hprepared]
    exact hother
  rcases hcases with ⟨existing, hreplayed⟩ | haccepted
  · obtain ⟨_, _, ⟨_, _, _, _, rfl⟩ | ⟨_, _, _, _, rfl⟩⟩ := hreplayed.answer
    · exact K
    · exact K.addOther (hkey _ _ _)
  · obtain ⟨vault, isRoot, time, _, hnew⟩ := haccepted.new
    rw [hnew.effect]
    refine ⟨getExistingRevision_append _ K.found, ?_⟩
    exact (K.addOther (hkey _ _ _)).records

/-- Sending the revision again finds its row, so nothing is committed twice. -/
theorem Kept.resend (S : StoredAs options actor revision row receipt)
    (K : Kept options actor revision row receipt db) {context : PushContext}
    (h : pushRevision options context actor revision db = .ok result db') :
    Kept options actor revision row receipt db' := by
  obtain ⟨_, hcommit⟩ := commitRevisionSeen_push (pushRevision_eq_ok.mp h).2.2
  rcases commitPrepared_cases options hcommit with ⟨existing, hreplayed⟩ | haccepted
  · have hrow : existing = row := Option.some_inj.mp (hreplayed.found.symm.trans K.found)
    subst hrow
    obtain ⟨receipt', hreceipt, ⟨_, _, _, _, rfl⟩ | ⟨time, hnone, _, rfl, rfl⟩⟩ := hreplayed.answer
    · exact K
    · have hsame : receipt' = receipt := Except.ok.inj (hreceipt.symm.trans S.receipt_eq)
      subst hsame
      refine ⟨K.found, ?_⟩
      intro stored hstored hdevice hkey
      rcases mem_append.mp hstored with hold | hnew
      · exact K.records stored hold hdevice hkey
      · obtain rfl := mem_singleton.mp hnew
        exact ⟨rfl, .replayed, rfl⟩
  · obtain ⟨hmem, hid⟩ := getExistingRevision_eq_some K.found
    exact absurd hid (haccepted.id_free row hmem)

theorem Kept.step (S : StoredAs options actor revision row receipt)
    (K : Kept options actor revision row receipt db)
    (h : LaterStep options actor revision db db') : Kept options actor revision row receipt db' := by
  cases h with
  | commit hother hcommit => exact K.commit hother hcommit
  | resend hpush => exact K.resend S hpush
  | prune cutoff =>
    exact ⟨K.found, fun record hrecord => K.records record (mem_filter.mp hrecord).1⟩
  | administer => exact ⟨K.found, K.records⟩

theorem Kept.later (S : StoredAs options actor revision row receipt)
    (K : Kept options actor revision row receipt db) (h : Later options actor revision db db') :
    Kept options actor revision row receipt db' := by
  induction h with
  | refl => exact K
  | tail _ hstep ih => exact ih.step S hstep

/-- An accepted revision is stored with the receipt it was answered with. -/
theorem kept_of_accepted (hvalid : revision.header.schemaValid = true)
    (h : Accepted options now (pushedCommit options actor revision) db result db') :
    ∃ row, StoredAs options actor revision row result.receipt ∧
      Kept options actor revision row result.receipt db' := by
  obtain ⟨vault, isRoot, time, _, hnew⟩ := h.new
  have hreceipt := hnew.storable.receipt
  have hnone := getExistingRevision_eq_none.mpr h.id_free
  obtain rfl := hnew.result_eq
  refine ⟨revisionRow (pushedCommit options actor revision) vault.nextServerSequence
    vault.writeEpoch time, ⟨by simp [storedRevisionMatches, revisionRow], ?_, hreceipt⟩, ?_, ?_⟩
  · have hparse : (HeaderBytes.canonicalJson revision.header).parse = some revision.header :=
      if_pos hvalid
    simp only [receiptFromStoredRevision, revisionRow, pushedCommit, preparedHeader,
      HashedRevisionInput.commitInput, hparse]
    exact if_pos hreceipt
  · rw [hnew.effect]
    exact getExistingRevision_appended (revisionRow (pushedCommit options actor revision)
      vault.nextServerSequence vault.writeEpoch time) hnone
  · intro record hrecord hdevice hkey
    rw [hnew.effect] at hrecord
    rcases mem_append.mp hrecord with hold | hlast
    · exact absurd ⟨hdevice, hkey⟩ (getIdempotencyRecord_eq_none.mp h.key_free record hold)
    · obtain rfl := mem_singleton.mp hlast
      exact ⟨rfl, .accepted, rfl⟩

end

/-- Nothing but idempotency records differs: no head, sequence, event, parent
edge or charged byte. -/
structure SameGraph (db db' : Database) : Prop where
  fileHeads : db'.fileHeads = db.fileHeads
  vaults : db'.vaults = db.vaults
  vaultEvents : db'.vaultEvents = db.vaultEvents
  revisionParents : db'.revisionParents = db.revisionParents
  revisions : db'.revisions = db.revisions
  storage : ∀ vaultId, computeVaultStorageBytes db' vaultId = computeVaultStorageBytes db vaultId

/-- The device and its member may still push to the vault, which is live. -/
structure MayPush (db : Database) : Prop where
  authorized : actorAuthorized db actor revision.header = true
  live : ∃ vault, getVault db revision.header.vaultId = .ok vault

section
variable {options} {actor} {revision} {row : RevisionRow} {receipt : OpaqueBlobReceipt}
  {db : Database}

variable (K : Kept options actor revision row receipt db)
include K

theorem Kept.storedRow {existing : RevisionRow}
    (h : getExistingRevision db revision.header.revisionId = some existing) : existing = row :=
  Option.some_inj.mp (h.symm.trans K.found)

variable (S : StoredAs options actor revision row receipt)
include S

omit K in
theorem StoredAs.blobSize : row.blobSize = revision.byteLength := by
  have h := S.matching
  simp only [storedRevisionMatches, decide_eq_true_eq] at h
  exact h.2.2.2.2.2.2.2.2

omit S in
omit K in
theorem sameReceipt_self (receipt : OpaqueBlobReceipt) : sameReceipt receipt receipt = true := by
  simp [sameReceipt]

omit S in
omit K in
theorem parseStoredResult_own {status : CommitStatus} (h : receipt.schemaValid = true) :
    parseStoredResult (some ⟨receipt, status⟩) receipt = .ok ⟨receipt, status⟩ := by
  unfold parseStoredResult
  exact if_pos ⟨h, sameReceipt_self receipt⟩

/-- The transaction of a replay: it answers with the first receipt and leaves
the graph alone. -/
theorem Kept.answer (M : MayPush actor revision db) (time : Timestamp) :
    ∃ status db', commitPrepared options (some time)
        (pushedCommit options actor revision) db = .ok ⟨receipt, status⟩ db' ∧
      SameGraph db db' := by
  obtain ⟨vault, hvault⟩ := M.live
  have hreplay : ∃ status db', replayExisting options (some time)
      (pushedCommit options actor revision) row (getIdempotencyRecord db
        (pushedCommit options actor revision).toPreparedHeader) db = .ok ⟨receipt, status⟩ db' ∧
      SameGraph db db' := by
    unfold replayExisting
    cases hrecord : getIdempotencyRecord db
        (pushedCommit options actor revision).toPreparedHeader with
    | some record =>
      have hkeys := List.find?_some hrecord
      simp only [decide_eq_true_eq] at hkeys
      obtain ⟨hrequest, status, hbody⟩ := K.records record (mem_of_find?_eq_some hrecord)
        hkeys.1 hkeys.2
      refine ⟨status, db, ?_, ⟨rfl, rfl, rfl, rfl, rfl, fun _ => rfl⟩⟩
      refine check_bind_eq_ok.mpr ⟨(), require_of S.matching, ?_⟩
      refine check_bind_eq_ok.mpr ⟨receipt, S.receipt_eq, ?_⟩
      refine check_bind_eq_ok.mpr ⟨(), require_of hrequest, ?_⟩
      rw [hbody]
      exact check_eq_ok.mpr ⟨parseStoredResult_own S.receipt_valid, rfl⟩
    | none =>
      have hdevice := (actorAuthorized_rows M.authorized).2
      refine ⟨.replayed, { db with idempotencyRecords := db.idempotencyRecords ++
        [recordOf options (pushedCommit options actor revision).toPreparedHeader
          ⟨receipt, .replayed⟩ 200 time] }, ?_, ⟨rfl, rfl, rfl, rfl, rfl, fun _ => rfl⟩⟩
      refine check_bind_eq_ok.mpr ⟨(), require_of S.matching, ?_⟩
      refine check_bind_eq_ok.mpr ⟨receipt, S.receipt_eq, ?_⟩
      refine check_bind_eq_ok.mpr ⟨time, rfl, ?_⟩
      refine bind_eq_ok.mpr ⟨(), _, (insertIdempotencyRecord_eq_ok options).mpr ⟨?_, rfl⟩, rfl⟩
      exact ⟨getIdempotencyRecord_eq_none.mp hrecord, by simp [recordOf], by simp [recordOf], hdevice⟩
  obtain ⟨status, db', hrun, hsame⟩ := hreplay
  refine ⟨status, db', ?_, hsame⟩
  unfold commitPrepared
  rw [get_bind]
  refine check_bind_eq_ok.mpr ⟨(), require_of M.authorized, ?_⟩
  refine check_bind_eq_ok.mpr ⟨vault, hvault, ?_⟩
  have hfound : getExistingRevision db (pushedCommit options actor revision).header.revisionId =
      some row := K.found
  rw [hfound]
  exact hrun

theorem Kept.preparable {first : Database}
    (P : Preparable options first (revision.commitInput actor)) (M : MayPush actor revision db) :
    Preparable options db (revision.commitInput actor) := by
  refine ⟨P.schema, P.key, P.actor, M.authorized, ?_⟩
  intro existing hexisting
  obtain rfl := K.storedRow hexisting
  rw [S.blobSize]
  exact S.matching

theorem Kept.committable (P : Preparable options db (revision.commitInput actor))
    (M : MayPush actor revision db) :
    assertCommittable options db (revision.commitInput actor) revision.byteLength = .ok () := by
  obtain ⟨vault, hvault⟩ := M.live
  unfold assertCommittable
  refine except_bind_eq_ok.mpr ⟨_, (prepareHeader_eq_ok options).mpr ⟨P, rfl⟩, ?_⟩
  unfold assertWouldCommit
  refine except_bind_eq_ok.mpr ⟨(), require_of M.authorized, ?_⟩
  refine except_bind_eq_ok.mpr ⟨vault, hvault, ?_⟩
  have hfound : getExistingRevision db
      (preparedHeader options (revision.commitInput actor)).header.revisionId = some row := K.found
  rw [hfound]
  exact require_of S.matching

end

/-- Sending an accepted revision again, at any three later databases the push
reads, answers with the first receipt and changes nothing but idempotency
records. -/
theorem pushRevision_idempotent {context : PushContext} {db db' checked seen later : Database}
    {first : CommitRevisionResult}
    (hnew : getExistingRevision db revision.header.revisionId = none)
    (hfirst : pushRevision options context actor revision db = .ok first db')
    (hchecked : Later options actor revision db' checked)
    (hseen : Later options actor revision checked seen)
    (hlater : Later options actor revision seen later) (hmayChecked : MayPush actor revision checked)
    (hmaySeen : MayPush actor revision seen) (hmay : MayPush actor revision later)
    (blobStore : BlobHash → BlobRead) (time : Timestamp) :
    ∃ status later', pushRevision options ⟨checked, seen, .ok (), blobStore, some time⟩ actor
        revision later = .ok ⟨first.receipt, status⟩ later' ∧
      SameGraph later later' := by
  obtain ⟨P, hcommit⟩ := commitRevisionSeen_push (pushRevision_eq_ok.mp hfirst).2.2
  rcases commitPrepared_cases options hcommit with ⟨existing, hreplayed⟩ | haccepted
  · exact absurd (hreplayed.found.symm.trans hnew) nofun
  · obtain ⟨row, S, K⟩ := kept_of_accepted P.schema haccepted
    have Kchecked := K.later S hchecked
    have Kseen := Kchecked.later S hseen
    obtain ⟨status, later', hrun, hsame⟩ := (Kseen.later S hlater).answer S hmay time
    refine ⟨status, later', pushRevision_eq_ok.mpr ⟨?_, rfl, ?_⟩, hsame⟩
    · exact Kchecked.committable S (Kchecked.preparable S P hmayChecked) hmayChecked
    · unfold commitRevisionSeen
      refine check_bind_eq_ok.mpr
        ⟨_, prepareCommit_push_of (Kseen.preparable S P hmaySeen), transaction_eq_ok.mpr hrun⟩

def replayRevision : HashedRevisionInput := ⟨⟨⟨1, 0⟩, 1, 9, 64, [], 7, 6⟩, [65], 40, 3⟩

def replayContext : PushContext :=
  ⟨exampleDatabase, exampleDatabase, .ok (), fun _ => .verified 3, some 100⟩

/-- The database after the first push. -/
def replayAccepted : Database :=
  match pushRevision exampleOptions replayContext ⟨6, 7⟩ replayRevision exampleDatabase with
  | .ok _ db => db
  | .error _ db => db

/-- The replay after the first record was pruned. -/
theorem pushRevision_idempotent_pruned :
    let pruned := { replayAccepted with idempotencyRecords := [] }
    ∃ status later', pushRevision exampleOptions
        ⟨pruned, pruned, .ok (), fun _ => .verified 3, some 200⟩ ⟨6, 7⟩ replayRevision pruned =
          .ok ⟨⟨64, 7, 6, 1, 100, 40, 3, some []⟩, status⟩ later' ∧ SameGraph pruned later' := by
  have hpruned : Later exampleOptions ⟨6, 7⟩ replayRevision replayAccepted
      { replayAccepted with idempotencyRecords := [] } :=
    .single (.prune 500)
  have hmay : MayPush ⟨6, 7⟩ replayRevision { replayAccepted with idempotencyRecords := [] } :=
    ⟨by decide, ⟨⟨1, 0, 2, none, none⟩, by decide⟩⟩
  have hfirst : pushRevision exampleOptions replayContext ⟨6, 7⟩ replayRevision exampleDatabase =
      .ok ⟨⟨64, 7, 6, 1, 100, 40, 3, some []⟩, .accepted⟩ replayAccepted := by rfl
  exact pushRevision_idempotent exampleOptions ⟨6, 7⟩ replayRevision (by decide) hfirst hpruned
    .refl .refl hmay hmay hmay _ 200

end Havemind.RevisionReplay
