import Havemind.CommitFeasibility
import Havemind.Endings
import Havemind.PushSteps
import Mathlib.Algebra.BigOperators.Group.Finset.Basic
import Mathlib.Algebra.Order.BigOperators.Group.Finset

/-!
The storage quota of a vault. Where the size of a blob is a function of its hash, the
usage the repository computes is the sum over the distinct blobs of the vault, both
checks bound it by the quota, and what the pre-check lets pass still fits as long as
no other request commits.
-/
namespace Havemind.VaultQuota

open RevisionSchema Transaction Endings ServerDatabase RevisionRepository RevisionCommit PushRoute
  RevisionReplay Runs PushHandler PushSteps List

variable (size : BlobHash → ℕ)

/-- The distinct blobs charged to the vault. -/
def chargedBlobs (db : Database) (vaultId : Id) : Finset BlobHash :=
  ((db.revisions.filter fun row => row.vaultId = vaultId).map RevisionRow.blobHash).toFinset

def chargedBytes (db : Database) (vaultId : Id) : ℕ :=
  ∑ hash ∈ chargedBlobs db vaultId, size hash

/-- Every revision was stored with the size of its blob. -/
def Sized (db : Database) : Prop := ∀ row ∈ db.revisions, row.blobSize = size row.blobHash

def SizedRevision (revision : HashedRevisionInput) : Prop :=
  revision.byteLength = size revision.blobHash

/-- No live vault is charged more than its quota. -/
def WithinQuota (options : RevisionRepositoryOptions) (db : Database) : Prop :=
  ∀ vaultId vault, getVault db vaultId = .ok vault →
    chargedBytes size db vaultId ≤
      resolveEffectiveQuotaBytes vault.quotaBytes options.vaultQuotaBytes

variable {size} {options : RevisionRepositoryOptions} {db db' : Database} {vaultId : Id}

theorem mem_chargedBlobs {hash : BlobHash} :
    hash ∈ chargedBlobs db vaultId ↔ vaultContainsBlob db vaultId hash = true := by
  simp only [chargedBlobs, mem_toFinset, mem_map, mem_filter, vaultContainsBlob,
    any_eq_true, decide_eq_true_eq]
  constructor
  · rintro ⟨row, ⟨hrow, hvault⟩, hhash⟩
    exact ⟨row, hrow, hvault, hhash⟩
  · rintro ⟨row, hrow, hvault, hhash⟩
    exact ⟨row, ⟨hrow, hvault⟩, hhash⟩

theorem foldr_max_of_forall {sizes : List ℕ} {bytes : ℕ} (hne : sizes ≠ [])
    (h : ∀ other ∈ sizes, other = bytes) : sizes.foldr max 0 = bytes := by
  induction sizes with
  | nil => exact absurd rfl hne
  | cons first rest ih =>
    have hfirst : first = bytes := h first mem_cons_self
    by_cases hrest : rest = []
    · simp [hrest, hfirst]
    · rw [foldr_cons, ih hrest fun other hmem => h other (mem_cons_of_mem _ hmem), hfirst]
      simp

/-- The greatest recorded size of a blob is its size. -/
theorem computeVaultStorageBytes_eq (hsized : Sized size db) :
    computeVaultStorageBytes db vaultId = chargedBytes size db vaultId := by
  have hterm : ∀ hash ∈ ((db.revisions.filter fun row => row.vaultId = vaultId).map
      RevisionRow.blobHash).dedup,
      (((db.revisions.filter fun row => row.vaultId = vaultId).filter
        fun row => row.blobHash = hash).map RevisionRow.blobSize).foldr max 0 = size hash := by
    intro hash hmem
    obtain ⟨row, hrow, hhash⟩ := mem_map.mp (mem_dedup.mp hmem)
    refine foldr_max_of_forall ?_ ?_
    · refine ne_nil_of_mem (mem_map_of_mem (mem_filter.mpr ⟨hrow, ?_⟩))
      simpa using hhash
    · intro bytes hbytes
      obtain ⟨other, hother, rfl⟩ := mem_map.mp hbytes
      obtain ⟨hother, hsame⟩ := mem_filter.mp hother
      rw [hsized other (mem_filter.mp hother).1, of_decide_eq_true hsame]
  have hdistinct : chargedBlobs db vaultId = ((db.revisions.filter fun row =>
      row.vaultId = vaultId).map RevisionRow.blobHash).dedup.toFinset := by
    ext hash
    simp [chargedBlobs]
  unfold computeVaultStorageBytes chargedBytes
  rw [hdistinct, sum_toFinset _ (nodup_dedup _)]
  exact congrArg List.sum (map_congr_left hterm)

theorem chargedBlobs_revisions (h : db'.revisions = db.revisions) :
    chargedBlobs db' vaultId = chargedBlobs db vaultId := by
  unfold chargedBlobs
  rw [h]

theorem chargedBlobs_append (row : RevisionRow) (h : db'.revisions = db.revisions ++ [row]) :
    chargedBlobs db' vaultId =
      if row.vaultId = vaultId then insert row.blobHash (chargedBlobs db vaultId)
      else chargedBlobs db vaultId := by
  unfold chargedBlobs
  rw [h]
  by_cases hvault : row.vaultId = vaultId
  · ext hash
    simp [hvault]
  · simp [hvault]

theorem assertWithinQuota_iff {prepared : PreparedCommit} {vault : VaultRow}
    (hsized : Sized size db) : assertWithinQuota options db prepared vault = .ok () ↔
      prepared.blobHash ∈ chargedBlobs db prepared.header.vaultId ∨
        chargedBytes size db prepared.header.vaultId + prepared.blobSize ≤
          resolveEffectiveQuotaBytes vault.quotaBytes options.vaultQuotaBytes := by
  unfold assertWithinQuota
  rw [require_eq_ok, computeVaultStorageBytes_eq hsized, mem_chargedBlobs]

/-- What a commit of a revision adds to the stored revisions. -/
theorem revisions_commit {now : Option Timestamp} {actor : AuthenticatedRevisionActor}
    {revision : HashedRevisionInput} {result : CommitRevisionResult}
    (h : commitPrepared options now (pushedCommit options actor revision) db = .ok result db') :
    (db'.revisions = db.revisions ∧ db'.vaults = db.vaults) ∨
      ∃ vault row, getVault db revision.header.vaultId = .ok vault ∧
        assertWithinQuota options db (pushedCommit options actor revision) vault = .ok () ∧
        db'.revisions = db.revisions ++ [row] ∧ row.vaultId = revision.header.vaultId ∧
        row.blobHash = revision.blobHash ∧ row.blobSize = revision.byteLength ∧
        db'.vaults = db.vaults.map (advanced revision.header.vaultId vault.nextServerSequence) := by
  rcases commitPrepared_cases options h with ⟨existing, hreplayed⟩ | haccepted
  · left
    obtain ⟨_, _, ⟨_, _, _, _, rfl⟩ | ⟨_, _, _, _, rfl⟩⟩ := hreplayed.answer <;>
      exact ⟨rfl, rfl⟩
  · right
    obtain ⟨vault, isRoot, time, hvault, hnew⟩ := haccepted.new
    refine ⟨vault, revisionRow (pushedCommit options actor revision) vault.nextServerSequence
      vault.writeEpoch time, hvault, hnew.quota, ?_⟩
    rw [hnew.effect]
    exact ⟨rfl, rfl, rfl, rfl, rfl⟩

theorem sized_written (hsized : Sized size db)
    (h : Written options (SizedRevision size) db db') : Sized size db' := by
  cases h with
  | commit actor revision now result meets ran =>
    rcases revisions_commit ran with ⟨hsame, -⟩ | ⟨vault, row, -, -, hrows, -, hhash, hsize, -⟩
    · unfold Sized
      rwa [hsame]
    · intro other hmem
      rw [hrows] at hmem
      rcases mem_append.mp hmem with hold | hnew
      · exact hsized other hold
      · rw [mem_singleton.mp hnew, hsize, hhash]
        exact meets
  | _ => exact hsized

/-- The charge after a blob was added. -/
theorem chargedBytes_append {row : RevisionRow} (h : db'.revisions = db.revisions ++ [row])
    (hvault : row.vaultId = vaultId) :
    chargedBytes size db' vaultId = chargedBytes size db vaultId +
      if row.blobHash ∈ chargedBlobs db vaultId then 0 else size row.blobHash := by
  unfold chargedBytes
  rw [chargedBlobs_append row h, if_pos hvault]
  by_cases hmem : row.blobHash ∈ chargedBlobs db vaultId
  · simp [hmem]
  · rw [Finset.sum_insert hmem, if_neg hmem, Nat.add_comm]

/-- A commit leaves every vault its quota, and charges its own within it. -/
theorem withinQuota_written (hsized : Sized size db) (hquota : WithinQuota size options db)
    (h : Written options (SizedRevision size) db db') : WithinQuota size options db' := by
  cases h with
  | commit actor revision now result meets ran =>
    rcases revisions_commit ran with
      ⟨hrows, hvaults⟩ | ⟨vault, row, hvault, hcheck, hrows, hown, hhash, hsize, hvaults⟩
    · intro vaultId vault hvault
      have hsame : getVault db vaultId = .ok vault := by
        unfold getVault at hvault ⊢
        rwa [hvaults] at hvault
      unfold chargedBytes
      rw [chargedBlobs_revisions hrows]
      exact hquota vaultId vault hsame
    · intro vaultId vault' hvault'
      rw [getVault_advanced vaultId hvaults] at hvault'
      cases hbefore : getVault db vaultId with
      | error error =>
        rw [hbefore] at hvault'
        cases hvault'
      | ok before =>
        rw [hbefore] at hvault'
        cases hvault'
        rw [(advanced_id _ before).2.2.1]
        have hbound := hquota vaultId before hbefore
        by_cases hother : row.vaultId = vaultId
        · have hfits := (assertWithinQuota_iff hsized).mp hcheck
          rw [← hown, hother] at hvault
          cases hbefore.symm.trans hvault
          have hwhere : (pushedCommit options actor revision).header.vaultId = vaultId :=
            hown.symm.trans hother
          have hbytes : (pushedCommit options actor revision).blobSize = size row.blobHash := by
            rw [hhash]
            exact meets
          have hblob : (pushedCommit options actor revision).blobHash = row.blobHash := hhash.symm
          rw [hwhere, hbytes, hblob] at hfits
          rw [chargedBytes_append hrows hother]
          rcases hfits with hin | hfits
          · rw [if_pos hin]
            exact hbound
          · by_cases hin : row.blobHash ∈ chargedBlobs db vaultId
            · rw [if_pos hin]
              exact hbound
            · rw [if_neg hin]
              exact hfits
        · unfold chargedBytes
          rw [chargedBlobs_append row hrows, if_neg hother]
          exact hbound
  | _ => exact hquota

/-- The blobs of the batch that are not charged yet. -/
def newBlobs (db : Database) (vaultId : Id) (ordered : List HashedRevisionInput) :
    Finset BlobHash :=
  (ordered.map HashedRevisionInput.blobHash).toFinset \ chargedBlobs db vaultId

/-- Charging every new blob of the batch stays within `quota`. -/
def Fits (size : BlobHash → ℕ) (quota : ℕ) (db : Database) (vaultId : Id)
    (ordered : List HashedRevisionInput) : Prop :=
  (newBlobs db vaultId ordered).Nonempty →
    chargedBytes size db vaultId + ∑ hash ∈ newBlobs db vaultId ordered, size hash ≤ quota

theorem fits_of_precheckBlobs {quota projected : ℕ} {chargedInBatch : List BlobHash}
    {ordered : List HashedRevisionInput}
    (hsized : ∀ revision ∈ ordered, SizedRevision size revision)
    (h : precheckBlobs db vaultId quota projected chargedInBatch ordered = false)
    (hne : (newBlobs db vaultId ordered \ chargedInBatch.toFinset).Nonempty) :
    projected + ∑ hash ∈ newBlobs db vaultId ordered \ chargedInBatch.toFinset, size hash ≤
      quota := by
  induction ordered generalizing projected chargedInBatch with
  | nil => simp [newBlobs] at hne
  | cons revision rest ih =>
    have hrest : ∀ other ∈ rest, SizedRevision size other := fun other hmem =>
      hsized other (mem_cons_of_mem _ hmem)
    by_cases hcharged : revision.blobHash ∈ chargedInBatch ∨
        vaultContainsBlob db vaultId revision.blobHash = true
    · have hsame : newBlobs db vaultId (revision :: rest) \ chargedInBatch.toFinset =
          newBlobs db vaultId rest \ chargedInBatch.toFinset := by
        ext hash
        simp only [newBlobs, map_cons, toFinset_cons, Finset.mem_sdiff,
          Finset.mem_insert, mem_toFinset]
        constructor
        · rintro ⟨⟨rfl | hmem, hnot⟩, hout⟩
          · rcases hcharged with hin | hin
            · exact absurd hin hout
            · exact absurd (mem_chargedBlobs.mpr hin) hnot
          · exact ⟨⟨hmem, hnot⟩, hout⟩
        · rintro ⟨⟨hmem, hnot⟩, hout⟩
          exact ⟨⟨Or.inr hmem, hnot⟩, hout⟩
      rw [precheckBlobs, if_pos hcharged] at h
      rw [hsame] at hne ⊢
      exact ih hrest h hne
    · rw [precheckBlobs, if_neg hcharged] at h
      by_cases hover : quota < projected + revision.byteLength
      · rw [if_pos hover] at h
        cases h
      · rw [if_neg hover] at h
        simp only [not_or] at hcharged
        have hnew : revision.blobHash ∉ chargedBlobs db vaultId := fun hmem =>
          hcharged.2 (mem_chargedBlobs.mp hmem)
        have hsplit : newBlobs db vaultId (revision :: rest) \ chargedInBatch.toFinset =
            insert revision.blobHash
              (newBlobs db vaultId rest \ (revision.blobHash :: chargedInBatch).toFinset) := by
          ext hash
          simp only [newBlobs, map_cons, toFinset_cons, Finset.mem_sdiff,
            Finset.mem_insert, mem_toFinset, not_or]
          by_cases hsame : hash = revision.blobHash
          · subst hsame
            simp [hnew, hcharged.1]
          · simp [hsame]
        have hout : revision.blobHash ∉
            newBlobs db vaultId rest \ (revision.blobHash :: chargedInBatch).toFinset := by
          simp
        have hbytes : revision.byteLength = size revision.blobHash :=
          hsized revision mem_cons_self
        rw [hsplit, Finset.sum_insert hout, ← Nat.add_assoc, ← hbytes]
        by_cases hrestNe : (newBlobs db vaultId rest \
            (revision.blobHash :: chargedInBatch).toFinset).Nonempty
        · exact ih hrest h hrestNe
        · rw [Finset.not_nonempty_iff_eq_empty.mp hrestNe, Finset.sum_empty]
          omega

section
variable {α β : Type} {s : Database}

/-- However the computation fails, it is not over the quota. -/
def Spared (x : Tx α) (s : Database) : Prop :=
  Ends x s (fun _ _ => True) fun error _ => error ≠ .quotaExceeded

theorem spared_check {x : Except RepositoryError α} (h : x ≠ .error .quotaExceeded) :
    Spared (check x) s := by
  refine ends_check (fun _ _ => trivial) ?_
  rintro error herror rfl
  exact h herror

theorem spared_bind {x : Tx α} {f : α → Tx β} (hx : Spared x s)
    (hf : ∀ a s', x s = .ok a s' → Spared (f a) s') : Spared (x >>= f) s := by
  refine Ends.bind ?_
  unfold Spared at hx
  rw [ends_iff] at hx ⊢
  exact ⟨fun a s' hok => hf a s' hok, hx.2⟩

theorem spared_check_bind {x : Except RepositoryError α} {f : α → Tx β}
    (hx : x ≠ .error .quotaExceeded) (hf : ∀ a, x = .ok a → Spared (f a) s) :
    Spared (check x >>= f) s := by
  refine spared_bind (spared_check hx) ?_
  intro a s' hok
  obtain ⟨ha, rfl⟩ := check_eq_ok.mp hok
  exact hf a ha

theorem spared_statement {admissible : Database → Prop} [DecidablePred admissible]
    {write : Database → Database} : Spared (guardedWrite .sqliteConstraint admissible write) s := by
  unfold Spared
  rw [ends_iff]
  refine ⟨fun _ _ _ => trivial, ?_⟩
  intro error s' herror
  by_cases hadmissible : admissible s
  · simp [guardedWrite, hadmissible] at herror
  · simp only [guardedWrite, hadmissible, if_false, EStateM.Result.error.injEq] at herror
    rw [← herror.1]
    simp

theorem spared_pure (a : α) : Spared (pure a : Tx α) s := ends_pure trivial

theorem require_ne_quota {condition : Prop} [Decidable condition] {error : RepositoryError}
    (h : error ≠ .quotaExceeded) : require condition error ≠ .error .quotaExceeded := by
  by_cases hcondition : condition
  · rw [require_of hcondition]
    simp
  · rw [require_of_not hcondition]
    simpa using h

theorem fileGraph_ne_quota {prepared : PreparedHeader} :
    assertFileGraphCommittable db prepared ≠ .error .quotaExceeded :=
  fun h => absurd (CommitFeasibility.fileGraph_error h) (by decide)

theorem getVault_ne_quota : getVault db vaultId ≠ .error .quotaExceeded := by
  unfold getVault
  split <;> exact nofun

theorem receipt_ne_quota {row : RevisionRow} :
    receiptFromStoredRevision row ≠ .error .quotaExceeded := by
  unfold receiptFromStoredRevision
  split
  · dsimp only
    split <;> exact nofun
  · exact nofun

theorem parseStoredResult_ne_quota {body : Option CommitRevisionResult}
    {receipt : OpaqueBlobReceipt} : parseStoredResult body receipt ≠ .error .quotaExceeded := by
  unfold parseStoredResult
  split
  · exact nofun
  · split <;> exact nofun

theorem readNow_ne_quota {now : Option Timestamp} : readNow now ≠ .error .quotaExceeded := by
  cases now <;> exact nofun

theorem requireSafeSequence_ne_quota {value : ℕ} :
    requireSafeSequence value ≠ .error .quotaExceeded := by
  unfold requireSafeSequence
  split <;> exact nofun

theorem parseReceipt_ne_quota {receipt : OpaqueBlobReceipt} :
    parseReceipt receipt ≠ .error .quotaExceeded := by
  unfold parseReceipt
  split <;> exact nofun

theorem requireSafeNonNegativeInteger_ne_quota {value : ℕ} :
    requireSafeNonNegativeInteger value ≠ .error .quotaExceeded := by
  unfold requireSafeNonNegativeInteger
  split <;> exact nofun

theorem spared_replaceParents {header : ProtectedRevisionHeader} {order : ℕ} {ids : List Id} :
    Spared (replaceParents header order ids) s := by
  induction ids generalizing order s with
  | nil => exact spared_pure ()
  | cons first rest ih =>
    refine spared_bind spared_statement fun _ _ _ => ?_
    exact spared_bind spared_statement fun _ _ _ => ih

theorem spared_advanceCursor {sequence : ℕ} : Spared (advanceCursor vaultId sequence) s := by
  unfold Spared
  rw [ends_iff]
  refine ⟨fun _ _ _ => trivial, ?_⟩
  intro error s' herror
  unfold advanceCursor at herror
  dsimp only at herror
  split at herror
  · cases herror
  · cases herror
    simp

variable {prepared : PreparedCommit} {now : Option Timestamp}

theorem spared_fileGraph {prepared : PreparedHeader} :
    Spared (validateAndPrepareFileGraph prepared) s := by
  refine ends_get_bind ?_
  refine spared_check_bind fileGraph_ne_quota ?_
  intro isRoot _
  cases isRoot with
  | true => exact spared_statement
  | false => exact spared_pure ()

theorem spared_insertRevision {vault : VaultRow} {sequence : ℕ} {time : Timestamp} :
    Spared (insertRevision prepared vault sequence time) s :=
  spared_check_bind requireSafeNonNegativeInteger_ne_quota fun _ _ => spared_statement

theorem spared_replayExisting {existing : RevisionRow} {record : Option IdempotencyRow} :
    Spared (replayExisting options now prepared existing record) s := by
  refine spared_check_bind (require_ne_quota (by simp)) fun _ _ => ?_
  refine spared_check_bind receipt_ne_quota fun receipt _ => ?_
  cases record with
  | some record =>
    refine spared_check_bind (require_ne_quota (by simp)) fun _ _ => ?_
    exact spared_check parseStoredResult_ne_quota
  | none =>
    refine spared_check_bind readNow_ne_quota fun time _ => ?_
    exact spared_bind spared_statement fun _ _ _ => spared_pure _

theorem spared_commitNewRevision {vault : VaultRow}
    (hquota : assertWithinQuota options s prepared vault = .ok ()) :
    Spared (commitNewRevision options now prepared vault) s := by
  refine spared_check_bind readNow_ne_quota fun time _ => ?_
  refine spared_check_bind requireSafeSequence_ne_quota fun sequence _ => ?_
  refine spared_check_bind (require_ne_quota (by simp)) fun _ _ => ?_
  refine ends_get_bind ?_
  refine spared_check_bind (by rw [hquota]; simp) fun _ _ => ?_
  refine spared_bind spared_fileGraph fun _ _ _ => ?_
  refine spared_bind spared_insertRevision fun _ _ _ => ?_
  have hheads : ∀ s, Spared (replaceParentHeads prepared.toPreparedHeader) s := fun _ =>
    spared_bind spared_replaceParents fun _ _ _ => spared_statement
  refine spared_bind (hheads _) fun _ _ _ => ?_
  refine spared_check_bind parseReceipt_ne_quota fun receipt _ => ?_
  refine spared_bind spared_statement fun _ _ _ => ?_
  refine spared_bind spared_advanceCursor fun _ _ _ => ?_
  exact spared_bind spared_statement fun _ _ _ => spared_pure _

/-- A transaction is over the quota only where its check of the quota fails. -/
theorem spared_commitPrepared (hquota : ∀ vault, getVault s prepared.header.vaultId = .ok vault →
      assertWithinQuota options s prepared vault = .ok ()) :
    Spared (commitPrepared options now prepared) s := by
  refine ends_get_bind ?_
  refine spared_check_bind (require_ne_quota (by simp)) fun _ _ => ?_
  refine spared_check_bind getVault_ne_quota fun vault hvault => ?_
  cases getExistingRevision s prepared.header.revisionId with
  | some existing => exact spared_replayExisting
  | none =>
    cases getIdempotencyRecord s prepared.toPreparedHeader with
    | some record =>
      refine spared_check_bind (require_ne_quota (by simp)) fun _ _ => ?_
      exact ends_throw (by simp)
    | none => exact spared_commitNewRevision (hquota vault hvault)

theorem prepareHeader_ne_quota {input : CommitRevisionInput} :
    prepareHeader options db input ≠ .error .quotaExceeded := by
  have hbind {α β : Type} {x : Except RepositoryError α} {f : α → Except RepositoryError β}
      (hx : x ≠ .error .quotaExceeded) (hf : ∀ a, f a ≠ .error .quotaExceeded) :
      (x >>= f) ≠ .error .quotaExceeded := by
    cases x with
    | error error =>
      intro h
      cases h
      exact hx rfl
    | ok a => exact hf a
  unfold prepareHeader
  refine hbind (require_ne_quota (by simp)) fun _ => ?_
  refine hbind (require_ne_quota (by simp)) fun _ => ?_
  refine hbind (require_ne_quota (by simp)) fun _ => ?_
  refine hbind (require_ne_quota (by simp)) fun _ => ?_
  dsimp only
  split
  · exact nofun
  · refine hbind (require_ne_quota (by simp)) fun _ => ?_
    exact hbind (require_ne_quota (by simp)) fun _ => nofun

theorem prepareCommit_ne_quota {actor : AuthenticatedRevisionActor}
    {revision : HashedRevisionInput} : prepareCommit options db (fun _ => .notFound)
      (revision.commitInput actor) ≠ .error .quotaExceeded := by
  intro h
  unfold prepareCommit at h
  cases hheader : prepareHeader options db (revision.commitInput actor) with
  | error error =>
    rw [hheader] at h
    cases h
    exact prepareHeader_ne_quota hheader
  | ok header =>
    rw [hheader] at h
    cases h

/-- The feasibility check is over the quota only where the quota's check fails. -/
theorem assertCommittable_ne_quota {actor : AuthenticatedRevisionActor}
    {revision : HashedRevisionInput}
    (hquota : ∀ vault, getVault db revision.header.vaultId = .ok vault →
      assertWithinQuota options db (pushedCommit options actor revision) vault = .ok ()) :
    assertCommittable options db (revision.commitInput actor) revision.byteLength ≠
      .error .quotaExceeded := by
  intro h
  unfold assertCommittable at h
  cases hheader : prepareHeader options db (revision.commitInput actor) with
  | error error =>
    rw [hheader] at h
    cases h
    exact prepareHeader_ne_quota hheader
  | ok header =>
    obtain ⟨-, rfl⟩ := (prepareHeader_eq_ok options).mp hheader
    have hspared : assertWouldCommit options db (pushedCommit options actor revision) ≠
        .error .quotaExceeded := by
      intro hwould
      unfold assertWouldCommit at hwould
      cases hactor : assertAuthorizedActor db (pushedCommit options actor revision).actor
          (pushedCommit options actor revision).header with
      | error error =>
        rw [hactor] at hwould
        cases hwould
        exact require_ne_quota (by simp) hactor
      | ok _ =>
        rw [hactor] at hwould
        cases hvault : getVault db (pushedCommit options actor revision).header.vaultId with
        | error error =>
          rw [hvault] at hwould
          cases hwould
          exact getVault_ne_quota hvault
        | ok vault =>
          rw [hvault] at hwould
          cases hfound : getExistingRevision db
              (pushedCommit options actor revision).header.revisionId with
          | some existing =>
            simp only [bind, Except.bind, hfound] at hwould
            exact require_ne_quota (by simp) hwould
          | none =>
            cases hrecord : getIdempotencyRecord db
                (pushedCommit options actor revision).toPreparedHeader with
            | some record =>
              simp only [bind, Except.bind, hfound, hrecord] at hwould
              cases hrequest : assertIdempotencyRequest record
                  (pushedCommit options actor revision).toPreparedHeader with
              | error error =>
                rw [hrequest] at hwould
                cases hwould
                exact require_ne_quota (by simp) hrequest
              | ok _ =>
                rw [hrequest] at hwould
                cases hwould
            | none =>
              simp only [bind, Except.bind, hfound, hrecord, hquota vault hvault] at hwould
              cases hgraph : assertFileGraphCommittable db
                  (pushedCommit options actor revision).toPreparedHeader with
              | error error =>
                rw [hgraph] at hwould
                cases hwould
                exact fileGraph_ne_quota hgraph
              | ok _ =>
                rw [hgraph] at hwould
                cases hwould
    rw [hheader] at h
    exact hspared h

end

section
variable {quota : ℕ} {revision : HashedRevisionInput} {rest ordered : List HashedRevisionInput}

theorem newBlobs_subset : newBlobs db vaultId rest ⊆ newBlobs db vaultId (revision :: rest) := by
  intro hash hmem
  simp only [newBlobs, map_cons, toFinset_cons, Finset.mem_sdiff,
    Finset.mem_insert] at hmem ⊢
  exact ⟨Or.inr hmem.1, hmem.2⟩

theorem Fits.tail (h : Fits size quota db vaultId (revision :: rest)) :
    Fits size quota db vaultId rest := by
  intro hne
  have hbound := h (hne.mono newBlobs_subset)
  have hsum : ∑ hash ∈ newBlobs db vaultId rest, size hash ≤
      ∑ hash ∈ newBlobs db vaultId (revision :: rest), size hash :=
    Finset.sum_le_sum_of_subset newBlobs_subset
  omega

theorem Fits.revisions (h : Fits size quota db vaultId ordered)
    (hsame : db'.revisions = db.revisions) : Fits size quota db' vaultId ordered := by
  unfold Fits newBlobs chargedBytes at h ⊢
  rwa [chargedBlobs_revisions hsame]

/-- Charging the first blob leaves room for the new ones behind it. -/
theorem Fits.append {row : RevisionRow} (h : Fits size quota db vaultId (revision :: rest))
    (hrows : db'.revisions = db.revisions ++ [row]) (hvault : row.vaultId = vaultId)
    (hhash : row.blobHash = revision.blobHash) : Fits size quota db' vaultId rest := by
  intro hne
  have hblobs : chargedBlobs db' vaultId =
      insert revision.blobHash (chargedBlobs db vaultId) := by
    rw [chargedBlobs_append row hrows, if_pos hvault, hhash]
  have hsubset : newBlobs db' vaultId rest ⊆
      newBlobs db vaultId (revision :: rest) \ {revision.blobHash} := by
    intro hash hmem
    simp only [newBlobs, hblobs, map_cons, toFinset_cons, Finset.mem_sdiff,
      Finset.mem_insert, Finset.mem_singleton, not_or] at hmem ⊢
    exact ⟨⟨Or.inr hmem.1, hmem.2.2⟩, hmem.2.1⟩
  have hbound := h ((hne.mono hsubset).mono Finset.sdiff_subset)
  have hsum : ∑ hash ∈ newBlobs db' vaultId rest, size hash ≤
      ∑ hash ∈ newBlobs db vaultId (revision :: rest) \ {revision.blobHash}, size hash :=
    Finset.sum_le_sum_of_subset hsubset
  rw [chargedBytes_append hrows hvault, hhash]
  by_cases hin : revision.blobHash ∈ chargedBlobs db vaultId
  · have hle : ∑ hash ∈ newBlobs db vaultId (revision :: rest) \ {revision.blobHash}, size hash ≤
        ∑ hash ∈ newBlobs db vaultId (revision :: rest), size hash :=
      Finset.sum_le_sum_of_subset Finset.sdiff_subset
    rw [if_pos hin]
    omega
  · have hnew : revision.blobHash ∈ newBlobs db vaultId (revision :: rest) := by
      simp [newBlobs, hin]
    have hsplit := Finset.sum_sdiff (f := size) (Finset.singleton_subset_iff.mpr hnew)
    rw [Finset.sum_singleton] at hsplit
    rw [if_neg hin]
    omega

theorem within_of_fits {actor : AuthenticatedRevisionActor} {vault : VaultRow}
    (hsized : Sized size db) (hrevision : SizedRevision size revision)
    (hvault : revision.header.vaultId = vaultId)
    (hquota : resolveEffectiveQuotaBytes vault.quotaBytes options.vaultQuotaBytes = quota)
    (h : Fits size quota db vaultId (revision :: rest)) :
    assertWithinQuota options db (pushedCommit options actor revision) vault = .ok () := by
  refine (assertWithinQuota_iff hsized).mpr ?_
  have hwhere : (pushedCommit options actor revision).header.vaultId = vaultId := hvault
  have hbytes : (pushedCommit options actor revision).blobSize = size revision.blobHash :=
    hrevision
  have hblob : (pushedCommit options actor revision).blobHash = revision.blobHash := rfl
  rw [hwhere, hbytes, hblob, hquota]
  by_cases hin : revision.blobHash ∈ chargedBlobs db vaultId
  · exact Or.inl hin
  · right
    have hnew : revision.blobHash ∈ newBlobs db vaultId (revision :: rest) := by
      simp [newBlobs, hin]
    have hone : size revision.blobHash ≤
        ∑ hash ∈ newBlobs db vaultId (revision :: rest), size hash :=
      Finset.single_le_sum (fun _ _ => Nat.zero_le _) hnew
    have hbound := h ⟨_, hnew⟩
    omega

/-- No request but `id` takes a step; others may arrive. -/
def Alone (id : ℕ) (_ : World) : Event → Prop
  | .request other _ => other = id
  | _ => True

/-- Batches whose payloads have the size of their blob. -/
def Honest (size : BlobHash → ℕ) (_ : World) : Event → Prop
  | .push _ _ ordered => ∀ revision ∈ ordered, SizedRevision size revision
  | _ => True

/-- The remaining revisions fit, and none was refused over the quota. -/
structure Affords (size : BlobHash → ℕ) (options : RevisionRepositoryOptions) (quota : ℕ)
    (vaultId : Id) (db : Database) (request : PushRequest) : Prop where
  prepared : PreparedHead options request
  vault : ∀ revision ∈ request.remaining, revision.header.vaultId = vaultId
  sized : ∀ revision ∈ request.remaining, SizedRevision size revision
  fits : Fits size quota db vaultId request.remaining
  spared : ∀ tried ∈ request.attempts, tried.outcome ≠ .error .quotaExceeded

/-- The quota of the vault, wherever it is live. -/
def EffectiveQuota (options : RevisionRepositoryOptions) (quota : ℕ) (vaultId : Id)
    (db : Database) : Prop :=
  ∀ vault, getVault db vaultId = .ok vault →
    resolveEffectiveQuotaBytes vault.quotaBytes options.vaultQuotaBytes = quota

variable {wired : Bool} {request request' : PushRequest} {world : World} {id : ℕ}

theorem effectiveQuota_written {Q : HashedRevisionInput → Prop}
    (h : EffectiveQuota options quota vaultId db) (hwritten : Written options Q db db') :
    EffectiveQuota options quota vaultId db' := by
  cases hwritten with
  | commit actor revision now result meets ran =>
    rcases revisions_commit ran with
      ⟨-, hvaults⟩ | ⟨vault, row, -, -, -, -, -, -, hvaults⟩
    · intro vault hvault
      refine h vault ?_
      unfold getVault at hvault ⊢
      rwa [hvaults] at hvault
    · intro vault hvault
      rw [getVault_advanced vaultId hvaults] at hvault
      cases hbefore : getVault db vaultId with
      | error error =>
        rw [hbefore] at hvault
        cases hvault
      | ok before =>
        rw [hbefore] at hvault
        cases hvault
        rw [(advanced_id _ before).2.2.1]
        exact h before hbefore
  | _ => exact h

/-- A turn of the request that is not over the quota leaves the rest affordable. -/
theorem affords_conclude (h : Affords size options quota vaultId db request)
    (hhead : request.remaining = revision :: rest)
    {outcome : Except RepositoryError CommitRevisionResult}
    (houtcome : outcome ≠ .error .quotaExceeded)
    (hfits : Fits size quota db' vaultId rest) :
    Affords size options quota vaultId db' (request.conclude revision rest db outcome) := by
  obtain ⟨-, -, hrest, hattempts, -⟩ := conclude_actor request revision rest db outcome
  have hmem : ∀ other ∈ rest, other ∈ request.remaining := fun other hmem =>
    hhead ▸ mem_cons_of_mem _ hmem
  refine ⟨preparedHead_conclude, ?_, ?_, ?_, ?_⟩
  · rw [hrest]
    exact fun other hother => h.vault other (hmem other hother)
  · rw [hrest]
    exact fun other hother => h.sized other (hmem other hother)
  · rw [hrest]
    exact hfits
  · intro tried htried
    rw [hattempts] at htried
    rcases mem_append.mp htried with hold | hnew
    · exact h.spared tried hold
    · rw [mem_singleton.mp hnew]
      exact houtcome

theorem affords_advanced (h : Affords size options quota vaultId db request)
    (hsized : Sized size db) (hquota : EffectiveQuota options quota vaultId db)
    (hadvanced : Advanced options wired db request request' db') :
    Affords size options quota vaultId db' request' := by
  have hcheck : ∀ revision rest, request.remaining = revision :: rest →
      ∀ vault, getVault db revision.header.vaultId = .ok vault →
        assertWithinQuota options db (pushedCommit options request.actor revision) vault =
          .ok () := by
    intro revision rest hhead vault hvault
    have hmem : revision ∈ request.remaining := hhead ▸ mem_cons_self
    have hwhere := h.vault revision hmem
    rw [hwhere] at hvault
    exact within_of_fits hsized (h.sized revision hmem) hwhere (hquota vault hvault)
      (hhead ▸ h.fits)
  cases hadvanced with
  | moved phase active next =>
    refine { h with prepared := ?_ }
    intro prepared hphase
    rcases next with rfl | rfl <;> cases hphase
  | prepared prepared revision rest active head ran =>
    refine { h with prepared := ?_ }
    intro other hphase
    cases hphase
    exact ⟨revision, rest, head, (prepareCommit_push ran).2⟩
  | failed revision rest error active head why =>
    refine affords_conclude h head ?_ (head ▸ h.fits).tail
    intro herror
    cases herror
    cases why with
    | check answer => exact assertCommittable_ne_quota (hcheck revision rest head) answer
    | prepare answer => exact prepareCommit_ne_quota answer
    | commit prepared now left phase answer =>
      obtain ⟨other, tail, hhead, rfl⟩ := h.prepared prepared phase
      have hspared : Spared (commitPrepared options now
          (pushedCommit options request.actor other)) db :=
        spared_commitPrepared (hcheck other tail hhead)
      exact (ends_iff.mp hspared).2 _ _ answer rfl
    | fault unexpected => cases unexpected
  | committed prepared revision rest now result db' phase head ran =>
    obtain ⟨other, tail, hhead, rfl⟩ := h.prepared prepared phase
    cases head.symm.trans hhead
    refine affords_conclude h head (by simp) ?_
    have hfits : Fits size quota db vaultId (revision :: rest) := head ▸ h.fits
    rcases revisions_commit ran with
      ⟨hrows, -⟩ | ⟨vault, row, -, -, hrows, hown, hhash, -, -⟩
    · exact hfits.tail.revisions hrows
    · have hwhere := h.vault revision (head ▸ mem_cons_self)
      exact hfits.append hrows (hown.trans hwhere) hhash
  | finished ending =>
    refine { h with prepared := ?_ }
    intro prepared hphase
    cases hphase

structure AloneInvariant (size : BlobHash → ℕ) (options : RevisionRepositoryOptions) (quota : ℕ)
    (vaultId : Id) (id : ℕ) (world : World) : Prop where
  sized : Sized size world.database
  effective : EffectiveQuota options quota vaultId world.database
  present : id < world.requests.length
  affords : ∀ request, world.requests[id]? = some request →
    Affords size options quota vaultId world.database request

theorem affords_rows (h : Affords size options quota vaultId db request)
    (hrows : db'.revisions = db.revisions) : Affords size options quota vaultId db' request :=
  { h with fits := h.fits.revisions hrows }

theorem aloneInvariant_step {event : Event} {next : World}
    (h : AloneInvariant size options quota vaultId id world) (halone : Alone id world event)
    (htaken : step options wired world event = some next) :
    AloneInvariant size options quota vaultId id next := by
  cases event with
  | push actor vault ordered =>
    cases htaken
    refine { h with present := ?_, affords := ?_ }
    · rw [length_append]
      exact Nat.lt_add_right _ h.present
    · intro request hget
      rw [List.getElem?_append_left h.present] at hget
      exact h.affords request hget
  | request other event =>
    obtain rfl : other = id := halone
    obtain ⟨request, hget, htaken⟩ := Option.bind_eq_some_iff.mp htaken
    obtain ⟨⟨request', db'⟩, hadvance, rfl⟩ := Option.map_eq_some_iff.mp htaken
    have haffords := h.affords request hget
    have hadvanced := advance_cases hadvance
    have hwritten : Written options (SizedRevision size) world.database db' :=
      written_of_advanced haffords.prepared haffords.sized hadvanced
    refine ⟨sized_written h.sized hwritten, effectiveQuota_written h.effective hwritten, ?_, ?_⟩
    · simpa using h.present
    · intro found hfound
      have hsame : found = request' := by
        simpa [List.getElem?_set, h.present] using hfound.symm
      rw [hsame]
      exact affords_advanced haffords h.sized h.effective hadvanced
  | prune cutoff =>
    cases htaken
    exact ⟨h.sized, h.effective, h.present,
      fun request hget => affords_rows (h.affords request hget) rfl⟩
  | administer users devices memberships =>
    cases htaken
    exact ⟨h.sized, h.effective, h.present,
      fun request hget => affords_rows (h.affords request hget) rfl⟩

theorem fits_of_precheck (hsized : Sized size db)
    (hordered : ∀ revision ∈ ordered, SizedRevision size revision)
    (h : precheckVaultQuota options db vaultId ordered = false) :
    Fits size (resolveEffectiveQuotaBytes (readVaultQuotaBytes db vaultId) options.vaultQuotaBytes)
      db vaultId ordered := by
  intro hne
  have hne' : (newBlobs db vaultId ordered \ ([] : List BlobHash).toFinset).Nonempty := by
    simpa using hne
  have hbound := fits_of_precheckBlobs hordered h hne'
  rw [computeVaultStorageBytes_eq hsized] at hbound
  simpa using hbound

/-- The pre-check and the transaction read the same quota. -/
theorem effectiveQuota_of_keys (hkeys : (db.vaults.map VaultRow.id).Nodup) :
    EffectiveQuota options
      (resolveEffectiveQuotaBytes (readVaultQuotaBytes db vaultId) options.vaultQuotaBytes)
      vaultId db := by
  intro vault hvault
  obtain ⟨hmem, hid, -⟩ := getVault_eq_ok hvault
  have hfind : db.vaults.find? (fun row => row.id = vaultId) = some vault := by
    cases hfound : db.vaults.find? (fun row => row.id = vaultId) with
    | none => exact absurd hid (by simpa using List.find?_eq_none.mp hfound vault hmem)
    | some other =>
      have hother : other.id = vaultId := by simpa using List.find?_some hfound
      have hsame := inj_on_of_nodup_map hkeys (mem_of_find?_eq_some hfound) hmem
        (hother.trans hid.symm)
      rw [hsame]
  rw [readVaultQuotaBytes, hfind]
  rfl

theorem affords_receive (hsized : Sized size db) (actor : AuthenticatedRevisionActor)
    (hordered : ∀ revision ∈ ordered, SizedRevision size revision)
    (hpass : precheckVaultQuota options db vaultId ordered = false) :
    Affords size options
      (resolveEffectiveQuotaBytes (readVaultQuotaBytes db vaultId) options.vaultQuotaBytes)
      vaultId db (receive options db actor vaultId ordered) := by
  have hprepared : PreparedHead options (receive options db actor vaultId ordered) :=
    preparedHead_receive db actor vaultId ordered
  have hcases := receive_cases options db actor vaultId ordered
  rcases hcases with ⟨error, hrefused⟩ | ⟨hbegun, hvault, -⟩
  · rw [hrefused] at hprepared ⊢
    refine ⟨hprepared, ?_, ?_, ?_, ?_⟩
    · simp [refused]
    · simp [refused]
    · intro hne
      simp [newBlobs, refused] at hne
    · simp [refused]
  · rw [hbegun] at hprepared ⊢
    exact ⟨hprepared, hvault, hordered, fits_of_precheck hsized hordered hpass, by simp [begun]⟩

end

section
variable {wired : Bool} {world : World} {database : Database}

structure Charged (size : BlobHash → ℕ) (options : RevisionRepositoryOptions) (db : Database) :
    Prop where
  keys : (db.vaults.map VaultRow.id).Nodup
  sized : Sized size db
  within : WithinQuota size options db

theorem keys_written {Q : HashedRevisionInput → Prop} (h : (db.vaults.map VaultRow.id).Nodup)
    (hwritten : Written options Q db db') : (db'.vaults.map VaultRow.id).Nodup := by
  cases hwritten with
  | commit actor revision now result meets ran =>
    rcases revisions_commit ran with ⟨-, hvaults⟩ | ⟨vault, row, -, -, -, -, -, -, hvaults⟩
    · rwa [hvaults]
    · have hids : db'.vaults.map VaultRow.id = db.vaults.map VaultRow.id := by
        rw [hvaults, map_map]
        exact map_congr_left fun row _ => (advanced_id _ row).1
      rwa [hids]
  | _ => exact h

theorem charged_written (h : Charged size options db)
    (hwritten : Written options (SizedRevision size) db db') : Charged size options db' where
  keys := keys_written h.keys hwritten
  sized := sized_written h.sized hwritten
  within := withinQuota_written h.sized h.within hwritten

theorem charged_kept : Kept options wired (SizedRevision size) (Charged size options)
    (fun _ request => ∀ revision ∈ request.remaining, SizedRevision size revision) where
  received := by
    intro db actor vaultId ordered _ hordered
    rcases receive_cases options db actor vaultId ordered with ⟨error, hrefused⟩ | ⟨hbegun, -, -⟩
    · rw [hrefused]
      simp [refused]
    · rw [hbegun]
      exact hordered
  meets := fun _ _ h => h
  advanced := by
    intro db request request' db' _ h _ hadvanced
    have hrest {revision : HashedRevisionInput} {rest : List HashedRevisionInput}
        {outcome : Except RepositoryError CommitRevisionResult}
        (head : request.remaining = revision :: rest) :
        ∀ other ∈ (request.conclude revision rest db outcome).remaining,
          SizedRevision size other := by
      intro other hmem
      rw [(conclude_actor request revision rest db outcome).2.2.1] at hmem
      exact h other (head ▸ mem_cons_of_mem _ hmem)
    cases hadvanced with
    | moved phase active next => exact h
    | prepared prepared revision rest active head ran => exact h
    | failed revision rest error active head why => exact hrest head
    | committed prepared revision rest now result db' phase head ran => exact hrest head
    | finished ending => exact h
  written := fun _ _ h hwritten => charged_written h hwritten
  disturbed := fun _ _ _ _ h _ => h

theorem charged_reached (hcharged : Charged size options database)
    (h : Reached (step options wired) (Honest size) ⟨database, []⟩ world) :
    Charged size options world.database := by
  have hholds : Holds options (Charged size options)
      (fun _ request => ∀ revision ∈ request.remaining, SizedRevision size revision) world := by
    refine h.invariant ⟨hcharged, by simp⟩ ?_
    intro before event next hbefore hhonest htaken
    refine charged_kept.step hbefore ?_ htaken
    rintro actor vaultId ordered rfl
    exact hhonest
  exact hholds.1

/-- Whatever the pushes of all clients interleave to, no live vault is charged more than
its quota; and a push whose pre-check passed is never refused over the quota while no
other request takes a step. -/
theorem quota_never_exceeded (hcharged : Charged size options database)
    (h : Reached (step options wired) (Honest size) ⟨database, []⟩ world) :
    (∀ vaultId vault, getVault world.database vaultId = .ok vault →
      ∑ hash ∈ chargedBlobs world.database vaultId, size hash ≤
        resolveEffectiveQuotaBytes vault.quotaBytes options.vaultQuotaBytes) ∧
    ∀ actor vaultId ordered, (∀ revision ∈ ordered, SizedRevision size revision) →
      precheckVaultQuota options world.database vaultId ordered = false →
      ∀ later request, Reached (step options wired) (Alone world.requests.length)
        { world with
          requests := world.requests ++
            [receive options world.database actor vaultId ordered] } later →
        later.requests[world.requests.length]? = some request →
        ∀ tried ∈ request.attempts, tried.outcome ≠ .error .quotaExceeded := by
  have hnow := charged_reached hcharged h
  refine ⟨hnow.within, ?_⟩
  intro actor vaultId ordered hordered hpass later request hlater hget
  have hstart : AloneInvariant size options
      (resolveEffectiveQuotaBytes (readVaultQuotaBytes world.database vaultId)
        options.vaultQuotaBytes) vaultId world.requests.length
      { world with
        requests := world.requests ++
          [receive options world.database actor vaultId ordered] } := by
    refine ⟨hnow.sized, effectiveQuota_of_keys hnow.keys, by simp, ?_⟩
    intro found hfound
    have hsame : found = receive options world.database actor vaultId ordered := by
      simpa using hfound.symm
    rw [hsame]
    exact affords_receive hnow.sized actor hordered hpass
  have hend := hlater.invariant hstart fun _ _ _ hbefore halone htaken =>
    aloneInvariant_step hbefore halone htaken
  exact (hend.affords request hget).spared

end

/-- A batch of two blobs of three bytes is committed to an empty vault. -/
def quotaRun : List Event :=
  .push ⟨6, 7⟩ 1 exampleBatch :: commitTurn 0 ++ commitTurn 0

theorem quota_never_exceeded_example : ∃ world,
    run (step exampleOptions true) ⟨exampleDatabase, []⟩ quotaRun = some world ∧
      ∀ vaultId vault, getVault world.database vaultId = .ok vault →
        ∑ _hash ∈ chargedBlobs world.database vaultId, 3 ≤
          resolveEffectiveQuotaBytes vault.quotaBytes exampleOptions.vaultQuotaBytes := by
  have hruns : (run (step exampleOptions true) ⟨exampleDatabase, []⟩ quotaRun).isSome = true := by
    decide +kernel
  obtain ⟨world, hrun⟩ := Option.isSome_iff_exists.mp hruns
  have hcharged : Charged (fun _ => 3) exampleOptions exampleDatabase := by
    refine ⟨by decide, by simp [Sized, exampleDatabase], ?_⟩
    intro vaultId vault _
    simp [chargedBytes, chargedBlobs, exampleDatabase]
  have hallowed : Allowed (step exampleOptions true) (Honest fun _ => 3) ⟨exampleDatabase, []⟩
      quotaRun := by
    refine allowed_of_mem ?_ _
    intro event hmem world
    cases event with
    | push actor vaultId ordered =>
      have hordered : ordered = exampleBatch := by
        simp [quotaRun, commitTurn] at hmem
        exact hmem.2.2
      rw [hordered]
      intro revision hrevision
      simp only [exampleBatch, mem_cons, not_mem_nil, or_false] at hrevision
      rcases hrevision with rfl | rfl <;> rfl
    | _ => trivial
  exact ⟨world, hrun, (quota_never_exceeded hcharged (Reached.start.run hallowed hrun)).1⟩

end Havemind.VaultQuota
