import Havemind.ParentGraph
import Havemind.RevisionCommit
import Mathlib.Data.List.Range

/-!
The revision graph of a vault over every sequence of commits. The rows of one
file are an append-only graph: a new revision adds a node to the graph of its
file and leaves every other graph alone. The vault's sequences and events grow
by one entry with it, and a failed call changes nothing.
-/
namespace Havemind.RevisionGraph

open RevisionSchema ServerDatabase RevisionRepository RevisionCommit ParentGraph List

def IsRevisionOf (db : Database) (fileId id : Id) : Prop :=
  ∃ row ∈ db.revisions, row.id = id ∧ row.fileId = fileId

/-- The rows of a file as a graph. -/
def fileGraph (db : Database) (fileId : Id) : Dag Id where
  nodes := {id | IsRevisionOf db fileId id}
  parent child parent := IsRevisionOf db fileId child ∧
    ∃ row ∈ db.revisionParents, row.revisionId = child ∧ row.parentRevisionId = parent
  heads := {id | ⟨fileId, id⟩ ∈ db.fileHeads}

def revisionKey (row : RevisionRow) : ℕ × Option Id × ℕ :=
  (row.serverSequence, some row.id, row.serverSequence)

def eventKey (row : VaultEventRow) : ℕ × Option Id × ℕ :=
  (row.serverSequence, row.revisionId, row.receipt.serverSequence)

/-- The invariant of a vault's rows over a run of commits. -/
structure VaultGraph (v : Id) (db : Database) : Prop where
  schema : db.SchemaHolds
  file_vault : ∀ row ∈ db.revisions, ∀ file ∈ db.files, file.id = row.fileId →
    (row.vaultId = v ↔ file.vaultId = v)
  grown : ∀ file ∈ db.files, file.vaultId = v → Grown (fileGraph db file.id)
  edges : ∀ row ∈ db.revisionParents, ∀ child ∈ db.revisions, ∀ parent ∈ db.revisions,
    child.id = row.revisionId → parent.id = row.parentRevisionId →
    child.vaultId = v ∨ parent.vaultId = v →
      child.vaultId = parent.vaultId ∧ child.fileId = parent.fileId ∧
        parent.serverSequence < child.serverSequence
  sequences : ∃ vault ∈ db.vaults, vault.id = v ∧ 0 < vault.nextServerSequence ∧
    (db.revisions.filter fun row => row.vaultId = v).map RevisionRow.serverSequence =
      List.range' 1 (vault.nextServerSequence - 1)
  events : (db.vaultEvents.filter fun row => row.vaultId = v).map eventKey =
    (db.revisions.filter fun row => row.vaultId = v).map revisionKey

section
variable (options : RevisionRepositoryOptions) {prepared : PreparedCommit} {isRoot : Bool}
  {sequence epoch : ℕ} {time : Timestamp} {db : Database}

theorem mem_files_of_mem {row : FileRow} (h : row ∈ db.files) :
    row ∈ (committed options prepared isRoot sequence epoch time db).files := by
  simp only [committed, withFile]
  split
  · exact mem_append_left _ h
  · exact h

theorem isRevisionOf_committed {fileId id : Id} :
    IsRevisionOf (committed options prepared isRoot sequence epoch time db) fileId id ↔
      IsRevisionOf db fileId id ∨ (id = prepared.header.revisionId ∧
        fileId = prepared.header.fileId) := by
  simp only [IsRevisionOf, committed, mem_append, mem_singleton]
  constructor
  · rintro ⟨row, hold | rfl, hid, hfile⟩
    · exact Or.inl ⟨row, hold, hid, hfile⟩
    · exact Or.inr ⟨hid.symm, hfile.symm⟩
  · rintro (⟨row, hold, hid, hfile⟩ | ⟨rfl, rfl⟩)
    · exact ⟨row, Or.inl hold, hid, hfile⟩
    · exact ⟨_, Or.inr rfl, rfl, rfl⟩

theorem parentRow_committed {child parent : Id} :
    (∃ row ∈ (committed options prepared isRoot sequence epoch time db).revisionParents,
      row.revisionId = child ∧ row.parentRevisionId = parent) ↔
      (∃ row ∈ db.revisionParents, row.revisionId = child ∧ row.parentRevisionId = parent) ∨
        (child = prepared.header.revisionId ∧ parent ∈ prepared.header.parentRevisionIds) := by
  simp only [committed, mem_append]
  constructor
  · rintro ⟨row, hold | hnew, hchild, hparent⟩
    · exact Or.inl ⟨row, hold, hchild, hparent⟩
    · obtain ⟨hid, hmem, _⟩ := mem_parentRows hnew
      exact Or.inr ⟨hchild.symm.trans hid, hparent ▸ hmem⟩
  · rintro (⟨row, hold, hchild, hparent⟩ | ⟨rfl, hmem⟩)
    · exact ⟨row, Or.inl hold, hchild, hparent⟩
    · obtain ⟨row, hrow, hchild, hparent⟩ := exists_parentRow 0 hmem
      exact ⟨row, Or.inr hrow, hchild, hparent⟩

variable (hfree : ∀ row ∈ db.revisions, row.id ≠ prepared.header.revisionId)

include hfree

theorem no_parentRow_of_free (hschema : db.SchemaHolds) (id : Id) : ¬ ∃ row ∈ db.revisionParents,
    row.revisionId = prepared.header.revisionId ∧ row.parentRevisionId = id := by
  rintro ⟨row, hrow, hchild, _⟩
  obtain ⟨child, hmem, hid⟩ := hschema.parent_child row hrow
  exact hfree child hmem (hid.trans hchild)

/-- A new revision is a new node of its file's graph. -/
theorem fileGraph_committed (hschema : db.SchemaHolds) :
    fileGraph (committed options prepared isRoot sequence epoch time db) prepared.header.fileId =
      (fileGraph db prepared.header.fileId).add prepared.header.revisionId
        {id | id ∈ prepared.header.parentRevisionIds} := by
  have hnone := no_parentRow_of_free hfree hschema
  apply Dag.ext
  · ext id
    simp only [fileGraph, Dag.add, Set.mem_ofPred_eq, Set.mem_insert_iff, isRevisionOf_committed]
    tauto
  · funext child parent
    simp only [fileGraph, Dag.add, Set.mem_ofPred_eq, isRevisionOf_committed,
      parentRow_committed, eq_iff_iff]
    constructor
    · rintro ⟨hnode, hrow | hnew⟩
      · rcases hnode with hnode | ⟨rfl, _⟩
        · exact Or.inl ⟨hnode, hrow⟩
        · exact absurd hrow (hnone parent)
      · exact Or.inr hnew
    · rintro (⟨hnode, hrow⟩ | hnew)
      · exact ⟨Or.inl hnode, Or.inl hrow⟩
      · exact ⟨Or.inr ⟨hnew.1, trivial⟩, Or.inr hnew⟩
  · ext id
    simp only [fileGraph, Dag.add, committed, Set.mem_ofPred_eq, mem_append,
      mem_filter, mem_singleton, FileHeadRow.mk.injEq, Set.mem_insert_iff,
      Set.mem_sdiff, decide_eq_true_eq, true_and]
    tauto

/-- The graphs of the other files are untouched. -/
theorem fileGraph_committed_of_ne {fileId : Id} (hne : fileId ≠ prepared.header.fileId) :
    fileGraph (committed options prepared isRoot sequence epoch time db) fileId =
      fileGraph db fileId := by
  apply Dag.ext
  · ext id
    simp only [fileGraph, Set.mem_ofPred_eq, isRevisionOf_committed, hne, and_false, or_false]
  · funext child parent
    simp only [fileGraph, isRevisionOf_committed, parentRow_committed, hne, and_false, or_false,
      eq_iff_iff]
    constructor
    · rintro ⟨hnode, hrow | ⟨rfl, _⟩⟩
      · exact ⟨hnode, hrow⟩
      · obtain ⟨row, hmem, hid, _⟩ := hnode
        exact absurd hid (hfree row hmem)
    · exact fun ⟨hnode, hrow⟩ => ⟨hnode, Or.inl hrow⟩
  · ext id
    simp only [fileGraph, committed, Set.mem_ofPred_eq, mem_append, mem_filter,
      mem_singleton, FileHeadRow.mk.injEq, hne, false_and, or_false, decide_eq_true_eq,
      not_false_eq_true, and_true]

end

section
variable (options : RevisionRepositoryOptions) {now : Option Timestamp} {prepared : PreparedCommit}
  {vault : VaultRow} {isRoot : Bool} {time : Timestamp} {db db' : Database}
  {result : CommitRevisionResult} {file : FileRow} {sequence epoch : ℕ} {v : Id}

theorem committed_file_exists (hgraph : assertFileGraphCommittable db prepared.toPreparedHeader =
    .ok isRoot) (sequence epoch : ℕ) (time : Timestamp) :
    ∃ file ∈ (committed options prepared isRoot sequence epoch time db).files,
      file.id = prepared.header.fileId ∧ file.vaultId = prepared.header.vaultId := by
  cases isRoot with
  | true => exact ⟨⟨_, _⟩, by simp [committed, withFile], rfl, rfl⟩
  | false =>
    obtain ⟨file, hmem, hfile⟩ := (fileGraph_child hgraph).1
    exact ⟨file, mem_files_of_mem options hmem, hfile⟩

theorem mem_files_committed
    (h : file ∈ (committed options prepared isRoot sequence epoch time db).files) :
    file ∈ db.files ∨
      (isRoot = true ∧ file = ⟨prepared.header.fileId, prepared.header.vaultId⟩) := by
  simp only [committed, withFile] at h
  split at h
  · rename_i hroot
    rcases mem_append.mp h with hold | hnew
    · exact Or.inl hold
    · exact Or.inr ⟨hroot, mem_singleton.mp hnew⟩
  · exact Or.inl h

theorem map_id_advanced (vaultId : Id) (sequence : ℕ) (rows : List VaultRow) :
    (rows.map (advanced vaultId sequence)).map VaultRow.id = rows.map VaultRow.id := by
  rw [map_map]
  apply map_congr_left
  intro row _
  simp only [Function.comp_apply, advanced]
  split <;> rfl

/-- A commit keeps the schema's keys and references. -/
theorem newCommit_schemaHolds (h : NewCommit options now prepared vault isRoot time db result db')
    (hfree : ∀ row ∈ db.revisions, row.id ≠ prepared.header.revisionId)
    (S : db.SchemaHolds) : db'.SchemaHolds := by
  have hgraph := h.graph
  obtain ⟨file, hfile, hfileId, _⟩ := committed_file_exists options hgraph
    vault.nextServerSequence vault.writeEpoch time
  rw [← h.effect] at hfile
  have hold : ∀ file ∈ db.files, file ∈ db'.files := by
    intro file hmem
    rw [h.effect]
    exact mem_files_of_mem options hmem
  have heffect := h.effect
  constructor
  · rw [heffect]
    simpa only [committed, map_id_advanced] using S.vault_keys
  · intro row hrow
    rw [heffect] at hrow
    obtain ⟨old, hmem, rfl⟩ := mem_map.mp hrow
    have hpos := S.vault_sequences old hmem
    unfold advanced
    split
    · exact Nat.succ_pos _
    · exact hpos
  · rw [heffect]
    cases isRoot with
    | true =>
      have hnew := (fileGraph_root hgraph).2
      simp only [committed, withFile, if_true, map_append, map_cons, map_nil]
      refine List.Nodup.append S.file_keys (nodup_singleton _) ?_
      simpa using hnew
    | false => simpa [committed, withFile] using S.file_keys
  · rw [heffect]
    simp only [committed, map_append, map_cons, map_nil]
    refine List.Nodup.append S.revision_keys (nodup_singleton _) ?_
    simpa [revisionRow] using hfree
  · intro row hrow
    rw [heffect] at hrow
    simp only [committed, mem_append, mem_singleton] at hrow
    rcases hrow with hrow | rfl
    · obtain ⟨file', hmem, hid⟩ := S.revision_file row hrow
      exact ⟨file', hold file' hmem, hid⟩
    · exact ⟨file, hfile, hfileId⟩
  · intro row hrow
    rw [heffect] at hrow ⊢
    simp only [committed, mem_append, mem_singleton] at hrow ⊢
    rcases hrow with hrow | hrow
    · obtain ⟨child, hmem, hid⟩ := S.parent_child row hrow
      exact ⟨child, Or.inl hmem, hid⟩
    · exact ⟨_, Or.inr rfl, (mem_parentRows hrow).1.symm⟩
  · intro row hrow
    rw [heffect] at hrow ⊢
    simp only [committed, mem_append, mem_singleton] at hrow ⊢
    rcases hrow with hrow | hrow
    · obtain ⟨parent, hmem, hid⟩ := S.parent_parent row hrow
      exact ⟨parent, Or.inl hmem, hid⟩
    · obtain ⟨parent, hmem, hid, _⟩ := fileGraph_parents hgraph _ (mem_parentRows hrow).2.1
      exact ⟨parent, Or.inl hmem, hid⟩
  · intro row hrow
    rw [heffect] at hrow
    simp only [committed, mem_append, mem_filter, mem_singleton] at hrow
    rcases hrow with ⟨hrow, _⟩ | rfl
    · obtain ⟨file', hmem, hid⟩ := S.head_file row hrow
      exact ⟨file', hold file' hmem, hid⟩
    · exact ⟨file, hfile, hfileId⟩
  · intro row hrow
    rw [heffect] at hrow ⊢
    simp only [committed, mem_append, mem_filter, mem_singleton] at hrow ⊢
    rcases hrow with ⟨hrow, _⟩ | rfl
    · obtain ⟨revision, hmem, hid⟩ := S.head_revision row hrow
      exact ⟨revision, Or.inl hmem, hid⟩
    · exact ⟨_, Or.inr rfl, rfl⟩

theorem eq_of_id_eq {α : Type} {key : α → Id} {rows : List α} (hkeys : (rows.map key).Nodup)
    {x y : α} (hx : x ∈ rows) (hy : y ∈ rows) (h : key x = key y) : x = y :=
  inj_on_of_nodup_map hkeys hx hy h

/-- The file of a new revision of the vault is a file of the vault, and of no
other. -/
theorem fileVault_committed (G : VaultGraph v db)
    (hgraph : assertFileGraphCommittable db prepared.toPreparedHeader = .ok isRoot)
    (hfile : file ∈ (committed options prepared isRoot sequence epoch time db).files)
    (hid : file.id = prepared.header.fileId) : file.vaultId = prepared.header.vaultId := by
  rcases mem_files_committed options hfile with hold | ⟨_, rfl⟩
  · cases isRoot with
    | true => exact absurd hid ((fileGraph_root hgraph).2 file hold)
    | false =>
      obtain ⟨file', hmem, hid', hvault⟩ := (fileGraph_child hgraph).1
      rw [eq_of_id_eq G.schema.file_keys hold hmem (hid.trans hid'.symm), hvault]
  · rfl

theorem grown_committed (G : VaultGraph v db)
    (hfree : ∀ row ∈ db.revisions, row.id ≠ prepared.header.revisionId)
    (hgraph : assertFileGraphCommittable db prepared.toPreparedHeader = .ok isRoot)
    (hfile : file ∈ (committed options prepared isRoot sequence epoch time db).files)
    (hvault : file.vaultId = v) :
    Grown (fileGraph (committed options prepared isRoot sequence epoch time db) file.id) := by
  by_cases hsame : file.id = prepared.header.fileId
  · have hbase : Grown (fileGraph db file.id) := by
      rcases mem_files_committed options hfile with hold | ⟨hroot, _⟩
      · exact G.grown file hold hvault
      · subst hroot
        have hnone := (fileGraph_root hgraph).2
        have hempty : fileGraph db file.id = Dag.empty := by
          apply Dag.ext
          · ext id
            simp only [fileGraph, Dag.empty, Set.mem_ofPred_eq, Set.mem_empty_iff_false, iff_false]
            rintro ⟨row, hrow, _, hrowFile⟩
            obtain ⟨file', hmem, hid⟩ := G.schema.revision_file row hrow
            exact hnone file' hmem (hid.trans (hrowFile.trans hsame))
          · funext child parent
            simp only [fileGraph, Dag.empty, eq_iff_iff, iff_false]
            rintro ⟨⟨row, hrow, _, hrowFile⟩, _⟩
            obtain ⟨file', hmem, hid⟩ := G.schema.revision_file row hrow
            exact hnone file' hmem (hid.trans (hrowFile.trans hsame))
          · ext id
            simp only [fileGraph, Dag.empty, Set.mem_ofPred_eq, Set.mem_empty_iff_false, iff_false]
            intro hhead
            obtain ⟨file', hmem, hid⟩ := G.schema.head_file _ hhead
            exact hnone file' hmem (hid.trans hsame)
        rw [hempty]
        exact Grown.empty
    rw [hsame] at hbase ⊢
    rw [fileGraph_committed options hfree G.schema]
    refine Grown.add hbase ?_ ?_
    · rintro ⟨row, hrow, hid, _⟩
      exact hfree row hrow hid
    · intro id hid
      obtain ⟨row, hrow, hrowId, _, hrowFile⟩ := fileGraph_parents hgraph id hid
      exact ⟨row, hrow, hrowId, hrowFile⟩
  · rw [fileGraph_committed_of_ne options hfree hsame]
    rcases mem_files_committed options hfile with hold | ⟨_, rfl⟩
    · exact G.grown file hold hvault
    · exact absurd rfl hsame

theorem range'_snoc {n : ℕ} (h : 0 < n) :
    List.range' 1 (n - 1) ++ [n] = List.range' 1 (n + 1 - 1) := by
  obtain ⟨m, rfl⟩ : ∃ m, n = m + 1 := ⟨n - 1, by omega⟩
  rw [Nat.add_sub_cancel, Nat.add_sub_cancel, range'_concat, Nat.one_mul, Nat.add_comm 1 m]

/-- One accepted revision keeps the invariant of every vault. -/
theorem newCommit_vaultGraph (h : NewCommit options now prepared vault isRoot time db result db')
    (hvault : getVault db prepared.header.vaultId = .ok vault)
    (hfree : ∀ row ∈ db.revisions, row.id ≠ prepared.header.revisionId) (G : VaultGraph v db) :
    VaultGraph v db' := by
  have hgraph := h.graph
  have heffect := h.effect
  have hparents := fileGraph_parents hgraph
  obtain ⟨hvaultMem, hvaultId, _⟩ := getVault_eq_ok hvault
  refine ⟨newCommit_schemaHolds options h hfree G.schema, ?_, ?_, ?_, ?_, ?_⟩
  · intro row hrow file hfile hid
    rw [heffect] at hrow hfile
    simp only [committed, mem_append, mem_singleton] at hrow
    rcases hrow with hrow | rfl
    · rcases mem_files_committed options hfile with hold | ⟨hroot, rfl⟩
      · exact G.file_vault row hrow file hold hid
      · subst hroot
        obtain ⟨file', hmem, hid'⟩ := G.schema.revision_file row hrow
        exact absurd (hid'.trans hid.symm) ((fileGraph_root hgraph).2 file' hmem)
    · rw [fileVault_committed options G hgraph hfile hid]
      exact Iff.rfl
  · intro file hfile hfileVault
    rw [heffect] at hfile ⊢
    exact grown_committed options G hfree hgraph hfile hfileVault
  · intro row hrow child hchild parent hparent hchildId hparentId hin
    rw [heffect] at hrow hchild hparent
    simp only [committed, mem_append, mem_singleton] at hrow hchild hparent
    rcases hrow with hrow | hrow
    · have hchild' : child ∈ db.revisions := by
        rcases hchild with hold | rfl
        · exact hold
        · obtain ⟨row', hmem, hid⟩ := G.schema.parent_child row hrow
          exact absurd (hid.trans hchildId.symm) (hfree row' hmem)
      have hparent' : parent ∈ db.revisions := by
        rcases hparent with hold | rfl
        · exact hold
        · obtain ⟨row', hmem, hid⟩ := G.schema.parent_parent row hrow
          exact absurd (hid.trans hparentId.symm) (hfree row' hmem)
      exact G.edges row hrow child hchild' parent hparent' hchildId hparentId hin
    · obtain ⟨hrowChild, hrowParent, _⟩ := mem_parentRows hrow
      obtain ⟨stored, hstored, hstoredId, hstoredVault, hstoredFile⟩ := hparents _ hrowParent
      have hchildNew : child = revisionRow prepared vault.nextServerSequence vault.writeEpoch
          time := by
        rcases hchild with hold | hnew
        · exact absurd (hchildId.trans hrowChild) (hfree child hold)
        · exact hnew
      have hparentOld : parent = stored := by
        rcases hparent with hold | rfl
        · exact eq_of_id_eq G.schema.revision_keys hold hstored (hparentId.trans hstoredId.symm)
        · exact absurd (hstoredId.trans hparentId.symm) (hfree stored hstored)
      subst hchildNew hparentOld
      refine ⟨hstoredVault.symm, hstoredFile.symm, ?_⟩
      have hv : prepared.header.vaultId = v := by
        rcases hin with hin | hin
        · exact hin
        · exact hstoredVault.symm.trans hin
      obtain ⟨vault', hmem', hid', hpos, hsequences⟩ := G.sequences
      have hsame : vault' = vault :=
        eq_of_id_eq G.schema.vault_keys hmem' hvaultMem (hid'.trans (hv.symm.trans hvaultId.symm))
      subst hsame
      have hin' : parent.serverSequence ∈ List.range' 1 (vault'.nextServerSequence - 1) := by
        rw [← hsequences]
        exact mem_map_of_mem (mem_filter.mpr
          ⟨hstored, by simpa using hstoredVault.trans hv⟩)
      obtain ⟨_, hlt⟩ := mem_range'_1.mp hin'
      show parent.serverSequence < vault'.nextServerSequence
      omega
  · obtain ⟨vault', hmem', hid', hpos, hsequences⟩ := G.sequences
    rw [heffect]
    simp only [committed, filter_append, map_append, hsequences]
    refine ⟨advanced prepared.header.vaultId vault.nextServerSequence vault',
      mem_map_of_mem hmem', ?_⟩
    by_cases hv : prepared.header.vaultId = v
    · have hsame : vault' = vault :=
        eq_of_id_eq G.schema.vault_keys hmem' hvaultMem (hid'.trans (hv.symm.trans hvaultId.symm))
      subst hsame
      rw [advanced, if_pos ⟨hvaultId, rfl⟩]
      refine ⟨hid', Nat.succ_pos _, ?_⟩
      simpa [revisionRow, hv] using range'_snoc hpos
    · rw [advanced, if_neg (fun hc => hv (hc.1.symm.trans hid'))]
      exact ⟨hid', hpos, by simp [revisionRow, hv]⟩
  · rw [heffect]
    simp only [committed, filter_append, map_append, G.events]
    by_cases hv : prepared.header.vaultId = v
    · simp [acceptedEvent, revisionRow, commitReceipt, eventKey, revisionKey, hv]
    · simp [acceptedEvent, revisionRow, hv]

end

section
variable (options : RevisionRepositoryOptions) {v : Id} {db : Database}

/-- No other table has a part in the graph. -/
theorem VaultGraph.untouched (G : VaultGraph v db) (users : List UserRow) (devices : List DeviceRow)
    (memberships : List MembershipRow) (idempotencyRecords : List IdempotencyRow) :
    VaultGraph v { db with users, devices, memberships, idempotencyRecords } :=
  ⟨⟨G.schema.vault_keys, G.schema.vault_sequences, G.schema.file_keys, G.schema.revision_keys,
    G.schema.revision_file, G.schema.parent_child, G.schema.parent_parent, G.schema.head_file,
    G.schema.head_revision⟩, G.file_vault, G.grown, G.edges, G.sequences, G.events⟩

theorem vaultGraph_of_cases {now : Option Timestamp} {prepared : PreparedCommit}
    {result : CommitRevisionResult} {db' : Database} (G : VaultGraph v db)
    (h : (∃ existing, Replayed options now prepared existing db result db') ∨
      Accepted options now prepared db result db') : VaultGraph v db' := by
  rcases h with ⟨existing, hreplayed⟩ | haccepted
  · obtain ⟨_, _, ⟨_, _, _, _, rfl⟩ | ⟨_, _, _, _, rfl⟩⟩ := hreplayed.answer
    · exact G
    · exact G.untouched _ _ _ _
  · obtain ⟨vault, isRoot, time, hvault, hnew⟩ := haccepted.new
    exact newCommit_vaultGraph options hnew hvault haccepted.id_free G

theorem vaultGraph_afterCall (call : CommitCall) (G : VaultGraph v db) :
    VaultGraph v (afterCall options db call) := by
  unfold afterCall
  cases hrun : runCall options call db with
  | error e db' =>
    have hsame : db' = db := commitRevisionSeen_error options hrun
    rw [hsame]
    exact G
  | ok result db' =>
    obtain ⟨prepared, _, _, hcases⟩ := commitRevisionSeen_cases options hrun
    exact vaultGraph_of_cases options G hcases

theorem vaultGraph_afterCalls (calls : List CommitCall) (G : VaultGraph v db) :
    VaultGraph v (afterCalls options db calls) := by
  induction calls generalizing db with
  | nil => exact G
  | cons call rest ih => exact ih (vaultGraph_afterCall options call G)

end

/-- A vault without files, revisions or events, whose next sequence is 1. -/
structure EmptyVault (v : Id) (db : Database) : Prop where
  vault : ∃ vault ∈ db.vaults, vault.id = v ∧ vault.nextServerSequence = 1
  files : ∀ file ∈ db.files, file.vaultId ≠ v
  revisions : ∀ row ∈ db.revisions, row.vaultId ≠ v
  events : ∀ row ∈ db.vaultEvents, row.vaultId ≠ v

theorem vaultGraph_of_empty {v : Id} {db : Database} (S : db.SchemaHolds) (E : EmptyVault v db) :
    VaultGraph v db := by
  have hrevisions : (db.revisions.filter fun row => row.vaultId = v) = [] := by
    simpa [filter_eq_nil_iff] using E.revisions
  have hevents : (db.vaultEvents.filter fun row => row.vaultId = v) = [] := by
    simpa [filter_eq_nil_iff] using E.events
  refine ⟨S, ?_, ?_, ?_, ?_, by rw [hrevisions, hevents]; rfl⟩
  · intro row hrow file hfile _
    exact ⟨fun h => absurd h (E.revisions row hrow), fun h => absurd h (E.files file hfile)⟩
  · exact fun file hfile hvault => absurd hvault (E.files file hfile)
  · intro row _ child hchild parent hparent _ _ hin
    rcases hin with hin | hin
    · exact absurd hin (E.revisions child hchild)
    · exact absurd hin (E.revisions parent hparent)
  · obtain ⟨vault, hmem, hid, hnext⟩ := E.vault
    exact ⟨vault, hmem, hid, by omega, by rw [hrevisions, hnext]; rfl⟩

/-- The revision `child` of the vault names `parent`. -/
def NamesParent (v : Id) (db : Database) (child parent : Id) : Prop :=
  (∃ row ∈ db.revisions, row.id = child ∧ row.vaultId = v) ∧
    ∃ row ∈ db.revisionParents, row.revisionId = child ∧ row.parentRevisionId = parent

/-- What a vault's rows say about its revision graph. -/
structure GraphLaws (v : Id) (db : Database) : Prop where
  /-- The recorded heads of a file are its revisions that no revision names. -/
  heads : ∀ file ∈ db.files, file.vaultId = v → ∀ id, ⟨file.id, id⟩ ∈ db.fileHeads ↔
    (∃ row ∈ db.revisions, row.id = id ∧ row.vaultId = v ∧ row.fileId = file.id) ∧
      ∀ row ∈ db.revisionParents, row.parentRevisionId ≠ id
  parents : ∀ child parent, NamesParent v db child parent → ∃ c ∈ db.revisions, c.id = child ∧
    ∃ p ∈ db.revisions, p.id = parent ∧ p.vaultId = v ∧ p.fileId = c.fileId ∧
      p.serverSequence < c.serverSequence
  acyclic : ∀ id, ¬ Relation.TransGen (NamesParent v db) id id
  sequences : ∃ vault ∈ db.vaults, vault.id = v ∧
    (db.revisions.filter fun row => row.vaultId = v).map RevisionRow.serverSequence =
      List.range' 1 (vault.nextServerSequence - 1)
  /-- The events list the same revisions at the same sequences. -/
  events : (db.vaultEvents.filter fun row => row.vaultId = v).map eventKey =
    (db.revisions.filter fun row => row.vaultId = v).map revisionKey

section
variable {v : Id} {db : Database} (G : VaultGraph v db)
include G

theorem VaultGraph.parents {child parent : Id} (h : NamesParent v db child parent) :
    ∃ c ∈ db.revisions, c.id = child ∧ ∃ p ∈ db.revisions, p.id = parent ∧ p.vaultId = v ∧
      p.fileId = c.fileId ∧ p.serverSequence < c.serverSequence := by
  obtain ⟨⟨c, hc, hcid, hcv⟩, row, hrow, hchild, hparent⟩ := h
  obtain ⟨p, hp, hpid⟩ := G.schema.parent_parent row hrow
  obtain ⟨hvault, hfile, hlt⟩ := G.edges row hrow c hc p hp (hcid.trans hchild.symm) hpid
    (Or.inl hcv)
  exact ⟨c, hc, hcid, p, hp, hpid.trans hparent, hvault.symm.trans hcv, hfile.symm, hlt⟩

theorem VaultGraph.acyclic (id : Id) : ¬ Relation.TransGen (NamesParent v db) id id := by
  have hrank : ∀ row ∈ db.revisions,
      ((getExistingRevision db row.id).elim 0 RevisionRow.serverSequence) = row.serverSequence := by
    intro row hrow
    cases hfind : getExistingRevision db row.id with
    | none => exact absurd rfl (getExistingRevision_eq_none.mp hfind row hrow)
    | some found =>
      obtain ⟨hmem, hid⟩ := getExistingRevision_eq_some hfind
      rw [eq_of_id_eq G.schema.revision_keys hmem hrow hid]
      rfl
  apply acyclic_of_rank fun id => (getExistingRevision db id).elim 0 RevisionRow.serverSequence
  intro child parent h
  obtain ⟨c, hc, rfl, p, hp, rfl, _, _, hlt⟩ := G.parents h
  rw [hrank c hc, hrank p hp]
  exact hlt

theorem VaultGraph.heads {file : FileRow} (hfile : file ∈ db.files) (hvault : file.vaultId = v)
    (id : Id) : ⟨file.id, id⟩ ∈ db.fileHeads ↔
      (∃ row ∈ db.revisions, row.id = id ∧ row.vaultId = v ∧ row.fileId = file.id) ∧
        ∀ row ∈ db.revisionParents, row.parentRevisionId ≠ id := by
  have hheads := (G.grown file hfile hvault).mem_heads_iff id
  simp only [fileGraph, Set.mem_ofPred_eq] at hheads
  rw [hheads]
  constructor
  · rintro ⟨⟨row, hrow, hid, hrowFile⟩, hnone⟩
    refine ⟨⟨row, hrow, hid, (G.file_vault row hrow file hfile hrowFile.symm).mpr hvault, hrowFile⟩,
      ?_⟩
    intro edge hedge hparent
    obtain ⟨child, hchild, hchildId⟩ := G.schema.parent_child edge hedge
    have hin : row.vaultId = v := (G.file_vault row hrow file hfile hrowFile.symm).mpr hvault
    obtain ⟨_, hsame, _⟩ := G.edges edge hedge child hchild row hrow hchildId
      (hid.trans hparent.symm) (Or.inr hin)
    exact hnone child.id ⟨⟨child, hchild, rfl, hsame.trans hrowFile⟩, edge, hedge, hchildId.symm,
      hparent⟩
  · rintro ⟨⟨row, hrow, hid, _, hrowFile⟩, hnone⟩
    refine ⟨⟨row, hrow, hid, hrowFile⟩, ?_⟩
    rintro child ⟨_, edge, hedge, _, hparent⟩
    exact hnone edge hedge hparent

theorem VaultGraph.laws : GraphLaws v db :=
  ⟨fun _ hfile hvault id => G.heads hfile hvault id, fun _ _ h => G.parents h, G.acyclic,
    by obtain ⟨vault, hmem, hid, _, hsequences⟩ := G.sequences; exact ⟨vault, hmem, hid, hsequences⟩,
    G.events⟩

end

/-- From an empty vault every sequence of calls keeps the graph laws, and the
next call changes nothing when it fails. -/
theorem commitRevision_graphLaws (options : RevisionRepositoryOptions) (v : Id) (db : Database)
    (hschema : db.SchemaHolds) (hempty : EmptyVault v db) (calls : List CommitCall) :
    GraphLaws v (afterCalls options db calls) ∧
      ∀ (call : CommitCall) (e : RepositoryError) (db' : Database),
        runCall options call (afterCalls options db calls) = .error e db' →
          db' = afterCalls options db calls :=
  ⟨(vaultGraph_afterCalls options calls (vaultGraph_of_empty hschema hempty)).laws,
    fun _ _ _ h => commitRevisionSeen_error options h⟩

theorem commitRevision_graphLaws_fork :
    GraphLaws 1 (afterCalls exampleOptions exampleDatabase
        [exampleCall 9 64 [], exampleCall 9 65 [64], exampleCall 9 66 [64], exampleCall 9 67 [64, 66]]) ∧
      (afterCalls exampleOptions exampleDatabase
        [exampleCall 9 64 [], exampleCall 9 65 [64], exampleCall 9 66 [64],
          exampleCall 9 67 [64, 66]]).fileHeads = [⟨9, 65⟩, ⟨9, 66⟩] :=
  ⟨(commitRevision_graphLaws exampleOptions 1 exampleDatabase
      ⟨by decide, by decide, by decide, by decide, by decide, by decide, by decide, by decide,
        by decide⟩
      ⟨by decide, by decide, by decide, by decide⟩ _).1, by decide⟩

end Havemind.RevisionGraph
