import Havemind.PushSteps
import Havemind.RevisionGraph

/-!
A vault's events as a log. Each sequence up to the cursor was issued to one
revision, and a commit issues no sequence but the one behind the cursor.
-/
namespace Havemind.EventLog

open RevisionSchema Transaction ServerDatabase RevisionRepository RevisionCommit RevisionGraph List
  PullRoute PushRoute PushHandler PushSteps Runs

section
variable {v : Id} {db : Database} {row : VaultEventRow}

/-- An event of the vault is about a revision of the same sequence. -/
theorem exists_revision (G : VaultGraph v db) (hrow : row ∈ db.vaultEvents)
    (hvault : row.vaultId = v) : ∃ stored ∈ db.revisions, stored.vaultId = v ∧
      row.revisionId = some stored.id ∧ row.serverSequence = stored.serverSequence := by
  have hkey : eventKey row ∈ (db.vaultEvents.filter fun row => row.vaultId = v).map eventKey :=
    mem_map_of_mem (mem_filter.mpr ⟨hrow, by simpa using hvault⟩)
  rw [G.events] at hkey
  obtain ⟨stored, hstored, heq⟩ := mem_map.mp hkey
  obtain ⟨hmem, hsame⟩ := mem_filter.mp hstored
  simp only [revisionKey, eventKey, Prod.mk.injEq] at heq
  exact ⟨stored, hmem, of_decide_eq_true hsame, heq.2.1.symm, heq.1.symm⟩

theorem exists_issued (G : VaultGraph v db) (hrow : row ∈ db.vaultEvents)
    (hvault : row.vaultId = v) : ∃ id, row.revisionId = some id ∧
      Issued db v row.serverSequence id ∧ 0 < row.serverSequence := by
  obtain ⟨stored, hstored, hsame, hid, hsequence⟩ := exists_revision G hrow hvault
  obtain ⟨vault, _, _, _, hsequences⟩ := G.sequences
  have hmem : stored.serverSequence ∈ List.range' 1 (vault.nextServerSequence - 1) := by
    rw [← hsequences]
    exact mem_map_of_mem (mem_filter.mpr ⟨hstored, by simpa using hsame⟩)
  have hpos := (mem_range'_1.mp hmem).1
  exact ⟨stored.id, hid, ⟨row, hrow, hvault, rfl, hid⟩, by omega⟩

theorem issued_unique (G : VaultGraph v db) {sequence id other : ℕ}
    (h : Issued db v sequence id) (h' : Issued db v sequence other) : id = other := by
  obtain ⟨row, hrow, hvault, hsequence, hid⟩ := h
  obtain ⟨row', hrow', hvault', hsequence', hid'⟩ := h'
  obtain ⟨stored, hstored, hv, hsome, hseq⟩ := exists_revision G hrow hvault
  obtain ⟨stored', hstored', hv', hsome', hseq'⟩ := exists_revision G hrow' hvault'
  obtain ⟨vault, _, _, _, hsequences⟩ := G.sequences
  have hnodup : ((db.revisions.filter fun row => row.vaultId = v).map
      RevisionRow.serverSequence).Nodup := by
    rw [hsequences]
    exact nodup_range'
  have hsame : stored = stored' := by
    apply inj_on_of_nodup_map hnodup
    · exact mem_filter.mpr ⟨hstored, by simpa using hv⟩
    · exact mem_filter.mpr ⟨hstored', by simpa using hv'⟩
    · omega
  rw [hsame, ← hsome', hid'] at hsome
  exact Option.some.inj (hid.symm.trans hsome)

end

section
variable (options : RevisionRepositoryOptions) {v : Id} {db : Database}

/-- A call leaves the events alone or appends one at the vault's next sequence. -/
theorem vaultEvents_afterCall (call : CommitCall) :
    (afterCall options db call).vaultEvents = db.vaultEvents ∨
      ∃ row vault, (afterCall options db call).vaultEvents = db.vaultEvents ++ [row] ∧
        getVault db row.vaultId = .ok vault ∧ vault.nextServerSequence < maxSafeInteger ∧
        0 < vault.nextServerSequence ∧ row.serverSequence = vault.nextServerSequence := by
  unfold afterCall
  cases hrun : runCall options call db with
  | error e db' =>
    left
    have hsame : db' = db := commitRevisionSeen_error options hrun
    rw [hsame]
  | ok result db' =>
    obtain ⟨prepared, _, _, hcases⟩ := commitRevisionSeen_cases options hrun
    rcases hcases with ⟨existing, hreplayed⟩ | haccepted
    · left
      obtain ⟨_, _, ⟨_, _, _, _, rfl⟩ | ⟨_, _, _, _, rfl⟩⟩ := hreplayed.answer
      · rfl
      · rfl
    · right
      obtain ⟨vault, isRoot, time, hvault, hnew⟩ := haccepted.new
      rw [hnew.effect]
      exact ⟨_, vault, rfl, hvault, hnew.sequence_lt, hnew.sequence_pos, rfl⟩

/-- What a call issues anew is issued behind the cursor. -/
theorem issued_afterCall (call : CommitCall) {sequence id : ℕ}
    (h : Issued (afterCall options db call) v sequence id) :
    Issued db v sequence id ∨ ∃ head, getCursor db v = .ok head ∧ head < sequence := by
  obtain ⟨row, hrow, hvault, hsequence, hid⟩ := h
  have hlog : (afterCall options db call).vaultEvents = db.vaultEvents ∨ _ :=
    vaultEvents_afterCall options call
  rcases hlog with hsame | hnew
  · rw [hsame] at hrow
    exact .inl ⟨row, hrow, hvault, hsequence, hid⟩
  · obtain ⟨added, vault, hevents, hget, hlt, hpos, hnext⟩ := hnew
    rw [hevents] at hrow
    rcases mem_append.mp hrow with hold | hadded
    · exact .inl ⟨row, hold, hvault, hsequence, hid⟩
    · right
      have hrowEq : row = added := mem_singleton.mp hadded
      subst hrowEq
      refine ⟨vault.nextServerSequence - 1, ?_, by omega⟩
      unfold getCursor
      refine except_bind_eq_ok.mpr ⟨vault, hvault ▸ hget, ?_⟩
      exact except_bind_eq_ok.mpr ⟨_, if_pos ⟨hpos, by omega⟩, rfl⟩

end

section
variable {v : Id} {db : Database}

/-- Of rows numbered without a gap those from a number on are those from its place on. -/
theorem filter_numbered {α : Type} {f : α → ℕ} {rows : List α} {start n : ℕ}
    (h : rows.map f = List.range' start n) (k : ℕ) :
    rows.filter (fun row => start + k ≤ f row) = rows.drop k := by
  induction rows generalizing start n k with
  | nil => rw [drop_nil, filter_nil]
  | cons row rest ih =>
    cases n with
    | zero => cases h
    | succ n =>
      obtain ⟨rfl, hrest⟩ := cons.inj h
      cases k with
      | zero =>
        refine filter_eq_self.mpr fun other hother => decide_eq_true ?_
        have hmem := h ▸ mem_map_of_mem hother
        exact (mem_range'_1.mp hmem).1
      | succ k =>
        rw [filter_cons_of_neg (by simp), drop_succ_cons, ← ih hrest k]
        simp only [Nat.add_right_comm, Nat.add_assoc]

/-- The rows behind a sequence need no sorting, and are those of the next revisions. -/
theorem eventRows_eq (G : VaultGraph v db) (after limit : ℕ) :
    (eventRows db v after limit).map eventKey =
      (((db.revisions.filter fun row => row.vaultId = v).map revisionKey).drop after).take
        limit := by
  obtain ⟨vault, -, -, -, hsequences⟩ := G.sequences
  have hnumbered : (db.vaultEvents.filter fun row => row.vaultId = v).map
      VaultEventRow.serverSequence = List.range' 1 (vault.nextServerSequence - 1) := by
    have hkeys := congrArg (map Prod.fst) G.events
    rw [map_map, map_map] at hkeys
    exact hkeys.trans hsequences
  have hsorted : ((db.vaultEvents.filter fun row => row.vaultId = v).drop after).Pairwise
      fun left right => left.serverSequence ≤ right.serverSequence := by
    refine Pairwise.drop (pairwise_map.mp ?_)
    rw [hnumbered]
    exact pairwise_le_range'
  have hpast := filter_numbered hnumbered after
  rw [filter_filter] at hpast
  rw [← G.events, ← map_drop, ← map_take, ← hsorted.insertionSort_eq, ← hpast, eventRows]
  simp only [Bool.decide_and, Bool.and_comm, Nat.add_comm 1, Nat.succ_le_iff]

end

variable {options : RevisionRepositoryOptions} {wired : Bool} {v : Id} {db db' : Database}
  {world : World}

theorem vaultGraph_written {Q : HashedRevisionInput → Prop} (G : VaultGraph v db)
    (h : Written options Q db db') : VaultGraph v db' := by
  cases h with
  | nothing => exact G
  | commit actor revision now result meets ran =>
    exact vaultGraph_of_cases options G (commitPrepared_cases options ran)
  | prune cutoff => exact G.untouched _ _ _ _
  | administer users devices memberships => exact G.untouched _ _ _ _

theorem holds_reached {P : Database → Prop} {start : World}
    (hwritten : ∀ db db', P db → Written options (fun _ => True) db db' → P db')
    (hstart : Holds options P (fun _ _ => True) start)
    (h : Reached (step options wired) Anything start world) :
    Holds options P (fun _ _ => True) world := by
  have hkept : Kept options wired (fun _ => True) P fun _ _ => True :=
    ⟨fun _ _ _ _ _ _ => trivial, fun _ _ _ _ _ => trivial, fun _ _ _ _ _ _ _ _ => trivial,
      hwritten, fun _ _ _ _ _ _ => trivial⟩
  refine h.invariant hstart fun _ _ _ hbefore _ htaken => ?_
  exact hkept.step hbefore (fun _ _ _ _ _ _ => trivial) htaken

theorem vaultGraph_reached (hschema : db.SchemaHolds) (hempty : EmptyVault v db)
    (h : Reached (step options wired) Anything ⟨db, []⟩ world) : VaultGraph v world.database :=
  (holds_reached (fun _ _ => vaultGraph_written) ⟨vaultGraph_of_empty hschema hempty, by simp⟩ h).1

/-- However the steps of the pushes fall among each other, the revision graph keeps its laws. -/
theorem interleaved_graphLaws (hschema : db.SchemaHolds) (hempty : EmptyVault v db)
    (h : Reached (step options wired) Anything ⟨db, []⟩ world) : GraphLaws v world.database :=
  (vaultGraph_reached hschema hempty h).laws

def eventEntry (event : StoredRevisionEvent) : ℕ × Option Id :=
  (event.serverSequence, some event.revisionId)

/-- The revisions of the vault in the order of their commits. -/
def revisionEntries (v : Id) (db : Database) : List (ℕ × Option Id) :=
  (db.revisions.filter fun row => row.vaultId = v).map fun row => (row.serverSequence, some row.id)

theorem entries_written {Q : HashedRevisionInput → Prop} (h : Written options Q db db') :
    revisionEntries v db <+: revisionEntries v db' := by
  cases h with
  | nothing => exact prefix_rfl
  | commit actor revision now result meets ran =>
    rcases commitPrepared_cases options ran with ⟨existing, hreplayed⟩ | haccepted
    · obtain ⟨_, _, ⟨_, _, _, _, rfl⟩ | ⟨_, _, _, _, rfl⟩⟩ := hreplayed.answer
      · exact prefix_rfl
      · exact prefix_rfl
    · obtain ⟨vault, isRoot, time, -, hnew⟩ := haccepted.new
      rw [hnew.effect]
      simp only [revisionEntries, committed, filter_append, map_append]
      exact prefix_append _ _
  | prune cutoff => exact prefix_rfl
  | administer users devices memberships => exact prefix_rfl

/-- No step takes a revision from the log, or moves or renumbers one. -/
theorem log_grows {world' : World}
    (h : Reached (step options wired) Anything ⟨db, []⟩ world)
    (h' : Reached (step options wired) Anything world world') :
    revisionEntries v world.database <+: revisionEntries v world'.database := by
  have hpending : Holds options (fun _ => True) (fun _ _ => True) world :=
    holds_reached (fun _ _ _ _ => trivial) ⟨trivial, by simp⟩ h
  exact (holds_reached (P := (revisionEntries v world.database <+: revisionEntries v ·))
    (fun _ _ hgrown hwritten => hgrown.trans (entries_written hwritten))
    ⟨prefix_rfl, hpending.2⟩ h').1

/-- A page of the events route is a slice of them, from the one behind the cursor on. -/
theorem readPage_revisions (hschema : db.SchemaHolds) (hempty : EmptyVault v db)
    (h : Reached (step options wired) Anything ⟨db, []⟩ world) (epoch : Option InstanceEpoch)
    (query : PullQuery) {page : PullResponse}
    (hpage : readPage ⟨epoch, world.database⟩ v query = .ok page) :
    page.events.map eventEntry = ((revisionEntries v world.database).drop (query.after.getD 0)).take
      (query.limit.getD defaultPullLimit) := by
  obtain ⟨-, -, hevents⟩ := readPage_eq_ok hpage
  unfold listEvents at hevents
  obtain ⟨_, -, hevents⟩ := except_bind_eq_ok.mp hevents
  obtain ⟨_, -, hevents⟩ := except_bind_eq_ok.mp hevents
  have hparsed : page.events.map eventEntry = _ :=
    map_of_mapM_ok (k := fun row => (row.serverSequence, row.revisionId)) (fun row event hrow => by
      obtain ⟨hsequence, hrevision⟩ := parseEventRow_eq_ok hrow
      rw [hsequence, hrevision, eventEntry]) hevents
  have hrows := congrArg (map fun key => (key.1, key.2.1)) (eventRows_eq
    (vaultGraph_reached hschema hempty h) (query.after.getD 0) (query.limit.getD defaultPullLimit))
  rw [map_map, map_take, map_drop, map_map] at hrows
  exact hparsed.trans hrows

/-- Two batches whose turns fall between each other. -/
def interleavedRun : List Event :=
  [.push ⟨6, 7⟩ 1 exampleBatch, .push ⟨6, 7⟩ 1 [exampleRevision 11 66]] ++ commitTurn 0 ++
    commitTurn 1 ++ commitTurn 0

theorem reached_interleavedRun
    (h : run (step exampleOptions true) ⟨exampleDatabase, []⟩ interleavedRun = some world) :
    Reached (step exampleOptions true) Anything ⟨exampleDatabase, []⟩ world :=
  Reached.start.run (allowed_of_forall (fun _ _ => trivial) _ _) h

theorem exists_interleavedRun : ∃ world,
    run (step exampleOptions true) ⟨exampleDatabase, []⟩ interleavedRun = some world :=
  Option.isSome_iff_exists.mp (by decide +kernel)

theorem interleaved_graphLaws_run : ∃ world,
    run (step exampleOptions true) ⟨exampleDatabase, []⟩ interleavedRun = some world ∧
      GraphLaws 1 world.database := by
  obtain ⟨world, hrun⟩ := exists_interleavedRun
  exact ⟨world, hrun, interleaved_graphLaws (by constructor <;> decide) (by constructor <;> decide)
    (reached_interleavedRun hrun)⟩

theorem log_grows_run : ∃ world,
    run (step exampleOptions true) ⟨exampleDatabase, []⟩ interleavedRun = some world ∧
      revisionEntries 1 exampleDatabase <+: revisionEntries 1 world.database := by
  obtain ⟨world, hrun⟩ := exists_interleavedRun
  exact ⟨world, hrun, log_grows .start (reached_interleavedRun hrun)⟩

theorem readPage_revisions_run : ∃ world : World, ∃ page,
    readPage ⟨none, world.database⟩ 1 ⟨some 1, none, some 2⟩ = .ok page ∧
      page.events.map eventEntry = [(2, some 66), (3, some 65)] := by
  have hruns : (run (step exampleOptions true) ⟨exampleDatabase, []⟩ interleavedRun).any (fun world =>
      (readPage ⟨none, world.database⟩ 1 ⟨some 1, none, some 2⟩).isOk ∧
        ((revisionEntries 1 world.database).drop 1).take 2 = [(2, some 66), (3, some 65)]) = true := by
    decide +kernel
  obtain ⟨world, hrun, hworld⟩ := (Option.any_eq_true _ _).mp hruns
  obtain ⟨hread, hslice⟩ := of_decide_eq_true hworld
  obtain ⟨page, hpage⟩ := exists_of_isOk hread
  exact ⟨world, page, hpage, (readPage_revisions (by constructor <;> decide)
    (by constructor <;> decide) (reached_interleavedRun hrun) none _ hpage).trans hslice⟩

end Havemind.EventLog
