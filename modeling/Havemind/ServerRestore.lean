import Havemind.EventLog
import Havemind.Runs
import Havemind.SyncTransport

/-!
A plugin client that pulls from a server whose instance may be replaced by an
older backup. Any party commits, backups are taken and restored, and the client
pulls pages and applies them one event at a time. History variables record what
the client handled and which sequences a saved cursor passed unhandled.
-/
namespace Havemind.ServerRestore

open RevisionSchema ServerDatabase RevisionRepository RevisionGraph PullRoute EventLog SyncRunner
  SyncTransport Runs List

/-- `walked` holds the revision the client handled at each sequence up to its
cursor, `handled` every revision it ever handled, and `missed` the sequences of
the log a saved cursor passed although their revisions were not handled. -/
structure System where
  server : Instance
  backups : List Instance
  client : PullState
  page : List RemoteEvent
  walked : List (ℕ × Id)
  handled : List Id
  missed : List ℕ

inductive Action
  | commit (call : CommitCall)
  | backup
  | restore (backup : ℕ) (randomUuid : Epoch)
  | recordPushReceipt (revisionId : Id)
  | pull
  | event (answer : VaultAnswer)
  | restart (cursor : ℕ)

/-- The sequences up to the cursor whose revisions were not handled. -/
def unhandled (db : Database) (vaultId : Id) (cursor : ℕ) (handled : List Id) : List ℕ :=
  (db.vaultEvents.filter fun row => row.vaultId = vaultId ∧ row.serverSequence ≤ cursor ∧
    ∀ id ∈ row.revisionId, id ∉ handled).map VaultEventRow.serverSequence

section
variable (options : RevisionRepositoryOptions) (connection : StoredConnection)
  (session : Option Id)

def entry (event : RemoteEvent) : ℕ × Id := (event.serverSequence, event.revision.revisionId)

/-- The client saved its cursor behind an event it handled. -/
def saved (s : System) (client : PullState) (event : RemoteEvent) (rest : List RemoteEvent) :
    System :=
  let handled := s.handled ++ [event.revision.revisionId]
  { s with
    client
    page := rest
    walked := s.walked ++ [entry event]
    handled
    missed := s.missed ++
      unhandled s.server.database connection.vaultId client.cursor handled }

/-- One action; the client's connection is the one the sync loop starts. A
restart loads the durable state or an older copy of it. -/
def step (s : System) : Action → Option System
  | .commit call =>
      some { s with server.database := afterCall options s.server.database call }
  | .backup => some { s with backups := s.backups ++ [s.server] }
  | .restore index randomUuid =>
      (s.backups[index]?.bind fun backup => rotateEpoch backup randomUuid).map fun server =>
        { s with server }
  | .recordPushReceipt revisionId =>
      some { s with client.locallyAuthored := s.client.locallyAuthored ++ [revisionId] }
  | .pull =>
      match pull (buildTransport (startSyncLoop connection)) s.server session s.client.cursor with
      | .error _ => some { s with page := [] }
      | .ok result => some { s with page := orderedEvents result }
  | .event answer =>
      match s.page with
      | [] => none
      | event :: rest =>
          match pullEvent s.client event answer with
          | .next client .duplicate => some { s with client, page := rest }
          | .next client _ => some (saved connection s client event rest)
          | .leave client => some { s with client, page := [] }
          | .throw client _ => some { s with client, page := [] }
  | .restart cursor =>
      if cursor ≤ s.client.cursor then
        some { s with
          client := { s.client with cursor, applyFailures := fun _ => 0 }
          page := []
          walked := s.walked.filter fun entry => entry.1 ≤ cursor }
      else none

/-- A log issued no sequence of the entries to another revision than theirs. -/
def NotReissued (entries : List (ℕ × Id)) (db : Database) : Prop :=
  ∀ entry ∈ entries, ∀ row ∈ db.vaultEvents, row.vaultId = connection.vaultId →
    row.serverSequence = entry.1 → row.revisionId = some entry.2

/-- What the client handled and what it is about to handle. -/
def served (s : System) : List (ℕ × Id) := s.walked ++ s.page.map entry

/-- When the client pulls within the vault's head, no sequence up to its cursor
was issued anew; and while it applies a page, neither a restore nor a commit
issues one anew. -/
def Guard (s : System) : Action → Prop
  | .pull => ∀ head ∈ (getCursor s.server.database connection.vaultId).toOption,
      s.client.cursor ≤ head → NotReissued connection s.walked s.server.database
  | .restore index _ => s.page = [] ∨
      ∀ backup ∈ s.backups[index]?, NotReissued connection (served s) backup.database
  | .commit _ => s.page = [] ∨
      ∀ head ∈ (getCursor s.server.database connection.vaultId).toOption,
        s.client.cursor ≤ head ∧ ∀ event ∈ s.page, event.serverSequence ≤ head
  | _ => True

instance (entries : List (ℕ × Id)) (db : Database) :
    Decidable (NotReissued connection entries db) :=
  inferInstanceAs (Decidable (∀ entry ∈ entries, ∀ row ∈ db.vaultEvents, _ → _ → _))

instance (s : System) : ∀ action, Decidable (Guard connection s action)
  | .pull => inferInstanceAs (Decidable (∀ head ∈ Except.toOption _, _ → _))
  | .restore _ _ => inferInstanceAs (Decidable (_ ∨ _))
  | .commit _ => inferInstanceAs (Decidable (_ ∨ _))
  | .backup | .recordPushReceipt _ | .event _ | .restart _ => isTrue trivial

end

/-- A server before its first revision and a client that has not pulled yet. -/
def start (server : Instance) : System where
  server := server
  backups := []
  client := { cursor := 0, locallyAuthored := [], parked := [], applyFailures := fun _ => 0 }
  page := []
  walked := []
  handled := []
  missed := []

section
variable (options : RevisionRepositoryOptions) (connection : StoredConnection)
  (session : Option Id)

/-- The logs are well formed, the cursor has walked every sequence up to it, and
the page being applied is still the one the server would serve. -/
structure Inv (s : System) : Prop where
  graph : VaultGraph connection.vaultId s.server.database
  backups : ∀ backup ∈ s.backups, VaultGraph connection.vaultId backup.database
  walked : ∀ sequence, 0 < sequence → sequence ≤ s.client.cursor → ∃ id, (sequence, id) ∈ s.walked
  within : ∀ entry ∈ s.walked, entry.1 ≤ s.client.cursor
  handled : ∀ entry ∈ s.walked, entry.2 ∈ s.handled
  page : s.page ≠ [] → NotReissued connection (served s) s.server.database
  missed : s.missed = []

variable {connection} {s s' : System} {db : Database} {client : PullState} {rest : List RemoteEvent}
  {cursor : ℕ}

theorem notReissued_iff (G : VaultGraph connection.vaultId db) {entries : List (ℕ × Id)} :
    NotReissued connection entries db ↔
      ∀ entry ∈ entries, ∀ id, Issued db connection.vaultId entry.1 id → id = entry.2 := by
  constructor
  · intro h entry hentry id hissued
    obtain ⟨row, hrow, hvault, hsequence, hid⟩ := hissued
    exact Option.some.inj (hid.symm.trans (h entry hentry row hrow hvault hsequence))
  · intro h entry hentry row hrow hvault hsequence
    obtain ⟨id, hid, hissued, _⟩ := exists_issued G hrow hvault
    rw [hsequence] at hissued
    rw [hid, h entry hentry id hissued]

variable (I : Inv connection s)
include I

theorem Inv.commit (call : CommitCall) (allowed : Guard connection s (.commit call)) :
    Inv connection
      { s with server.database := afterCall options s.server.database call } := by
  have hgraph := vaultGraph_afterCall options call I.graph
  refine ⟨hgraph, I.backups, I.walked, I.within, I.handled, ?_, I.missed⟩
  intro hpage
  rw [notReissued_iff hgraph]
  intro entry hentry id hissued
  rcases issued_afterCall options call hissued with hold | ⟨head, hhead, hlt⟩
  · exact (notReissued_iff I.graph).mp (I.page hpage) entry hentry id hold
  · rcases allowed with hempty | hbound
    · exact absurd hempty hpage
    · obtain ⟨hcursor, hevents⟩ := hbound head (by rw [hhead]; rfl)
      rcases mem_append.mp hentry with hwalked | hqueued
      · have := I.within entry hwalked
        omega
      · obtain ⟨event, hevent, rfl⟩ := mem_map.mp hqueued
        exact absurd (hevents event hevent) (Nat.not_le_of_lt hlt)

theorem Inv.restore {index : ℕ} {randomUuid : Epoch} {server : Instance}
    (hserver : (s.backups[index]?.bind fun backup => rotateEpoch backup randomUuid) = some server)
    (allowed : Guard connection s (.restore index randomUuid)) :
    Inv connection { s with server } := by
  obtain ⟨backup, hbackup, hrotate⟩ := Option.bind_eq_some_iff.mp hserver
  obtain ⟨current, _, rfl⟩ := Option.map_eq_some_iff.mp hrotate
  have hmem : backup ∈ s.backups := mem_of_getElem? hbackup
  refine ⟨I.backups backup hmem, I.backups, I.walked, I.within, I.handled, ?_, I.missed⟩
  intro hpage
  exact (allowed.resolve_left hpage) backup hbackup

theorem Inv.pull {result : PullResult}
    (hpull : pull (buildTransport (startSyncLoop connection)) s.server session s.client.cursor =
      .ok result) (allowed : Guard connection s .pull) :
    Inv connection { s with page := orderedEvents result } := by
  refine ⟨I.graph, I.backups, I.walked, I.within, I.handled, ?_, I.missed⟩
  intro _
  obtain ⟨⟨head, hhead, hwithin⟩, hissued⟩ := pull_eq_ok hpull
  have hwalked := allowed head (by
    have hvault : (buildTransport (startSyncLoop connection)).vaultId = connection.vaultId := rfl
    rw [← hvault, hhead]
    rfl) hwithin
  rw [notReissued_iff I.graph]
  intro entry hentry id hid
  rcases mem_append.mp hentry with hold | hnew
  · exact (notReissued_iff I.graph).mp hwalked entry hold id hid
  · obtain ⟨event, hevent, rfl⟩ := mem_map.mp hnew
    exact issued_unique I.graph hid (hissued event hevent)

/-- A page that shrinks and a cursor that stays keep the invariant. -/
theorem Inv.drop (hcursor : client.cursor = s.client.cursor)
    (hrest : ∀ event ∈ rest, event ∈ s.page) : Inv connection { s with client, page := rest } := by
  refine ⟨I.graph, I.backups, ?_, ?_, I.handled, ?_, I.missed⟩
  · intro sequence hpos hle
    exact I.walked sequence hpos (hcursor ▸ hle)
  · intro entry hentry
    exact hcursor ▸ I.within entry hentry
  · intro hne
    obtain ⟨event, hevent⟩ := exists_mem_of_ne_nil rest hne
    have hpage := I.page (ne_nil_of_mem (hrest event hevent))
    intro entry hentry
    apply hpage entry
    rcases mem_append.mp hentry with hold | hqueued
    · exact mem_append_left _ hold
    · obtain ⟨other, hother, rfl⟩ := mem_map.mp hqueued
      exact mem_append_right _ (mem_map_of_mem (hrest other hother))

omit I in
/-- Once the page is current, the saved cursor passes nothing unhandled. -/
theorem unhandled_eq_nil (G : VaultGraph connection.vaultId db) {walked : List (ℕ × Id)}
    {handled : List Id}
    (hwalked : ∀ sequence, 0 < sequence → sequence ≤ cursor → ∃ id, (sequence, id) ∈ walked)
    (hhandled : ∀ entry ∈ walked, entry.2 ∈ handled) (hcurrent : NotReissued connection walked db) :
    unhandled db connection.vaultId cursor handled = [] := by
  unfold unhandled
  rw [map_eq_nil_iff, filter_eq_nil_iff]
  intro row hrow hmatch
  obtain ⟨hvault, hle, hnot⟩ := of_decide_eq_true hmatch
  obtain ⟨_, _, _, hpos⟩ := exists_issued G hrow hvault
  obtain ⟨id, hentry⟩ := hwalked row.serverSequence hpos hle
  have hid := hcurrent _ hentry row hrow hvault rfl
  exact hnot id hid (hhandled _ hentry)

theorem Inv.saved {event : RemoteEvent} (hpage : s.page = event :: rest)
    (hsequence : event.serverSequence = s.client.cursor + 1)
    (hcursor : client.cursor = event.serverSequence) :
    Inv connection (saved connection s client event rest) := by
  have hcurrent := I.page (by rw [hpage]; exact cons_ne_nil _ _)
  have hserved : Havemind.ServerRestore.served (ServerRestore.saved connection s client event rest) =
      served s := by
    simp [served, ServerRestore.saved, hpage]
  have hwalked : ∀ sequence, 0 < sequence → sequence ≤ client.cursor →
      ∃ id, (sequence, id) ∈ s.walked ++ [entry event] := by
    intro sequence hpos hle
    by_cases hnew : sequence = event.serverSequence
    · exact ⟨event.revision.revisionId, by simp [entry, hnew]⟩
    · obtain ⟨id, hid⟩ := I.walked sequence hpos (by omega)
      exact ⟨id, mem_append_left _ hid⟩
  have hhandled : ∀ e ∈ s.walked ++ [entry event],
      e.2 ∈ s.handled ++ [event.revision.revisionId] := by
    intro e he
    rcases mem_append.mp he with hold | hnew
    · exact mem_append_left _ (I.handled e hold)
    · rw [mem_singleton.mp hnew]
      exact mem_append_right _ (mem_singleton_self _)
  refine ⟨I.graph, I.backups, hwalked, ?_, hhandled, ?_, ?_⟩
  · intro e he
    show e.1 ≤ client.cursor
    rcases mem_append.mp he with hold | hnew
    · have := I.within e hold
      omega
    · rw [mem_singleton.mp hnew, hcursor]
      exact Nat.le_refl _
  · intro _
    rw [hserved]
    exact hcurrent
  · have hnil := unhandled_eq_nil I.graph hwalked hhandled
      (fun e he => hcurrent e (hserved ▸ mem_append_left _ he))
    simp [ServerRestore.saved, I.missed, hnil]

theorem Inv.event {answer : VaultAnswer}
    (taken : step options connection session s (.event answer) = some s') : Inv connection s' := by
  cases hpage : s.page with
  | nil => simp [step, hpage] at taken
  | cons event rest =>
    simp only [step, hpage] at taken
    have hrest : ∀ other ∈ rest, other ∈ s.page := by
      intro other hother
      rw [hpage]
      exact mem_cons_of_mem _ hother
    cases hturn : pullEvent s.client event answer with
    | next client handling =>
      rw [hturn] at taken
      rcases pullEvent_eq_next hturn with ⟨hdup, hsame⟩ | ⟨hdup, hsequence, hcursor⟩
      · subst hdup hsame
        cases taken
        exact I.drop rfl hrest
      · have hsaved := I.saved hpage hsequence hcursor
        cases handling with
        | duplicate => exact absurd rfl hdup
        | suppressed =>
          cases taken
          exact hsaved
        | parked =>
          cases taken
          exact hsaved
        | applied outcome =>
          cases taken
          exact hsaved
    | leave client =>
      rw [hturn] at taken
      cases taken
      exact I.drop (pullEvent_eq_leave hturn) (fun _ h => absurd h not_mem_nil)
    | throw client failure =>
      rw [hturn] at taken
      cases taken
      exact I.drop (pullEvent_eq_throw hturn) (fun _ h => absurd h not_mem_nil)

theorem Inv.restart (hle : cursor ≤ s.client.cursor) :
    Inv connection { s with
      client := { s.client with cursor, applyFailures := fun _ => 0 }
      page := []
      walked := s.walked.filter fun entry => entry.1 ≤ cursor } := by
  refine ⟨I.graph, I.backups, ?_, ?_, ?_, fun h => absurd rfl h, I.missed⟩
  · intro sequence hpos hsequence
    obtain ⟨id, hid⟩ := I.walked sequence hpos (Nat.le_trans hsequence hle)
    exact ⟨id, mem_filter.mpr ⟨hid, decide_eq_true hsequence⟩⟩
  · intro e he
    exact of_decide_eq_true (mem_filter.mp he).2
  · intro e he
    exact I.handled e (mem_filter.mp he).1

theorem Inv.step {action : Action} (allowed : Guard connection s action)
    (taken : step options connection session s action = some s') : Inv connection s' := by
  cases action with
  | commit call =>
    cases taken
    exact I.commit options call allowed
  | backup =>
    cases taken
    refine ⟨I.graph, ?_, I.walked, I.within, I.handled, I.page, I.missed⟩
    intro backup hbackup
    rcases mem_append.mp hbackup with hold | hnew
    · exact I.backups backup hold
    · rw [mem_singleton.mp hnew]
      exact I.graph
  | restore index randomUuid =>
    obtain ⟨server, hserver, rfl⟩ := Option.map_eq_some_iff.mp taken
    exact I.restore hserver allowed
  | recordPushReceipt revisionId =>
    cases taken
    exact ⟨I.graph, I.backups, I.walked, I.within, I.handled, I.page, I.missed⟩
  | pull =>
    cases hpull : SyncTransport.pull (buildTransport (startSyncLoop connection)) s.server session
        s.client.cursor with
    | error failure =>
      simp only [ServerRestore.step, hpull] at taken
      cases taken
      exact I.drop rfl (fun _ h => absurd h not_mem_nil)
    | ok result =>
      simp only [ServerRestore.step, hpull] at taken
      cases taken
      exact I.pull session hpull allowed
  | event answer => exact I.event options session taken
  | restart cursor =>
    simp only [ServerRestore.step] at taken
    by_cases hle : cursor ≤ s.client.cursor
    · rw [if_pos hle] at taken
      cases taken
      exact I.restart hle
    · rw [if_neg hle] at taken
      cases taken

end

/-- In every run that pulls within the head only while nothing up to the cursor
was issued anew, no saved cursor passes a revision the client did not handle. -/
theorem saved_cursor_skips_nothing (options : RevisionRepositoryOptions)
    (connection : StoredConnection) (session : Option Id) (server : Instance)
    (hschema : server.database.SchemaHolds)
    (hempty : EmptyVault connection.vaultId server.database) (s : System)
    (h : Reached (step options connection session) (Guard connection) (start server) s) :
    s.missed = [] := by
  refine (h.invariant (P := Inv connection) ?_ ?_).missed
  · refine ⟨vaultGraph_of_empty hschema hempty, ?_, ?_, ?_, ?_, ?_, rfl⟩
    · exact fun _ hbackup => absurd hbackup not_mem_nil
    · intro sequence hpos hle
      exact absurd hle (Nat.not_le_of_lt hpos)
    · exact fun _ hentry => absurd hentry not_mem_nil
    · exact fun _ hentry => absurd hentry not_mem_nil
    · exact fun hpage => absurd rfl hpage
  · intro s action s' I allowed taken
    exact I.step options session allowed taken

def exampleConnection : StoredConnection := ⟨1, some 7, some 6⟩

def exampleServer : Instance := ⟨some ⟨[1], 0⟩, exampleDatabase⟩

def appliedAnswer : VaultAnswer := ⟨false, .ok .applied⟩

/-- A backup of the empty vault, a revision the client applies, the restore of
the backup under a fresh epoch, and a revision that takes the sequence again. -/
def restoreActions : List Action :=
  [.backup, .commit (exampleCall 9 64 []), .pull, .event appliedAnswer, .restore 0 [2],
    .pull, .commit (exampleCall 10 65 [])]

/-- The restored log has grown past the client's cursor when it pulls again: the
pull is accepted and the revision issued anew is never seen. -/
theorem pull_skips_reissued_sequence :
    (run (step exampleOptions exampleConnection (some 5)) (start exampleServer)
      (restoreActions ++ [.commit (exampleCall 11 66 []), .pull, .event appliedAnswer])).map
        System.missed = some [1] := by decide

theorem saved_cursor_skips_nothing_refused :
    ∃ s, run (step exampleOptions exampleConnection (some 5)) (start exampleServer)
      restoreActions = some s ∧ s.missed = [] := by
  cases hrun : run (step exampleOptions exampleConnection (some 5)) (start exampleServer)
      restoreActions with
  | none => exact absurd hrun (by decide)
  | some s =>
    refine ⟨s, rfl, saved_cursor_skips_nothing exampleOptions exampleConnection (some 5)
      exampleServer ?_ ?_ s (Reached.start.run ?_ hrun)⟩
    · exact ⟨by decide, by decide, by decide, by decide, by decide, by decide, by decide,
        by decide, by decide⟩
    · exact ⟨by decide, by decide, by decide, by decide⟩
    · decide

end Havemind.ServerRestore
