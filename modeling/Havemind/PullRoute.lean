import Havemind.RevisionRepository

/-!
The cursor-based pull: the repository's two queries, the events route over them
and the restore of a backed-up instance. The route refuses a cursor beyond the
highest committed sequence, and one that names another server epoch than the
instance's own.
-/
namespace Havemind.PullRoute

open JsText RevisionSchema Transaction ServerDatabase RevisionRepository

inductive SyncErrorCode
  | conflict
  | cursorInvalid
  | forbidden
  | headSetChanged
  | internal
  | invalidBatch
  | invalidRequest
  | missingParent
  | notFound
  | quotaExceeded
  | rateLimited
  | revisionIdReuse
  | storageUnavailable
  | unauthenticated
  deriving DecidableEq

/-- An answer that is no success: its HTTP status and its machine code. -/
structure SyncError where
  status : ℕ
  code : SyncErrorCode
  deriving DecidableEq

/-- The status and code of an error; those of other libraries are server faults. -/
def sendCommitError : RepositoryError → SyncError
  | .corruptBlob => ⟨500, .internal⟩
  | .fileAlreadyExists => ⟨409, .conflict⟩
  | .idempotencyKeyReuse => ⟨409, .conflict⟩
  | .missingBlob => ⟨500, .internal⟩
  | .parentFileMismatch => ⟨422, .invalidRequest⟩
  | .repositoryIntegrity => ⟨500, .internal⟩
  | .forbidden => ⟨403, .forbidden⟩
  | .headSetChanged => ⟨409, .headSetChanged⟩
  | .invalidRequest => ⟨400, .invalidRequest⟩
  | .missingParent => ⟨422, .missingParent⟩
  | .notFound => ⟨404, .notFound⟩
  | .quotaExceeded => ⟨413, .quotaExceeded⟩
  | .revisionIdReuse => ⟨409, .revisionIdReuse⟩
  | .schemaError => ⟨500, .internal⟩
  | .sqliteConstraint => ⟨500, .internal⟩
  | .blobStoreFailure => ⟨500, .internal⟩

structure StoredRevisionEvent where
  fileId : Id
  receipt : OpaqueBlobReceipt
  revisionId : Id
  serverSequence : ℕ
  deriving DecidableEq

def maxEventPageSize : ℕ := 1000

/-- A row is read back only when its receipt is the one of its cursor row. -/
def parseEventRow (row : VaultEventRow) : Except RepositoryError StoredRevisionEvent :=
  if row.receipt.schemaValid ∧ row.revisionId = some row.receipt.revisionId ∧
      row.receipt.serverSequence = row.serverSequence then
    .ok ⟨row.payloadFileId, row.receipt, row.receipt.revisionId, row.serverSequence⟩
  else .error .repositoryIntegrity

/-- The highest sequence the vault has committed. -/
def getCursor (db : Database) (vaultId : Id) : Except RepositoryError ℕ := do
  let row ← getVault db vaultId
  let next ← requireSafeSequence row.nextServerSequence
  return next - 1

/-- A page of a vault's events behind a sequence, in ascending order. -/
def eventRows (db : Database) (vaultId : Id) (afterSequence limit : ℕ) : List VaultEventRow :=
  ((db.vaultEvents.filter fun row => row.vaultId = vaultId ∧ afterSequence < row.serverSequence
    ).insertionSort fun left right => left.serverSequence ≤ right.serverSequence).take limit

def listEvents (db : Database) (vaultId : Id) (afterSequence limit : ℕ) :
    Except RepositoryError (List StoredRevisionEvent) := do
  require (afterSequence ≤ maxSafeInteger) .invalidRequest
  require (0 < limit ∧ limit ≤ maxEventPageSize) .invalidRequest
  (eventRows db vaultId afterSequence limit).mapM parseEventRow

abbrev Epoch := JsString

structure InstanceEpoch where
  serverEpoch : Epoch
  restoreEpoch : ℕ
  deriving DecidableEq

/-- A running server: its epoch, once its owner has set it up, and its tables. -/
structure Instance where
  epoch : Option InstanceEpoch
  database : Database
  deriving DecidableEq

/-- The start of a restored backup under a fresh epoch. -/
def rotateEpoch (backup : Instance) (randomUuid : Epoch) : Option Instance :=
  backup.epoch.map fun current =>
    { backup with epoch := some ⟨randomUuid, current.restoreEpoch + 1⟩ }

def defaultPullLimit : ℕ := 100

def maxPullLimit : ℕ := 1000

structure PullQuery where
  after : Option ℕ
  epoch : Option Epoch
  limit : Option ℕ

def PullQuery.schemaValid (query : PullQuery) : Bool :=
  (∀ after ∈ query.after, after ≤ maxSafeInteger) ∧
    (∀ epoch ∈ query.epoch, 1 ≤ epoch.length ∧ epoch.length ≤ 200) ∧
    ∀ limit ∈ query.limit, 0 < limit ∧ limit ≤ maxPullLimit

structure PullResponse where
  cursor : ℕ
  epoch : Option Epoch
  events : List StoredRevisionEvent
  deriving DecidableEq

def loadActiveMembership (db : Database) (userId vaultId : Id) : Option MembershipRow :=
  db.memberships.find? fun row =>
    row.userId = userId ∧ row.vaultId = vaultId ∧ row.status = .active

/-- The epoch and cursor checks of a pull and the page behind them. -/
def readPage (server : Instance) (vaultId : Id) (query : PullQuery) :
    Except SyncError PullResponse :=
  let after := query.after.getD 0
  let limit := query.limit.getD defaultPullLimit
  if ∃ current ∈ server.epoch, ∃ named ∈ query.epoch, named ≠ current.serverEpoch then
    .error ⟨409, .cursorInvalid⟩
  else
    match getCursor server.database vaultId with
    | .error e => .error (sendCommitError e)
    | .ok cursor =>
        if cursor < after then .error ⟨409, .cursorInvalid⟩
        else
          match listEvents server.database vaultId after limit with
          | .error e => .error (sendCommitError e)
          | .ok events => .ok ⟨cursor, server.epoch.map InstanceEpoch.serverEpoch, events⟩

/-- The events route for the session's user. -/
def getEvents (server : Instance) (session : Option Id) (vaultId : Id) (query : PullQuery) :
    Except SyncError PullResponse :=
  match session with
  | none => .error ⟨401, .unauthenticated⟩
  | some userId =>
      match loadActiveMembership server.database userId vaultId with
      | none => .error ⟨403, .forbidden⟩
      | some _ =>
          if query.schemaValid then readPage server vaultId query
          else .error ⟨400, .invalidRequest⟩

variable {db : Database} {vaultId after limit : ℕ} {event : StoredRevisionEvent} {server : Instance}
  {query : PullQuery} {page : PullResponse}

/-- The vault gave the sequence to the revision. -/
def Issued (db : Database) (vaultId sequence revisionId : Id) : Prop :=
  ∃ row ∈ db.vaultEvents, row.vaultId = vaultId ∧ row.serverSequence = sequence ∧
    row.revisionId = some revisionId

theorem parseEventRow_eq_ok {row : VaultEventRow} (h : parseEventRow row = .ok event) :
    row.serverSequence = event.serverSequence ∧ row.revisionId = some event.revisionId := by
  unfold parseEventRow at h
  split at h
  · rename_i hrow
    cases h
    exact ⟨rfl, hrow.2.1⟩
  · cases h

/-- Every event of a page is one the vault issued behind the cursor. -/
theorem listEvents_issued {events : List StoredRevisionEvent}
    (h : listEvents db vaultId after limit = .ok events) (hevent : event ∈ events) :
    after < event.serverSequence ∧ Issued db vaultId event.serverSequence event.revisionId := by
  unfold listEvents at h
  obtain ⟨_, _, h⟩ := except_bind_eq_ok.mp h
  obtain ⟨_, _, h⟩ := except_bind_eq_ok.mp h
  obtain ⟨row, hrow, hparse⟩ := mem_of_mapM_ok h event hevent
  obtain ⟨hsequence, hrevision⟩ := parseEventRow_eq_ok hparse
  have hfilter := (List.mem_insertionSort _).mp (List.mem_of_mem_take hrow)
  obtain ⟨hmem, hmatch⟩ := List.mem_filter.mp hfilter
  obtain ⟨hvault, hafter⟩ := of_decide_eq_true hmatch
  exact ⟨hsequence ▸ hafter, row, hmem, hvault, hsequence, hrevision⟩

/-- An accepted pull: its cursor is not beyond the vault's, and it read a page. -/
theorem readPage_eq_ok (h : readPage server vaultId query = .ok page) :
    getCursor server.database vaultId = .ok page.cursor ∧ query.after.getD 0 ≤ page.cursor ∧
      listEvents server.database vaultId (query.after.getD 0)
        (query.limit.getD defaultPullLimit) = .ok page.events := by
  unfold readPage at h
  dsimp only at h
  split at h
  · cases h
  · split at h
    · cases h
    · rename_i cursor hcursor
      split at h
      · cases h
      · rename_i hbeyond
        split at h
        · cases h
        · rename_i events hevents
          cases h
          exact ⟨hcursor, Nat.le_of_not_lt hbeyond, hevents⟩

theorem getEvents_eq_ok {session : Option Id}
    (h : getEvents server session vaultId query = .ok page) :
    readPage server vaultId query = .ok page := by
  unfold getEvents at h
  split at h
  · cases h
  · split at h
    · cases h
    · split at h
      · exact h
      · cases h

end Havemind.PullRoute
