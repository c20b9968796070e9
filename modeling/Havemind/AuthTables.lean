import Havemind.KeyedTable
import Havemind.ServerDatabase

/-!
The tables of accounts, devices, invitations and sessions, as lists of rows, and
the single statements the auth services run on them. A token is a well-formed
token text and is stored by its hash only. `issued` counts the identifiers the
server has drawn; drawing the next one is the only way to a new key. Columns no
modelled statement reads (public keys, device labels, creation dates of
accounts) are left out.
-/
namespace Havemind.AuthTables

open JsText RevisionSchema Transaction
open ServerDatabase (AccountStatus DeviceStatus)

abbrev Token := ℕ

abbrev TokenHash := ℕ

/-- Codes of the services' errors, of the runtime and of the database. -/
inductive AuthError
  | invalidClock
  | invalidInput
  | invalidRefresh
  | refreshReuseDetected
  | repositoryIntegrity
  | sessionRevoked
  | approvalLocked
  | invalidInvitation
  | invitationAlreadyRedeemed
  | invitationExpired
  | noPendingDevice
  | notAuthorized
  | phraseMismatch (attemptsRemaining : ℕ)
  | grantNotFound
  | membershipInactive
  | noBoundDevice
  | secretMismatch
  | wrongDevice
  | membershipNotFound
  | alreadyInitialized
  | invalidPairing
  | localContextRequired
  | notInitialized
  | agentNameTaken
  | rangeError
  | typeError
  | sqliteConstraint
  deriving DecidableEq

inductive Role
  | owner
  | editor
  deriving DecidableEq

inductive MemberKind
  | person
  | agent
  deriving DecidableEq

inductive FamilyStatus
  | active
  | revoked
  | reuseDetected
  deriving DecidableEq

structure UserRow where
  id : Id
  displayName : JsString
  isInstanceOwner : Bool
  status : AccountStatus
  deriving DecidableEq

/-- `vaultId` is `none` for a device that was added before the scope column. -/
structure DeviceRow where
  id : Id
  userId : Id
  status : DeviceStatus
  approvedAt : Option Timestamp
  revokedAt : Option Timestamp
  rejoinSecretHash : Option TokenHash
  vaultId : Option Id
  deriving DecidableEq

structure VaultRow where
  id : Id
  displayName : JsString
  deletedAt : Option Timestamp
  deriving DecidableEq

structure MembershipRow where
  id : Id
  vaultId : Id
  userId : Id
  role : Role
  status : AccountStatus
  createdAt : Timestamp
  revokedAt : Option Timestamp
  kind : MemberKind
  deriving DecidableEq

structure OwnerPairingRow where
  id : Id
  userId : Id
  vaultId : Id
  membershipId : Id
  tokenHash : TokenHash
  expiresAt : Timestamp
  consumedAt : Option Timestamp
  consumedByDeviceId : Option Id
  deriving DecidableEq

/-- `verificationSecret` is the approval code, a number of six digits. -/
structure InvitationRow where
  id : Id
  vaultId : Id
  createdByMembershipId : Id
  inviterDeviceId : Id
  tokenHash : TokenHash
  verificationSecret : ℕ
  intendedRole : Role
  intendedKind : MemberKind
  expiresAt : Timestamp
  consumedAt : Option Timestamp
  consumedByUserId : Option Id
  pendingDeviceId : Option Id
  intendedMemberDisplayName : Option JsString
  intendedMemberId : Option Id
  pendingCredentialHash : Option TokenHash
  pendingRefreshTokenHash : Option TokenHash
  approvalAttempts : ℕ
  deriving DecidableEq

structure FamilyRow where
  id : Id
  userId : Id
  deviceId : Id
  status : FamilyStatus
  currentGeneration : ℕ
  expiresAt : Timestamp
  revokedAt : Option Timestamp
  deriving DecidableEq

structure RefreshTokenRow where
  id : Id
  familyId : Id
  generation : ℕ
  tokenHash : TokenHash
  createdAt : Timestamp
  consumedAt : Option Timestamp
  rotationId : Option Token
  successorTokenHash : Option TokenHash
  expiresAt : Timestamp
  deriving DecidableEq

structure AccessTokenRow where
  id : Id
  familyId : Id
  userId : Id
  deviceId : Id
  tokenHash : TokenHash
  expiresAt : Timestamp
  revokedAt : Option Timestamp
  deriving DecidableEq

structure RejoinGrantRow where
  id : Id
  membershipId : Id
  deviceId : Id
  createdByMembershipId : Id
  createdAt : Timestamp
  expiresAt : Timestamp
  consumedAt : Option Timestamp
  deriving DecidableEq

structure AgentEnrollmentRow where
  id : Id
  vaultId : Id
  createdByMembershipId : Id
  inviterDeviceId : Id
  displayName : JsString
  createdAt : Timestamp
  claimedAt : Option Timestamp
  redemptionId : Option Id
  membershipId : Option Id
  deviceId : Option Id
  droppedAt : Option Timestamp
  deriving DecidableEq

/-- What a stored revision refers to. -/
structure RevisionReference where
  membershipId : Id
  deviceId : Id
  deriving DecidableEq

structure AuthDatabase where
  instanceInitialized : Bool
  users : List UserRow
  devices : List DeviceRow
  vaults : List VaultRow
  memberships : List MembershipRow
  ownerPairings : List OwnerPairingRow
  invitations : List InvitationRow
  families : List FamilyRow
  refreshTokens : List RefreshTokenRow
  accessTokens : List AccessTokenRow
  rejoinGrants : List RejoinGrantRow
  agentEnrollments : List AgentEnrollmentRow
  revisions : List RevisionReference
  issued : ℕ
  deriving DecidableEq

def AuthDatabase.empty : AuthDatabase :=
  ⟨false, [], [], [], [], [], [], [], [], [], [], [], [], 0⟩

abbrev Auth (α : Type) := EStateM AuthError AuthDatabase α

def accessTokenMinTtlSeconds : ℕ := 10 * 60

def accessTokenMaxTtlSeconds : ℕ := 15 * 60

def refreshTokenMaxTtlSeconds : ℕ := 30 * 24 * 60 * 60

/-- What the services are built with: the generator of identifiers, which never
repeats one, the digest of a token text, and the lifetimes. -/
structure AuthServer where
  randomUuid : ℕ → Id
  hashToken : Token → TokenHash
  accessTokenTtlSeconds : ℕ := 10 * 60
  refreshTokenTtlSeconds : ℕ := 30 * 24 * 60 * 60
  randomUuid_injective : Function.Injective randomUuid
  accessTtl_valid : accessTokenMinTtlSeconds ≤ accessTokenTtlSeconds ∧
    accessTokenTtlSeconds ≤ accessTokenMaxTtlSeconds := by decide

/-- Services whose identifiers are counted up and whose digest is the identity. -/
def plainServer : AuthServer where
  randomUuid := fun k => k
  hashToken := fun token => token
  randomUuid_injective := fun _ _ h => h

/-- The greatest instant a date can hold. -/
def maxDateMilliseconds : ℕ := 8640000000000000

/-- A reading of the clock; `none` is an invalid date. -/
def readClock (now : Option Timestamp) (e : AuthError) : Except AuthError Timestamp :=
  match now with
  | none => .error e
  | some now => .ok now

def addSeconds (date : Timestamp) (seconds : ℕ) (e : AuthError) : Except AuthError Timestamp :=
  let milliseconds := date + seconds * 1000
  if maxSafeInteger < milliseconds then .error e
  else if maxDateMilliseconds < milliseconds then .error .rangeError
  else .ok milliseconds

theorem readClock_eq_ok {now : Option Timestamp} {e : AuthError} {t : Timestamp} :
    readClock now e = .ok t ↔ now = some t := by
  cases now <;> simp [readClock]

theorem addSeconds_eq_ok {date t : Timestamp} {seconds : ℕ} {e : AuthError} :
    addSeconds date seconds e = .ok t ↔
      t = date + seconds * 1000 ∧ date + seconds * 1000 ≤ maxDateMilliseconds := by
  have hle : maxDateMilliseconds ≤ maxSafeInteger := by decide
  unfold addSeconds
  dsimp only
  split
  · rename_i hunsafe
    simp only [reduceCtorEq, false_iff]
    exact fun h => Nat.not_le.mpr (Nat.lt_of_le_of_lt hle hunsafe) h.2
  split
  · rename_i hlate
    simp only [reduceCtorEq, false_iff]
    exact fun h => Nat.not_le.mpr hlate h.2
  · rename_i hlate
    rw [Except.ok.injEq]
    exact ⟨fun h => ⟨h.symm, Nat.not_lt.mp hlate⟩, fun h => h.1.symm⟩

/-- Dates from the year 10000 on are written with a sign. -/
def expandedYear (t : ℤ) : Bool := 253402300800000 ≤ t

/-- The order of two date texts: a sign sorts before a digit. -/
def textBefore (a b : ℤ) : Bool :=
  if expandedYear a = expandedYear b then a < b else expandedYear a

def maxDisplayNameLength : ℕ := 80

def controlCharacterCeiling : CodeUnit := 0x20

def displayNameValid (value : JsString) : Bool :=
  value ≠ [] ∧ value.length ≤ maxDisplayNameLength ∧ ¬ value.head?.any isWhitespace ∧
    ¬ value.getLast?.any isWhitespace ∧ ¬ value.any fun unit => unit < controlCharacterCeiling

def requireDisplayName (value : JsString) : Except AuthError JsString :=
  if displayNameValid value then .ok value else .error .invalidInput

/-- The database's `lower`, which folds the letters A to Z only. -/
def lower (value : JsString) : JsString :=
  value.map fun unit => if 0x41 ≤ unit ∧ unit ≤ 0x5A then unit + 0x20 else unit

/-- The next identifier. -/
def newUuid (server : AuthServer) : Auth Id := fun db =>
  .ok (server.randomUuid db.issued) { db with issued := db.issued + 1 }

theorem newUuid_bind {β : Type} {server : AuthServer} {f : Id → Auth β} {db : AuthDatabase} :
    (newUuid server >>= f) db =
      f (server.randomUuid db.issued) { db with issued := db.issued + 1 } := rfl

def insertUser (row : UserRow) : Auth Unit :=
  guardedWrite .sqliteConstraint
    (fun db => (∀ stored ∈ db.users, stored.id ≠ row.id) ∧
      (row.isInstanceOwner = true → row.status = .active →
        ∀ stored ∈ db.users, stored.isInstanceOwner = true → stored.status ≠ .active))
    fun db => { db with users := db.users ++ [row] }

def insertDevice (row : DeviceRow) : Auth Unit :=
  guardedWrite .sqliteConstraint
    (fun db => (∀ stored ∈ db.devices, stored.id ≠ row.id) ∧
      (∃ user ∈ db.users, user.id = row.userId) ∧
      ∀ vaultId ∈ row.vaultId, ∃ vault ∈ db.vaults, vault.id = vaultId)
    fun db => { db with devices := db.devices ++ [row] }

def insertVault (row : VaultRow) : Auth Unit :=
  guardedWrite .sqliteConstraint (fun db => ∀ stored ∈ db.vaults, stored.id ≠ row.id)
    fun db => { db with vaults := db.vaults ++ [row] }

def insertMembership (row : MembershipRow) : Auth Unit :=
  guardedWrite .sqliteConstraint
    (fun db => (∀ stored ∈ db.memberships, stored.id ≠ row.id ∧
        ¬ (stored.vaultId = row.vaultId ∧ stored.userId = row.userId)) ∧
      (∃ vault ∈ db.vaults, vault.id = row.vaultId) ∧ ∃ user ∈ db.users, user.id = row.userId)
    fun db => { db with memberships := db.memberships ++ [row] }

def insertOwnerPairing (row : OwnerPairingRow) : Auth Unit :=
  guardedWrite .sqliteConstraint
    (fun db => (∀ stored ∈ db.ownerPairings,
        stored.id ≠ row.id ∧ stored.tokenHash ≠ row.tokenHash) ∧
      (∃ user ∈ db.users, user.id = row.userId) ∧ (∃ vault ∈ db.vaults, vault.id = row.vaultId) ∧
      ∃ membership ∈ db.memberships, membership.id = row.membershipId)
    fun db => { db with ownerPairings := db.ownerPairings ++ [row] }

def insertInvitation (row : InvitationRow) : Auth Unit :=
  guardedWrite .sqliteConstraint
    (fun db => (∀ stored ∈ db.invitations,
        stored.id ≠ row.id ∧ stored.tokenHash ≠ row.tokenHash) ∧
      (∃ vault ∈ db.vaults, vault.id = row.vaultId) ∧
      (∃ membership ∈ db.memberships, membership.id = row.createdByMembershipId) ∧
      ∃ device ∈ db.devices, device.id = row.inviterDeviceId)
    fun db => { db with invitations := db.invitations ++ [row] }

def insertFamily (row : FamilyRow) : Auth Unit :=
  guardedWrite .sqliteConstraint
    (fun db => (∀ stored ∈ db.families, stored.id ≠ row.id) ∧
      (∃ user ∈ db.users, user.id = row.userId) ∧ ∃ device ∈ db.devices, device.id = row.deviceId)
    fun db => { db with families := db.families ++ [row] }

def insertRefreshToken (row : RefreshTokenRow) : Auth Unit :=
  guardedWrite .sqliteConstraint
    (fun db => (∀ stored ∈ db.refreshTokens, stored.id ≠ row.id ∧
        stored.tokenHash ≠ row.tokenHash ∧
        ¬ (stored.familyId = row.familyId ∧ stored.generation = row.generation)) ∧
      ∃ family ∈ db.families, family.id = row.familyId)
    fun db => { db with refreshTokens := db.refreshTokens ++ [row] }

def insertAccessToken (row : AccessTokenRow) : Auth Unit :=
  guardedWrite .sqliteConstraint
    (fun db => (∀ stored ∈ db.accessTokens,
        stored.id ≠ row.id ∧ stored.tokenHash ≠ row.tokenHash) ∧
      (∃ family ∈ db.families, family.id = row.familyId) ∧
      (∃ user ∈ db.users, user.id = row.userId) ∧ ∃ device ∈ db.devices, device.id = row.deviceId)
    fun db => { db with accessTokens := db.accessTokens ++ [row] }

def insertRejoinGrant (row : RejoinGrantRow) : Auth Unit :=
  guardedWrite .sqliteConstraint
    (fun db => (∀ stored ∈ db.rejoinGrants, stored.id ≠ row.id) ∧
      (∃ membership ∈ db.memberships, membership.id = row.membershipId) ∧
      (∃ device ∈ db.devices, device.id = row.deviceId) ∧
      ∃ membership ∈ db.memberships, membership.id = row.createdByMembershipId)
    fun db => { db with rejoinGrants := db.rejoinGrants ++ [row] }

def insertAgentEnrollment (row : AgentEnrollmentRow) : Auth Unit :=
  guardedWrite .sqliteConstraint
    (fun db => (∀ stored ∈ db.agentEnrollments, stored.id ≠ row.id) ∧
      (∃ vault ∈ db.vaults, vault.id = row.vaultId) ∧
      (∃ membership ∈ db.memberships, membership.id = row.createdByMembershipId) ∧
      ∃ device ∈ db.devices, device.id = row.inviterDeviceId)
    fun db => { db with agentEnrollments := db.agentEnrollments ++ [row] }

def insertRevision (row : RevisionReference) : Auth Unit :=
  guardedWrite .sqliteConstraint
    (fun db => (∃ membership ∈ db.memberships, membership.id = row.membershipId) ∧
      ∃ device ∈ db.devices, device.id = row.deviceId)
    fun db => { db with revisions := db.revisions ++ [row] }

/-- A row elsewhere keeps the device from being deleted. -/
def deviceReferenced (db : AuthDatabase) (deviceId : Id) : Bool :=
  (db.ownerPairings.any fun row => row.consumedByDeviceId = some deviceId) ||
  (db.invitations.any fun row => row.inviterDeviceId = deviceId) ||
  (db.revisions.any fun row => row.deviceId = deviceId) ||
  db.agentEnrollments.any fun row => row.inviterDeviceId = deviceId ∨ row.deviceId = some deviceId

/-- A row elsewhere keeps the membership from being deleted. -/
def membershipReferenced (db : AuthDatabase) (membershipId : Id) : Bool :=
  (db.invitations.any fun row => row.createdByMembershipId = membershipId) ||
  (db.revisions.any fun row => row.membershipId = membershipId) ||
  (db.rejoinGrants.any fun row => row.createdByMembershipId = membershipId) ||
  db.agentEnrollments.any fun row =>
    row.createdByMembershipId = membershipId ∨ row.membershipId = some membershipId

def devicesOf (db : AuthDatabase) (userIds : List Id) : List Id :=
  (db.devices.filter fun row => row.userId ∈ userIds).map DeviceRow.id

def membershipsOf (db : AuthDatabase) (userIds : List Id) : List Id :=
  (db.memberships.filter fun row => row.userId ∈ userIds).map MembershipRow.id

def familiesOf (db : AuthDatabase) (userIds : List Id) : List Id :=
  (db.families.filter fun row => row.userId ∈ userIds ∨ row.deviceId ∈ devicesOf db userIds).map
    FamilyRow.id

/-- Deletes the users and what the schema deletes with them; invitations only
lose their references. -/
def withoutUsers (userIds : List Id) (db : AuthDatabase) : AuthDatabase :=
  { db with
    users := db.users.filter fun row => row.id ∉ userIds
    devices := db.devices.filter fun row => row.userId ∉ userIds
    memberships := db.memberships.filter fun row => row.userId ∉ userIds
    ownerPairings := db.ownerPairings.filter fun row =>
      row.userId ∉ userIds ∧ row.membershipId ∉ membershipsOf db userIds
    invitations := db.invitations.map fun row =>
      { row with
        consumedByUserId := row.consumedByUserId.filter fun id => id ∉ userIds
        pendingDeviceId := row.pendingDeviceId.filter fun id => id ∉ devicesOf db userIds }
    families := db.families.filter fun row =>
      row.userId ∉ userIds ∧ row.deviceId ∉ devicesOf db userIds
    refreshTokens := db.refreshTokens.filter fun row => row.familyId ∉ familiesOf db userIds
    accessTokens := db.accessTokens.filter fun row =>
      row.familyId ∉ familiesOf db userIds ∧ row.userId ∉ userIds ∧
        row.deviceId ∉ devicesOf db userIds
    rejoinGrants := db.rejoinGrants.filter fun row =>
      row.membershipId ∉ membershipsOf db userIds ∧ row.deviceId ∉ devicesOf db userIds }

/-- `DELETE FROM users` with its cascades, refused while a restricting row
refers to anything they would delete. -/
def deleteUsers (select : AuthDatabase → List Id) : Auth Unit :=
  guardedWrite .sqliteConstraint
    (fun db => (∀ deviceId ∈ devicesOf db (select db), deviceReferenced db deviceId = false) ∧
      ∀ membershipId ∈ membershipsOf db (select db), membershipReferenced db membershipId = false)
    fun db => withoutUsers (select db) db

end Havemind.AuthTables
