import Havemind.SessionRepository
import Mathlib.Data.List.Sort

/-!
The instance owner and the owners of further vaults, and the pairing of their
devices by a single-use token. A pairing that was consumed answers again to the
device that consumed it.
-/
namespace Havemind.OwnerSetup

open JsText RevisionSchema Transaction KeyedTable AuthTables SessionRepository
open ServerDatabase (AccountStatus DeviceStatus)

def ownerPairingTtlSeconds : ℕ := 15 * 60

structure OwnerNames where
  ownerDisplayName : JsString
  vaultDisplayName : JsString
  deriving DecidableEq

structure CreateVaultResult where
  membershipId : Id
  ownerUserId : Id
  pairingExpiresAt : Timestamp
  pairingToken : Token
  vaultId : Id
  deriving DecidableEq

/-- The key is valid when it has 32 bytes that are not all zero. -/
structure PairOwnerDeviceInput where
  deviceDisplayName : JsString
  deviceId : Id
  pairingToken : Option Token
  publicKeyValid : Bool
  deriving DecidableEq

structure PairOwnerDeviceResult where
  accessExpiresAt : Timestamp
  accessToken : Token
  deviceId : Id
  familyId : Id
  ownerUserId : Id
  refreshExpiresAt : Timestamp
  deriving DecidableEq

structure PairOwnerDeviceFromHashResult where
  deviceId : Id
  familyId : Id
  ownerUserId : Id
  refreshExpiresAt : Timestamp
  vaultId : Id
  deriving DecidableEq

structure RotateOwnerPairingResult where
  ownerUserId : Id
  pairingExpiresAt : Timestamp
  pairingToken : Token
  vaultId : Id
  deriving DecidableEq

/-- The order of memberships by creation, then by id. -/
def olderMembership (a b : MembershipRow) : Prop :=
  textBefore a.createdAt b.createdAt = true ∨ a.createdAt = b.createdAt ∧ a.id ≤ b.id

instance : DecidableRel olderMembership := fun a b => by
  unfold olderMembership
  infer_instance

section
variable (db : AuthDatabase)

def findPairing (tokenHash : TokenHash) : Except AuthError OwnerPairingRow :=
  match db.ownerPairings.find? fun row => row.tokenHash = tokenHash with
  | none => .error .invalidPairing
  | some row => .ok row

def userMatches (userId : Id) (hit : UserRow → Bool) : Bool :=
  db.users.any fun user => user.id = userId ∧ user.status = .active ∧ hit user

/-- The oldest active owner membership whose user and vault match. -/
def resolveOwnerRow (user : UserRow → Bool) (vault : Id → Bool) : Option MembershipRow :=
  ((db.memberships.filter fun row =>
    userMatches db row.userId user ∧ vault row.vaultId ∧ row.status = .active ∧
      row.role = .owner).insertionSort olderMembership).head?

def resolveInstanceOwnerRow : Option MembershipRow :=
  resolveOwnerRow db (fun user => user.isInstanceOwner) fun _ => true

def resolveVaultOwnerRow (vaultId : Id) : Option MembershipRow :=
  resolveOwnerRow db (fun _ => true) fun id => id = vaultId

/-- The session a consumed pairing opened, found again by its first token. -/
def retriedSession (pairing : OwnerPairingRow) (refreshTokenHash : Option TokenHash) :
    Option (Id × FamilyRow) := do
  let deviceId ← pairing.consumedByDeviceId
  let family ← db.families.find? fun family =>
    family.deviceId = deviceId ∧ family.userId = pairing.userId ∧ family.status = .active ∧
      db.refreshTokens.any fun token =>
        token.familyId = family.id ∧ token.generation = 0 ∧ some token.tokenHash = refreshTokenHash
  return (deviceId, family)

end

def consumePairing (pairingId deviceId : Id) (now : Timestamp) : Auth Unit :=
  modify fun db =>
    { db with
      ownerPairings := updateWhere (fun row => row.id = pairingId)
        (fun row => { row with consumedAt := some now, consumedByDeviceId := some deviceId })
        db.ownerPairings }

def deleteUnconsumedPairings (userId vaultId : Id) : Auth Unit :=
  modify fun db =>
    { db with
      ownerPairings := db.ownerPairings.filter fun row =>
        ¬ (row.userId = userId ∧ row.vaultId = vaultId ∧ row.consumedAt = none) }

variable (server : AuthServer)

/-- A user with a vault of its own and the pairing token for its first device. -/
def insertOwner (names : OwnerNames) (isInstanceOwner : Bool) (pairingToken : Token)
    (now pairingExpiresAt : Timestamp) : Auth CreateVaultResult := do
  let ownerUserId ← newUuid server
  let vaultId ← newUuid server
  let membershipId ← newUuid server
  let pairingId ← newUuid server
  insertUser
    { id := ownerUserId, displayName := names.ownerDisplayName, isInstanceOwner, status := .active }
  insertVault { id := vaultId, displayName := names.vaultDisplayName, deletedAt := none }
  insertMembership
    { id := membershipId
      vaultId
      userId := ownerUserId
      role := .owner
      status := .active
      createdAt := now
      revokedAt := none
      kind := .person }
  insertOwnerPairing
    { id := pairingId
      userId := ownerUserId
      vaultId
      membershipId
      tokenHash := server.hashToken pairingToken
      expiresAt := pairingExpiresAt
      consumedAt := none
      consumedByDeviceId := none }
  return { membershipId, ownerUserId, pairingExpiresAt, pairingToken, vaultId }

def requireOwnerNames (names : OwnerNames) : Except AuthError Unit := do
  let _ ← requireDisplayName names.ownerDisplayName
  let _ ← requireDisplayName names.vaultDisplayName

def initializeOwner (localContext : Bool) (names : OwnerNames) (pairingToken : Token)
    (now : Option Timestamp) : Auth CreateVaultResult := do
  check (require (localContext = true) .localContextRequired)
  check (requireOwnerNames names)
  let now ← check (readClock now .invalidClock)
  let pairingExpiresAt ← check (addSeconds now ownerPairingTtlSeconds .invalidClock)
  transaction do
    let db ← get
    check (require (db.instanceInitialized = false) .alreadyInitialized)
    let _instanceId ← newUuid server
    let _serverEpoch ← newUuid server
    modify fun db => { db with instanceInitialized := true }
    insertOwner server names true pairingToken now pairingExpiresAt

def createVault (names : OwnerNames) (pairingToken : Token) (now : Option Timestamp) :
    Auth CreateVaultResult := do
  check (requireOwnerNames names)
  let now ← check (readClock now .invalidClock)
  let pairingExpiresAt ← check (addSeconds now ownerPairingTtlSeconds .invalidClock)
  transaction do
    let db ← get
    check (require (∃ user ∈ db.users, user.isInstanceOwner = true ∧ user.status = .active)
      .notInitialized)
    insertOwner server names false pairingToken now pairingExpiresAt

def rotatePairing (resolveOwner : AuthDatabase → Option MembershipRow) (pairingToken : Token)
    (now : Option Timestamp) : Auth RotateOwnerPairingResult := do
  let now ← check (readClock now .invalidClock)
  let pairingExpiresAt ← check (addSeconds now ownerPairingTtlSeconds .invalidClock)
  transaction do
    let db ← get
    match resolveOwner db with
    | none => throw .notInitialized
    | some owner =>
      deleteUnconsumedPairings owner.userId owner.vaultId
      let id ← newUuid server
      insertOwnerPairing
        { id
          userId := owner.userId
          vaultId := owner.vaultId
          membershipId := owner.id
          tokenHash := server.hashToken pairingToken
          expiresAt := pairingExpiresAt
          consumedAt := none
          consumedByDeviceId := none }
      return {
        ownerUserId := owner.userId
        pairingExpiresAt
        pairingToken
        vaultId := owner.vaultId }

def rotateOwnerPairing (localContext : Bool) (pairingToken : Token) (now : Option Timestamp) :
    Auth RotateOwnerPairingResult := do
  check (require (localContext = true) .localContextRequired)
  rotatePairing server resolveInstanceOwnerRow pairingToken now

def rotateVaultOwnerPairing (localContext : Bool) (vaultId : Id) (pairingToken : Token)
    (now : Option Timestamp) : Auth RotateOwnerPairingResult := do
  check (require (localContext = true) .localContextRequired)
  rotatePairing server (fun db => resolveVaultOwnerRow db vaultId) pairingToken now

def requirePairingInput (input : PairOwnerDeviceInput) : Except AuthError Token := do
  let _ ← requireDisplayName input.deviceDisplayName
  require (input.publicKeyValid = true) .invalidInput
  match input.pairingToken with
  | none => .error .invalidPairing
  | some token => .ok token

def insertPairedDevice (pairing : OwnerPairingRow) (deviceId : Id) (now : Timestamp) : Auth Unit :=
  insertDevice
    { id := deviceId
      userId := pairing.userId
      status := .approved
      approvedAt := some now
      revokedAt := none
      rejoinSecretHash := none
      vaultId := some pairing.vaultId }

def pairOwnerDevice (input : PairOwnerDeviceInput) (initialRefreshToken : Option Token)
    (accessToken : Token) (now sessionNow : Option Timestamp) : Auth PairOwnerDeviceResult := do
  let pairingToken ← check (requirePairingInput input)
  let now ← check (readClock now .invalidClock)
  transaction do
    let pairing ← check (findPairing (← get) (server.hashToken pairingToken))
    check (require (pairing.consumedAt = none ∧ now < pairing.expiresAt) .invalidPairing)
    insertPairedDevice pairing input.deviceId now
    let session ← createInitialSessionInCurrentTransaction server pairing.userId input.deviceId
      initialRefreshToken server.refreshTokenTtlSeconds sessionNow accessToken
    consumePairing pairing.id input.deviceId now
    return {
      accessExpiresAt := session.accessExpiresAt
      accessToken := session.accessToken
      deviceId := input.deviceId
      familyId := session.familyId
      ownerUserId := pairing.userId
      refreshExpiresAt := session.refreshExpiresAt }

/-- The branch of a pairing token used for the first time. -/
def pairFresh (pairing : OwnerPairingRow) (deviceId : Id) (refreshTokenHash : Option TokenHash)
    (now : Timestamp) (sessionNow : Option Timestamp) : Auth PairOwnerDeviceFromHashResult := do
  check (require (now < pairing.expiresAt) .invalidPairing)
  insertPairedDevice pairing deviceId now
  let family ← createInitialFamilyFromHashInCurrentTransaction server pairing.userId deviceId
    refreshTokenHash server.refreshTokenTtlSeconds sessionNow
  consumePairing pairing.id deviceId now
  return {
    deviceId
    familyId := family.familyId
    ownerUserId := pairing.userId
    refreshExpiresAt := family.refreshExpiresAt
    vaultId := pairing.vaultId }

def pairOwnerDeviceFromHash (input : PairOwnerDeviceInput) (refreshTokenHash : Option TokenHash)
    (now sessionNow : Option Timestamp) : Auth PairOwnerDeviceFromHashResult := do
  let pairingToken ← check (requirePairingInput input)
  let now ← check (readClock now .invalidClock)
  transaction do
    let db ← get
    let pairing ← check (findPairing db (server.hashToken pairingToken))
    if pairing.consumedAt ≠ none then
      match retriedSession db pairing refreshTokenHash with
      | none => throw .invalidPairing
      | some (deviceId, family) =>
        return {
          deviceId
          familyId := family.id
          ownerUserId := pairing.userId
          refreshExpiresAt := family.expiresAt
          vaultId := pairing.vaultId }
    else pairFresh server pairing input.deviceId refreshTokenHash now sessionNow

end Havemind.OwnerSetup
