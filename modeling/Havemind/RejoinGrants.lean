import Havemind.SessionRepository
import Mathlib.Data.List.Sort

/-!
Rejoin grants: an owner re-admits a known device after its session died. A new
grant supersedes the older ones of the same membership, and redeeming one takes
the secret the device was given when it joined.
-/
namespace Havemind.RejoinGrants

open RevisionSchema Transaction KeyedTable AuthTables SessionRepository
open ServerDatabase (AccountStatus DeviceStatus)

def rejoinGrantTtlSeconds : ℕ := 15 * 60

structure CreateRejoinGrantInput where
  ownerMembershipId : Id
  targetMembershipId : Id
  deriving DecidableEq

structure CreateRejoinGrantResult where
  boundDeviceId : Id
  expiresAt : Timestamp
  grantId : Id
  membershipId : Id
  deriving DecidableEq

structure RedeemRejoinGrantInput where
  membershipId : Id
  deviceId : Id
  initialRefreshTokenHash : Option TokenHash
  rejoinSecret : Option Token
  deriving DecidableEq

structure RedeemRejoinGrantResult where
  membershipId : Id
  vaultId : Id
  deviceId : Id
  refreshExpiresAt : Timestamp
  deriving DecidableEq

/-- The newest first; grants of one instant in the order of their ids. -/
def newerGrant (a b : RejoinGrantRow) : Prop :=
  textBefore b.createdAt a.createdAt = true ∨ a.createdAt = b.createdAt ∧ a.id ≤ b.id

instance : DecidableRel newerGrant := fun a b => by
  unfold newerGrant
  infer_instance

/-- Devices of the vault first, the latest approved first among them. -/
def betterBound (a b : DeviceRow) : Prop :=
  if a.vaultId.isNone = b.vaultId.isNone then
    match a.approvedAt, b.approvedAt with
    | some x, some y => textBefore y x = true ∨ x = y ∧ a.id ≤ b.id
    | some _, none => True
    | none, some _ => False
    | none, none => a.id ≤ b.id
  else b.vaultId.isNone = true

instance : DecidableRel betterBound := fun a b => by
  unfold betterBound
  split
  · cases a.approvedAt <;> cases b.approvedAt <;> infer_instance
  · infer_instance

section
variable (db : AuthDatabase)

def vaultIsLive (vaultId : Id) : Bool :=
  db.vaults.any fun row => row.id = vaultId ∧ row.deletedAt = none

def loadMembership (membershipId : Id) : Except AuthError MembershipRow :=
  match db.memberships.find? fun row => row.id = membershipId with
  | none => .error .grantNotFound
  | some row => if vaultIsLive db row.vaultId then .ok row else .error .membershipInactive

def requireOwnerMembership (membershipId vaultId : Id) : Except AuthError Unit :=
  match db.memberships.find? fun row => row.id = membershipId with
  | none => .error .notAuthorized
  | some row =>
    require (row.status = .active ∧ row.role = .owner ∧ row.vaultId = vaultId) .notAuthorized

def loadLiveGrant (membershipId : Id) (now : Timestamp) : Except AuthError RejoinGrantRow :=
  let rows := db.rejoinGrants.filter fun row =>
    row.membershipId = membershipId ∧ row.consumedAt = none
  match (rows.insertionSort newerGrant).head? with
  | none => .error .grantNotFound
  | some row => if row.expiresAt ≤ now then .error .grantNotFound else .ok row

def resolveBoundDevice (userId vaultId : Id) : Except AuthError Id :=
  let rows := db.devices.filter fun row =>
    row.userId = userId ∧ row.status = .approved ∧ (row.vaultId = some vaultId ∨ row.vaultId = none)
  match (rows.insertionSort betterBound).head? with
  | none => .error .noBoundDevice
  | some row => .ok row.id

end

def rejoinSecretMatchesHash (server : AuthServer) (rawSecret : Option Token)
    (storedHash : Option TokenHash) : Bool :=
  match rawSecret, storedHash with
  | some secret, some hash => server.hashToken secret = hash
  | _, _ => false

def supersedeGrants (membershipId : Id) (now : Timestamp) : Auth Unit :=
  modify fun db =>
    { db with
      rejoinGrants := updateWhere (fun row => row.membershipId = membershipId ∧ row.consumedAt = none)
        (fun row => { row with consumedAt := some now }) db.rejoinGrants }

def consumeGrant (grantId : Id) (now : Timestamp) : Auth Unit :=
  let isHit : RejoinGrantRow → Bool := fun row => row.id = grantId ∧ row.consumedAt = none
  updateOne (fun db => db.rejoinGrants.countP isHit)
    (fun db =>
      { db with
        rejoinGrants :=
          updateWhere isHit (fun row => { row with consumedAt := some now }) db.rejoinGrants })
    .grantNotFound

variable (server : AuthServer)

def createGrantInTransaction (input : CreateRejoinGrantInput) (now expiresAt : Timestamp) :
    Auth CreateRejoinGrantResult := do
  let target ← check (loadMembership (← get) input.targetMembershipId)
  check (require (target.status = .active) .membershipInactive)
  check (requireOwnerMembership (← get) input.ownerMembershipId target.vaultId)
  let boundDeviceId ← check (resolveBoundDevice (← get) target.userId target.vaultId)
  supersedeGrants input.targetMembershipId now
  let grantId ← newUuid server
  insertRejoinGrant
    { id := grantId
      membershipId := input.targetMembershipId
      deviceId := boundDeviceId
      createdByMembershipId := input.ownerMembershipId
      createdAt := now
      expiresAt
      consumedAt := none }
  return { boundDeviceId, expiresAt, grantId, membershipId := input.targetMembershipId }

def createGrant (input : CreateRejoinGrantInput) (now : Option Timestamp) :
    Auth CreateRejoinGrantResult := do
  let now ← check (readClock now .invalidInput)
  let expiresAt ← check (addSeconds now rejoinGrantTtlSeconds .invalidInput)
  transaction (createGrantInTransaction server input now expiresAt)

/-- The grant and the membership a redemption is about, with every check made. -/
def requireRedeemable (db : AuthDatabase) (input : RedeemRejoinGrantInput) (now : Timestamp) :
    Except AuthError (RejoinGrantRow × MembershipRow) := do
  let grant ← loadLiveGrant db input.membershipId now
  require (grant.deviceId = input.deviceId) .wrongDevice
  let membership ← loadMembership db input.membershipId
  require (membership.status = .active) .membershipInactive
  match db.devices.find? fun row => row.id = input.deviceId with
  | none => .error .wrongDevice
  | some device =>
    require (device.status = .approved ∧ device.userId = membership.userId) .wrongDevice
    require (rejoinSecretMatchesHash server input.rejoinSecret device.rejoinSecretHash = true)
      .secretMismatch
    return (grant, membership)

def redeemGrantInTransaction (input : RedeemRejoinGrantInput) (tokenHash : TokenHash)
    (now : Timestamp) (sessionNow : Option Timestamp) : Auth RedeemRejoinGrantResult := do
  let (grant, membership) ← check (requireRedeemable server (← get) input now)
  consumeGrant grant.id now
  let family ← createInitialFamilyFromHashInCurrentTransaction server membership.userId
    input.deviceId (some tokenHash) server.refreshTokenTtlSeconds sessionNow
  return {
    deviceId := input.deviceId
    membershipId := input.membershipId
    refreshExpiresAt := family.refreshExpiresAt
    vaultId := membership.vaultId }

def redeemGrant (input : RedeemRejoinGrantInput) (now sessionNow : Option Timestamp) :
    Auth RedeemRejoinGrantResult := do
  match input.initialRefreshTokenHash with
  | none => throw .invalidInput
  | some tokenHash =>
    let now ← check (readClock now .invalidInput)
    transaction (redeemGrantInTransaction server input tokenHash now sessionNow)

end Havemind.RejoinGrants
