import Havemind.SessionRepository

/-!
The revocation of a membership: the row is flipped, never deleted, and every
device the member has in that vault, or in no known vault, is revoked with its
sessions.
-/
namespace Havemind.MembershipRevocation

open RevisionSchema Transaction KeyedTable AuthTables SessionRepository
open ServerDatabase (AccountStatus DeviceStatus)

def loadActiveMembership (db : AuthDatabase) (userId vaultId : Id) : Option MembershipRow :=
  db.memberships.find? fun row =>
    row.userId = userId ∧ row.vaultId = vaultId ∧ row.status = .active

/-- The devices a revocation in the vault covers. -/
def devicesInScope (db : AuthDatabase) (userId vaultId : Id) : List Id :=
  (db.devices.filter fun row =>
    row.userId = userId ∧ (row.vaultId = some vaultId ∨ row.vaultId = none)).map DeviceRow.id

def revokeMembershipRow (membershipId : Id) (now : Timestamp) : Auth Unit :=
  modify fun db =>
    { db with
      memberships := updateWhere (fun row => row.id = membershipId)
        (fun row => { row with status := .revoked, revokedAt := row.revokedAt <|> some now })
        db.memberships }

/-- `deviceNow` is the clock's reading when the device is revoked. -/
def revokeDevices (deviceNow : Id → Option Timestamp) : List Id → Auth Unit
  | [] => pure ()
  | deviceId :: rest => do
    revokeDeviceInCurrentTransaction deviceId (deviceNow deviceId)
    revokeDevices deviceNow rest

def revokeMembership (membershipId : Id) (now : Option Timestamp)
    (deviceNow : Id → Option Timestamp) : Auth Id := do
  let now ← check (readClock now .invalidInput)
  transaction do
    let db ← get
    match db.memberships.find? fun row => row.id = membershipId with
    | none => throw .membershipNotFound
    | some membership =>
      revokeMembershipRow membershipId now
      revokeDevices deviceNow (devicesInScope (← get) membership.userId membership.vaultId)
      return membershipId

end Havemind.MembershipRevocation
