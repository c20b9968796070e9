import Havemind.Invitations

/-!
The housekeeping that runs by the hour: sessions a day past their deadline lose
their tokens, and a device nobody approved in time goes with its user.
-/
namespace Havemind.PruneExpired

open RevisionSchema Transaction AuthTables Invitations
open ServerDatabase (DeviceStatus)

def pruneGraceMs : ℕ := 24 * 60 * 60 * 1000

def pruneRefreshTokens (cutoff : ℤ) : Auth Unit :=
  modify fun db =>
    let expired := (db.families.filter fun row => textBefore row.expiresAt cutoff).map FamilyRow.id
    { db with refreshTokens := db.refreshTokens.filter fun row => row.familyId ∉ expired }

def pruneAccessTokens (cutoff : ℤ) : Auth Unit :=
  modify fun db =>
    { db with
      accessTokens := db.accessTokens.filter fun row => ¬ textBefore row.expiresAt cutoff }

/-- The users of invitations consumed before the cutoff whose device is still
pending. -/
def abandonedUsers (pendingCutoff : ℤ) (db : AuthDatabase) : List Id :=
  (db.invitations.filter fun invitation =>
    (invitation.consumedAt.any fun consumedAt => textBefore consumedAt pendingCutoff) ∧
      (invitation.pendingDeviceId.any fun deviceId =>
        db.devices.any fun device =>
          device.id = deviceId ∧ device.status = .pending)).filterMap
    InvitationRow.consumedByUserId

def pruneExpiredRecords (now : Timestamp) : Auth Unit :=
  transaction do
    pruneRefreshTokens (now - pruneGraceMs)
    pruneAccessTokens (now - pruneGraceMs)
    deleteUsers (abandonedUsers (now - pendingApprovalTtlSeconds * 1000))

end Havemind.PruneExpired
