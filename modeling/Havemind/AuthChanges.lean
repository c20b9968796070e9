import Havemind.Invitations
import Mathlib.Logic.Relation

/-!
What the auth services can do to the database: the committed changes, each with
what was checked before it, stated over the tables alone. Two deletions stand
apart from the others: the pruning of session tokens, and the removal of a user
whose device is no longer pending.
-/
namespace Havemind.AuthChanges

open RevisionSchema KeyedTable AuthTables
open Invitations (maxApprovalAttempts)
open ServerDatabase (AccountStatus DeviceStatus)

/-- The identifier was drawn when at least `base` and fewer than `issued` had been. -/
def Drawn (server : AuthServer) (base issued : ℕ) (id : Id) : Prop :=
  ∃ k, base ≤ k ∧ k < issued ∧ server.randomUuid k = id

def newFamily (id userId deviceId : Id) (expiresAt : Timestamp) : FamilyRow :=
  { id, userId, deviceId
    status := .active
    currentGeneration := 0
    expiresAt
    revokedAt := none }

def newToken (id familyId : Id) (generation : ℕ) (tokenHash : TokenHash)
    (createdAt expiresAt : Timestamp) : RefreshTokenRow :=
  { id, familyId, generation, tokenHash, createdAt
    consumedAt := none
    rotationId := none
    successorTokenHash := none
    expiresAt }

def TokenFree (db : AuthDatabase) (token : RefreshTokenRow) : Prop :=
  ∀ stored ∈ db.refreshTokens, stored.id ≠ token.id ∧ stored.tokenHash ≠ token.tokenHash ∧
    ¬ (stored.familyId = token.familyId ∧ stored.generation = token.generation)

/-- The device is there and no longer pending. -/
def Settled (db : AuthDatabase) (deviceId : Id) : Prop :=
  ∃ device ∈ db.devices, device.id = deviceId ∧ device.status ≠ .pending

/-- The invitation has a pending device, which some row still calls pending. -/
def AwaitsApproval (db : AuthDatabase) (invitation : InvitationRow) : Prop :=
  ∃ deviceId, invitation.pendingDeviceId = some deviceId ∧
    ∃ device ∈ db.devices, device.id = deviceId ∧ device.status = .pending

/-- The invitation once a device redeemed it. -/
def redeemedInvitation (userId deviceId : Id) (now : Timestamp)
    (credentialHash refreshTokenHash : TokenHash) (row : InvitationRow) : InvitationRow :=
  { row with
    consumedAt := some now
    consumedByUserId := some userId
    pendingDeviceId := some deviceId
    pendingCredentialHash := some credentialHash
    pendingRefreshTokenHash := some refreshTokenHash }

section
variable (db : AuthDatabase)

def afterRedemption (invitation : InvitationRow) (user : UserRow) (device : DeviceRow)
    (now : Timestamp) (credentialHash refreshTokenHash : TokenHash) (issued : ℕ) : AuthDatabase :=
  { db with
    users := db.users ++ [user]
    devices := db.devices ++ [device]
    invitations := updateWhere (fun row => row.id = invitation.id ∧ row.consumedAt = none)
      (redeemedInvitation user.id device.id now credentialHash refreshTokenHash) db.invitations
    issued }

def afterAttempts (invitationId : Id) (attempts : ℕ) : AuthDatabase :=
  { db with
    invitations := updateWhere (fun row => row.id = invitationId)
      (fun row => { row with approvalAttempts := attempts }) db.invitations }

def afterAdmission (deviceId : Id) (membership : MembershipRow) (now : Timestamp) (issued : ℕ) :
    AuthDatabase :=
  { db with
    devices := updateWhere (fun row => row.id = deviceId ∧ row.status = .pending)
      (fun row => { row with status := .approved, approvedAt := some now }) db.devices
    memberships := db.memberships ++ [membership]
    issued }

def afterRotation (token : RefreshTokenRow) (family : FamilyRow) (successor : RefreshTokenRow)
    (rotationId : Token) (now : Timestamp) (issued : ℕ) : AuthDatabase :=
  { db with
    refreshTokens := updateWhere (fun row => row.id = token.id ∧ row.consumedAt = none)
      (fun row =>
        { row with
          consumedAt := some now
          rotationId := some rotationId
          successorTokenHash := some successor.tokenHash })
      db.refreshTokens ++ [successor]
    families := updateWhere (fun row => row.id = family.id ∧ row.status = .active ∧
        row.currentGeneration = token.generation)
      (fun row =>
        { row with
          currentGeneration := token.generation + 1
          expiresAt := successor.expiresAt })
      db.families
    issued }

def afterReuse (familyId : Id) (now : Timestamp) : AuthDatabase :=
  { db with
    families := updateWhere (fun row => row.id = familyId)
      (fun row =>
        { row with
          status := .reuseDetected
          revokedAt := row.revokedAt <|> some now })
      db.families
    accessTokens := updateWhere (fun row => row.familyId = familyId)
      (fun row => { row with revokedAt := row.revokedAt <|> some now }) db.accessTokens }

def afterMembershipRevocation (membershipId : Id) (now : Timestamp) : AuthDatabase :=
  { db with
    memberships := updateWhere (fun row => row.id = membershipId)
      (fun row => { row with status := .revoked, revokedAt := row.revokedAt <|> some now })
      db.memberships }

def afterDeviceRevocation (deviceId : Id) (now : Timestamp) : AuthDatabase :=
  { db with
    devices := updateWhere (fun row => row.id = deviceId)
      (fun row => { row with status := .revoked, revokedAt := row.revokedAt <|> some now })
      db.devices
    families := updateWhere (fun row => row.deviceId = deviceId)
      (fun row => { row with status := .revoked, revokedAt := row.revokedAt <|> some now })
      db.families
    accessTokens := updateWhere (fun row => row.deviceId = deviceId)
      (fun row => { row with revokedAt := row.revokedAt <|> some now }) db.accessTokens }

def afterOpening (family : FamilyRow) (token : RefreshTokenRow) (issued : ℕ) : AuthDatabase :=
  { db with
    families := db.families ++ [family]
    refreshTokens := db.refreshTokens ++ [token]
    issued }

def afterGrant (grant : RejoinGrantRow) (issued : ℕ) : AuthDatabase :=
  { db with
    rejoinGrants := updateWhere
      (fun row => row.membershipId = grant.membershipId ∧ row.consumedAt = none)
      (fun row => { row with consumedAt := some grant.createdAt }) db.rejoinGrants ++ [grant]
    issued }

def afterGrantConsumed (grantId : Id) (now : Timestamp) : AuthDatabase :=
  { db with
    rejoinGrants := updateWhere (fun row => row.id = grantId ∧ row.consumedAt = none)
      (fun row => { row with consumedAt := some now }) db.rejoinGrants }

end

/-- An approval: the invitation's device turns approved and its user a member. -/
structure Admitted (server : AuthServer) (base : ℕ) (db : AuthDatabase) (invitation : InvitationRow)
    (deviceId : Id) (membership : MembershipRow) (issued : ℕ) : Prop where
  issued_le : db.issued ≤ issued
  invitation_mem : invitation ∈ db.invitations
  device_eq : invitation.pendingDeviceId = some deviceId
  user_eq : invitation.consumedByUserId = some membership.userId
  pending : ∃ device ∈ db.devices, device.id = deviceId ∧ device.status = .pending
  vault_eq : membership.vaultId = invitation.vaultId
  membership_new : Drawn server base issued membership.id
  membership_free : ∀ stored ∈ db.memberships, stored.id ≠ membership.id ∧
    ¬ (stored.vaultId = membership.vaultId ∧ stored.userId = membership.userId)
  user_mem : ∃ user ∈ db.users, user.id = membership.userId

/-- The first session of a device: a family of generation zero and its token. -/
structure Opening (server : AuthServer) (base : ℕ) (db : AuthDatabase) (family : FamilyRow)
    (token : RefreshTokenRow) (issued : ℕ) : Prop where
  issued_le : db.issued ≤ issued
  family_eq : family = newFamily family.id family.userId family.deviceId family.expiresAt
  token_eq : token = newToken token.id family.id 0 token.tokenHash token.createdAt family.expiresAt
  family_new : Drawn server base issued family.id
  family_free : ∀ stored ∈ db.families, stored.id ≠ family.id
  token_free : TokenFree db token
  device_settled : Settled db family.deviceId

/-- An approval with the session it opens. -/
inductive Approved (server : AuthServer) (base : ℕ) (invitation : InvitationRow)
    (db : AuthDatabase) : AuthDatabase → Prop
  | mk {deviceId : Id} {membership : MembershipRow} {now : Timestamp}
      {family : FamilyRow} {token : RefreshTokenRow} {issued issued' : ℕ}
      (admitted : Admitted server base db invitation deviceId membership issued)
      (opening : Opening server base (afterAdmission db deviceId membership now issued) family token
        issued')
      (device_eq : family.deviceId = deviceId) :
      Approved server base invitation db
        (afterOpening (afterAdmission db deviceId membership now issued) family token issued')

/-- What a call may do beyond the ordinary changes: let a member in again, by a
pairing or a grant, and approve the device of an invitation. -/
structure Permit where
  reentry : Prop
  approval : InvitationRow → Prop

/-- One committed change. New keys were drawn when `base` identifiers had been. -/
inductive Change (server : AuthServer) (permit : Permit) (base : ℕ) (db : AuthDatabase) :
    AuthDatabase → Prop
  | drawn {issued : ℕ} (issued_le : db.issued ≤ issued) : Change server permit base db { db with issued }
  | initialized : Change server permit base db { db with instanceInitialized := true }
  | ownerAdded {user : UserRow} {vault : VaultRow} {membership : MembershipRow} {issued : ℕ}
      (issued_le : db.issued ≤ issued)
      (user_new : Drawn server base issued user.id)
      (user_fresh : Drawn server db.issued issued user.id)
      (user_free : ∀ stored ∈ db.users, stored.id ≠ user.id)
      (membership_new : Drawn server base issued membership.id)
      (membership_free : ∀ stored ∈ db.memberships, stored.id ≠ membership.id)
      (membership_user : membership.userId = user.id) :
      Change server permit base db
        { db with
          users := db.users ++ [user]
          vaults := db.vaults ++ [vault]
          memberships := db.memberships ++ [membership]
          issued }
  | pairingsSet {rows : List OwnerPairingRow} {issued : ℕ}
      (issued_le : db.issued ≤ issued)
      (owners : ∀ row ∈ rows, (∃ membership ∈ db.memberships, membership.userId = row.userId) ∨
        ∃ old ∈ db.ownerPairings, old.userId = row.userId)
      (devices : ∀ row ∈ rows, ∀ deviceId ∈ row.consumedByDeviceId, Settled db deviceId ∨
        ∃ old ∈ db.ownerPairings, old.consumedByDeviceId = some deviceId) :
      Change server permit base db { db with ownerPairings := rows, issued }
  | enrollmentsSet {rows : List AgentEnrollmentRow} {issued : ℕ}
      (issued_le : db.issued ≤ issued)
      (devices : ∀ row ∈ rows, ∀ deviceId,
        row.inviterDeviceId = deviceId ∨ row.deviceId = some deviceId → Settled db deviceId ∨
          ∃ old ∈ db.agentEnrollments,
            old.inviterDeviceId = deviceId ∨ old.deviceId = some deviceId) :
      Change server permit base db { db with agentEnrollments := rows, issued }
  | revisionAdded {row : RevisionReference} (device : Settled db row.deviceId) :
      Change server permit base db { db with revisions := db.revisions ++ [row] }
  | invited {row : InvitationRow} {memberId : Id} {issued : ℕ}
      (issued_le : db.issued ≤ issued)
      (id_new : Drawn server base issued row.id)
      (id_free : ∀ stored ∈ db.invitations, stored.id ≠ row.id)
      (member : row.intendedMemberId = some memberId)
      (member_new : Drawn server db.issued issued memberId)
      (unconsumed : row.consumedAt = none)
      (no_user : row.consumedByUserId = none)
      (no_device : row.pendingDeviceId = none)
      (no_attempts : row.approvalAttempts = 0)
      (inviter : Settled db row.inviterDeviceId) :
      Change server permit base db { db with invitations := db.invitations ++ [row], issued }
  | burned {invitationId : Id} {now : Timestamp} :
      Change server permit base db
        { db with
          invitations := updateWhere (fun row => row.id = invitationId ∧ row.consumedAt = none)
            (fun row => { row with consumedAt := some now }) db.invitations }
  | redeemed {invitation : InvitationRow} {user : UserRow} {device : DeviceRow} {now : Timestamp}
      {credentialHash refreshTokenHash : TokenHash} {issued : ℕ}
      (issued_le : db.issued ≤ issued)
      (invitation_mem : invitation ∈ db.invitations)
      (unconsumed : invitation.consumedAt = none)
      (user_eq : invitation.intendedMemberId = some user.id)
      (user_free : ∀ stored ∈ db.users, stored.id ≠ user.id)
      (device_new : Drawn server base issued device.id)
      (device_free : ∀ stored ∈ db.devices, stored.id ≠ device.id)
      (device_user : device.userId = user.id)
      (pending : device.status = .pending) :
      Change server permit base db
        (afterRedemption db invitation user device now credentialHash refreshTokenHash issued)
  | attemptsRecorded {invitationId : Id} {attempts : ℕ}
      (drawn : Drawn server base db.issued invitationId)
      (bounded : attempts < maxApprovalAttempts) :
      Change server permit base db (afterAttempts db invitationId attempts)
  | approved {invitation : InvitationRow} {db' : AuthDatabase}
      (approved : Approved server base invitation db db')
      (device_new : ∀ deviceId ∈ invitation.pendingDeviceId,
        Drawn server base db.issued deviceId) :
      Change server permit base db db'
  | removed {userIds : List Id}
      (pending : ∀ userId ∈ userIds, ∃ invitation ∈ db.invitations,
        invitation.consumedByUserId = some userId ∧ AwaitsApproval db invitation)
      (unreferenced : ∀ deviceId ∈ devicesOf db userIds, deviceReferenced db deviceId = false) :
      Change server permit base db (withoutUsers userIds db)
  | membershipRevoked {membershipId : Id} {now : Timestamp} :
      Change server permit base db (afterMembershipRevocation db membershipId now)
  | deviceRevoked {deviceId : Id} {now : Timestamp} :
      Change server permit base db (afterDeviceRevocation db deviceId now)
  | deviceAdded {row : DeviceRow}
      (allowed : permit.reentry)
      (id_new : Drawn server base db.issued row.id)
      (id_free : ∀ stored ∈ db.devices, stored.id ≠ row.id)
      (user_mem : ∃ user ∈ db.users, user.id = row.userId)
      (member : ∃ membership ∈ db.memberships, membership.userId = row.userId)
      (approved : row.status = .approved) :
      Change server permit base db { db with devices := db.devices ++ [row] }
  | grantIssued {grant : RejoinGrantRow} {issued : ℕ}
      (issued_le : db.issued ≤ issued)
      (id_new : Drawn server base issued grant.id)
      (id_free : ∀ stored ∈ db.rejoinGrants, stored.id ≠ grant.id) :
      Change server permit base db (afterGrant db grant issued)
  | sessionOpened {family : FamilyRow} {token : RefreshTokenRow} {issued : ℕ}
      (allowed : permit.reentry)
      (opening : Opening server base db family token issued)
      (device_new : Drawn server base db.issued family.deviceId) :
      Change server permit base db (afterOpening db family token issued)
  | accessIssued {row : AccessTokenRow} {issued : ℕ}
      (issued_le : db.issued ≤ issued)
      (family : ∃ family ∈ db.families, family.id = row.familyId ∧
        family.deviceId = row.deviceId ∧ row.expiresAt ≤ family.expiresAt) :
      Change server permit base db { db with accessTokens := db.accessTokens ++ [row], issued }
  | rotated {token successor : RefreshTokenRow} {family : FamilyRow} {rotationId : Token}
      {now : Timestamp} {issued : ℕ}
      (issued_le : db.issued ≤ issued)
      (token_mem : token ∈ db.refreshTokens)
      (unconsumed : token.consumedAt = none)
      (family_mem : family ∈ db.families)
      (family_eq : family.id = token.familyId)
      (active : family.status = .active)
      (current : family.currentGeneration = token.generation)
      (safe : token.generation + 1 ≤ maxSafeInteger)
      (later : family.expiresAt ≤ successor.expiresAt)
      (successor_eq : successor = newToken successor.id family.id (token.generation + 1)
        successor.tokenHash now successor.expiresAt)
      (token_free : TokenFree db successor) :
      Change server permit base db (afterRotation db token family successor rotationId now issued)
  | reuseMarked {familyId : Id} {now : Timestamp} :
      Change server permit base db (afterReuse db familyId now)

/-- A sequence of changes. -/
def Changes (server : AuthServer) (permit : Permit) (base : ℕ) :
    AuthDatabase → AuthDatabase → Prop :=
  Relation.ReflTransGen (Change server permit base)

/-- A wrong code counted; the last one allowed removes the user. -/
inductive Mismatched (invitation : InvitationRow) (db : AuthDatabase) : AuthDatabase → Prop
  | counted (bounded : invitation.approvalAttempts + 1 < maxApprovalAttempts) :
      Mismatched invitation db (afterAttempts db invitation.id (invitation.approvalAttempts + 1))
  | locked {userId : Id} (user_eq : invitation.consumedByUserId = some userId)
      (unreferenced : ∀ deviceId ∈ devicesOf db [userId], deviceReferenced
        (afterAttempts db invitation.id (invitation.approvalAttempts + 1)) deviceId = false) :
      Mismatched invitation db (withoutUsers [userId]
        (afterAttempts db invitation.id (invitation.approvalAttempts + 1)))

/-- A grant redeemed: the device it is bound to has one more session. -/
inductive Rejoined (server : AuthServer) (base : ℕ) (db : AuthDatabase) : AuthDatabase → Prop
  | mk {grantId : Id} {now : Timestamp} {family : FamilyRow} {token : RefreshTokenRow} {issued : ℕ}
      (opening : Opening server base (afterGrantConsumed db grantId now) family token issued) :
      Rejoined server base db (afterOpening (afterGrantConsumed db grantId now) family token issued)

/-- Session tokens deleted by age; nothing else is touched. -/
def Pruned (db db' : AuthDatabase) : Prop :=
  ∃ keepRefresh keepAccess, db' =
    { db with
      refreshTokens := db.refreshTokens.filter keepRefresh
      accessTokens := db.accessTokens.filter keepAccess }

/-- A user deleted although the invitation's device no longer awaits approval. -/
def RemovedLate (db db' : AuthDatabase) : Prop :=
  ∃ userId, ∃ invitation ∈ db.invitations, invitation.consumedByUserId = some userId ∧
    ¬ AwaitsApproval db invitation ∧
    (∀ deviceId ∈ devicesOf db [userId], deviceReferenced db deviceId = false) ∧
    db' = withoutUsers [userId] db

/-- What one call on the services commits, unless it removes a user late. -/
inductive Outcome (server : AuthServer) (permit : Permit) (db : AuthDatabase) :
    AuthDatabase → Prop
  | changed {db' : AuthDatabase} (changes : Changes server permit db.issued db db') :
      Outcome server permit db db'
  | approved {invitation : InvitationRow} {db' : AuthDatabase}
      (invitation_mem : invitation ∈ db.invitations) (allowed : permit.approval invitation)
      (approved : Approved server db.issued { invitation with approvalAttempts := 0 }
        (afterAttempts db invitation.id 0) db') :
      Outcome server permit db db'
  | mismatched {invitation : InvitationRow} {db' : AuthDatabase}
      (invitation_mem : invitation ∈ db.invitations) (awaits : AwaitsApproval db invitation)
      (mismatched : Mismatched invitation db db') : Outcome server permit db db'
  | rejoined {db' : AuthDatabase} (allowed : permit.reentry) (rejoined : Rejoined server db.issued db db') :
      Outcome server permit db db'
  | pruned {mid db' : AuthDatabase} (pruned : Pruned db mid)
      (changes : Changes server permit mid.issued mid db') : Outcome server permit db db'

/-- What one call on the services commits. -/
def Committed (server : AuthServer) (permit : Permit) (db db' : AuthDatabase) : Prop :=
  Outcome server permit db db' ∨ RemovedLate db db'

section
variable {server : AuthServer} {base base' issued issued' : ℕ} {id : Id}

theorem Drawn.mono (h : Drawn server base issued id) (hbase : base' ≤ base)
    (hissued : issued ≤ issued') : Drawn server base' issued' id := by
  obtain ⟨k, hk, hlt, rfl⟩ := h
  exact ⟨k, Nat.le_trans hbase hk, Nat.lt_of_lt_of_le hlt hissued, rfl⟩

/-- An identifier is drawn once. -/
theorem Drawn.ne {other : Id} (h : Drawn server base issued id)
    (hother : Drawn server base' base other) : id ≠ other := by
  obtain ⟨k, hk, -, rfl⟩ := h
  obtain ⟨l, -, hl, rfl⟩ := hother
  intro heq
  have := server.randomUuid_injective heq
  omega

end

variable {server : AuthServer} {permit : Permit} {base : ℕ} {db db' : AuthDatabase}
  {P : AuthDatabase → Prop}

theorem Change.issued_le (h : Change server permit base db db') : db.issued ≤ db'.issued := by
  cases h with
  | drawn issued_le | ownerAdded issued_le | pairingsSet issued_le | enrollmentsSet issued_le
  | invited issued_le | redeemed issued_le | grantIssued issued_le | accessIssued issued_le
  | rotated issued_le => exact issued_le
  | approved approved =>
    obtain ⟨admitted, opening, -⟩ := approved
    exact Nat.le_trans admitted.issued_le opening.issued_le
  | sessionOpened _ opening => exact opening.issued_le
  | _ => exact Nat.le_refl _

/-- What every single step of an outcome keeps. -/
structure Kept (server : AuthServer) (base : ℕ) (P : AuthDatabase → Prop) : Prop where
  change : ∀ {permit s t}, P s → Change server permit base s t → P t
  attempts : ∀ {s invitationId n}, P s → P (afterAttempts s invitationId n)
  admitted : ∀ {s invitation deviceId membership now issued}, P s →
    Admitted server base s invitation deviceId membership issued →
    P (afterAdmission s deviceId membership now issued)
  opened : ∀ {s family token issued}, P s → Opening server base s family token issued →
    P (afterOpening s family token issued)
  consumed : ∀ {s grantId now}, P s → P (afterGrantConsumed s grantId now)
  pruned : ∀ {s t}, P s → Pruned s t → P t
  removed : ∀ {s userIds}, P s → P (withoutUsers userIds s)

theorem Kept.changes (kept : Kept server base P) (h : P db)
    (changes : Changes server permit base db db') : P db' := by
  induction changes with
  | refl => exact h
  | tail _ change ih => exact kept.change ih change

theorem Kept.outcome (kept : Kept server db.issued P) (h : P db)
    (outcome : Outcome server permit db db') : P db' := by
  cases outcome with
  | changed changes => exact kept.changes h changes
  | approved _ _ approved =>
    obtain ⟨admitted, opening, -⟩ := approved
    exact kept.opened (kept.admitted (kept.attempts h) admitted) opening
  | mismatched _ _ mismatched =>
    cases mismatched with
    | counted => exact kept.attempts h
    | locked => exact kept.removed (kept.attempts h)
  | rejoined _ rejoined =>
    obtain ⟨opening⟩ := rejoined
    exact kept.opened (kept.consumed h) opening
  | pruned pruned changes =>
    have hmid := kept.pruned h pruned
    obtain ⟨keepRefresh, keepAccess, rfl⟩ := pruned
    exact kept.changes hmid changes

theorem Kept.committed (kept : Kept server db.issued P) (h : P db)
    (committed : Committed server permit db db') : P db' := by
  rcases committed with outcome | ⟨userId, -, -, -, -, -, rfl⟩
  · exact kept.outcome h outcome
  · exact kept.removed h

/-- Identifiers are only ever drawn. -/
theorem issued_kept (n : ℕ) : Kept server base fun db => n ≤ db.issued where
  change := fun h change => Nat.le_trans h change.issued_le
  attempts := fun h => h
  admitted := fun h admitted => Nat.le_trans h admitted.issued_le
  opened := fun h opening => Nat.le_trans h opening.issued_le
  consumed := fun h => h
  pruned := by
    intro s t h pruned
    obtain ⟨keepRefresh, keepAccess, rfl⟩ := pruned
    exact h
  removed := fun h => h

end Havemind.AuthChanges
