import Havemind.SessionRepository

/-!
Owner-scoped invitations: creation, single-use redemption into a pending device,
and the owner's approval by the six-digit code or rejection. Wrong codes are
counted on the invitation, and the last one allowed deletes the pending user.
-/
namespace Havemind.Invitations

open JsText RevisionSchema Transaction KeyedTable AuthTables SessionRepository
open ServerDatabase (AccountStatus DeviceStatus)

def invitationTtlSeconds : ℕ := 15 * 60

def pendingApprovalTtlSeconds : ℕ := 60 * 60

def maxApprovalAttempts : ℕ := 3

def pinUpperBound : ℕ := 1000000

/-- The text `Invited member`. -/
def defaultIntendedMemberName : JsString :=
  [0x49, 0x6E, 0x76, 0x69, 0x74, 0x65, 0x64, 0x20, 0x6D, 0x65, 0x6D, 0x62, 0x65, 0x72]

structure CreateInvitationInput where
  vaultId : Id
  createdByMembershipId : Id
  inviterDeviceId : Id
  intendedRole : Role := .editor
  intendedKind : MemberKind := .person
  intendedMemberDisplayName : Option JsString := none
  deriving DecidableEq

/-- What the server generates for one invitation: its token and its code. -/
structure InvitationSecrets where
  invitationToken : Token
  verificationPin : Fin pinUpperBound
  deriving DecidableEq

structure CreateInvitationResult where
  invitationId : Id
  invitationToken : Token
  expiresAt : Timestamp
  intendedMemberId : Id
  intendedMemberDisplayName : JsString
  deriving DecidableEq

/-- A secret that is given but malformed is `some none`. -/
structure RedeemForOnboardingInput where
  invitationToken : Option Token
  deviceLabel : JsString
  initialRefreshToken : Option Token
  rejoinSecret : Option (Option Token)
  deriving DecidableEq

structure RedeemForOnboardingResult where
  pendingCredential : Token
  pendingDeviceId : Id
  verificationPhrase : ℕ
  deriving DecidableEq

/-- The phrase is `none` for a text that is not six digits. -/
structure ApproveRedeemedDeviceInput where
  invitationId : Id
  approverMembershipId : Id
  verificationPhrase : Option ℕ
  deriving DecidableEq

structure ApproveRedeemedDeviceResult where
  deviceId : Id
  familyId : Id
  membershipId : Id
  userId : Id
  deriving DecidableEq

structure RejectPendingDeviceInput where
  invitationId : Id
  approverMembershipId : Id
  deriving DecidableEq

inductive RedeemOutcome
  | expired
  | ok (pendingDeviceId : Id) (verificationPhrase : ℕ)
  deriving DecidableEq

inductive RedeemedApproveOutcome
  | mismatch (attemptsRemaining : ℕ)
  | locked
  | ok (result : ApproveRedeemedDeviceResult)
  deriving DecidableEq

section
variable (db : AuthDatabase)

def loadInvitationByHash (tokenHash : TokenHash) : Except AuthError InvitationRow :=
  match db.invitations.find? fun row => row.tokenHash = tokenHash with
  | none => .error .invalidInvitation
  | some row => .ok row

def loadInvitationById (invitationId : Id) : Except AuthError InvitationRow :=
  match db.invitations.find? fun row => row.id = invitationId with
  | none => .error .invalidInvitation
  | some row => .ok row

/-- The membership is an active owner of the vault. -/
def ownerOf (membership : MembershipRow) (vaultId : Id) : Bool :=
  membership.status = .active ∧ membership.role = .owner ∧ membership.vaultId = vaultId

def requireOwnerMembership (membershipId vaultId : Id) : Except AuthError MembershipRow :=
  match db.memberships.find? fun row => row.id = membershipId with
  | none => .error .notAuthorized
  | some membership => if ownerOf membership vaultId then .ok membership else .error .notAuthorized

def requireInviterDevice (inviterDeviceId ownerUserId : Id) : Except AuthError Unit :=
  match db.devices.find? fun row => row.id = inviterDeviceId with
  | none => .error .notAuthorized
  | some device =>
    require (device.status = .approved ∧ device.userId = ownerUserId) .notAuthorized

end

def hashOptionalRejoinSecret (server : AuthServer) (value : Option (Option Token)) :
    Except AuthError (Option TokenHash) :=
  match value with
  | none => .ok none
  | some none => .error .invalidInput
  | some (some secret) => .ok (some (server.hashToken secret))

def burnInvitation (invitationId : Id) (now : Timestamp) : Auth Unit :=
  modify fun db =>
    { db with
      invitations := updateWhere (fun row => row.id = invitationId ∧ row.consumedAt = none)
        (fun row => { row with consumedAt := some now }) db.invitations }

def recordApprovalAttempts (invitationId : Id) (attempts : ℕ) : Auth Unit :=
  modify fun db =>
    { db with
      invitations := updateWhere (fun row => row.id = invitationId)
        (fun row => { row with approvalAttempts := attempts }) db.invitations }

def deletePendingUser (userId : Id) : Auth Unit := deleteUsers fun _ => [userId]

def consumeInvitation (invitationId : Id) (now : Timestamp) (userId deviceId : Id)
    (pendingCredentialHash refreshTokenHash : TokenHash) : Auth Unit :=
  let isHit : InvitationRow → Bool := fun row => row.id = invitationId ∧ row.consumedAt = none
  updateOne (fun db => db.invitations.countP isHit)
    (fun db =>
      { db with
        invitations := updateWhere isHit
          (fun row =>
            { row with
              consumedAt := some now
              consumedByUserId := some userId
              pendingDeviceId := some deviceId
              pendingCredentialHash := some pendingCredentialHash
              pendingRefreshTokenHash := some refreshTokenHash })
          db.invitations })
    .invitationAlreadyRedeemed

def approveDevice (deviceId : Id) (now : Timestamp) : Auth Unit :=
  let isHit : DeviceRow → Bool := fun row => row.id = deviceId ∧ row.status = .pending
  updateOne (fun db => db.devices.countP isHit)
    (fun db =>
      { db with
        devices := updateWhere isHit
          (fun row => { row with status := .approved, approvedAt := some now }) db.devices })
    .repositoryIntegrity

variable (server : AuthServer)

def createInTransaction (input : CreateInvitationInput) (secrets : InvitationSecrets)
    (intendedMemberDisplayName : JsString) (intendedMemberId : Id) (expiresAt : Timestamp) :
    Auth CreateInvitationResult := do
  let membership ← check
    (requireOwnerMembership (← get) input.createdByMembershipId input.vaultId)
  check (requireInviterDevice (← get) input.inviterDeviceId membership.userId)
  let invitationId ← newUuid server
  insertInvitation
    { id := invitationId
      vaultId := input.vaultId
      createdByMembershipId := input.createdByMembershipId
      inviterDeviceId := input.inviterDeviceId
      tokenHash := server.hashToken secrets.invitationToken
      verificationSecret := secrets.verificationPin
      intendedRole := input.intendedRole
      intendedKind := input.intendedKind
      expiresAt
      consumedAt := none
      consumedByUserId := none
      pendingDeviceId := none
      intendedMemberDisplayName := some intendedMemberDisplayName
      intendedMemberId := some intendedMemberId
      pendingCredentialHash := none
      pendingRefreshTokenHash := none
      approvalAttempts := 0 }
  return {
    invitationId
    invitationToken := secrets.invitationToken
    expiresAt
    intendedMemberId
    intendedMemberDisplayName }

def createInvitation (input : CreateInvitationInput) (secrets : InvitationSecrets)
    (now : Option Timestamp) : Auth CreateInvitationResult := do
  let intendedMemberDisplayName ← check
    (requireDisplayName (input.intendedMemberDisplayName.getD defaultIntendedMemberName))
  let now ← check (readClock now .invalidInput)
  let expiresAt ← check (addSeconds now invitationTtlSeconds .invalidInput)
  let intendedMemberId ← newUuid server
  transaction (createInTransaction server input secrets intendedMemberDisplayName intendedMemberId
    expiresAt)

/-- Whether the device is still pending is not looked at. -/
def rejectPendingDevice (input : RejectPendingDeviceInput) : Auth Unit :=
  transaction do
    let invitation ← check (loadInvitationById (← get) input.invitationId)
    let _ ← check (requireOwnerMembership (← get) input.approverMembershipId invitation.vaultId)
    match invitation.pendingDeviceId, invitation.consumedByUserId with
    | some _, some userId => deletePendingUser userId
    | _, _ => throw .noPendingDevice

/-- The branch of an invitation that is neither consumed nor expired. -/
def redeemLive (invitation : InvitationRow) (refreshTokenHash pendingCredentialHash : TokenHash)
    (rejoinSecretHash : Option TokenHash) (now : Timestamp) : Auth RedeemOutcome :=
  match invitation.intendedMemberId, invitation.intendedMemberDisplayName with
  | some userId, some displayName => do
    let deviceId ← newUuid server
    insertUser { id := userId, displayName, isInstanceOwner := false, status := .active }
    insertDevice
      { id := deviceId
        userId
        status := .pending
        approvedAt := none
        revokedAt := none
        rejoinSecretHash
        vaultId := some invitation.vaultId }
    consumeInvitation invitation.id now userId deviceId pendingCredentialHash refreshTokenHash
    return .ok deviceId invitation.verificationSecret
  | _, _ => throw .repositoryIntegrity

/-- An expired invitation is burned; the error is thrown after the commit. -/
def redeemInvitationForOnboarding (input : RedeemForOnboardingInput) (pendingCredential : Token)
    (now : Option Timestamp) : Auth RedeemForOnboardingResult := do
  match input.invitationToken, input.initialRefreshToken with
  | some invitationToken, some initialRefreshToken =>
    let _ ← check (requireDisplayName input.deviceLabel)
    let rejoinSecretHash ← check (hashOptionalRejoinSecret server input.rejoinSecret)
    let now ← check (readClock now .invalidInput)
    let outcome ← transaction do
      let invitation ← check (loadInvitationByHash (← get) (server.hashToken invitationToken))
      check (require (invitation.consumedAt = none) .invitationAlreadyRedeemed)
      if invitation.expiresAt ≤ now then
        burnInvitation invitation.id now
        return .expired
      else
        redeemLive server invitation (server.hashToken initialRefreshToken)
          (server.hashToken pendingCredential) rejoinSecretHash now
    match outcome with
    | .expired => throw .invitationExpired
    | .ok pendingDeviceId verificationPhrase =>
      return { pendingCredential, pendingDeviceId, verificationPhrase }
  | _, _ => throw .invalidInput

/-- The branch of a matching code. -/
def admitDevice (invitation : InvitationRow) (deviceId userId : Id) (refreshTokenHash : TokenHash)
    (now : Timestamp) (sessionNow : Option Timestamp) : Auth RedeemedApproveOutcome := do
  recordApprovalAttempts invitation.id 0
  approveDevice deviceId now
  let membershipId ← newUuid server
  insertMembership
    { id := membershipId
      vaultId := invitation.vaultId
      userId
      role := invitation.intendedRole
      status := .active
      createdAt := now
      revokedAt := none
      kind := invitation.intendedKind }
  let family ← createInitialFamilyFromHashInCurrentTransaction server userId deviceId
    (some refreshTokenHash) server.refreshTokenTtlSeconds sessionNow
  return .ok { deviceId, familyId := family.familyId, membershipId, userId }

/-- The branch of a wrong code. -/
def countMismatch (invitation : InvitationRow) (userId : Id) : Auth RedeemedApproveOutcome := do
  let attempts := invitation.approvalAttempts + 1
  if attempts ≥ maxApprovalAttempts then
    recordApprovalAttempts invitation.id attempts
    deletePendingUser userId
    return .locked
  else
    recordApprovalAttempts invitation.id attempts
    return .mismatch (maxApprovalAttempts - attempts)

/-- The device, user and token hash an approval is about. -/
structure PendingApproval where
  deviceId : Id
  userId : Id
  refreshTokenHash : TokenHash
  deriving DecidableEq

/-- The pending device of the invitation, as long as it can be approved. -/
def requirePendingDevice (db : AuthDatabase) (invitation : InvitationRow) (now : Timestamp) :
    Except AuthError PendingApproval :=
  match invitation.pendingDeviceId, invitation.consumedByUserId,
    invitation.pendingRefreshTokenHash with
  | some deviceId, some userId, some refreshTokenHash => do
    match invitation.consumedAt with
    | none => .error .noPendingDevice
    | some consumedAt =>
      require (now < consumedAt + pendingApprovalTtlSeconds * 1000) .noPendingDevice
    match db.devices.find? fun row => row.id = deviceId with
    | none => .error .noPendingDevice
    | some device => require (device.status = .pending) .noPendingDevice
    return { deviceId, userId, refreshTokenHash }
  | _, _, _ => .error .noPendingDevice

/-- The transaction of an approval. -/
def approveInTransaction (invitationId approverMembershipId : Id) (suppliedPhrase : ℕ)
    (now : Timestamp) (sessionNow : Option Timestamp) : Auth RedeemedApproveOutcome := do
  let invitation ← check (loadInvitationById (← get) invitationId)
  let _ ← check (requireOwnerMembership (← get) approverMembershipId invitation.vaultId)
  let pending ← check (requirePendingDevice (← get) invitation now)
  if suppliedPhrase ≠ invitation.verificationSecret then countMismatch invitation pending.userId
  else
    admitDevice server invitation pending.deviceId pending.userId pending.refreshTokenHash now sessionNow

/-- A counted attempt stays counted: the errors are thrown after the commit. -/
def approveRedeemedDevice (input : ApproveRedeemedDeviceInput)
    (now sessionNow : Option Timestamp) : Auth ApproveRedeemedDeviceResult := do
  match input.verificationPhrase with
  | none => throw .invalidInput
  | some suppliedPhrase =>
    let now ← check (readClock now .invalidInput)
    let outcome ← transaction (approveInTransaction server input.invitationId
      input.approverMembershipId suppliedPhrase now sessionNow)
    match outcome with
    | .mismatch attemptsRemaining => throw (.phraseMismatch attemptsRemaining)
    | .locked => throw .approvalLocked
    | .ok result => return result

end Havemind.Invitations
