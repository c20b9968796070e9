import Havemind.Endings
import Havemind.Invitations
import Mathlib.Data.List.Sort

/-!
Agents an owner enrolls by name and the agents service claims. A claim runs the
server's own steps in one transaction: it invites as the enrolling owner, redeems
with the service's refresh token and approves with the code the redemption
returned. A refusal no retry can fix drops the enrollment, and the claim goes on
to the next one.
-/
namespace Havemind.AgentEnrollment

open JsText RevisionSchema Transaction Endings KeyedTable AuthTables Invitations
open ServerDatabase (AccountStatus)

structure EnrollInput where
  vaultId : Id
  ownerMembershipId : Id
  ownerDeviceId : Id
  name : JsString
  deriving DecidableEq

structure ClaimInput where
  initialRefreshToken : Option Token
  redemptionId : Id
  deriving DecidableEq

structure ClaimedAgent where
  vaultId : Id
  vaultName : JsString
  membershipId : Id
  deviceId : Id
  name : JsString
  deriving DecidableEq

/-- What one attempt draws: the generated secrets and the readings of the clock. -/
structure ClaimAttempt where
  secrets : InvitationSecrets
  pendingCredential : Token
  completeNow : Option Timestamp
  createNow : Option Timestamp
  redeemNow : Option Timestamp
  approveNow : Option Timestamp
  sessionNow : Option Timestamp
  deriving DecidableEq

/-- Refusals that no retry can fix. -/
def neverSucceeds (e : AuthError) : Bool :=
  e = .invalidInvitation ∨ e = .noPendingDevice ∨ e = .notAuthorized

/-- The text ` (agent)`. -/
def agentSuffix : JsString := [0x20, 0x28, 0x61, 0x67, 0x65, 0x6E, 0x74, 0x29]

def waiting (row : AgentEnrollmentRow) : Bool := row.claimedAt = none ∧ row.droppedAt = none

def olderEnrollment (a b : AgentEnrollmentRow) : Prop :=
  textBefore a.createdAt b.createdAt = true ∨ a.createdAt = b.createdAt ∧ a.id ≤ b.id

instance : DecidableRel olderEnrollment := fun a b => by
  unfold olderEnrollment
  infer_instance

section
variable (db : AuthDatabase)

def nameTaken (vaultId : Id) (name : JsString) : Bool :=
  (db.memberships.any fun membership =>
    membership.vaultId = vaultId ∧ membership.status = .active ∧
      db.users.any fun user =>
        user.id = membership.userId ∧ lower user.displayName = lower name) ||
  db.agentEnrollments.any fun row =>
    row.vaultId = vaultId ∧ waiting row ∧ lower row.displayName = lower name

def nextEnrollment : Option AgentEnrollmentRow :=
  ((db.agentEnrollments.filter waiting).insertionSort olderEnrollment).head?

def vaultName (vaultId : Id) : Option JsString :=
  (db.vaults.find? fun row => row.id = vaultId).map VaultRow.displayName

/-- The agent an earlier claim with this id completed. -/
def findClaimed (redemptionId : Id) : Option ClaimedAgent := do
  let row ← db.agentEnrollments.find? fun row => row.redemptionId = some redemptionId
  let vaultName ← vaultName db row.vaultId
  let membershipId ← row.membershipId
  let deviceId ← row.deviceId
  return { vaultId := row.vaultId, vaultName, membershipId, deviceId, name := row.displayName }

end

def dropEnrollment (id : Id) (now : Timestamp) : Auth Unit :=
  modify fun db =>
    { db with
      agentEnrollments := updateWhere (fun row => row.id = id)
        (fun row => { row with droppedAt := some now }) db.agentEnrollments }

def recordClaim (id : Id) (redemptionId membershipId deviceId : Id) (now : Timestamp) : Auth Unit :=
  guardedWrite .sqliteConstraint
    (fun db => ∀ row ∈ db.agentEnrollments, row.id ≠ id → row.redemptionId ≠ some redemptionId)
    fun db =>
      { db with
        agentEnrollments := updateWhere (fun row => row.id = id)
          (fun row =>
            { row with
              claimedAt := some now
              redemptionId := some redemptionId
              membershipId := some membershipId
              deviceId := some deviceId })
          db.agentEnrollments }

variable (server : AuthServer)

def enroll (input : EnrollInput) (now : Option Timestamp) : Auth Id :=
  transaction do
    let name := trim input.name
    check (require (nameTaken (← get) input.vaultId name = false) .agentNameTaken)
    let id ← newUuid server
    let now ← check (readClock now .rangeError)
    insertAgentEnrollment
      { id
        vaultId := input.vaultId
        createdByMembershipId := input.ownerMembershipId
        inviterDeviceId := input.ownerDeviceId
        displayName := name
        createdAt := now
        claimedAt := none
        redemptionId := none
        membershipId := none
        deviceId := none
        droppedAt := none }
    return id

/-- Invite, redeem and approve as the enrolling owner. -/
def admitAgent (row : AgentEnrollmentRow) (input : ClaimInput) (attempt : ClaimAttempt) :
    Auth ApproveRedeemedDeviceResult := do
  let invitation ← createInvitation server
    { vaultId := row.vaultId
      createdByMembershipId := row.createdByMembershipId
      inviterDeviceId := row.inviterDeviceId
      intendedKind := .agent
      intendedMemberDisplayName := some row.displayName }
    attempt.secrets attempt.createNow
  let redeemed ← redeemInvitationForOnboarding server
    { invitationToken := some invitation.invitationToken
      deviceLabel := row.displayName ++ agentSuffix
      initialRefreshToken := input.initialRefreshToken
      rejoinSecret := none }
    attempt.pendingCredential attempt.redeemNow
  approveRedeemedDevice server
    { invitationId := invitation.invitationId
      approverMembershipId := row.createdByMembershipId
      verificationPhrase := some redeemed.verificationPhrase }
    attempt.approveNow attempt.sessionNow

/-- `none` when the enrollment was dropped. -/
def complete (row : AgentEnrollmentRow) (input : ClaimInput) (attempt : ClaimAttempt) :
    Auth (Option ClaimedAgent) := do
  let now ← check (readClock attempt.completeNow .rangeError)
  let result ← catching (some <$> admitAgent server row input attempt) fun e =>
    if neverSucceeds e then do
      dropEnrollment row.id now
      return none
    else throw e
  match result with
  | none => return none
  | some result =>
    recordClaim row.id input.redemptionId result.membershipId result.deviceId now
    match vaultName (← get) row.vaultId with
    | none => throw .typeError
    | some vaultName =>
      return some
        { vaultId := row.vaultId
          vaultName
          membershipId := result.membershipId
          deviceId := result.deviceId
          name := row.displayName }

/-- Goes on until an enrollment is claimed or none waits; every round that claims
none drops one, so there are no more rounds than waiting enrollments. -/
def claimWaiting (input : ClaimInput) (attempts : ℕ → ClaimAttempt) :
    ℕ → Auth (Option ClaimedAgent)
  | 0 => return none
  | rounds + 1 => do
    match nextEnrollment (← get) with
    | none => return none
    | some row =>
      match ← complete server row input (attempts rounds) with
      | some claimed => return some claimed
      | none => claimWaiting input attempts rounds

def claim (input : ClaimInput) (attempts : ℕ → ClaimAttempt) : Auth (Option ClaimedAgent) :=
  transaction do
    let db ← get
    match findClaimed db input.redemptionId with
    | some claimed => return some claimed
    | none => claimWaiting server input attempts (db.agentEnrollments.countP waiting)

end Havemind.AgentEnrollment
