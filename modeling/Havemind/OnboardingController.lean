import Havemind.AwaitCode
import Havemind.InviteFormat

/-!
The client's onboarding: an invitation is reviewed, redeemed and polled until it
is approved. The state is stored in the plugin's data, behind a cache, the four
secrets each in a store of their own, and every read and write of them is an
await. A call to the server is one as well: it is not made when it throws, and it
is answered, or its answer is lost.
-/
namespace Havemind.OnboardingController

open AwaitCode InviteFormat JsText JsonText OnboardingValues

structure InvitationRedemptionRequest where
  deviceLabel : JsString
  initialRefreshToken : JsString
  invitationToken : JsString
  redemptionId : JsString
  rejoinSecret : JsString
  url : JsString
  deriving DecidableEq

inductive RemoteCall
  | discover (url : JsString)
  | reviewInvitation (invitationToken url : JsString)
  | redeemInvitation (request : InvitationRedemptionRequest)
  | pollApproval (pendingCredential url : JsString)
  deriving DecidableEq

inductive OnboardingCall
  | persistLoad
  | persistSave (state : Option JsValue)
  | getInvitationEnvelope
  | saveInvitationEnvelope (value : JsString)
  | clearInvitationEnvelope
  | getPendingCredential
  | savePendingCredential (value : JsString)
  | clearPendingCredential
  | getRefreshToken
  | saveRefreshToken (value : JsString)
  | getRejoinSecret
  | saveRejoinSecret (value : JsString)
  | remote (call : RemoteCall)

def OnboardingCall.Answer : OnboardingCall → Type
  | .persistLoad => Option JsValue
  | .getInvitationEnvelope | .getPendingCredential | .getRefreshToken | .getRejoinSecret =>
      Option JsString
  | .remote _ => Option RemoteResponse
  | _ => Unit

inductive Failure
  | onboarding (code : OnboardingErrorCode)
  | inviteFormat
  | other
  deriving DecidableEq

structure ActiveInvitation where
  canonicalEnvelope : JsString
  parsed : InviteEnvelope
  deriving DecidableEq

inductive OnboardingViewState
  | idle
  | originReview (serverOrigin : JsString)
  | rejected
  | invitationReview (metadata : ConnectionMetadata)
  | durable (state : DurableOnboardingState)
  deriving DecidableEq

/-- What a controller holds; `cache` is its store's. -/
structure Memory where
  activeInvitation : Option ActiveInvitation := none
  currentState : OnboardingViewState := .idle
  cache : Option (Option JsValue) := none

def onboarding : Signature := ⟨Memory, OnboardingCall, OnboardingCall.Answer, Failure⟩

abbrev Onboarding := Code onboarding

/-- What a call is given from outside: the platform's readers, the clock, and the
values the generators return. -/
structure OnboardingOptions where
  formats : Formats
  now : ℤ
  redemptionId : JsString
  initialRefreshToken : JsString
  rejoinSecret : JsString
  mintedRejoinSecret : JsString

def readMemory : Onboarding Memory := Code.memory

def setCurrentState (state : OnboardingViewState) : Onboarding Unit := do
  let memory ← readMemory
  Code.setMemory { memory with currentState := state }

def setActiveInvitation (invitation : Option ActiveInvitation) : Onboarding Unit := do
  let memory ← readMemory
  Code.setMemory { memory with activeInvitation := invitation }

def setCache (state : Option JsValue) : Onboarding Unit := do
  let memory ← readMemory
  Code.setMemory { memory with cache := some state }

def fail {α : Type} (code : OnboardingErrorCode) : Onboarding α := Code.throw (.onboarding code)

/-- Whatever the call throws, the code is thrown. -/
def callOr (c : OnboardingCall) (code : OnboardingErrorCode) : Onboarding c.Answer := do
  match ← Code.attempt (S := onboarding) c with
  | .ok answer => return answer
  | .error _ => fail code

def readSecret (c : OnboardingCall) : Onboarding c.Answer := callOr c .credentialStorageFailed

def writeSecret (c : OnboardingCall) : Onboarding c.Answer := callOr c .credentialStorageFailed

def clearSecretBestEffort (c : OnboardingCall) : Onboarding Unit := do
  let _ ← Code.attempt (S := onboarding) c
  return ()

def callRemote (call : RemoteCall) : Onboarding RemoteResponse := do
  match ← Code.attempt (S := onboarding) (OnboardingCall.remote call) with
  | .ok (some response) => return response
  | .error (.onboarding code) => fail code
  | _ => fail .remoteFailed

def orFail {α : Type} (result : Except OnboardingErrorCode α) : Onboarding α :=
  match result with
  | .ok value => return value
  | .error code => fail code

def loadState : Onboarding (Option JsValue) := do
  let memory ← readMemory
  match memory.cache with
  | some state => return state
  | none => do
      let raw ← callOr .persistLoad .storageFailed
      let state := Option.filter JsValue.isRecord raw
      setCache state
      return state

/-- The cache has the state before it is stored. -/
def mutate (state : Option JsValue) : Onboarding Unit := do
  setCache state
  let _ ← callOr .persistLoad .storageFailed
  callOr (.persistSave state) .storageFailed

def saveState (state : DurableOnboardingState) : Onboarding Unit := mutate (some state.toValue)

def clearState : Onboarding Unit := mutate none

section
variable (options : OnboardingOptions)

def beginFromPastedEnvelope (canonicalEnvelope : JsString) : Onboarding OnboardingViewState := do
  match parseInviteEnvelope options.formats canonicalEnvelope with
  | none => Code.throw .inviteFormat
  | some parsed => do
      setActiveInvitation (some { canonicalEnvelope, parsed })
      setCurrentState (.originReview parsed.serverOrigin)
      return .originReview parsed.serverOrigin

/-- The invitation whose origin is under review. -/
def underReview (memory : Memory) : Option InviteEnvelope :=
  match memory.currentState with
  | .originReview serverOrigin =>
      (memory.activeInvitation.map ActiveInvitation.parsed).filter fun invitation =>
        invitation.serverOrigin = serverOrigin
  | _ => none

def hasExpired (expiresAt : JsString) : Bool :=
  (options.formats.parseDate expiresAt).any fun timestamp => timestamp ≤ options.now

def loadInvitationReview : Onboarding OnboardingViewState := do
  let memory ← readMemory
  match underReview memory with
  | none => fail .reviewRequired
  | some invitation => do
      let discoveryUrl := invitation.serverOrigin ++ ascii "/.well-known/havemind"
      let discoveryResponse ← callRemote (.discover discoveryUrl)
      let discovery ← orFail (parseDiscoveryResponse options.formats discoveryResponse discoveryUrl
        invitation.serverOrigin)
      let reviewUrl := discovery.apiBaseUrl ++ ascii "/invitations/review"
      let reviewResponse ← callRemote (.reviewInvitation invitation.invitationToken reviewUrl)
      let review ← orFail (parseInvitationReviewResponse options.formats reviewResponse reviewUrl)
      if hasExpired options review.expiresAt then fail .invitationExpired
      else do
        let metadata : ConnectionMetadata :=
          { apiBaseUrl := discovery.apiBaseUrl
            expiresAt := review.expiresAt
            intendedMemberDisplayName := review.intendedMemberDisplayName
            inviterDisplayName := review.inviterDisplayName
            memberId := review.memberId
            protocolVersion := discovery.protocolVersion
            serverName := discovery.serverName
            serverOrigin := invitation.serverOrigin
            vaultId := review.vaultId
            vaultName := review.vaultName }
        setCurrentState (.invitationReview metadata)
        return .invitationReview metadata

/-- A secret that is stored and well formed. -/
def storedToken (start : JsString) (token : Option JsString) : Option JsString :=
  token.filter fun token => isCanonicalToken token start

def requireRefreshToken : Onboarding JsString := do
  let refreshToken ← readSecret .getRefreshToken
  match storedToken refreshPrefix refreshToken with
  | none => fail .missingCredential
  | some token => return token

/-- Mints the secret when none is stored. -/
def requireRejoinSecret : Onboarding JsString := do
  let existing ← readSecret .getRejoinSecret
  match (existing : Option JsString) with
  | some secret =>
      if isCanonicalToken secret rejoinPrefix then return secret else fail .missingCredential
  | none =>
      if isCanonicalToken options.mintedRejoinSecret rejoinPrefix then do
        writeSecret (.saveRejoinSecret options.mintedRejoinSecret)
        return options.mintedRejoinSecret
      else fail .invalidGeneratedCredential

def redeem (state : RedeemingState) (invitation : InviteEnvelope) :
    Onboarding OnboardingViewState := do
  let initialRefreshToken ← requireRefreshToken
  let rejoinSecret ← requireRejoinSecret options
  let url := state.apiBaseUrl ++ ascii "/invitations/redeem"
  let response ← callRemote (.redeemInvitation
    { deviceLabel := state.deviceLabel
      initialRefreshToken
      invitationToken := invitation.invitationToken
      redemptionId := state.redemptionId
      rejoinSecret
      url })
  let pending ← orFail (parsePendingRedemptionResponse response url)
  writeSecret (.savePendingCredential pending.pendingCredential)
  let pendingState : DurableOnboardingState := .pendingApproval
    { state with
      pendingDeviceId := pending.pendingDeviceId
      verificationPhrase := pending.verificationPhrase }
  saveState pendingState
  setCurrentState (.durable pendingState)
  clearSecretBestEffort .clearInvitationEnvelope
  setActiveInvitation none
  return .durable pendingState

def confirmInvitation (deviceLabel : JsString) : Onboarding OnboardingViewState := do
  let memory ← readMemory
  match memory.currentState, memory.activeInvitation with
  | .invitationReview metadata, some invitation =>
      if isCanonicalDisplayText deviceLabel 80 = false then fail .invalidDeviceLabel
      else if hasExpired options metadata.expiresAt then fail .invitationExpired
      else if isCanonicalUuid options.redemptionId = false ∨
          isCanonicalToken options.initialRefreshToken refreshPrefix = false ∨
          isCanonicalToken options.rejoinSecret rejoinPrefix = false then
        fail .invalidGeneratedCredential
      else do
        writeSecret (.saveRefreshToken options.initialRefreshToken)
        writeSecret (.saveRejoinSecret options.rejoinSecret)
        writeSecret (.saveInvitationEnvelope invitation.canonicalEnvelope)
        let redeeming : RedeemingState :=
          { metadata with deviceLabel, redemptionId := options.redemptionId }
        saveState (.redeeming redeeming)
        setCurrentState (.durable (.redeeming redeeming))
        redeem options redeeming invitation.parsed
  | _, _ => fail .reviewRequired

def resumeRedemption (state : RedeemingState) : Onboarding OnboardingViewState := do
  let canonicalEnvelope ← readSecret .getInvitationEnvelope
  match (canonicalEnvelope : Option JsString) with
  | none => fail .missingCredential
  | some canonicalEnvelope =>
      match parseInviteEnvelope options.formats canonicalEnvelope with
      | none => fail .missingCredential
      | some invitation =>
          if invitation.serverOrigin ≠ state.serverOrigin then fail .invalidState
          else do
            setActiveInvitation (some { canonicalEnvelope, parsed := invitation })
            redeem options state invitation

def connect (connected : ConnectedState) : Onboarding OnboardingViewState := do
  let _ ← requireRefreshToken
  saveState (.connected connected)
  setCurrentState (.durable (.connected connected))
  clearSecretBestEffort .clearPendingCredential
  return .durable (.connected connected)

/-- The pending credential goes first, then the state that needs it. -/
def leaveRejected : Onboarding OnboardingViewState := do
  clearSecretBestEffort .clearPendingCredential
  clearState
  setCurrentState .rejected
  return .rejected

def pollApproval (state : PendingApprovalState) : Onboarding OnboardingViewState := do
  let _ ← requireRefreshToken
  let pendingCredential ← readSecret .getPendingCredential
  match storedToken pendingPrefix pendingCredential with
  | none => fail .missingCredential
  | some credential => do
      let url := state.apiBaseUrl ++ ascii "/devices/" ++ state.pendingDeviceId ++
        ascii "/approval"
      let response ← callRemote (.pollApproval credential url)
      match ← orFail (parseApprovalResponse response url) with
      | .pending => return .durable (.pendingApproval state)
      | .rejected => leaveRejected
      | .approved deviceId membershipId =>
          connect { state with memberId := membershipId, deviceId, downloadedItems := 0 }

/-- What a stored state goes on with. -/
def resumeDurable : DurableOnboardingState → Onboarding OnboardingViewState
  | .redeeming state => resumeRedemption options state
  | .pendingApproval state => pollApproval state
  | .connected state => do
      let _ ← requireRefreshToken
      return .durable (.connected state)

/-- A retired phase reads as connected, and is stored so. -/
def resumeStored (stored : JsValue) : Onboarding OnboardingViewState :=
  match parseDurableState options.formats stored with
  | none => fail .invalidState
  | some durable =>
      match durable with
      | .connected state =>
          if isText connectedPhase (stored.get .phase) then do
            setCurrentState (.durable durable)
            resumeDurable options durable
          else connect state
      | _ => do
          setCurrentState (.durable durable)
          resumeDurable options durable

def resume : Onboarding OnboardingViewState := do
  match ← loadState with
  | none => do
      let envelope ← readSecret .getInvitationEnvelope
      match (envelope : Option JsString) with
      | some envelope => beginFromPastedEnvelope options envelope
      | none => do
          setCurrentState .idle
          return .idle
  | some stored => resumeStored options stored

end

variable {S : Type}

/-- A call the server answered or whose answer was lost. -/
structure Exchange where
  call : RemoteCall
  answer : Option RemoteResponse

/-- What outlasts a controller, and the server. `exchanges` is a history variable:
the calls the server has processed. -/
structure Platform (S : Type) where
  stored : Option JsValue
  invitationEnvelope : Option JsString
  pendingCredential : Option JsString
  refreshToken : Option JsString
  rejoinSecret : Option JsString
  server : S
  exchanges : List Exchange

/-- The platform after the server has processed a call. -/
def Platform.exchanged (w : Platform S) (call : RemoteCall) (answer : Option RemoteResponse)
    (server : S) : Platform S :=
  { w with server, exchanges := w.exchanges ++ [{ call, answer }] }

/-- An empty secret reads as none. -/
def secretOf (value : JsString) : Option JsString := if value = [] then none else some value

/-- The platform answers at once; the server as `serve` says. -/
def respond (serve : RemoteCall → S → Option RemoteResponse × S) :
    (call : OnboardingCall) → Platform S → call.Answer × Platform S
  | .persistLoad, w => (w.stored, w)
  | .persistSave state, w => ((), { w with stored := state })
  | .getInvitationEnvelope, w => (w.invitationEnvelope, w)
  | .saveInvitationEnvelope value, w => ((), { w with invitationEnvelope := secretOf value })
  | .clearInvitationEnvelope, w => ((), { w with invitationEnvelope := none })
  | .getPendingCredential, w => (w.pendingCredential, w)
  | .savePendingCredential value, w => ((), { w with pendingCredential := secretOf value })
  | .clearPendingCredential, w => ((), { w with pendingCredential := none })
  | .getRefreshToken, w => (w.refreshToken, w)
  | .saveRefreshToken value, w => ((), { w with refreshToken := secretOf value })
  | .getRejoinSecret, w => (w.rejoinSecret, w)
  | .saveRejoinSecret value, w => ((), { w with rejoinSecret := secretOf value })
  | .remote call, w =>
      let (answer, server) := serve call w.server
      (answer, w.exchanged call answer server)

end Havemind.OnboardingController
