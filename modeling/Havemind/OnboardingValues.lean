import Mathlib.Algebra.Ring.Rat
import Havemind.Base64
import Havemind.JsonText

/-!
The values of the onboarding: what the server's answers and the stored state are
read from, the checks each part passes, and the states that are stored. URLs and
dates are read by the platform. Whatever passed the checks of an answer passes
those of the stored state.
-/
namespace Havemind.OnboardingValues

open Base64 JsText JsonText Option

def hyphen : CodeUnit := 45

def isLowercase (unit : CodeUnit) : Bool := 97 ≤ unit.toNat ∧ unit.toNat ≤ 122

def isHexUnit (unit : CodeUnit) : Bool := isDigit unit ∨ 97 ≤ unit.toNat ∧ unit.toNat ≤ 102

def isTokenUnit (unit : CodeUnit) : Bool :=
  isDigit unit ∨ isLowercase unit ∨ 65 ≤ unit.toNat ∧ unit.toNat ≤ 90 ∨ unit = 95 ∨ unit = hyphen

/-- A pair of surrogates is no control character, so units are looked at. -/
def hasControlCharacter (text : JsString) : Bool :=
  text.any fun unit => unit.toNat ≤ 0x1F ∨ unit = 0x7F

def isCanonicalDisplayText (text : JsString) (maxLength : ℕ) : Bool :=
  1 ≤ text.length ∧ text.length ≤ maxLength ∧ text = trim text ∧ hasControlCharacter text = false

/-- Eight, four, four, four and twelve hexadecimal digits, with a version and a
variant among them. -/
def isCanonicalUuid (text : JsString) : Bool :=
  match text.splitOn hyphen with
  | [timeLow, timeMid, timeHigh, clock, node] =>
      timeLow.length = 8 ∧ timeMid.length = 4 ∧ timeHigh.length = 4 ∧ clock.length = 4 ∧
        node.length = 12 ∧ (timeLow ++ timeMid ++ timeHigh ++ clock ++ node).all isHexUnit ∧
        timeHigh.head?.any (fun unit => 49 ≤ unit.toNat ∧ unit.toNat ≤ 56) ∧
        clock.head?.any (fun unit => unit ∈ [56, 57, 97, 98])
  | _ => false

def isVerificationPin (text : JsString) : Bool := text.length = 6 ∧ text.all isDigit

def isSafeIdentifier (text : JsString) : Bool :=
  1 ≤ text.length ∧ text.length ≤ 256 ∧ text.all isTokenUnit

/-- Words joined by hyphens, the first with a letter in front, and a version. -/
def isCapability (text : JsString) : Bool :=
  let words := text.splitOn hyphen
  let isWord (word : JsString) : Bool :=
    word ≠ [] ∧ word.all fun unit => isLowercase unit ∨ isDigit unit
  2 ≤ words.length ∧ words.head?.any (fun word => word.head?.any isLowercase) ∧
    words.dropLast.all isWord ∧
    words.getLast?.any fun version =>
      version.head? = some 118 ∧ version.tail.all isDigit ∧
        version.tail.head?.any fun unit => unit ≠ 48

def encodeBase64Url (bytes : List Byte) : JsString :=
  ((btoa bytes).filter fun unit => unit ≠ padding).map fun unit =>
    if unit = 43 then hyphen else if unit = 47 then 95 else unit

/-- `atob` of the text in the other alphabet; it adds the padding it needs. -/
def decodeBase64Url (text : JsString) : Option (List Byte) :=
  atob (text.map fun unit => if unit = hyphen then 43 else if unit = 95 then 47 else unit)

def isTokenPayload (payload : JsString) : Bool :=
  payload.length = 43 ∧ payload.all isTokenUnit ∧
    (decodeBase64Url payload).any fun bytes =>
      bytes.length = 32 ∧ encodeBase64Url bytes = payload

def isCanonicalToken (text start : JsString) : Bool :=
  start.isPrefixOf text ∧ isTokenPayload (text.drop start.length)

def refreshPrefix : JsString := ascii "hm_rt_"
def rejoinPrefix : JsString := ascii "hm_rj_"
def pendingPrefix : JsString := ascii "hm_pd_"
def invitationPrefix : JsString := ascii "hm_it_"

section

structure ParsedUrl where
  protocol : JsString
  username : JsString
  password : JsString
  pathname : JsString
  search : JsString
  hash : JsString
  origin : JsString
  href : JsString

/-- The platform's readers: `new URL`, `Date.parse` where it is finite, and
`toISOString`. -/
structure Formats where
  parseUrl : JsString → Option ParsedUrl
  parseDate : JsString → Option ℤ
  toIsoString : ℤ → JsString

variable (formats : Formats)

def https : JsString := ascii "https:"

def slash : JsString := ascii "/"

def isCanonicalHttpsOrigin (value : JsString) : Bool :=
  (formats.parseUrl value).any fun url =>
    url.protocol = https ∧ url.username = [] ∧ url.password = [] ∧ url.pathname = slash ∧
      url.search = [] ∧ url.hash = [] ∧ url.origin = value

def isApiBaseForOrigin (value origin : JsString) : Bool :=
  (formats.parseUrl value).any fun url =>
    url.protocol = https ∧ url.origin = origin ∧ url.username = [] ∧ url.password = [] ∧
      url.search = [] ∧ url.hash = [] ∧
      value = (if url.pathname = slash then url.origin else url.href) ∧
      (url.pathname = slash ∨ slash.isSuffixOf url.pathname = false)

def isCanonicalIsoTimestamp (value : JsString) : Bool :=
  (formats.parseDate value).any fun timestamp => formats.toIsoString timestamp = value

end

/-- The properties the onboarding reads or writes, and any further one. -/
inductive Key
  | apiBaseUrl
  | authMethods
  | bootstrapCursor
  | capabilities
  | deviceId
  | deviceLabel
  | downloadedItems
  | expiresAt
  | intendedMemberDisplayName
  | inviterDisplayName
  | major
  | maxMinor
  | memberId
  | membershipId
  | minMinor
  | minor
  | name
  | pendingCredential
  | pendingDeviceId
  | phase
  | protocol
  | protocolVersion
  | redemptionId
  | serverName
  | serverOrigin
  | service
  | status
  | vaultId
  | vaultName
  | verificationPhrase
  | version
  | other (text : JsString)
  deriving DecidableEq

/-- A value of the runtime that came from JSON. -/
inductive JsValue
  | null
  | bool (value : Bool)
  | number (value : ℚ)
  | string (value : JsString)
  | array (items : List JsValue)
  | object (members : List (Key × JsValue))

def JsValue.isRecord : JsValue → Bool
  | .object _ => true
  | _ => false

def JsValue.get (key : Key) : JsValue → Option JsValue
  | .object members => (members.find? fun member => member.1 = key).map Prod.snd
  | _ => none

def JsValue.size : JsValue → ℕ
  | .object members => members.length
  | _ => 0

def hasExactKeys (value : JsValue) (keys : List Key) : Bool :=
  value.isRecord ∧ value.size = keys.length ∧ keys.all fun key => (value.get key).isSome

/-- A string that passes a check. -/
def textWhere (accepts : JsString → Bool) : Option JsValue → Option JsString
  | some (.string text) => if accepts text then some text else none
  | _ => none

def isText (text : JsString) : Option JsValue → Bool
  | some (.string other) => other = text
  | _ => false

def maxSafeInteger : ℕ := 2 ^ 53 - 1

/-- A safe integer that is not negative. -/
def nonnegativeInteger : Option JsValue → Option ℕ
  | some (.number value) =>
      if value.den = 1 ∧ 0 ≤ value.num ∧ value.num ≤ maxSafeInteger then some value.num.toNat
      else none
  | _ => none

def isNumber (value : ℚ) : Option JsValue → Bool
  | some (.number other) => other = value
  | _ => false

theorem textWhere_accepts {accepts : JsString → Bool} {value : Option JsValue} {text : JsString}
    (h : textWhere accepts value = some text) : accepts text = true := by
  unfold textWhere at h
  split at h
  · split at h
    · rename_i haccepts
      cases h
      exact haccepts
    · cases h
  · cases h

inductive OnboardingErrorCode
  | credentialStorageFailed
  | incompatibleProtocol
  | invalidDeviceLabel
  | invalidGeneratedCredential
  | invalidResponse
  | invalidState
  | invitationExpired
  | missingCredential
  | originMismatch
  | redirectRefused
  | remoteFailed
  | reviewRequired
  | storageFailed
  deriving DecidableEq

structure ProtocolVersion where
  major : ℕ
  minor : ℕ
  deriving DecidableEq

structure ConnectionMetadata where
  apiBaseUrl : JsString
  expiresAt : JsString
  intendedMemberDisplayName : JsString
  inviterDisplayName : JsString
  memberId : JsString
  protocolVersion : ProtocolVersion
  serverName : JsString
  serverOrigin : JsString
  vaultId : JsString
  vaultName : JsString
  deriving DecidableEq

structure RedeemingState extends ConnectionMetadata where
  deviceLabel : JsString
  redemptionId : JsString
  deriving DecidableEq

structure PendingApprovalState extends ConnectionMetadata where
  pendingDeviceId : JsString
  verificationPhrase : JsString
  deriving DecidableEq

structure ConnectedState extends ConnectionMetadata where
  deviceId : JsString
  downloadedItems : ℕ
  deriving DecidableEq

inductive DurableOnboardingState
  | redeeming (state : RedeemingState)
  | pendingApproval (state : PendingApprovalState)
  | connected (state : ConnectedState)
  deriving DecidableEq

structure RemoteResponse where
  body : JsValue
  finalUrl : JsString
  status : ℕ

section
variable (formats : Formats)

/-- All that the checks of an answer's fields say when one fails. -/
def orInvalid {α : Type} (value : Option α) : Except OnboardingErrorCode α :=
  match value with
  | some value => .ok value
  | none => .error .invalidResponse

def parseSuccessfulResponse (response : RemoteResponse) (expectedUrl : JsString) :
    Except OnboardingErrorCode JsValue :=
  if response.finalUrl ≠ expectedUrl then .error .redirectRefused
  else if response.status ≠ 200 then .error .remoteFailed
  else if response.body.isRecord then .ok response.body
  else .error .invalidResponse

structure ServerProtocol where
  major : ℕ
  minMinor : ℕ
  maxMinor : ℕ

structure Discovery where
  apiBaseUrl : JsString
  protocolVersion : ProtocolVersion
  serverName : JsString

def clientMajor : ℕ := 1
def clientMinMinor : ℕ := 0
def clientMaxMinor : ℕ := 0

def negotiateProtocol (server : ServerProtocol) : Except OnboardingErrorCode ProtocolVersion :=
  let minimum := max server.minMinor clientMinMinor
  let maximum := min server.maxMinor clientMaxMinor
  if server.major ≠ clientMajor ∨ maximum < minimum then .error .incompatibleProtocol
  else .ok { major := clientMajor, minor := maximum }

def parseCanonicalApiBaseUrl (value expectedOrigin : JsString) :
    Except OnboardingErrorCode JsString :=
  match formats.parseUrl value with
  | none => .error .invalidResponse
  | some _ =>
      if isApiBaseForOrigin formats value expectedOrigin then .ok value else .error .originMismatch

def readProtocol (value : JsValue) : Option ServerProtocol := do
  let major ← nonnegativeInteger (value.get .major)
  let minMinor ← nonnegativeInteger (value.get .minMinor)
  let maxMinor ← nonnegativeInteger (value.get .maxMinor)
  if maxMinor < minMinor then none else some { major, minMinor, maxMinor }

def readAuthMethods : Option JsValue → Bool
  | some (.array [method]) => isText (ascii "opaque-token") (some method)
  | _ => false

def readCapabilities : Option JsValue → Bool
  | some (.array capabilities) =>
      capabilities.length ≤ 64 ∧
        capabilities.all fun capability => (textWhere isCapability (some capability)).isSome
  | _ => false

/-- The fields of a discovery answer: the server's name, its protocol and where
its interface is. -/
def readDiscovery (body : JsValue) : Option (JsString × ServerProtocol × JsString) := do
  let serverName ← textWhere (isCanonicalDisplayText · 80) (body.get .name)
  let protocol ← (body.get .protocol).bind readProtocol
  let apiBaseUrl ← textWhere (fun _ => true) (body.get .apiBaseUrl)
  if isText (ascii "havemind") (body.get .service) ∧ readAuthMethods (body.get .authMethods) ∧
      readCapabilities (body.get .capabilities) then
    some (serverName, protocol, apiBaseUrl)
  else none

def parseDiscoveryResponse (response : RemoteResponse) (expectedUrl expectedOrigin : JsString) :
    Except OnboardingErrorCode Discovery := do
  let body ← parseSuccessfulResponse response expectedUrl
  let (serverName, protocol, url) ← orInvalid (readDiscovery body)
  let apiBaseUrl ← parseCanonicalApiBaseUrl formats url expectedOrigin
  let protocolVersion ← negotiateProtocol protocol
  return { apiBaseUrl, protocolVersion, serverName }

structure InvitationReview where
  expiresAt : JsString
  intendedMemberDisplayName : JsString
  inviterDisplayName : JsString
  memberId : JsString
  vaultId : JsString
  vaultName : JsString

def readReview (body : JsValue) : Option InvitationReview := do
  let vaultId ← textWhere isCanonicalUuid (body.get .vaultId)
  let memberId ← textWhere isCanonicalUuid (body.get .memberId)
  let vaultName ← textWhere (isCanonicalDisplayText · 120) (body.get .vaultName)
  let inviterDisplayName ←
    textWhere (isCanonicalDisplayText · 80) (body.get .inviterDisplayName)
  let intendedMemberDisplayName ←
    textWhere (isCanonicalDisplayText · 80) (body.get .intendedMemberDisplayName)
  let expiresAt ← textWhere (isCanonicalIsoTimestamp formats) (body.get .expiresAt)
  if isNumber 1 (body.get .version) then
    some { expiresAt, intendedMemberDisplayName, inviterDisplayName, memberId, vaultId, vaultName }
  else none

def parseInvitationReviewResponse (response : RemoteResponse) (expectedUrl : JsString) :
    Except OnboardingErrorCode InvitationReview := do
  let body ← parseSuccessfulResponse response expectedUrl
  orInvalid (readReview formats body)

structure PendingRedemption where
  pendingCredential : JsString
  pendingDeviceId : JsString
  verificationPhrase : JsString
  deriving DecidableEq

def readPendingRedemption (body : JsValue) : Option PendingRedemption := do
  let pendingDeviceId ← textWhere isCanonicalUuid (body.get .pendingDeviceId)
  let pendingCredential ←
    textWhere (isCanonicalToken · pendingPrefix) (body.get .pendingCredential)
  let verificationPhrase ← textWhere isVerificationPin (body.get .verificationPhrase)
  if isText (ascii "pending") (body.get .status) then
    some { pendingCredential, pendingDeviceId, verificationPhrase }
  else none

def parsePendingRedemptionResponse (response : RemoteResponse) (expectedUrl : JsString) :
    Except OnboardingErrorCode PendingRedemption := do
  let body ← parseSuccessfulResponse response expectedUrl
  orInvalid (readPendingRedemption body)

inductive ApprovalResponse
  | pending
  | rejected
  | approved (deviceId membershipId : JsString)
  deriving DecidableEq

def readApproval (body : JsValue) : Option ApprovalResponse :=
  if isText (ascii "pending") (body.get .status) then some .pending
  else if isText (ascii "rejected") (body.get .status) then some .rejected
  else do
    let deviceId ← textWhere isCanonicalUuid (body.get .deviceId)
    let membershipId ← textWhere isCanonicalUuid (body.get .membershipId)
    if isText (ascii "approved") (body.get .status) then some (.approved deviceId membershipId)
    else none

def parseApprovalResponse (response : RemoteResponse) (expectedUrl : JsString) :
    Except OnboardingErrorCode ApprovalResponse := do
  let body ← parseSuccessfulResponse response expectedUrl
  orInvalid (readApproval body)

end

section
variable (formats : Formats)

def metadataMembers (metadata : ConnectionMetadata) : List (Key × JsValue) :=
  [(.apiBaseUrl, .string metadata.apiBaseUrl), (.expiresAt, .string metadata.expiresAt),
    (.intendedMemberDisplayName, .string metadata.intendedMemberDisplayName),
    (.inviterDisplayName, .string metadata.inviterDisplayName),
    (.memberId, .string metadata.memberId),
    (.protocolVersion,
      .object [(.major, .number metadata.protocolVersion.major),
        (.minor, .number metadata.protocolVersion.minor)]),
    (.serverName, .string metadata.serverName), (.serverOrigin, .string metadata.serverOrigin),
    (.vaultId, .string metadata.vaultId), (.vaultName, .string metadata.vaultName)]

def redeemingPhase : JsString := ascii "redeeming"
def pendingApprovalPhase : JsString := ascii "pending-approval"
def connectedPhase : JsString := ascii "connected"
def approvalReceivedPhase : JsString := ascii "approval-received"
def bootstrappingPhase : JsString := ascii "bootstrapping"

def DurableOnboardingState.phase : DurableOnboardingState → JsString
  | .redeeming _ => redeemingPhase
  | .pendingApproval _ => pendingApprovalPhase
  | .connected _ => connectedPhase

/-- The object a state is stored as. -/
def DurableOnboardingState.toValue : DurableOnboardingState → JsValue
  | .redeeming state =>
      .object (metadataMembers state.toConnectionMetadata ++
        [(.deviceLabel, .string state.deviceLabel), (.phase, .string redeemingPhase),
          (.redemptionId, .string state.redemptionId), (.version, .number 1)])
  | .pendingApproval state =>
      .object (metadataMembers state.toConnectionMetadata ++
        [(.pendingDeviceId, .string state.pendingDeviceId),
          (.phase, .string pendingApprovalPhase),
          (.verificationPhrase, .string state.verificationPhrase), (.version, .number 1)])
  | .connected state =>
      .object (metadataMembers state.toConnectionMetadata ++
        [(.deviceId, .string state.deviceId), (.downloadedItems, .number state.downloadedItems),
          (.phase, .string connectedPhase), (.version, .number 1)])

/-- The properties a phase has besides those of the connection; `none` for a phase
that is not known. Two phases are retired. -/
def phaseKeys (phase : JsString) : Option (List Key) :=
  if phase = approvalReceivedPhase then
    some [.bootstrapCursor, .deviceId, .downloadedItems, .pendingDeviceId]
  else if phase = bootstrappingPhase then some [.bootstrapCursor, .deviceId, .downloadedItems]
  else if phase = connectedPhase then some [.deviceId, .downloadedItems]
  else if phase = pendingApprovalPhase then some [.pendingDeviceId, .verificationPhrase]
  else if phase = redeemingPhase then some [.deviceLabel, .redemptionId]
  else none

def connectionKeys : List Key :=
  [.apiBaseUrl, .expiresAt, .intendedMemberDisplayName, .inviterDisplayName, .memberId, .phase,
    .protocolVersion, .serverName, .serverOrigin, .vaultId, .vaultName, .version]

/-- `validateStoredConnectionMetadata`, with what it lets pass. -/
def readConnectionMetadata (value : JsValue) : Option ConnectionMetadata := do
  let serverOrigin ← textWhere (isCanonicalHttpsOrigin formats) (value.get .serverOrigin)
  let apiBaseUrl ←
    textWhere (isApiBaseForOrigin formats · serverOrigin) (value.get .apiBaseUrl)
  let serverName ← textWhere (isCanonicalDisplayText · 80) (value.get .serverName)
  let vaultName ← textWhere (isCanonicalDisplayText · 120) (value.get .vaultName)
  let inviterDisplayName ←
    textWhere (isCanonicalDisplayText · 80) (value.get .inviterDisplayName)
  let intendedMemberDisplayName ←
    textWhere (isCanonicalDisplayText · 80) (value.get .intendedMemberDisplayName)
  let vaultId ← textWhere isCanonicalUuid (value.get .vaultId)
  let memberId ← textWhere isCanonicalUuid (value.get .memberId)
  let expiresAt ← textWhere (isCanonicalIsoTimestamp formats) (value.get .expiresAt)
  let protocolVersion ← value.get .protocolVersion
  if hasExactKeys protocolVersion [.major, .minor] ∧ isNumber 1 (protocolVersion.get .major) ∧
      isNumber 0 (protocolVersion.get .minor) then
    some
      { apiBaseUrl, expiresAt, intendedMemberDisplayName, inviterDisplayName, memberId
        protocolVersion := { major := 1, minor := 0 }
        serverName, serverOrigin, vaultId, vaultName }
  else none

def isCursor : Option JsValue → Bool
  | some .null => true
  | some (.string text) => isSafeIdentifier text
  | _ => false

/-- What the phase's own properties say. The retired phases read as connected. -/
def readPhase (phase : JsString) (metadata : ConnectionMetadata) (value : JsValue) :
    Option DurableOnboardingState :=
  if phase = redeemingPhase then do
    let deviceLabel ← textWhere (isCanonicalDisplayText · 80) (value.get .deviceLabel)
    let redemptionId ← textWhere isCanonicalUuid (value.get .redemptionId)
    return .redeeming { metadata with deviceLabel, redemptionId }
  else if phase = pendingApprovalPhase then do
    let pendingDeviceId ← textWhere isCanonicalUuid (value.get .pendingDeviceId)
    let verificationPhrase ← textWhere isVerificationPin (value.get .verificationPhrase)
    return .pendingApproval { metadata with pendingDeviceId, verificationPhrase }
  else do
    let deviceId ← textWhere isCanonicalUuid (value.get .deviceId)
    let downloadedItems ← nonnegativeInteger (value.get .downloadedItems)
    if phase ≠ connectedPhase ∧ isCursor (value.get .bootstrapCursor) = false then none
    else if phase = approvalReceivedPhase ∧
        textWhere isCanonicalUuid (value.get .pendingDeviceId) = none then
      none
    else return .connected { metadata with deviceId, downloadedItems }

/-- Every check that fails says `invalid-state`. -/
def parseDurableState (value : JsValue) : Option DurableOnboardingState := do
  let phase ← textWhere (fun _ => true) (value.get .phase)
  let keys ← phaseKeys phase
  if hasExactKeys value (connectionKeys ++ keys) ∧ isNumber 1 (value.get .version) then
    let metadata ← readConnectionMetadata formats value
    readPhase phase metadata value
  else none

end

section
variable {formats : Formats} {response : RemoteResponse} {url : JsString}

/-- What the checks of the stored connection ask for. -/
structure ValidMetadata (formats : Formats) (metadata : ConnectionMetadata) : Prop where
  serverOrigin : isCanonicalHttpsOrigin formats metadata.serverOrigin = true
  apiBaseUrl : isApiBaseForOrigin formats metadata.apiBaseUrl metadata.serverOrigin = true
  serverName : isCanonicalDisplayText metadata.serverName 80 = true
  vaultName : isCanonicalDisplayText metadata.vaultName 120 = true
  inviterDisplayName : isCanonicalDisplayText metadata.inviterDisplayName 80 = true
  intendedMemberDisplayName : isCanonicalDisplayText metadata.intendedMemberDisplayName 80 = true
  vaultId : isCanonicalUuid metadata.vaultId = true
  memberId : isCanonicalUuid metadata.memberId = true
  expiresAt : isCanonicalIsoTimestamp formats metadata.expiresAt = true
  protocolVersion : metadata.protocolVersion = { major := 1, minor := 0 }

def DurableOnboardingState.metadata : DurableOnboardingState → ConnectionMetadata
  | .redeeming state => state.toConnectionMetadata
  | .pendingApproval state => state.toConnectionMetadata
  | .connected state => state.toConnectionMetadata

def DurableOnboardingState.fieldsValid : DurableOnboardingState → Bool
  | .redeeming state =>
      isCanonicalDisplayText state.deviceLabel 80 ∧ isCanonicalUuid state.redemptionId
  | .pendingApproval state =>
      isCanonicalUuid state.pendingDeviceId ∧ isVerificationPin state.verificationPhrase
  | .connected state => isCanonicalUuid state.deviceId ∧ state.downloadedItems ≤ maxSafeInteger

structure ValidState (formats : Formats) (state : DurableOnboardingState) : Prop where
  metadata : ValidMetadata formats state.metadata
  fields : state.fieldsValid = true

theorem textWhere_string {accepts : JsString → Bool} {text : JsString} (h : accepts text = true) :
    textWhere accepts (some (.string text)) = some text := if_pos h

theorem isNumber_number (value : ℚ) : isNumber value (some (.number value)) = true :=
  decide_eq_true rfl

theorem nonnegativeInteger_number {n : ℕ} (h : n ≤ maxSafeInteger) :
    nonnegativeInteger (some (.number n)) = some n := by
  have hsafe : ((n : ℚ)).den = 1 ∧ 0 ≤ (n : ℚ).num ∧ (n : ℚ).num ≤ maxSafeInteger := by
    rw [Rat.num_natCast, Rat.den_natCast]
    omega
  exact (if_pos hsafe).trans (by rw [Rat.num_natCast, Int.toNat_natCast])

theorem readConnectionMetadata_members {metadata : ConnectionMetadata}
    (h : ValidMetadata formats metadata) (rest : List (Key × JsValue)) :
    readConnectionMetadata formats (.object (metadataMembers metadata ++ rest)) = some metadata := by
  have hversion := h.protocolVersion
  obtain ⟨apiBaseUrl, expiresAt, intended, inviter, memberId, protocolVersion, serverName,
    serverOrigin, vaultId, vaultName⟩ := metadata
  dsimp only at hversion
  subst hversion
  refine bind_eq_some_iff.mpr ⟨_, textWhere_string h.serverOrigin, ?_⟩
  refine bind_eq_some_iff.mpr ⟨_, textWhere_string h.apiBaseUrl, ?_⟩
  refine bind_eq_some_iff.mpr ⟨_, textWhere_string h.serverName, ?_⟩
  refine bind_eq_some_iff.mpr ⟨_, textWhere_string h.vaultName, ?_⟩
  refine bind_eq_some_iff.mpr ⟨_, textWhere_string h.inviterDisplayName, ?_⟩
  refine bind_eq_some_iff.mpr ⟨_, textWhere_string h.intendedMemberDisplayName, ?_⟩
  refine bind_eq_some_iff.mpr ⟨_, textWhere_string h.vaultId, ?_⟩
  refine bind_eq_some_iff.mpr ⟨_, textWhere_string h.memberId, ?_⟩
  refine bind_eq_some_iff.mpr ⟨_, textWhere_string h.expiresAt, ?_⟩
  refine bind_eq_some_iff.mpr ⟨_, rfl, ?_⟩
  have hone : isNumber 1 (some (.number ((1 : ℕ) : ℚ))) = true := by
    rw [Nat.cast_one]
    exact isNumber_number 1
  have hzero : isNumber 0 (some (.number ((0 : ℕ) : ℚ))) = true := by
    rw [Nat.cast_zero]
    exact isNumber_number 0
  exact if_pos ⟨rfl, hone, hzero⟩

theorem parseDurableState_eq {value : JsValue} {phase : JsString} {keys : List Key}
    {metadata : ConnectionMetadata} (hphase : value.get .phase = some (.string phase))
    (hkeys : phaseKeys phase = some keys)
    (hexact : hasExactKeys value (connectionKeys ++ keys) = true)
    (hversion : value.get .version = some (.number 1))
    (hmetadata : readConnectionMetadata formats value = some metadata) :
    parseDurableState formats value = readPhase phase metadata value := by
  have hone : isNumber 1 (value.get .version) = true := hversion ▸ isNumber_number 1
  have hread : textWhere (fun _ => true) (value.get .phase) = some phase :=
    hphase ▸ textWhere_string rfl
  unfold parseDurableState
  simp only [hread, hkeys, hmetadata, bind_eq_bind, bind_some]
  exact if_pos ⟨hexact, hone⟩

/-- A stored state is accepted when it is read back. -/
theorem parseDurableState_toValue {state : DurableOnboardingState} (h : ValidState formats state) :
    parseDurableState formats state.toValue = some state := by
  have hfields := h.fields
  have hmetadata : readConnectionMetadata formats state.toValue = some state.metadata := by
    cases state with
    | redeeming state => exact readConnectionMetadata_members h.metadata _
    | pendingApproval state => exact readConnectionMetadata_members h.metadata _
    | connected state => exact readConnectionMetadata_members h.metadata _
  cases state with
  | redeeming state =>
    obtain ⟨hlabel, hredemption⟩ := of_decide_eq_true hfields
    have hkeys : phaseKeys redeemingPhase = some [.deviceLabel, .redemptionId] := by decide
    rw [parseDurableState_eq rfl hkeys rfl rfl hmetadata]
    unfold readPhase
    rw [if_pos rfl]
    refine bind_eq_some_iff.mpr ⟨_, textWhere_string hlabel, ?_⟩
    exact bind_eq_some_iff.mpr ⟨_, textWhere_string hredemption, rfl⟩
  | pendingApproval state =>
    obtain ⟨hdevice, hphrase⟩ := of_decide_eq_true hfields
    have hkeys : phaseKeys pendingApprovalPhase =
        some [.pendingDeviceId, .verificationPhrase] := by decide
    rw [parseDurableState_eq rfl hkeys rfl rfl hmetadata]
    unfold readPhase
    rw [if_neg (by decide), if_pos rfl]
    refine bind_eq_some_iff.mpr ⟨_, textWhere_string hdevice, ?_⟩
    exact bind_eq_some_iff.mpr ⟨_, textWhere_string hphrase, rfl⟩
  | connected state =>
    obtain ⟨hdevice, hitems⟩ := of_decide_eq_true hfields
    have hkeys : phaseKeys connectedPhase = some [.deviceId, .downloadedItems] := by decide
    rw [parseDurableState_eq rfl hkeys rfl rfl hmetadata]
    unfold readPhase
    rw [if_neg (by decide), if_neg (by decide)]
    refine bind_eq_some_iff.mpr ⟨_, textWhere_string hdevice, ?_⟩
    refine bind_eq_some_iff.mpr ⟨_, nonnegativeInteger_number hitems, ?_⟩
    have hretired : connectedPhase ≠ approvalReceivedPhase := by decide
    refine (if_neg ?_).trans (if_neg ?_)
    · exact fun h => h.1 rfl
    · exact fun h => hretired h.1

theorem orInvalid_eq_ok {α : Type} {value : Option α} {result : α}
    (h : orInvalid value = .ok result) : value = some result := by
  unfold orInvalid at h
  split at h
  · cases h
    rfl
  · cases h

theorem bind_eq_ok {α β : Type} {x : Except OnboardingErrorCode α}
    {f : α → Except OnboardingErrorCode β} {result : β} (h : x >>= f = .ok result) :
    ∃ value, x = .ok value ∧ f value = .ok result := by
  cases x with
  | error code => cases h
  | ok value => exact ⟨value, rfl, h⟩

theorem negotiateProtocol_eq_ok {server : ServerProtocol} {version : ProtocolVersion}
    (h : negotiateProtocol server = .ok version) : version = { major := 1, minor := 0 } := by
  unfold negotiateProtocol at h
  dsimp only at h
  split at h
  · cases h
  · cases h
    rw [clientMajor, clientMaxMinor, Nat.min_zero]

theorem parseDiscoveryResponse_eq_ok {origin : JsString} {discovery : Discovery}
    (h : parseDiscoveryResponse formats response url origin = .ok discovery) :
    isApiBaseForOrigin formats discovery.apiBaseUrl origin = true ∧
      isCanonicalDisplayText discovery.serverName 80 = true ∧
      discovery.protocolVersion = { major := 1, minor := 0 } := by
  obtain ⟨body, -, h⟩ := bind_eq_ok h
  obtain ⟨fields, hfields, h⟩ := bind_eq_ok h
  obtain ⟨base, hbase, h⟩ := bind_eq_ok h
  obtain ⟨version, hversion, h⟩ := bind_eq_ok h
  cases h
  refine ⟨?_, ?_, negotiateProtocol_eq_ok hversion⟩
  · unfold parseCanonicalApiBaseUrl at hbase
    split at hbase
    · cases hbase
    · split at hbase
      · rename_i haccepted
        cases hbase
        exact haccepted
      · cases hbase
  · obtain ⟨name, hname, hrest⟩ := bind_eq_some_iff.mp (orInvalid_eq_ok hfields)
    obtain ⟨protocol, -, hrest⟩ := bind_eq_some_iff.mp hrest
    obtain ⟨apiBaseUrl, -, hrest⟩ := bind_eq_some_iff.mp hrest
    split at hrest
    · cases hrest
      exact textWhere_accepts hname
    · cases hrest

structure ValidReview (formats : Formats) (review : InvitationReview) : Prop where
  vaultId : isCanonicalUuid review.vaultId = true
  memberId : isCanonicalUuid review.memberId = true
  vaultName : isCanonicalDisplayText review.vaultName 120 = true
  inviterDisplayName : isCanonicalDisplayText review.inviterDisplayName 80 = true
  intendedMemberDisplayName : isCanonicalDisplayText review.intendedMemberDisplayName 80 = true
  expiresAt : isCanonicalIsoTimestamp formats review.expiresAt = true

theorem parseInvitationReviewResponse_eq_ok {review : InvitationReview}
    (h : parseInvitationReviewResponse formats response url = .ok review) :
    ValidReview formats review := by
  obtain ⟨body, -, h⟩ := bind_eq_ok h
  obtain ⟨vaultId, hvault, h⟩ := bind_eq_some_iff.mp (orInvalid_eq_ok h)
  obtain ⟨memberId, hmember, h⟩ := bind_eq_some_iff.mp h
  obtain ⟨vaultName, hname, h⟩ := bind_eq_some_iff.mp h
  obtain ⟨inviter, hinviter, h⟩ := bind_eq_some_iff.mp h
  obtain ⟨intended, hintended, h⟩ := bind_eq_some_iff.mp h
  obtain ⟨expiresAt, hexpires, h⟩ := bind_eq_some_iff.mp h
  split at h
  · cases h
    exact
      { vaultId := textWhere_accepts hvault
        memberId := textWhere_accepts hmember
        vaultName := textWhere_accepts hname
        inviterDisplayName := textWhere_accepts hinviter
        intendedMemberDisplayName := textWhere_accepts hintended
        expiresAt := textWhere_accepts hexpires }
  · cases h

theorem parsePendingRedemptionResponse_eq_ok {pending : PendingRedemption}
    (h : parsePendingRedemptionResponse response url = .ok pending) :
    isCanonicalUuid pending.pendingDeviceId = true ∧
      isCanonicalToken pending.pendingCredential pendingPrefix = true ∧
      isVerificationPin pending.verificationPhrase = true := by
  obtain ⟨body, -, h⟩ := bind_eq_ok h
  obtain ⟨deviceId, hdevice, h⟩ := bind_eq_some_iff.mp (orInvalid_eq_ok h)
  obtain ⟨credential, hcredential, h⟩ := bind_eq_some_iff.mp h
  obtain ⟨phrase, hphrase, h⟩ := bind_eq_some_iff.mp h
  split at h
  · have htoken := textWhere_accepts hcredential
    cases h
    exact ⟨textWhere_accepts hdevice, htoken, textWhere_accepts hphrase⟩
  · cases h

theorem parseApprovalResponse_eq_ok {deviceId membershipId : JsString}
    (h : parseApprovalResponse response url = .ok (.approved deviceId membershipId)) :
    isCanonicalUuid deviceId = true ∧ isCanonicalUuid membershipId = true := by
  obtain ⟨body, -, h⟩ := bind_eq_ok h
  have hread := orInvalid_eq_ok h
  unfold readApproval at hread
  split at hread
  · cases hread
  · split at hread
    · cases hread
    · obtain ⟨device, hdevice, hread⟩ := bind_eq_some_iff.mp hread
      obtain ⟨membership, hmembership, hread⟩ := bind_eq_some_iff.mp hread
      split at hread
      · cases hread
        exact ⟨textWhere_accepts hdevice, textWhere_accepts hmembership⟩
      · cases hread

end

variable {formats : Formats} {response : RemoteResponse} {url : JsString} {code : OnboardingErrorCode}

/-- What is said of an answer that is not accepted. -/
def answerErrors : List OnboardingErrorCode :=
  [.incompatibleProtocol, .invalidResponse, .originMismatch, .redirectRefused, .remoteFailed]

theorem bind_eq_error {α β : Type} {x : Except OnboardingErrorCode α}
    {f : α → Except OnboardingErrorCode β} (hx : ∀ code, x = .error code → code ∈ answerErrors)
    (hf : ∀ value code, f value = .error code → code ∈ answerErrors) (h : x >>= f = .error code) :
    code ∈ answerErrors := by
  cases x with
  | error other =>
    cases h
    exact hx code rfl
  | ok value => exact hf value code h

theorem orInvalid_eq_error {α : Type} {value : Option α} (h : orInvalid value = .error code) :
    code ∈ answerErrors := by
  unfold orInvalid at h
  split at h
  · cases h
  · cases h
    decide

theorem parseSuccessfulResponse_eq_error
    (h : parseSuccessfulResponse response url = .error code) : code ∈ answerErrors := by
  unfold parseSuccessfulResponse at h
  by_cases hurl : response.finalUrl ≠ url
  · rw [if_pos hurl] at h
    cases h
    decide
  · rw [if_neg hurl] at h
    by_cases hstatus : response.status ≠ 200
    · rw [if_pos hstatus] at h
      cases h
      decide
    · rw [if_neg hstatus] at h
      split at h
      · cases h
      · cases h
        decide

theorem parseCanonicalApiBaseUrl_eq_error {value origin : JsString}
    (h : parseCanonicalApiBaseUrl formats value origin = .error code) : code ∈ answerErrors := by
  unfold parseCanonicalApiBaseUrl at h
  split at h
  · cases h
    decide
  · split at h
    · cases h
    · cases h
      decide

theorem negotiateProtocol_eq_error {server : ServerProtocol}
    (h : negotiateProtocol server = .error code) : code ∈ answerErrors := by
  unfold negotiateProtocol at h
  dsimp only at h
  split at h
  · cases h
    decide
  · cases h

theorem parseDiscoveryResponse_eq_error {origin : JsString}
    (h : parseDiscoveryResponse formats response url origin = .error code) :
    code ∈ answerErrors := by
  refine bind_eq_error (fun _ => parseSuccessfulResponse_eq_error) (fun body code h => ?_) h
  refine bind_eq_error (fun _ => orInvalid_eq_error) (fun fields code h => ?_) h
  refine bind_eq_error (fun _ => parseCanonicalApiBaseUrl_eq_error) (fun base code h => ?_) h
  refine bind_eq_error (fun _ => negotiateProtocol_eq_error) (fun version code h => ?_) h
  cases h

theorem parseInvitationReviewResponse_eq_error
    (h : parseInvitationReviewResponse formats response url = .error code) :
    code ∈ answerErrors :=
  bind_eq_error (fun _ => parseSuccessfulResponse_eq_error) (fun _ _ => orInvalid_eq_error) h

theorem parsePendingRedemptionResponse_eq_error
    (h : parsePendingRedemptionResponse response url = .error code) : code ∈ answerErrors :=
  bind_eq_error (fun _ => parseSuccessfulResponse_eq_error) (fun _ _ => orInvalid_eq_error) h

theorem parseApprovalResponse_eq_error (h : parseApprovalResponse response url = .error code) :
    code ∈ answerErrors :=
  bind_eq_error (fun _ => parseSuccessfulResponse_eq_error) (fun _ _ => orInvalid_eq_error) h

end Havemind.OnboardingValues
