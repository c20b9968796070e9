import Havemind.AuthTables

/-!
Refresh families and short-lived access tokens: the creation of a session, the
rotation of its refresh token, the lookups behind every request and the
revocation of a device. A rotation recognises a retried request by what the
consumed token recorded, and anything else presenting a consumed token marks
the family.
-/
namespace Havemind.SessionRepository

open RevisionSchema Transaction KeyedTable AuthTables
open ServerDatabase (AccountStatus DeviceStatus)

structure InitialSessionResult where
  accessExpiresAt : Timestamp
  accessToken : Token
  familyId : Id
  refreshExpiresAt : Timestamp
  deriving DecidableEq

structure InitialFamilyResult where
  familyId : Id
  refreshExpiresAt : Timestamp
  deriving DecidableEq

/-- The texts of a rotation request; `none` is a text that is no such token. -/
structure RotateRefreshInput where
  currentRefreshToken : Option Token
  rotationId : Option Token
  successorRefreshToken : Option Token
  deriving DecidableEq

structure RotateRefreshResult where
  accessExpiresAt : Timestamp
  accessToken : Token
  familyId : Id
  generation : ℕ
  wasRetry : Bool
  deriving DecidableEq

structure AccessSession where
  deviceId : Id
  expiresAt : Timestamp
  familyId : Id
  userId : Id
  deriving DecidableEq

structure RefreshContext where
  deviceId : Id
  familyId : Id
  userId : Id
  deriving DecidableEq

/-- A stored refresh token with the family, user and device it belongs to. -/
structure RefreshRow where
  token : RefreshTokenRow
  family : FamilyRow
  user : UserRow
  device : DeviceRow
  deriving DecidableEq

structure AccessRow where
  token : AccessTokenRow
  family : FamilyRow
  user : UserRow
  device : DeviceRow
  deriving DecidableEq

structure IssuedAccess where
  accessExpiresAt : Timestamp
  accessToken : Token
  deriving DecidableEq

structure PreparedRotation where
  currentTokenHash : TokenHash
  rotationId : Token
  successorTokenHash : TokenHash
  deriving DecidableEq

inductive RotationTransactionResult
  | reuse
  | success (result : RotateRefreshResult)
  deriving DecidableEq

def requireGeneration (value : ℕ) : Except AuthError ℕ :=
  if value ≤ maxSafeInteger then .ok value else .error .repositoryIntegrity

section
variable (db : AuthDatabase)

def loadRefreshRow (tokenHash : TokenHash) : Option RefreshRow := do
  let token ← db.refreshTokens.find? fun row => row.tokenHash = tokenHash
  let family ← db.families.find? fun row => row.id = token.familyId
  let user ← db.users.find? fun row => row.id = family.userId
  let device ← db.devices.find? fun row => row.id = family.deviceId
  return { token, family, user, device }

def loadAccessRow (tokenHash : TokenHash) : Option AccessRow := do
  let token ← db.accessTokens.find? fun row => row.tokenHash = tokenHash
  let family ← db.families.find? fun row => row.id = token.familyId
  let user ← db.users.find? fun row => row.id = token.userId
  let device ← db.devices.find? fun row => row.id = token.deviceId
  return { token, family, user, device }

/-- Active in every row the session depends on. -/
def RefreshRow.usable (row : RefreshRow) : Bool :=
  row.family.status = .active ∧ row.user.status = .active ∧ row.device.status = .approved

def AccessRow.usable (row : AccessRow) : Bool :=
  row.family.status = .active ∧ row.user.status = .active ∧ row.device.status = .approved

def lookupRefreshContext (server : AuthServer) (rawRefreshToken : Option Token)
    (now : Option Timestamp) : Except AuthError (Option RefreshContext) :=
  match rawRefreshToken with
  | none => .ok none
  | some token => do
    let now ← readClock now .invalidClock
    match loadRefreshRow db (server.hashToken token) with
    | none => .ok none
    | some row =>
      if row.token.consumedAt ≠ none then .ok none
      else if row.token.expiresAt ≤ now ∨ row.family.expiresAt ≤ now ∨ row.usable = false then
        .ok none
      else do
        let generation ← requireGeneration row.token.generation
        let currentGeneration ← requireGeneration row.family.currentGeneration
        if generation ≠ currentGeneration then .ok none
        else
          .ok (some
            { deviceId := row.family.deviceId
              familyId := row.family.id
              userId := row.family.userId })

def lookupAccess (server : AuthServer) (rawAccessToken : Option Token)
    (now : Option Timestamp) : Except AuthError (Option AccessSession) :=
  match rawAccessToken with
  | none => .ok none
  | some token => do
    let now ← readClock now .invalidClock
    match loadAccessRow db (server.hashToken token) with
    | none => .ok none
    | some row =>
      if row.token.revokedAt ≠ none ∨ row.usable = false ∨ row.token.expiresAt ≤ now ∨
          row.family.expiresAt ≤ now then .ok none
      else
        .ok (some
          { deviceId := row.token.deviceId
            expiresAt := row.token.expiresAt
            familyId := row.token.familyId
            userId := row.token.userId })

/-- The lifetime the family was created with, read off its first token. -/
def familyWindowSeconds (familyId : Id) : Except AuthError ℕ :=
  match db.refreshTokens.find? fun row => row.familyId = familyId ∧ row.generation = 0 with
  | none => .error .repositoryIntegrity
  | some row =>
    let seconds := (row.expiresAt - row.createdAt) / 1000
    if seconds = 0 then .error .repositoryIntegrity
    else .ok (min seconds refreshTokenMaxTtlSeconds)

def successorExists (familyId : Id) (generation : ℕ) (tokenHash : TokenHash) : Bool :=
  db.refreshTokens.any fun row =>
    row.familyId = familyId ∧ row.generation = generation ∧ row.tokenHash = tokenHash

/-- The request repeats the rotation the consumed token recorded, and that
rotation is the family's last. -/
def exactRetry (row : RefreshRow) (prepared : PreparedRotation) : Bool :=
  row.token.rotationId = some prepared.rotationId ∧
    row.token.successorTokenHash = some prepared.successorTokenHash ∧
    row.family.currentGeneration = row.token.generation + 1 ∧
    successorExists db row.family.id (row.token.generation + 1) prepared.successorTokenHash

end

/-- An update that must change exactly one row. -/
def updateOne (count : AuthDatabase → ℕ) (write : AuthDatabase → AuthDatabase) (e : AuthError) :
    Auth Unit := do
  let changes ← count <$> get
  modify write
  check (require (changes = 1) e)

section
variable (server : AuthServer)

def prepareRotation (input : RotateRefreshInput) : Except AuthError PreparedRotation :=
  match input.currentRefreshToken with
  | none => .error .invalidRefresh
  | some current =>
    match input.successorRefreshToken, input.rotationId with
    | some successor, some rotationId =>
      if current = successor then .error .invalidInput
      else
        .ok
          { currentTokenHash := server.hashToken current
            rotationId
            successorTokenHash := server.hashToken successor }
    | _, _ => .error .invalidInput

def markReuse (familyId : Id) (now : Timestamp) : Auth Unit := do
  modify fun db =>
    { db with
      families := updateWhere (fun row => row.id = familyId)
        (fun row =>
          { row with
            status := .reuseDetected
            revokedAt := row.revokedAt <|> some now })
        db.families }
  modify fun db =>
    { db with
      accessTokens := updateWhere (fun row => row.familyId = familyId)
        (fun row => { row with revokedAt := row.revokedAt <|> some now }) db.accessTokens }

def issueAccess (familyId userId deviceId : Id) (now familyExpiresAt : Timestamp)
    (accessToken : Token) : Auth IssuedAccess := do
  let requestedExpiry ← check (addSeconds now server.accessTokenTtlSeconds .invalidClock)
  let accessExpiresAt :=
    if familyExpiresAt < requestedExpiry then familyExpiresAt else requestedExpiry
  check (require (now < accessExpiresAt) .sessionRevoked)
  let id ← newUuid server
  insertAccessToken
    { id, familyId, userId, deviceId
      tokenHash := server.hashToken accessToken
      expiresAt := accessExpiresAt
      revokedAt := none }
  return { accessExpiresAt, accessToken }

/-- A family of generation zero with its only token. -/
def createFamily (userId deviceId : Id) (tokenHash : TokenHash) (refreshTtl : ℕ)
    (now : Timestamp) : Auth InitialFamilyResult := do
  let refreshExpiresAt ← check (addSeconds now refreshTtl .invalidClock)
  let familyId ← newUuid server
  let refreshId ← newUuid server
  insertFamily
    { id := familyId, userId, deviceId
      status := .active
      currentGeneration := 0
      expiresAt := refreshExpiresAt
      revokedAt := none }
  insertRefreshToken
    { id := refreshId, familyId
      generation := 0
      tokenHash
      createdAt := now
      consumedAt := none
      rotationId := none
      successorTokenHash := none
      expiresAt := refreshExpiresAt }
  return { familyId, refreshExpiresAt }

def validateRefreshTtl (refreshTtl : ℕ) : Except AuthError Unit :=
  require (1 ≤ refreshTtl ∧ refreshTtl ≤ refreshTokenMaxTtlSeconds ∧
    server.accessTokenTtlSeconds ≤ refreshTtl) .invalidInput

def createInitialSessionInCurrentTransaction (userId deviceId : Id)
    (initialRefreshToken : Option Token) (refreshTtl : ℕ) (now : Option Timestamp)
    (accessToken : Token) : Auth InitialSessionResult := do
  match initialRefreshToken with
  | none => throw .invalidRefresh
  | some token =>
    check (validateRefreshTtl server refreshTtl)
    let now ← check (readClock now .invalidClock)
    let family ← createFamily server userId deviceId (server.hashToken token) refreshTtl now
    let access ← issueAccess server family.familyId userId deviceId now family.refreshExpiresAt
      accessToken
    return {
      accessExpiresAt := access.accessExpiresAt
      accessToken := access.accessToken
      familyId := family.familyId
      refreshExpiresAt := family.refreshExpiresAt }

/-- The hash is `none` for a text that is no digest. -/
def createInitialFamilyFromHashInCurrentTransaction (userId deviceId : Id)
    (refreshTokenHash : Option TokenHash) (refreshTtl : ℕ) (now : Option Timestamp) :
    Auth InitialFamilyResult := do
  match refreshTokenHash with
  | none => throw .invalidRefresh
  | some tokenHash =>
    check (validateRefreshTtl server refreshTtl)
    let now ← check (readClock now .invalidClock)
    createFamily server userId deviceId tokenHash refreshTtl now

def consumeRefreshToken (refreshId : Id) (now : Timestamp) (prepared : PreparedRotation) :
    Auth Unit :=
  let isHit : RefreshTokenRow → Bool := fun row => row.id = refreshId ∧ row.consumedAt = none
  updateOne (fun db => db.refreshTokens.countP isHit)
    (fun db =>
      { db with
        refreshTokens := updateWhere isHit
          (fun row =>
            { row with
              consumedAt := some now
              rotationId := some prepared.rotationId
              successorTokenHash := some prepared.successorTokenHash })
          db.refreshTokens })
    .repositoryIntegrity

def advanceFamily (familyId : Id) (generation : ℕ) (expiresAt : Timestamp) : Auth Unit :=
  let isHit : FamilyRow → Bool := fun row =>
    row.id = familyId ∧ row.status = .active ∧ row.currentGeneration = generation
  updateOne (fun db => db.families.countP isHit)
    (fun db =>
      { db with
        families := updateWhere isHit
          (fun row => { row with currentGeneration := generation + 1, expiresAt }) db.families })
    .repositoryIntegrity

/-- The branch of a token that is current and not yet consumed. -/
def rotateCurrent (row : RefreshRow) (prepared : PreparedRotation) (now : Timestamp)
    (accessToken : Token) : Auth RotationTransactionResult := do
  consumeRefreshToken row.token.id now prepared
  let nextGeneration := row.token.generation + 1
  check (require (nextGeneration ≤ maxSafeInteger) .repositoryIntegrity)
  let window ← check (familyWindowSeconds (← get) row.family.id)
  let slidExpiresAt ← check (addSeconds now window .invalidClock)
  let familyExpiresAt :=
    if slidExpiresAt > row.family.expiresAt then slidExpiresAt else row.family.expiresAt
  let id ← newUuid server
  insertRefreshToken
    { id
      familyId := row.family.id
      generation := nextGeneration
      tokenHash := prepared.successorTokenHash
      createdAt := now
      consumedAt := none
      rotationId := none
      successorTokenHash := none
      expiresAt := familyExpiresAt }
  advanceFamily row.family.id row.token.generation familyExpiresAt
  let access ← issueAccess server row.family.id row.family.userId row.family.deviceId now
    familyExpiresAt accessToken
  return .success
    { accessExpiresAt := access.accessExpiresAt
      accessToken := access.accessToken
      familyId := row.family.id
      generation := nextGeneration
      wasRetry := false }

def rotateInTransaction (prepared : PreparedRotation) (now : Timestamp) (accessToken : Token) :
    Auth RotationTransactionResult := do
  let db ← get
  match loadRefreshRow db prepared.currentTokenHash with
  | none => throw .invalidRefresh
  | some row =>
    if row.token.consumedAt = none ∧ row.token.expiresAt ≤ now ∨ row.family.expiresAt ≤ now then
      throw .invalidRefresh
    else if row.usable = false then throw .sessionRevoked
    else do
      let generation ← check (requireGeneration row.token.generation)
      let currentGeneration ← check (requireGeneration row.family.currentGeneration)
      if row.token.consumedAt ≠ none then
        if exactRetry db row prepared = false then
          markReuse row.family.id now
          return .reuse
        else
          let access ← issueAccess server row.family.id row.family.userId row.family.deviceId now
            row.family.expiresAt accessToken
          return .success
            { accessExpiresAt := access.accessExpiresAt
              accessToken := access.accessToken
              familyId := row.family.id
              generation := generation + 1
              wasRetry := true }
      else if generation ≠ currentGeneration then
        markReuse row.family.id now
        return .reuse
      else if (db.refreshTokens.any fun stored => stored.tokenHash = prepared.successorTokenHash) then
        markReuse row.family.id now
        return .reuse
      else rotateCurrent server row prepared now accessToken

/-- A marked family stays marked: the error is thrown after the commit. -/
def rotateRefresh (input : RotateRefreshInput) (now : Option Timestamp) (accessToken : Token) :
    Auth RotateRefreshResult := do
  let prepared ← check (prepareRotation server input)
  let now ← check (readClock now .invalidClock)
  let result ← transaction (rotateInTransaction server prepared now accessToken)
  match result with
  | .reuse => throw .refreshReuseDetected
  | .success result => return result

end

def revokeDeviceInCurrentTransaction (deviceId : Id) (now : Option Timestamp) : Auth Unit := do
  let now ← check (readClock now .invalidClock)
  modify fun db =>
    { db with
      devices := updateWhere (fun row => row.id = deviceId)
        (fun row => { row with status := .revoked, revokedAt := row.revokedAt <|> some now })
        db.devices }
  modify fun db =>
    { db with
      families := updateWhere (fun row => row.deviceId = deviceId)
        (fun row => { row with status := .revoked, revokedAt := row.revokedAt <|> some now })
        db.families }
  modify fun db =>
    { db with
      accessTokens := updateWhere (fun row => row.deviceId = deviceId)
        (fun row => { row with revokedAt := row.revokedAt <|> some now }) db.accessTokens }

end Havemind.SessionRepository
