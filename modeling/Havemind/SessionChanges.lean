import Havemind.AuthChanges
import Havemind.Endings

/-!
What the session operations do to the database when they succeed. A rotation has
three ends: the exact retry, which issues one more access token; the fresh
rotation, which advances the family; and everything else a stored token can be
presented for, which marks the family.
-/
namespace Havemind.SessionChanges

open RevisionSchema Transaction Endings KeyedTable AuthTables AuthChanges SessionRepository
open ServerDatabase (AccountStatus DeviceStatus)

variable {server : AuthServer} {db db' : AuthDatabase} {tokenHash : TokenHash}

theorem updateOne_eq_ok {count : AuthDatabase → ℕ} {write : AuthDatabase → AuthDatabase}
    {e : AuthError} {u : Unit} :
    updateOne count write e db = .ok u db' ↔ count db = 1 ∧ db' = write db := by
  unfold updateOne
  show (do modify write; check (require (count db = 1) e)) db = .ok u db' ↔ _
  rw [modify_bind, check_eq_ok, require_eq_ok, eq_comm (a := write db)]

theorem loadRefreshRow_eq_some {row : RefreshRow} (h : loadRefreshRow db tokenHash = some row) :
    row.token ∈ db.refreshTokens ∧ row.token.tokenHash = tokenHash ∧
      row.family ∈ db.families ∧ row.family.id = row.token.familyId ∧
      row.user ∈ db.users ∧ row.user.id = row.family.userId ∧
      row.device ∈ db.devices ∧ row.device.id = row.family.deviceId := by
  simp only [loadRefreshRow, Option.bind_eq_bind, Option.bind_eq_some_iff] at h
  obtain ⟨token, htoken, family, hfamily, user, huser, device, hdevice, heq⟩ := h
  cases heq
  obtain ⟨htoken, hhash⟩ := find?_key htoken
  obtain ⟨hfamily, hfamilyId⟩ := find?_key hfamily
  obtain ⟨huser, huserId⟩ := find?_key huser
  obtain ⟨hdevice, hdeviceId⟩ := find?_key hdevice
  exact ⟨htoken, hhash, hfamily, hfamilyId, huser, huserId, hdevice, hdeviceId⟩

theorem loadAccessRow_eq_some {row : AccessRow} (h : loadAccessRow db tokenHash = some row) :
    row.token ∈ db.accessTokens ∧ row.token.tokenHash = tokenHash ∧
      row.family ∈ db.families ∧ row.family.id = row.token.familyId ∧
      row.user ∈ db.users ∧ row.user.id = row.token.userId ∧
      row.device ∈ db.devices ∧ row.device.id = row.token.deviceId := by
  simp only [loadAccessRow, Option.bind_eq_bind, Option.bind_eq_some_iff] at h
  obtain ⟨token, htoken, family, hfamily, user, huser, device, hdevice, heq⟩ := h
  cases heq
  obtain ⟨htoken, hhash⟩ := find?_key htoken
  obtain ⟨hfamily, hfamilyId⟩ := find?_key hfamily
  obtain ⟨huser, huserId⟩ := find?_key huser
  obtain ⟨hdevice, hdeviceId⟩ := find?_key hdevice
  exact ⟨htoken, hhash, hfamily, hfamilyId, huser, huserId, hdevice, hdeviceId⟩

section
variable {familyId userId deviceId : Id} {now familyExpiresAt : Timestamp} {accessToken : Token}
  {refreshTtl : ℕ} {result : InitialFamilyResult} {clock : Option Timestamp}

/-- An access token never outlives the family it is issued for. -/
theorem issueAccess_eq_ok {access : IssuedAccess}
    (h : issueAccess server familyId userId deviceId now familyExpiresAt accessToken db =
      .ok access db') :
    access.accessToken = accessToken ∧ access.accessExpiresAt ≤ familyExpiresAt ∧
      now < access.accessExpiresAt ∧
      db' =
        { db with
          accessTokens := db.accessTokens ++
            [{ id := server.randomUuid db.issued, familyId, userId, deviceId
               tokenHash := server.hashToken accessToken
               expiresAt := access.accessExpiresAt
               revokedAt := none }]
          issued := db.issued + 1 } := by
  unfold issueAccess at h
  obtain ⟨requested, -, h⟩ := check_bind_eq_ok.mp h
  obtain ⟨_, hlater, h⟩ := check_bind_eq_ok.mp h
  rw [newUuid_bind] at h
  obtain ⟨-, h⟩ := guardedWrite_bind_eq_ok.mp h
  cases h
  refine ⟨rfl, ?_, require_eq_ok.mp hlater, rfl⟩
  dsimp only
  split
  · exact Nat.le_refl _
  · rename_i hle
    exact Nat.not_lt.mp hle

theorem createFamily_eq_ok {tokenHash : TokenHash}
    (h : createFamily server userId deviceId tokenHash refreshTtl now db = .ok result db') :
    result.familyId = server.randomUuid db.issued ∧
      result.refreshExpiresAt = now + refreshTtl * 1000 ∧
      (∀ stored ∈ db.families, stored.id ≠ result.familyId) ∧
      (∃ device ∈ db.devices, device.id = deviceId) ∧
      TokenFree db (newToken (server.randomUuid (db.issued + 1)) result.familyId 0 tokenHash now
        result.refreshExpiresAt) ∧
      db' =
        { db with
          families := db.families ++
            [newFamily result.familyId userId deviceId result.refreshExpiresAt]
          refreshTokens := db.refreshTokens ++
            [newToken (server.randomUuid (db.issued + 1)) result.familyId 0 tokenHash now
              result.refreshExpiresAt]
          issued := db.issued + 2 } := by
  unfold createFamily at h
  obtain ⟨expiresAt, hexpires, h⟩ := check_bind_eq_ok.mp h
  rw [newUuid_bind, newUuid_bind] at h
  obtain ⟨hfamily, h⟩ := guardedWrite_bind_eq_ok.mp h
  obtain ⟨htoken, h⟩ := guardedWrite_bind_eq_ok.mp h
  cases h
  exact ⟨rfl, (addSeconds_eq_ok.mp hexpires).1, hfamily.1, hfamily.2.2, htoken.1, rfl⟩

theorem createInitialFamilyFromHash_eq_ok {refreshTokenHash : Option TokenHash}
    (h : createInitialFamilyFromHashInCurrentTransaction server userId deviceId refreshTokenHash
      refreshTtl clock db = .ok result db') :
    ∃ tokenHash now, refreshTokenHash = some tokenHash ∧ clock = some now ∧
      createFamily server userId deviceId tokenHash refreshTtl now db = .ok result db' := by
  unfold createInitialFamilyFromHashInCurrentTransaction at h
  cases refreshTokenHash with
  | none => cases h
  | some tokenHash =>
    obtain ⟨_, -, h⟩ := check_bind_eq_ok.mp h
    obtain ⟨now, hnow, h⟩ := check_bind_eq_ok.mp h
    exact ⟨tokenHash, now, rfl, readClock_eq_ok.mp hnow, h⟩

theorem createInitialSession_eq_ok {initialRefreshToken : Option Token}
    {result : InitialSessionResult}
    (h : createInitialSessionInCurrentTransaction server userId deviceId initialRefreshToken
      refreshTtl clock accessToken db = .ok result db') :
    ∃ token now family access mid, initialRefreshToken = some token ∧ clock = some now ∧
      createFamily server userId deviceId (server.hashToken token) refreshTtl now db =
        .ok family mid ∧
      issueAccess server family.familyId userId deviceId now family.refreshExpiresAt accessToken
        mid = .ok access db' := by
  unfold createInitialSessionInCurrentTransaction at h
  cases initialRefreshToken with
  | none => cases h
  | some token =>
    obtain ⟨_, -, h⟩ := check_bind_eq_ok.mp h
    obtain ⟨now, hnow, h⟩ := check_bind_eq_ok.mp h
    obtain ⟨family, mid, hfamily, h⟩ := bind_eq_ok.mp h
    obtain ⟨access, last, haccess, h⟩ := bind_eq_ok.mp h
    cases h
    exact ⟨token, now, family, access, mid, rfl, readClock_eq_ok.mp hnow, hfamily, haccess⟩

end

variable {prepared : PreparedRotation} {now : Timestamp} {accessToken : Token}
  {result : RotationTransactionResult}

/-- The fresh rotation: the token is consumed, its successor stored and the
family moved on, never to an earlier deadline. -/
theorem rotateCurrent_eq_ok {row : RefreshRow}
    (h : rotateCurrent server row prepared now accessToken db = .ok result db') :
    ∃ successor access, successor = newToken successor.id row.family.id (row.token.generation + 1)
        prepared.successorTokenHash now successor.expiresAt ∧
      row.family.expiresAt ≤ successor.expiresAt ∧
      now < successor.expiresAt ∧
      TokenFree db successor ∧
      issueAccess server row.family.id row.family.userId row.family.deviceId now
        successor.expiresAt accessToken
        (afterRotation db row.token row.family successor prepared.rotationId now (db.issued + 1)) =
          .ok access db' ∧
      result = .success
        { accessExpiresAt := access.accessExpiresAt
          accessToken := access.accessToken
          familyId := row.family.id
          generation := row.token.generation + 1
          wasRetry := false } ∧
      row.token.generation + 1 ≤ maxSafeInteger := by
  unfold rotateCurrent consumeRefreshToken advanceFamily at h
  obtain ⟨_, consumed, hconsume, h⟩ := bind_eq_ok.mp h
  obtain ⟨-, rfl⟩ := updateOne_eq_ok.mp hconsume
  obtain ⟨_, hsafe, h⟩ := check_bind_eq_ok.mp h
  rw [get_bind] at h
  obtain ⟨window, -, h⟩ := check_bind_eq_ok.mp h
  obtain ⟨slid, -, h⟩ := check_bind_eq_ok.mp h
  rw [newUuid_bind] at h
  obtain ⟨hfree, h⟩ := guardedWrite_bind_eq_ok.mp h
  obtain ⟨_, advanced, hadvance, h⟩ := bind_eq_ok.mp h
  obtain ⟨-, rfl⟩ := updateOne_eq_ok.mp hadvance
  obtain ⟨access, last, haccess, h⟩ := bind_eq_ok.mp h
  cases h
  refine ⟨newToken (server.randomUuid db.issued) row.family.id (row.token.generation + 1)
    prepared.successorTokenHash now
    (if slid > row.family.expiresAt then slid else row.family.expiresAt), access, rfl, ?_, ?_, ?_,
    haccess, rfl, require_eq_ok.mp hsafe⟩
  · show _ ≤ if slid > row.family.expiresAt then slid else row.family.expiresAt
    split
    · rename_i hlater
      exact Nat.le_of_lt hlater
    · exact Nat.le_refl _
  · obtain ⟨-, hle, hlater, -⟩ := issueAccess_eq_ok haccess
    exact Nat.lt_of_lt_of_le hlater hle
  · exact forall_of_forall_updateWhere hfree.1 fun _ h => h

/-- The checks every rotation makes on the stored token, and its three ends. -/
theorem rotateInTransaction_eq_ok
    (h : rotateInTransaction server prepared now accessToken db = .ok result db') :
    ∃ row, loadRefreshRow db prepared.currentTokenHash = some row ∧
      now < row.family.expiresAt ∧ row.usable = true ∧
      ((row.token.consumedAt ≠ none ∧ exactRetry db row prepared = true ∧
          ∃ access, issueAccess server row.family.id row.family.userId row.family.deviceId now
              row.family.expiresAt accessToken db = .ok access db' ∧
            result = .success
              { accessExpiresAt := access.accessExpiresAt
                accessToken := access.accessToken
                familyId := row.family.id
                generation := row.token.generation + 1
                wasRetry := true }) ∨
        (row.token.consumedAt = none ∧ row.token.generation = row.family.currentGeneration ∧
          (∀ stored ∈ db.refreshTokens, stored.tokenHash ≠ prepared.successorTokenHash) ∧
          rotateCurrent server row prepared now accessToken db = .ok result db') ∨
        (result = .reuse ∧ db' = afterReuse db row.family.id now ∧
          ((row.token.consumedAt ≠ none ∧ exactRetry db row prepared = false) ∨
            (row.token.consumedAt = none ∧
              (row.token.generation ≠ row.family.currentGeneration ∨
                ∃ stored ∈ db.refreshTokens, stored.tokenHash = prepared.successorTokenHash))))) := by
  unfold rotateInTransaction at h
  rw [get_bind] at h
  cases hrow : loadRefreshRow db prepared.currentTokenHash with
  | none =>
    rw [hrow] at h
    cases h
  | some row =>
  rw [hrow] at h
  refine ⟨row, rfl, ?_⟩
  dsimp only at h
  split at h
  · cases h
  rename_i htime
  obtain ⟨-, hdeadline⟩ := not_or.mp htime
  split at h
  · cases h
  rename_i husable
  refine ⟨Nat.not_le.mp hdeadline, by simpa using husable, ?_⟩
  obtain ⟨generation, hgeneration, h⟩ := check_bind_eq_ok.mp h
  obtain ⟨current, hcurrent, h⟩ := check_bind_eq_ok.mp h
  obtain rfl : row.token.generation = generation := by
    unfold requireGeneration at hgeneration
    split at hgeneration <;> cases hgeneration
    rfl
  obtain rfl : row.family.currentGeneration = current := by
    unfold requireGeneration at hcurrent
    split at hcurrent <;> cases hcurrent
    rfl
  split at h
  · rename_i hconsumed
    split at h
    · rename_i hretry
      cases h
      exact .inr (.inr ⟨rfl, rfl, .inl ⟨hconsumed, hretry⟩⟩)
    · rename_i hretry
      obtain ⟨access, last, haccess, h⟩ := bind_eq_ok.mp h
      cases h
      exact .inl ⟨hconsumed, by simpa using hretry, access, haccess, rfl⟩
  · rename_i hconsumed
    have hunconsumed := not_not.mp hconsumed
    split at h
    · rename_i hstale
      cases h
      exact .inr (.inr ⟨rfl, rfl, .inr ⟨hunconsumed, .inl hstale⟩⟩)
    · rename_i hcurrent
      split at h
      · rename_i hcollision
        cases h
        refine .inr (.inr ⟨rfl, rfl, .inr ⟨hunconsumed, .inr ?_⟩⟩)
        simpa using hcollision
      · rename_i hcollision
        refine .inr (.inl ⟨hunconsumed, not_not.mp hcurrent, ?_, h⟩)
        simpa using hcollision

/-- A rotation leaves the database as it was, or as its transaction committed it. -/
theorem rotateRefresh_storeAfter {P : AuthDatabase → Prop} {input : RotateRefreshInput}
    {clock : Option Timestamp} (h : P db)
    (hcommit : ∀ prepared now result db', prepareRotation server input = .ok prepared →
      clock = some now → rotateInTransaction server prepared now accessToken db = .ok result db' →
      P db') :
    P (storeAfter (rotateRefresh server input clock accessToken) db) := by
  apply Ends.storeAfter
  refine .check (fun prepared hprepared => ?_) fun _ => h
  refine .check (fun now hnow => ?_) fun _ => h
  refine Ends.bind (ends_transaction (fun result db' hresult => ?_) fun _ => h)
  have hdb' := hcommit prepared now result db' hprepared (readClock_eq_ok.mp hnow) hresult
  cases result with
  | reuse => exact ends_throw hdb'
  | success result => exact ends_pure hdb'

end Havemind.SessionChanges
