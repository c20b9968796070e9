import Havemind.AccessToken
import Havemind.RotationSuccess

/-!
What a client's request does to a serviceable family. The current token rotates
or, at the last generation, is refused; the exact repetition of the last rotation
is granted; and past the deadline nothing the client holds changes anything.
-/
namespace Havemind.RotationAnswers

open RevisionSchema Transaction KeyedTable AuthTables SessionRepository SessionChanges RefreshFamily
  RotationSuccess AccessToken

variable {server : AuthServer} {db : AuthDatabase} {family : FamilyRow} {now : Timestamp}
  {accessToken : Token} {token : RefreshTokenRow} {record : PendingRotation}

def prepared (server : AuthServer) (record : PendingRotation) : PreparedRotation where
  currentTokenHash := server.hashToken record.refreshToken
  rotationId := record.rotationId
  successorTokenHash := server.hashToken record.successorRefreshToken

theorem prepareRotation_input (hne : record.refreshToken ≠ record.successorRefreshToken) :
    prepareRotation server record.input = .ok (prepared server record) := if_neg hne

theorem rotateRefresh_of_ok {result : RotateRefreshResult} {db' : AuthDatabase}
    (hne : record.refreshToken ≠ record.successorRefreshToken)
    (h : rotateInTransaction server (prepared server record) now accessToken db =
      .ok (.success result) db') :
    rotateRefresh server record.input (some now) accessToken db = .ok result db' := by
  unfold rotateRefresh
  rw [check_bind_of_ok (prepareRotation_input hne), check_bind_of_ok (readClock_eq_ok.mpr rfl),
    bind_of_ok (transaction_eq_ok.mpr h)]
  rfl

theorem rotateRefresh_of_error {e : AuthError} {dirty : AuthDatabase}
    (hne : record.refreshToken ≠ record.successorRefreshToken)
    (h : rotateInTransaction server (prepared server record) now accessToken db = .error e dirty) :
    rotateRefresh server record.input (some now) accessToken db = .error e db := by
  unfold rotateRefresh
  rw [check_bind_of_ok (prepareRotation_input hne), check_bind_of_ok (readClock_eq_ok.mpr rfl),
    bind_of_error (transaction_eq_error.mpr ⟨rfl, dirty, h⟩)]

/-- What a granted rotation leaves. -/
structure Grants (server : AuthServer) (db db' : AuthDatabase) (family : FamilyRow)
    (now : Timestamp) (accessToken : Token) : Prop where
  serviceable : Serviceable server db' family
  accepted : Accepted server db' now family.id accessToken
  access : ∀ row ∈ db'.accessTokens,
    row ∈ db.accessTokens ∨ row.tokenHash = server.hashToken accessToken

theorem grants_of_issued {mid db' : AuthDatabase} {access : IssuedAccess}
    (hserviceable : Serviceable server mid family) (hunexpired : now < family.expiresAt)
    (hfree : AccessFree server mid accessToken) (hsame : mid.accessTokens = db.accessTokens)
    (hissue : issueAccess server family.id family.userId family.deviceId now family.expiresAt
      accessToken mid = .ok access db') : Grants server db db' family now accessToken := by
  refine ⟨hserviceable.issued hissue, hserviceable.accepted hunexpired hfree hissue, ?_⟩
  obtain ⟨-, -, -, rfl⟩ := issueAccess_eq_ok hissue
  refine forall_concat (fun row hrow => ?_) (.inr rfl)
  exact .inl (hsame ▸ hrow)

variable (h : Serviceable server db family)
include h

theorem rotateInTransaction_record (hunexpired : now < family.expiresAt)
    (htoken : token ∈ db.refreshTokens) (hid : token.familyId = family.id)
    (hunconsumed : token.consumedAt = none)
    (hhash : token.tokenHash = server.hashToken record.refreshToken)
    (hfree : SuccessorFree server db record.successorRefreshToken) :
    record.refreshToken ≠ record.successorRefreshToken ∧ ∃ user device,
      rotateInTransaction server (prepared server record) now accessToken db =
        rotateCurrent server ⟨token, family, user, device⟩ (prepared server record) now accessToken
          db := by
  obtain ⟨user, device, hload, husable⟩ := h.loaded htoken hid
  rw [hhash] at hload
  have hlive : now < token.expiresAt := by
    rw [h.deadline token htoken hid hunconsumed]
    exact hunexpired
  have hunknown : ∀ stored ∈ db.refreshTokens,
      stored.tokenHash ≠ (prepared server record).successorTokenHash := hfree
  refine ⟨fun heq => hfree token htoken (heq ▸ hhash), user, device, ?_⟩
  exact rotateInTransaction_current h.generations hload hunconsumed hlive hunexpired husable
    (h.generation_eq htoken hid hunconsumed) hunknown

/-- A current token, presented in time with an unknown successor. -/
theorem rotateRefresh_current (hroom : Roomy now) (hunexpired : now < family.expiresAt)
    (htoken : token ∈ db.refreshTokens) (hid : token.familyId = family.id)
    (hunconsumed : token.consumedAt = none)
    (hhash : token.tokenHash = server.hashToken record.refreshToken)
    (hfree : SuccessorFree server db record.successorRefreshToken)
    (haccess : AccessFree server db accessToken)
    (hsafe : family.currentGeneration < maxSafeInteger) :
    ∃ expiresAt result db', family.expiresAt ≤ expiresAt ∧
      rotateRefresh server record.input (some now) accessToken db = .ok result db' ∧
      result.accessToken = accessToken ∧
      Grants server db db' (advanced token family expiresAt) now accessToken ∧
      db'.refreshTokens =
        (rotatedDatabase server db token family (prepared server record) now
          expiresAt).refreshTokens := by
  obtain ⟨hne, user, device, hstart⟩ :=
    rotateInTransaction_record h hunexpired htoken hid hunconsumed hhash hfree
  obtain ⟨expiresAt, access, db', hlater, hissue, hrun⟩ := @Serviceable.rotateCurrent_ok server db
    family now accessToken token (prepared server record) user device h htoken hid hunconsumed hsafe
    hroom hunexpired haccess hfree
  have hrotated : Serviceable server
      (rotatedDatabase server db token family (prepared server record) now expiresAt)
      (advanced token family expiresAt) := h.rotated htoken hid hunconsumed hsafe hlater hfree
  have hgrants : Grants server db db' (advanced token family expiresAt) now accessToken :=
    grants_of_issued hrotated (Nat.lt_of_lt_of_le hunexpired hlater) haccess rfl hissue
  obtain ⟨htokenText, -, -, rfl⟩ := issueAccess_eq_ok hissue
  exact ⟨expiresAt, _, _, hlater, rotateRefresh_of_ok hne (hstart.trans hrun), htokenText, hgrants,
    rfl⟩

/-- At the last generation the rotation is refused, and nothing changes. -/
theorem rotateRefresh_exhausted (hunexpired : now < family.expiresAt)
    (htoken : token ∈ db.refreshTokens) (hid : token.familyId = family.id)
    (hunconsumed : token.consumedAt = none)
    (hhash : token.tokenHash = server.hashToken record.refreshToken)
    (hfree : SuccessorFree server db record.successorRefreshToken)
    (hlast : maxSafeInteger ≤ family.currentGeneration) :
    rotateRefresh server record.input (some now) accessToken db = .error .repositoryIntegrity db := by
  obtain ⟨hne, user, device, hstart⟩ :=
    rotateInTransaction_record h hunexpired htoken hid hunconsumed hhash hfree
  exact rotateRefresh_of_error hne
    (hstart.trans (h.rotateCurrent_exhausted htoken hid hunconsumed hlast))

/-- The exact repetition of the rotation that consumed the token. -/
theorem rotateRefresh_repeated (hroom : Roomy now) (hunexpired : now < family.expiresAt)
    (htoken : token ∈ db.refreshTokens) (hid : token.familyId = family.id)
    (hconsumed : token.consumedAt ≠ none)
    (hhash : token.tokenHash = server.hashToken record.refreshToken)
    (hrotation : token.rotationId = some record.rotationId)
    (hsuccessor : token.successorTokenHash = some (server.hashToken record.successorRefreshToken))
    {successor : RefreshTokenRow} (hmem : successor ∈ db.refreshTokens)
    (hmemId : successor.familyId = family.id)
    (hmemHash : successor.tokenHash = server.hashToken record.successorRefreshToken)
    (hnext : successor.generation = token.generation + 1)
    (hunconsumed : successor.consumedAt = none) (haccess : AccessFree server db accessToken) :
    ∃ result db', rotateRefresh server record.input (some now) accessToken db = .ok result db' ∧
      result.accessToken = accessToken ∧ Grants server db db' family now accessToken ∧
      db'.refreshTokens = db.refreshTokens := by
  obtain ⟨user, device, hload, husable⟩ := h.loaded htoken hid
  rw [hhash] at hload
  have hne : record.refreshToken ≠ record.successorRefreshToken := by
    intro heq
    have hsame := h.hashes.eq htoken hmem (hhash.trans (heq ▸ hmemHash.symm))
    exact hconsumed (hsame ▸ hunconsumed)
  have hcurrent := h.generation_eq hmem hmemId hunconsumed
  have hretry : exactRetry db ⟨token, family, user, device⟩ (prepared server record) = true := by
    refine decide_eq_true ⟨hrotation, hsuccessor, hcurrent.symm.trans hnext, ?_⟩
    refine List.any_eq_true.mpr ⟨successor, hmem, ?_⟩
    exact decide_eq_true ⟨hmemId, hnext, hmemHash⟩
  obtain ⟨access, db', hissue⟩ := h.issueAccess_ok hroom hunexpired haccess
  have hbody : rotateInTransaction server (prepared server record) now accessToken db = _ :=
    rotateInTransaction_retry h.generations hload hconsumed hunexpired husable hretry hissue
  have hgrants : Grants server db db' family now accessToken :=
    grants_of_issued h hunexpired haccess rfl hissue
  obtain ⟨htokenText, -, -, rfl⟩ := issueAccess_eq_ok hissue
  exact ⟨_, _, rotateRefresh_of_ok hne hbody, htokenText, hgrants, rfl⟩

/-- A token of the family, or one the server does not know. -/
def Own (server : AuthServer) (db : AuthDatabase) (familyId : Id) (token : Token) : Prop :=
  ∀ row ∈ db.refreshTokens, row.tokenHash = server.hashToken token → row.familyId = familyId

/-- Past the deadline nothing the client presents changes anything. -/
theorem rotateRefresh_expired (hexpired : family.expiresAt ≤ now)
    (hown : Own server db family.id record.refreshToken) :
    ∃ e, rotateRefresh server record.input (some now) accessToken db = .error e db := by
  by_cases hne : record.refreshToken = record.successorRefreshToken
  · refine ⟨.invalidInput, ?_⟩
    have hprepared : prepareRotation server record.input = .error .invalidInput := if_pos hne
    unfold rotateRefresh
    rw [hprepared]
    rfl
  · refine ⟨.invalidRefresh, rotateRefresh_of_error hne (rotateInTransaction_expired ?_)⟩
    intro row hrow
    obtain ⟨htoken, hhash, hfamily, hid, -⟩ := loadRefreshRow_eq_some hrow
    have hsame := h.chains.families_keyed.eq hfamily h.family_mem
      (hid.trans (hown row.token htoken hhash))
    rw [hsame]
    exact hexpired

end Havemind.RotationAnswers
