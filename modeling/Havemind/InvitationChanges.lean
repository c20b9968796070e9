import Havemind.AuthSoundness
import Havemind.PruneExpired
import Havemind.SessionChanges

/-!
What the invitation services commit, as sequences of changes. An approval by the
right code admits the pending device and opens its first session; a wrong one is
counted, and the last one allowed removes the pending user.
-/
namespace Havemind.InvitationChanges

open RevisionSchema Transaction Endings KeyedTable AuthTables AuthChanges AuthSoundness List
  SessionRepository SessionChanges Invitations PruneExpired
open ServerDatabase (AccountStatus DeviceStatus)

variable {server : AuthServer} {permit : Permit} {base : ℕ} {db db' : AuthDatabase}

section
variable {row : InvitationRow}

theorem loadInvitationByHash_eq_ok {tokenHash : TokenHash}
    (h : loadInvitationByHash db tokenHash = .ok row) :
    row ∈ db.invitations ∧ row.tokenHash = tokenHash := by
  unfold loadInvitationByHash at h
  split at h
  · cases h
  · rename_i found hfound
    cases h
    exact find?_key hfound

theorem loadInvitationById_eq_ok {invitationId : Id}
    (h : loadInvitationById db invitationId = .ok row) :
    row ∈ db.invitations ∧ row.id = invitationId := by
  unfold loadInvitationById at h
  split at h
  · cases h
  · rename_i found hfound
    cases h
    exact find?_key hfound

theorem requireOwnerMembership_eq_ok {membershipId vaultId : Id} {row : MembershipRow}
    (h : requireOwnerMembership db membershipId vaultId = .ok row) :
    row ∈ db.memberships ∧ row.id = membershipId ∧ ownerOf row vaultId = true := by
  unfold requireOwnerMembership at h
  split at h
  · cases h
  · rename_i found hfound
    split at h
    · rename_i howner
      cases h
      exact ⟨(find?_key hfound).1, (find?_key hfound).2, howner⟩
    · cases h

/-- What an approvable invitation has: a device, a user, a token hash, a
redemption recent enough, and a device row that is pending. -/
theorem requirePendingDevice_eq_ok {invitation : InvitationRow} {now : Timestamp}
    {pending : PendingApproval} (h : requirePendingDevice db invitation now = .ok pending) :
    invitation.pendingDeviceId = some pending.deviceId ∧
      invitation.consumedByUserId = some pending.userId ∧
      invitation.pendingRefreshTokenHash = some pending.refreshTokenHash ∧
      (∃ consumedAt, invitation.consumedAt = some consumedAt ∧
        now < consumedAt + pendingApprovalTtlSeconds * 1000) ∧
      ∃ device, (db.devices.find? fun row => row.id = pending.deviceId) = some device ∧
        device.status = .pending := by
  unfold requirePendingDevice at h
  split at h
  · rename_i deviceId userId refreshTokenHash hdevice huser hhash
    cases hconsumed : invitation.consumedAt with
    | none =>
      rw [hconsumed] at h
      cases h
    | some consumedAt =>
      rw [hconsumed] at h
      obtain ⟨_, hrecent, h⟩ := except_bind_eq_ok.mp h
      cases hfind : db.devices.find? fun row => row.id = deviceId with
      | none =>
        rw [hfind] at h
        cases h
      | some device =>
        rw [hfind] at h
        obtain ⟨_, hstatus, h⟩ := except_bind_eq_ok.mp h
        cases h
        exact ⟨hdevice, huser, hhash, ⟨consumedAt, rfl, require_eq_ok.mp hrecent⟩, device, hfind,
          require_eq_ok.mp hstatus⟩
  · cases h

end

section
variable {deviceId : Id} {now : Timestamp} {accessToken : Token} {userId : Id}
  {clock : Option Timestamp}

theorem ends_newUuid_bind {β : Type} {f : Id → Auth β} {Q : β → AuthDatabase → Prop}
    {E : AuthError → AuthDatabase → Prop}
    (h : Ends (f (server.randomUuid db.issued)) { db with issued := db.issued + 1 } Q E) :
    Ends (newUuid server >>= f) db Q E := by
  rw [ends_iff] at h ⊢
  exact h

/-- The family and the token a session creation stores. -/
theorem createFamily_opening {tokenHash : TokenHash} {refreshTtl : ℕ}
    {result : InitialFamilyResult} (hbase : base ≤ db.issued) (hsettled : Settled db deviceId)
    (h : createFamily server userId deviceId tokenHash refreshTtl now db = .ok result db') :
    ∃ family token issued, Opening server base db family token issued ∧
      family.id = result.familyId ∧ family.userId = userId ∧ family.deviceId = deviceId ∧
      family.expiresAt = result.refreshExpiresAt ∧ db' = afterOpening db family token issued := by
  obtain ⟨hid, -, hfree, -, htoken, rfl⟩ := createFamily_eq_ok h
  refine ⟨newFamily result.familyId userId deviceId result.refreshExpiresAt, _, db.issued + 2,
    ?_, rfl, rfl, rfl, rfl, rfl⟩
  have hnew : Drawn server base (db.issued + 2) result.familyId :=
    ⟨db.issued, hbase, Nat.lt_add_of_pos_right (by decide), hid.symm⟩
  exact ⟨Nat.le_add_right _ _, rfl, rfl, hnew, hfree, htoken, hsettled⟩

theorem issueAccess_change {familyId : Id} {familyExpiresAt : Timestamp} {access : IssuedAccess}
    (hfamily : ∃ family ∈ db.families, family.id = familyId ∧ family.deviceId = deviceId ∧
      family.expiresAt = familyExpiresAt)
    (h : issueAccess server familyId userId deviceId now familyExpiresAt accessToken db =
      .ok access db') : Change server permit base db db' := by
  obtain ⟨-, hle, -, rfl⟩ := issueAccess_eq_ok h
  obtain ⟨family, hmem, hid, hdevice, hexpires⟩ := hfamily
  exact .accessIssued (Nat.le_succ _) ⟨family, hmem, hid, hdevice, hexpires ▸ hle⟩

theorem rotateInTransaction_changes {prepared : PreparedRotation}
    {result : RotationTransactionResult}
    (h : rotateInTransaction server prepared now accessToken db = .ok result db') :
    Changes server permit base db db' := by
  obtain ⟨row, hrow, -, husable, hend⟩ := rotateInTransaction_eq_ok h
  obtain ⟨htoken, -, hfamily, hid, -⟩ := loadRefreshRow_eq_some hrow
  rcases hend with ⟨-, -, access, haccess, -⟩ | ⟨hunconsumed, hcurrent, -, hrotate⟩ | ⟨-, rfl, -⟩
  · exact .single (issueAccess_change ⟨row.family, hfamily, rfl, rfl, rfl⟩ haccess)
  · obtain ⟨successor, access, hsuccessor, hlater, -, hfree, haccess, -, hsafe⟩ :=
      rotateCurrent_eq_ok hrotate
    have hactive : row.family.status = .active := (of_decide_eq_true husable).1
    have hhash : successor.tokenHash = prepared.successorTokenHash := by rw [hsuccessor]; rfl
    have hrotated : Change server permit base db (afterRotation db row.token row.family successor
        prepared.rotationId now (db.issued + 1)) :=
      .rotated (Nat.le_succ _) htoken hunconsumed hfamily hid hactive hcurrent.symm hsafe hlater
        (hhash ▸ hsuccessor) hfree
    refine (Relation.ReflTransGen.single hrotated).tail (issueAccess_change ?_ haccess)
    refine ⟨_, mem_updateWhere.mpr (.inr ⟨row.family, hfamily, ?_, rfl⟩), rfl, rfl, rfl⟩
    exact decide_eq_true ⟨rfl, hactive, hcurrent.symm⟩
  · exact .single .reuseMarked

theorem rotateRefresh_changes {input : RotateRefreshInput} :
    Changes server permit base db (storeAfter (rotateRefresh server input clock accessToken) db) :=
  rotateRefresh_storeAfter .refl fun _ _ _ _ _ _ h => rotateInTransaction_changes h

theorem revokeDevice_eq_ok {u : Unit}
    (h : revokeDeviceInCurrentTransaction deviceId clock db = .ok u db') :
    ∃ now, clock = some now ∧ db' = afterDeviceRevocation db deviceId now := by
  unfold revokeDeviceInCurrentTransaction at h
  obtain ⟨now, hnow, h⟩ := check_bind_eq_ok.mp h
  cases h
  exact ⟨now, readClock_eq_ok.mp hnow, rfl⟩

end

section
variable {input : CreateInvitationInput} {secrets : InvitationSecrets} {clock : Option Timestamp}

/-- The row a creation inserts. -/
def invitationRow (server : AuthServer) (input : CreateInvitationInput)
    (secrets : InvitationSecrets) (issued : ℕ) (expiresAt : Timestamp) : InvitationRow :=
  { id := server.randomUuid (issued + 1)
    vaultId := input.vaultId
    createdByMembershipId := input.createdByMembershipId
    inviterDeviceId := input.inviterDeviceId
    tokenHash := server.hashToken secrets.invitationToken
    verificationSecret := secrets.verificationPin
    intendedRole := input.intendedRole
    intendedKind := input.intendedKind
    expiresAt
    consumedAt := none
    consumedByUserId := none
    pendingDeviceId := none
    intendedMemberDisplayName :=
      some (input.intendedMemberDisplayName.getD defaultIntendedMemberName)
    intendedMemberId := some (server.randomUuid issued)
    pendingCredentialHash := none
    pendingRefreshTokenHash := none
    approvalAttempts := 0 }

theorem requireDisplayName_eq_ok {value name : JsText.JsString}
    (h : requireDisplayName value = .ok name) : name = value := by
  unfold requireDisplayName at h
  split at h
  · cases h
    rfl
  · cases h

theorem requireInviterDevice_eq_ok {inviterDeviceId ownerUserId : Id} {u : Unit}
    (h : requireInviterDevice db inviterDeviceId ownerUserId = .ok u) :
    Settled db inviterDeviceId := by
  unfold requireInviterDevice at h
  cases hfind : db.devices.find? fun row => row.id = inviterDeviceId with
  | none =>
    rw [hfind] at h
    cases h
  | some device =>
    rw [hfind] at h
    obtain ⟨hmem, hid⟩ := find?_key hfind
    have happroved := (require_eq_ok.mp h).1
    exact ⟨device, hmem, hid, by simp [happroved]⟩

theorem createInvitation_eq_ok {result : CreateInvitationResult}
    (h : createInvitation server input secrets clock db = .ok result db') :
    ∃ now expiresAt, clock = some now ∧ expiresAt = now + invitationTtlSeconds * 1000 ∧
      (∃ owner ∈ db.memberships, owner.id = input.createdByMembershipId ∧
        ownerOf owner input.vaultId = true) ∧
      Settled db input.inviterDeviceId ∧
      (∀ stored ∈ db.invitations, stored.id ≠ server.randomUuid (db.issued + 1) ∧
        stored.tokenHash ≠ server.hashToken secrets.invitationToken) ∧
      result.invitationId = server.randomUuid (db.issued + 1) ∧
      result.invitationToken = secrets.invitationToken ∧
      db' =
        { db with
          invitations := db.invitations ++ [invitationRow server input secrets db.issued expiresAt]
          issued := db.issued + 2 } := by
  unfold createInvitation at h
  obtain ⟨name, hname, h⟩ := check_bind_eq_ok.mp h
  obtain ⟨now, hnow, h⟩ := check_bind_eq_ok.mp h
  obtain ⟨expiresAt, hexpires, h⟩ := check_bind_eq_ok.mp h
  rw [newUuid_bind, transaction_eq_ok] at h
  unfold createInTransaction at h
  rw [get_bind] at h
  obtain ⟨owner, howner, h⟩ := check_bind_eq_ok.mp h
  rw [get_bind] at h
  obtain ⟨_, hdevice, h⟩ := check_bind_eq_ok.mp h
  rw [newUuid_bind] at h
  obtain ⟨hfree, h⟩ := guardedWrite_bind_eq_ok.mp h
  obtain ⟨hmem, hid, hownerOf⟩ := requireOwnerMembership_eq_ok howner
  obtain rfl := requireDisplayName_eq_ok hname
  cases h
  exact ⟨now, expiresAt, readClock_eq_ok.mp hnow, (addSeconds_eq_ok.mp hexpires).1,
    ⟨owner, hmem, hid, hownerOf⟩, requireInviterDevice_eq_ok hdevice, hfree.1, rfl, rfl, rfl⟩

theorem invited_change {expiresAt : Timestamp} (hbase : base ≤ db.issued)
    (hfree : ∀ stored ∈ db.invitations, stored.id ≠ server.randomUuid (db.issued + 1))
    (hinviter : Settled db input.inviterDeviceId) :
    Change server permit base db
      { db with
        invitations := db.invitations ++ [invitationRow server input secrets db.issued expiresAt]
        issued := db.issued + 2 } := by
  have hid : Drawn server base (db.issued + 2) (server.randomUuid (db.issued + 1)) :=
    ⟨db.issued + 1, Nat.le_succ_of_le hbase, Nat.lt_succ_self _, rfl⟩
  have hmember : Drawn server db.issued (db.issued + 2) (server.randomUuid db.issued) :=
    ⟨db.issued, Nat.le_refl _, Nat.lt_add_of_pos_right (by decide), rfl⟩
  exact Change.invited (Nat.le_add_right db.issued 2) hid hfree rfl hmember rfl rfl rfl rfl
    hinviter

/-- A failed creation may have drawn the identifier of the intended member. -/
theorem createInvitation_store {P : AuthDatabase → Prop} (h : P db)
    (hdrawn : P { db with issued := db.issued + 1 })
    (hok : ∀ result db', createInvitation server input secrets clock db = .ok result db' → P db') :
    P (storeAfter (createInvitation server input secrets clock) db) := by
  have hends : Ends (createInvitation server input secrets clock) db (fun _ _ => True)
      fun _ s' => P s' := by
    unfold createInvitation
    refine .check (fun _ _ => ?_) fun _ => h
    refine .check (fun now _ => ?_) fun _ => h
    refine .check (fun expiresAt _ => ?_) fun _ => h
    refine ends_newUuid_bind ?_
    exact ends_transaction (fun _ _ _ => trivial) fun _ => hdrawn
  apply Ends.storeAfter
  rw [ends_iff] at hends ⊢
  exact ⟨hok, hends.2⟩

theorem createInvitation_changes (hbase : base ≤ db.issued) :
    Changes server permit base db (storeAfter (createInvitation server input secrets clock) db) := by
  refine createInvitation_store .refl (.single (.drawn (Nat.le_succ _))) fun result db' h => ?_
  obtain ⟨_, _, -, -, -, hinviter, hfree, -, -, rfl⟩ := createInvitation_eq_ok h
  exact .single (invited_change hbase (fun stored hstored => (hfree stored hstored).1) hinviter)

end

section
variable {invitation : InvitationRow} {refreshTokenHash credentialHash : TokenHash}
  {rejoinSecretHash : Option TokenHash} {now : Timestamp} {outcome : RedeemOutcome}
  {input : RedeemForOnboardingInput} {pendingCredential : Token} {clock : Option Timestamp}

/-- A live redemption brings one user and one pending device. -/
theorem redeemLive_eq_ok
    (h : redeemLive server invitation refreshTokenHash credentialHash rejoinSecretHash now db =
      .ok outcome db') :
    ∃ user device, invitation.intendedMemberId = some user.id ∧
      device.id = server.randomUuid db.issued ∧ device.userId = user.id ∧
      device.status = .pending ∧ device.vaultId = some invitation.vaultId ∧
      (∀ stored ∈ db.users, stored.id ≠ user.id) ∧
      (∀ stored ∈ db.devices, stored.id ≠ device.id) ∧
      outcome = .ok device.id invitation.verificationSecret ∧
      db' = afterRedemption db invitation user device now credentialHash refreshTokenHash
        (db.issued + 1) := by
  unfold redeemLive at h
  cases huserId : invitation.intendedMemberId with
  | none =>
    rw [huserId] at h
    cases h
  | some userId =>
    cases hname : invitation.intendedMemberDisplayName with
    | none =>
      rw [huserId, hname] at h
      cases h
    | some displayName =>
      rw [huserId, hname] at h
      dsimp only at h
      rw [newUuid_bind] at h
      obtain ⟨huser, h⟩ := guardedWrite_bind_eq_ok.mp h
      obtain ⟨hdevice, h⟩ := guardedWrite_bind_eq_ok.mp h
      unfold consumeInvitation at h
      obtain ⟨_, mid, hconsume, h⟩ := bind_eq_ok.mp h
      obtain ⟨-, rfl⟩ := updateOne_eq_ok.mp hconsume
      cases h
      exact ⟨⟨userId, displayName, false, .active⟩, _, rfl, rfl, rfl, rfl, rfl, huser.1,
        hdevice.1, rfl, rfl⟩

/-- The transaction of a redemption. -/
theorem redeem_storeAfter {P : AuthDatabase → Prop} (h : P db)
    (hburned : ∀ invitation ∈ db.invitations, ∀ now, invitation.expiresAt ≤ now →
      P (storeAfter (burnInvitation invitation.id now) db))
    (hlive : ∀ invitation ∈ db.invitations, ∀ now refreshTokenHash credentialHash rejoinSecretHash
      outcome db', invitation.consumedAt = none → now < invitation.expiresAt →
      redeemLive server invitation refreshTokenHash credentialHash rejoinSecretHash now db =
        .ok outcome db' → P db') :
    P (storeAfter (redeemInvitationForOnboarding server input pendingCredential clock) db) := by
  apply Ends.storeAfter
  unfold redeemInvitationForOnboarding
  split
  · rename_i invitationToken initialRefreshToken _ _
    refine .check (fun _ _ => ?_) fun _ => h
    refine .check (fun rejoinSecretHash _ => ?_) fun _ => h
    refine .check (fun now _ => ?_) fun _ => h
    refine Ends.bind (ends_transaction (fun outcome db' hresult => ?_) fun _ => h)
    have hdb' : P db' := by
      rw [get_bind] at hresult
      obtain ⟨invitation, hload, hresult⟩ := check_bind_eq_ok.mp hresult
      obtain ⟨_, hunconsumed, hresult⟩ := check_bind_eq_ok.mp hresult
      obtain ⟨hmem, -⟩ := loadInvitationByHash_eq_ok hload
      split at hresult
      · rename_i hexpired
        cases hresult
        exact hburned invitation hmem now hexpired
      · rename_i hlater
        exact hlive invitation hmem now _ _ _ outcome db' (require_eq_ok.mp hunconsumed)
          (Nat.not_le.mp hlater) hresult
    cases outcome with
    | expired => exact ends_throw hdb'
    | ok => exact ends_pure hdb'
  · exact ends_throw h

theorem redeemed_change (hbase : base ≤ db.issued) (hmem : invitation ∈ db.invitations)
    (hunconsumed : invitation.consumedAt = none)
    (h : redeemLive server invitation refreshTokenHash credentialHash rejoinSecretHash now db =
      .ok outcome db') : Change server permit base db db' := by
  obtain ⟨user, device, huser, hid, hdeviceUser, hpending, -, huserFree, hdeviceFree, -, rfl⟩ :=
    redeemLive_eq_ok h
  refine .redeemed (Nat.le_succ _) hmem hunconsumed huser huserFree ?_ hdeviceFree hdeviceUser
    hpending
  exact ⟨db.issued, hbase, Nat.lt_succ_self _, hid.symm⟩

theorem redeem_changes (hbase : base ≤ db.issued) : Changes server permit base db
      (storeAfter (redeemInvitationForOnboarding server input pendingCredential clock) db) := by
  refine redeem_storeAfter .refl (fun invitation _ now _ => .single .burned) ?_
  intro invitation hmem now _ _ _ outcome db' hunconsumed _ h
  exact .single (redeemed_change hbase hmem hunconsumed h)

theorem redeemInvitationForOnboarding_eq_ok {result : RedeemForOnboardingResult}
    (h : redeemInvitationForOnboarding server input pendingCredential clock db = .ok result db') :
    ∃ token initialRefreshToken invitation now rejoinSecretHash,
      input.invitationToken = some token ∧ input.initialRefreshToken = some initialRefreshToken ∧
      loadInvitationByHash db (server.hashToken token) = .ok invitation ∧
      invitation.consumedAt = none ∧ clock = some now ∧ now < invitation.expiresAt ∧
      redeemLive server invitation (server.hashToken initialRefreshToken)
        (server.hashToken pendingCredential) rejoinSecretHash now db =
          .ok (.ok result.pendingDeviceId result.verificationPhrase) db' ∧
      result.pendingCredential = pendingCredential := by
  unfold redeemInvitationForOnboarding at h
  cases htoken : input.invitationToken with
  | none =>
    rw [htoken] at h
    cases h
  | some token =>
  cases hrefresh : input.initialRefreshToken with
  | none =>
    rw [htoken, hrefresh] at h
    cases h
  | some initialRefreshToken =>
  rw [htoken, hrefresh] at h
  obtain ⟨_, -, h⟩ := check_bind_eq_ok.mp h
  obtain ⟨rejoinSecretHash, -, h⟩ := check_bind_eq_ok.mp h
  obtain ⟨now, hnow, h⟩ := check_bind_eq_ok.mp h
  obtain ⟨outcome, mid, hbody, h⟩ := bind_eq_ok.mp h
  rw [transaction_eq_ok, get_bind] at hbody
  obtain ⟨invitation, hload, hbody⟩ := check_bind_eq_ok.mp hbody
  obtain ⟨_, hunconsumed, hbody⟩ := check_bind_eq_ok.mp hbody
  split at hbody
  · cases hbody
    cases h
  · rename_i hlater
    cases outcome with
    | expired => cases h
    | ok =>
      cases h
      exact ⟨token, initialRefreshToken, invitation, now, rejoinSecretHash, rfl, rfl, hload,
        require_eq_ok.mp hunconsumed, readClock_eq_ok.mp hnow, Nat.not_le.mp hlater, hbody, rfl⟩

end

section
variable {invitation : InvitationRow} {deviceId userId : Id} {refreshTokenHash : TokenHash}
  {now : Timestamp} {sessionNow : Option Timestamp} {outcome : RedeemedApproveOutcome}
  {invitationId approverMembershipId : Id} {input : ApproveRedeemedDeviceInput}
  {clock : Option Timestamp} {attempts : ℕ} {pending : PendingApproval}
  {result : ApproveRedeemedDeviceResult}

theorem recordApprovalAttempts_run :
    recordApprovalAttempts invitationId attempts db =
      .ok () (afterAttempts db invitationId attempts) := rfl

theorem deletePendingUser_eq_ok {u : Unit} (h : deletePendingUser userId db = .ok u db') :
    (∀ deviceId ∈ devicesOf db [userId], deviceReferenced db deviceId = false) ∧
      db' = withoutUsers [userId] db := by
  unfold deletePendingUser deleteUsers at h
  obtain ⟨hfree, hwrite⟩ := guardedWrite_eq_ok.mp h
  exact ⟨hfree.1, hwrite⟩

/-- The membership an approval inserts. -/
def membershipRow (id : Id) (invitation : InvitationRow) (userId : Id) (now : Timestamp) :
    MembershipRow :=
  { id
    vaultId := invitation.vaultId
    userId
    role := invitation.intendedRole
    status := .active
    createdAt := now
    revokedAt := none
    kind := invitation.intendedKind }

/-- A matching code: the counter is cleared, the device admitted and its first
family created, in this order. -/
theorem admitDevice_eq_ok
    (h : admitDevice server invitation deviceId userId refreshTokenHash now sessionNow db =
      .ok outcome db') :
    ∃ membership family snow, membership =
        membershipRow (server.randomUuid db.issued) invitation userId now ∧
      (∀ stored ∈ db.memberships, stored.id ≠ membership.id ∧
        ¬ (stored.vaultId = membership.vaultId ∧ stored.userId = userId)) ∧
      (∃ user ∈ db.users, user.id = userId) ∧
      sessionNow = some snow ∧
      createFamily server userId deviceId refreshTokenHash server.refreshTokenTtlSeconds snow
        (afterAdmission (afterAttempts db invitation.id 0) deviceId membership now
          (db.issued + 1)) = .ok family db' ∧
      outcome = .ok { deviceId, familyId := family.familyId, membershipId := membership.id, userId } := by
  unfold admitDevice at h
  obtain ⟨_, attempted, hattempts, h⟩ := bind_eq_ok.mp h
  rw [recordApprovalAttempts_run] at hattempts
  cases hattempts
  unfold approveDevice at h
  obtain ⟨_, approved, happrove, h⟩ := bind_eq_ok.mp h
  obtain ⟨-, rfl⟩ := updateOne_eq_ok.mp happrove
  rw [newUuid_bind] at h
  obtain ⟨hfree, h⟩ := guardedWrite_bind_eq_ok.mp h
  obtain ⟨family, last, hfamily, h⟩ := bind_eq_ok.mp h
  cases h
  obtain ⟨tokenHash, snow, htoken, hclock, hcreate⟩ := createInitialFamilyFromHash_eq_ok hfamily
  cases htoken
  exact ⟨_, family, snow, rfl, hfree.1, hfree.2.2, hclock, hcreate, rfl⟩

/-- A wrong code: counted, and the last one allowed removes the user. -/
theorem countMismatch_eq_ok (h : countMismatch invitation userId db = .ok outcome db') :
    (invitation.approvalAttempts + 1 < maxApprovalAttempts ∧
        outcome = .mismatch (maxApprovalAttempts - (invitation.approvalAttempts + 1)) ∧
        db' = afterAttempts db invitation.id (invitation.approvalAttempts + 1)) ∨
      (maxApprovalAttempts ≤ invitation.approvalAttempts + 1 ∧ outcome = .locked ∧
        (∀ deviceId ∈ devicesOf db [userId], deviceReferenced
          (afterAttempts db invitation.id (invitation.approvalAttempts + 1)) deviceId = false) ∧
        db' = withoutUsers [userId]
          (afterAttempts db invitation.id (invitation.approvalAttempts + 1))) := by
  unfold countMismatch at h
  split at h
  · rename_i hlast
    obtain ⟨_, attempted, hattempts, h⟩ := bind_eq_ok.mp h
    rw [recordApprovalAttempts_run] at hattempts
    cases hattempts
    obtain ⟨_, deleted, hdelete, h⟩ := bind_eq_ok.mp h
    obtain ⟨hfree, rfl⟩ := deletePendingUser_eq_ok hdelete
    cases h
    exact .inr ⟨hlast, rfl, hfree, rfl⟩
  · rename_i hlast
    cases h
    exact .inl ⟨Nat.not_le.mp hlast, rfl, rfl⟩

/-- What an approval looked at before it compared the codes. -/
structure Approvable (db : AuthDatabase) (invitationId approverMembershipId : Id) (now : Timestamp)
    (invitation : InvitationRow) (pending : PendingApproval) : Prop where
  invitation_mem : invitation ∈ db.invitations
  invitation_id : invitation.id = invitationId
  owner : ∃ owner ∈ db.memberships, owner.id = approverMembershipId ∧
    ownerOf owner invitation.vaultId = true
  device_eq : invitation.pendingDeviceId = some pending.deviceId
  user_eq : invitation.consumedByUserId = some pending.userId
  hash_eq : invitation.pendingRefreshTokenHash = some pending.refreshTokenHash
  recent : ∃ consumedAt, invitation.consumedAt = some consumedAt ∧
    now < consumedAt + pendingApprovalTtlSeconds * 1000
  device_pending : ∃ device ∈ db.devices, device.id = pending.deviceId ∧ device.status = .pending

theorem approveInTransaction_eq_ok {suppliedPhrase : ℕ}
    (h : approveInTransaction server invitationId approverMembershipId suppliedPhrase now sessionNow
      db = .ok outcome db') :
    ∃ invitation pending, Approvable db invitationId approverMembershipId now invitation pending ∧
      ((suppliedPhrase ≠ invitation.verificationSecret ∧
          countMismatch invitation pending.userId db = .ok outcome db') ∨
        (suppliedPhrase = invitation.verificationSecret ∧
          admitDevice server invitation pending.deviceId pending.userId pending.refreshTokenHash now
            sessionNow db = .ok outcome db')) := by
  unfold approveInTransaction at h
  rw [get_bind] at h
  obtain ⟨invitation, hload, h⟩ := check_bind_eq_ok.mp h
  rw [get_bind] at h
  obtain ⟨owner, howner, h⟩ := check_bind_eq_ok.mp h
  rw [get_bind] at h
  obtain ⟨pending, hpending, h⟩ := check_bind_eq_ok.mp h
  obtain ⟨hmem, hid⟩ := loadInvitationById_eq_ok hload
  obtain ⟨hdevice, huser, hhash, hrecent, device, hfind, hstatus⟩ :=
    requirePendingDevice_eq_ok hpending
  obtain ⟨hdeviceMem, hdeviceId⟩ := find?_key hfind
  have happrovable : Approvable db invitationId approverMembershipId now invitation pending :=
    ⟨hmem, hid, ⟨owner, requireOwnerMembership_eq_ok howner⟩, hdevice, huser, hhash, hrecent,
      device, hdeviceMem, hdeviceId, hstatus⟩
  refine ⟨invitation, pending, happrovable, ?_⟩
  split at h
  · rename_i hwrong
    exact .inl ⟨hwrong, h⟩
  · rename_i hright
    exact .inr ⟨not_not.mp hright, h⟩

/-- A counted attempt survives the error thrown after it. -/
theorem approve_storeAfter {P : AuthDatabase → Prop} (h : P db)
    (hcommit : ∀ suppliedPhrase now outcome db', input.verificationPhrase = some suppliedPhrase →
      clock = some now →
      approveInTransaction server input.invitationId input.approverMembershipId suppliedPhrase now
        sessionNow db = .ok outcome db' → P db') :
    P (storeAfter (approveRedeemedDevice server input clock sessionNow) db) := by
  apply Ends.storeAfter
  unfold approveRedeemedDevice
  cases hphrase : input.verificationPhrase with
  | none => exact ends_throw h
  | some suppliedPhrase =>
    refine .check (fun now hnow => ?_) fun _ => h
    refine Ends.bind (ends_transaction (fun outcome db' hresult => ?_) fun _ => h)
    have hdb' := hcommit suppliedPhrase now outcome db' hphrase (readClock_eq_ok.mp hnow) hresult
    cases outcome with
    | mismatch => exact ends_throw hdb'
    | locked => exact ends_throw hdb'
    | ok => exact ends_pure hdb'

theorem Approvable.awaits
    (h : Approvable db invitationId approverMembershipId now invitation pending) :
    AwaitsApproval db invitation :=
  ⟨pending.deviceId, h.device_eq, h.device_pending⟩

/-- The invitation as it stands once its attempts are counted. -/
theorem attempted_mem (hmem : invitation ∈ db.invitations) :
    { invitation with approvalAttempts := attempts } ∈
      (afterAttempts db invitation.id attempts).invitations :=
  mem_updateWhere.mpr (.inr ⟨invitation, hmem, decide_eq_true rfl, rfl⟩)

theorem countMismatch_mismatched (huser : invitation.consumedByUserId = some userId)
    (h : countMismatch invitation userId db = .ok outcome db') : Mismatched invitation db db' := by
  rcases countMismatch_eq_ok h with ⟨hbounded, -, rfl⟩ | ⟨-, -, hfree, rfl⟩
  · exact .counted hbounded
  · exact .locked huser hfree

/-- The approval of an approvable device: its membership, then its session. -/
theorem admitDevice_admitted
    (happrovable : Approvable db invitationId approverMembershipId now invitation pending)
    (hbase : base ≤ db.issued)
    (h : admitDevice server invitation pending.deviceId pending.userId refreshTokenHash now sessionNow
      db = .ok outcome db') :
    ∃ membership family token issued,
      Admitted server base (afterAttempts db invitation.id 0)
        { invitation with approvalAttempts := 0 } pending.deviceId membership (db.issued + 1) ∧
      Opening server base (afterAdmission (afterAttempts db invitation.id 0) pending.deviceId
        membership now (db.issued + 1)) family token issued ∧
      family.deviceId = pending.deviceId ∧
      db' = afterOpening (afterAdmission (afterAttempts db invitation.id 0) pending.deviceId
        membership now (db.issued + 1)) family token issued := by
  obtain ⟨membership, result, snow, hmembership, hfree, huser, -, hfamily, -⟩ := admitDevice_eq_ok h
  have hadmitted : Admitted server base (afterAttempts db invitation.id 0)
      { invitation with approvalAttempts := 0 } pending.deviceId membership (db.issued + 1) := by
    subst hmembership
    exact
      { issued_le := Nat.le_succ _
        invitation_mem := attempted_mem happrovable.invitation_mem
        device_eq := happrovable.device_eq
        user_eq := happrovable.user_eq
        pending := happrovable.device_pending
        vault_eq := rfl
        membership_new := ⟨db.issued, hbase, Nat.lt_succ_self _, rfl⟩
        membership_free := hfree
        user_mem := huser }
  have hsettled : Settled (afterAdmission (afterAttempts db invitation.id 0) pending.deviceId
      membership now (db.issued + 1)) pending.deviceId := by
    obtain ⟨device, hdevice, hid, hpending⟩ := happrovable.device_pending
    refine ⟨_, mem_updateWhere.mpr (.inr ⟨device, hdevice, ?_, rfl⟩), hid, by simp⟩
    exact decide_eq_true ⟨hid, hpending⟩
  obtain ⟨family, token, issued, opening, -, -, hdevice, -, rfl⟩ :=
    createFamily_opening (Nat.le_succ_of_le hbase) hsettled hfamily
  exact ⟨membership, family, token, issued, hadmitted, opening, hdevice, rfl⟩

/-- An approval that returns was made with the stored code. -/
theorem approveRedeemedDevice_eq_ok
    (h : approveRedeemedDevice server input clock sessionNow db = .ok result db') :
    ∃ now invitation pending, clock = some now ∧
      Approvable db input.invitationId input.approverMembershipId now invitation pending ∧
      input.verificationPhrase = some invitation.verificationSecret ∧
      admitDevice server invitation pending.deviceId pending.userId pending.refreshTokenHash now sessionNow
        db = .ok (.ok result) db' ∧
      result.deviceId = pending.deviceId := by
  unfold approveRedeemedDevice at h
  cases hphrase : input.verificationPhrase with
  | none =>
    rw [hphrase] at h
    cases h
  | some suppliedPhrase =>
    rw [hphrase] at h
    obtain ⟨now, hnow, h⟩ := check_bind_eq_ok.mp h
    obtain ⟨outcome, mid, hbody, h⟩ := bind_eq_ok.mp h
    rw [transaction_eq_ok] at hbody
    obtain ⟨invitation, pending, happrovable, hend⟩ := approveInTransaction_eq_ok hbody
    rcases hend with ⟨-, hcount⟩ | ⟨hcode, hadmission⟩
    · rcases countMismatch_eq_ok hcount with ⟨-, rfl, -⟩ | ⟨-, rfl, -⟩
      · cases h
      · cases h
    · obtain ⟨_, _, _, _, _, _, _, _, hresult⟩ := admitDevice_eq_ok hadmission
      subst hresult
      cases h
      exact ⟨now, invitation, pending, readClock_eq_ok.mp hnow, happrovable, by rw [hcode], hadmission,
        rfl⟩

/-- The approved device is past its approval. -/
theorem approved_settled
    (h : approveRedeemedDevice server input clock sessionNow db = .ok result db') :
    Settled db' result.deviceId := by
  obtain ⟨now, invitation, pending, -, happrovable, -, hadmission, hdevice⟩ :=
    approveRedeemedDevice_eq_ok h
  obtain ⟨membership, family, token, issued, -, opening, hbound, rfl⟩ :=
    admitDevice_admitted happrovable (Nat.le_refl _) hadmission
  have hsettled := opening.device_settled
  rw [hbound] at hsettled
  rw [hdevice]
  exact hsettled

/-- The call presents the invitation's own code, in time, as an active owner of its vault. -/
structure Presented (db : AuthDatabase) (input : ApproveRedeemedDeviceInput)
    (clock : Option Timestamp) (invitation : InvitationRow) : Prop where
  invitation_id : invitation.id = input.invitationId
  code : input.verificationPhrase = some invitation.verificationSecret
  owner : ∃ owner ∈ db.memberships, owner.id = input.approverMembershipId ∧
    ownerOf owner invitation.vaultId = true
  recent : ∃ now consumedAt, clock = some now ∧ invitation.consumedAt = some consumedAt ∧
    now < consumedAt + pendingApprovalTtlSeconds * 1000

theorem approve_outcome :
    Outcome server ⟨False, Presented db input clock⟩ db
      (storeAfter (approveRedeemedDevice server input clock sessionNow) db) := by
  refine approve_storeAfter (.changed .refl) fun suppliedPhrase now outcome db' hphrase hnow h => ?_
  obtain ⟨invitation, pending, happrovable, ⟨-, hcount⟩ | ⟨hcode, hadmission⟩⟩ :=
    approveInTransaction_eq_ok h
  · exact .mismatched happrovable.invitation_mem happrovable.awaits
      (countMismatch_mismatched happrovable.user_eq hcount)
  · obtain ⟨_, _, _, _, hadmitted, opening, hdevice, rfl⟩ :=
      admitDevice_admitted happrovable (Nat.le_refl _) hadmission
    obtain ⟨consumedAt, hconsumed, hrecent⟩ := happrovable.recent
    have hpresented : Presented db input clock invitation :=
      { invitation_id := happrovable.invitation_id
        code := hcode ▸ hphrase
        owner := happrovable.owner
        recent := ⟨now, consumedAt, hnow, hconsumed, hrecent⟩ }
    exact .approved happrovable.invitation_mem hpresented (.mk hadmitted opening hdevice)

end

variable {input : RejectPendingDeviceInput}

/-- The checks a rejection makes all pass on the invitation. -/
def Rejectable (db : AuthDatabase) (input : RejectPendingDeviceInput) (invitation : InvitationRow) :
    Prop :=
  (∃ owner ∈ db.memberships, owner.id = input.approverMembershipId ∧
    ownerOf owner invitation.vaultId = true) ∧
  invitation.pendingDeviceId ≠ none ∧
  ∃ userId, invitation.consumedByUserId = some userId ∧
    (∀ deviceId ∈ devicesOf db [userId], deviceReferenced db deviceId = false) ∧
    ∀ membershipId ∈ membershipsOf db [userId], membershipReferenced db membershipId = false

/-- A rejection asks for a device, pending or not. -/
theorem rejectPendingDevice_eq_ok {u : Unit} (h : rejectPendingDevice input db = .ok u db') :
    ∃ invitation ∈ db.invitations, invitation.id = input.invitationId ∧
      Rejectable db input invitation ∧
      ∃ userId, invitation.consumedByUserId = some userId ∧
        (∀ deviceId ∈ devicesOf db [userId], deviceReferenced db deviceId = false) ∧
        db' = withoutUsers [userId] db := by
  unfold rejectPendingDevice at h
  rw [transaction_eq_ok, get_bind] at h
  obtain ⟨invitation, hload, h⟩ := check_bind_eq_ok.mp h
  rw [get_bind] at h
  obtain ⟨owner, howner, h⟩ := check_bind_eq_ok.mp h
  obtain ⟨hmem, hid⟩ := loadInvitationById_eq_ok hload
  cases hdevice : invitation.pendingDeviceId with
  | none =>
    rw [hdevice] at h
    cases h
  | some deviceId =>
    cases huser : invitation.consumedByUserId with
    | none =>
      rw [hdevice, huser] at h
      cases h
    | some userId =>
      rw [hdevice, huser] at h
      unfold deletePendingUser deleteUsers at h
      obtain ⟨hfree, rfl⟩ := guardedWrite_eq_ok.mp h
      have hrejectable : Rejectable db input invitation :=
        ⟨⟨owner, requireOwnerMembership_eq_ok howner⟩, by simp [hdevice], userId, huser, hfree⟩
      exact ⟨invitation, hmem, hid, hrejectable, userId, huser, hfree.1, rfl⟩

/-- Nothing else stands in the way of a rejection. -/
theorem rejectPendingDevice_of_rejectable (invitations : Keyed InvitationRow.id db.invitations)
    (memberships : Keyed MembershipRow.id db.memberships) {invitation : InvitationRow}
    (hmem : invitation ∈ db.invitations) (hid : invitation.id = input.invitationId)
    (h : Rejectable db input invitation) : ∃ db', rejectPendingDevice input db = .ok () db' := by
  obtain ⟨⟨owner, howner, hownerId, hownerOf⟩, hdevice, userId, huser, hfree⟩ := h
  obtain ⟨deviceId, hdevice⟩ := Option.ne_none_iff_exists'.mp hdevice
  have hload : loadInvitationById db input.invitationId = .ok invitation := by
    unfold loadInvitationById
    rw [invitations.find? hmem hid]
  have hrequire : requireOwnerMembership db input.approverMembershipId invitation.vaultId =
      .ok owner := by
    unfold requireOwnerMembership
    rw [memberships.find? howner hownerId]
    dsimp only
    rw [if_pos hownerOf]
  refine ⟨withoutUsers [userId] db, transaction_eq_ok.mpr ?_⟩
  rw [get_bind, check_bind_eq_ok]
  refine ⟨invitation, hload, ?_⟩
  rw [get_bind, check_bind_eq_ok]
  refine ⟨owner, hrequire, ?_⟩
  rw [hdevice, huser]
  change deletePendingUser userId db = _
  unfold deletePendingUser deleteUsers
  exact guardedWrite_eq_ok.mpr ⟨hfree, rfl⟩

theorem rejectPendingDevice_eq_error {e : AuthError}
    (h : rejectPendingDevice input db = .error e db') : db' = db :=
  (transaction_eq_error.mp h).1

/-- A rejection that deletes nobody but a user who awaits approval. -/
theorem reject_changes
    (hpending : ∀ invitation ∈ db.invitations, invitation.id = input.invitationId →
      Rejectable db input invitation → AwaitsApproval db invitation) :
    Changes server permit base db (storeAfter (rejectPendingDevice input) db) := by
  apply Ends.storeAfter
  refine ends_iff.mpr ⟨fun _ db' h => ?_, fun e db' h => ?_⟩
  · obtain ⟨invitation, hmem, hid, hrejectable, userId, huser, hfree, rfl⟩ :=
      rejectPendingDevice_eq_ok h
    refine .single (.removed (fun id hin => ?_) hfree)
    rw [mem_singleton.mp hin]
    exact ⟨invitation, hmem, huser, hpending invitation hmem hid hrejectable⟩
  · rw [rejectPendingDevice_eq_error h]
    exact .refl

theorem reject_committed :
    Committed server permit db (storeAfter (rejectPendingDevice input) db) := by
  apply Ends.storeAfter
  refine ends_iff.mpr ⟨fun _ db' h => ?_, fun e db' h => ?_⟩
  · obtain ⟨invitation, hmem, -, -, userId, huser, hfree, rfl⟩ := rejectPendingDevice_eq_ok h
    by_cases hawaits : AwaitsApproval db invitation
    · refine .inl (.changed (.single (.removed (fun id hid => ?_) hfree)))
      rw [mem_singleton.mp hid]
      exact ⟨invitation, hmem, huser, hawaits⟩
    · exact .inr ⟨userId, invitation, hmem, huser, hawaits, hfree, rfl⟩
  · rw [rejectPendingDevice_eq_error h]
    exact .inl (.changed .refl)

theorem mem_abandonedUsers {pendingCutoff : ℤ} {userId : Id}
    (h : userId ∈ abandonedUsers pendingCutoff db) :
    ∃ invitation ∈ db.invitations, invitation.consumedByUserId = some userId ∧
      AwaitsApproval db invitation := by
  obtain ⟨invitation, hinvitation, huser⟩ := mem_filterMap.mp h
  obtain ⟨hmem, hhit⟩ := mem_filter.mp hinvitation
  obtain ⟨-, hpending⟩ := of_decide_eq_true hhit
  obtain ⟨deviceId, hdevice, hany⟩ := Option.any_eq_true _ _ |>.mp hpending
  obtain ⟨device, hdeviceMem, hdeviceHit⟩ := any_eq_true.mp hany
  exact ⟨invitation, hmem, huser, deviceId, hdevice, device, hdeviceMem,
    of_decide_eq_true hdeviceHit⟩

theorem pruneExpiredRecords_outcome {now : Timestamp} :
    Outcome server permit db (storeAfter (pruneExpiredRecords now) db) := by
  apply Ends.storeAfter
  refine ends_transaction (fun _ db' h => ?_) fun _ => .changed .refl
  unfold pruneRefreshTokens pruneAccessTokens deleteUsers at h
  rw [modify_bind, modify_bind] at h
  obtain ⟨hfree, rfl⟩ := guardedWrite_eq_ok.mp h
  refine .pruned ⟨_, _, rfl⟩ (.single (.removed (fun userId huser => ?_) hfree.1))
  exact mem_abandonedUsers huser

end Havemind.InvitationChanges
