import Havemind.PairingStanding

/-!
The services beside the pairing of a device: whatever they commit keeps every
pairing. Rotations and reuse keep the first token's hash, housekeeping only
deletes tokens, and a deletion of users is refused for a paired device's user.
-/
namespace Havemind.PairingServices

open RevisionSchema Transaction Endings AuthTables AuthChanges AuthSoundness SessionRepository
  SessionChanges Invitations InvitationChanges MembershipRevocation RejoinGrants OwnerSetup
  AgentEnrollment PruneExpired AccountChanges AuthRuns PairingStanding
open ServerDatabase (DeviceStatus)

variable {server : AuthServer} {db mid db' : AuthDatabase}

section
variable {clock : Option Timestamp} {now : Timestamp} {invitation : InvitationRow}
  {refreshTokenHash : TokenHash} {sessionNow : Option Timestamp}

theorem createInvitation_kept {input : CreateInvitationInput} {secrets : InvitationSecrets} :
    PairingsKept db (storeAfter (createInvitation server input secrets clock) db) := by
  refine createInvitation_store .refl (kept_of_tables rfl rfl rfl rfl rfl) fun result db' h => ?_
  obtain ⟨_, _, -, -, -, -, -, -, -, rfl⟩ := createInvitation_eq_ok h
  exact kept_of_tables rfl rfl rfl rfl rfl

theorem redemption_kept {user : UserRow} {device : DeviceRow} {credentialHash : TokenHash}
    {issued : ℕ} (hfree : ∀ stored ∈ db.devices, stored.id ≠ device.id) :
    PairingsKept db
      (afterRedemption db invitation user device now credentialHash refreshTokenHash issued) := by
  refine ((deviceAdded_moved hfree).kept rfl).trans ?_
  exact kept_of_tables rfl rfl rfl rfl rfl

theorem redeem_kept {input : RedeemForOnboardingInput} {pendingCredential : Token} : PairingsKept db
      (storeAfter (redeemInvitationForOnboarding server input pendingCredential clock) db) := by
  refine redeem_storeAfter .refl (fun _ _ _ _ => kept_of_tables rfl rfl rfl rfl rfl) ?_
  intro invitation _ now _ _ _ outcome db' _ _ h
  obtain ⟨user, device, -, -, -, -, -, -, hfree, -, rfl⟩ := redeemLive_eq_ok h
  exact redemption_kept hfree

/-- The device an approval admits was pending, so it is nobody's paired device. -/
theorem admitDevice_kept {deviceId userId : Id} {outcome : RedeemedApproveOutcome}
    (hpending : ∃ device ∈ db.devices, device.id = deviceId ∧ device.status = .pending)
    (h : admitDevice server invitation deviceId userId refreshTokenHash now sessionNow db =
      .ok outcome db') : PairingsKept db db' := by
  obtain ⟨membership, family, snow, -, hfree, -, -, hcreate, -⟩ := admitDevice_eq_ok h
  obtain ⟨-, -, hfamilyFree, hdevice, -, rfl⟩ := createFamily_eq_ok hcreate
  have hattempts : PairingsKept db (afterAttempts db invitation.id 0) :=
    kept_of_tables rfl rfl rfl rfl rfl
  have hadmitted : PairingsKept db (afterAdmission (afterAttempts db invitation.id 0) deviceId
      membership now (db.issued + 1)) :=
    hattempts.trans (admission_kept fun stored hstored => (hfree stored hstored).1)
  refine hadmitted.opened hfamilyFree rfl hdevice fun pairing pairedId familyId refreshHash hpaired => ?_
  rintro rfl
  obtain ⟨device, hmem, hid, hstatus⟩ := hpending
  exact (hpaired.device device hmem hid).2.1 hstatus

theorem approve_kept {input : ApproveRedeemedDeviceInput} :
    PairingsKept db (storeAfter (approveRedeemedDevice server input clock sessionNow) db) := by
  refine approve_storeAfter .refl fun suppliedPhrase now outcome db' _ _ h => ?_
  obtain ⟨invitation, pending, happrovable, hend⟩ := approveInTransaction_eq_ok h
  rcases hend with ⟨-, hcount⟩ | ⟨-, hadmission⟩
  · have hattempts : ∀ attempts, PairingsKept db (afterAttempts db invitation.id attempts) :=
      fun _ => kept_of_tables rfl rfl rfl rfl rfl
    rcases countMismatch_eq_ok hcount with ⟨-, -, rfl⟩ | ⟨-, -, hunreferenced, rfl⟩
    · exact hattempts _
    · exact (hattempts _).trans (withoutUsers_kept hunreferenced)
  · exact admitDevice_kept happrovable.device_pending hadmission

theorem reject_kept {input : RejectPendingDeviceInput} :
    PairingsKept db (storeAfter (rejectPendingDevice input) db) := by
  apply Ends.storeAfter
  refine ends_iff.mpr ⟨fun _ db' h => ?_, fun e db' h => ?_⟩
  · obtain ⟨invitation, -, -, -, userId, -, hunreferenced, rfl⟩ := rejectPendingDevice_eq_ok h
    exact withoutUsers_kept hunreferenced
  · rw [rejectPendingDevice_eq_error h]
    exact .refl

theorem pruneExpiredRecords_kept : PairingsKept db (storeAfter (pruneExpiredRecords now) db) := by
  apply Ends.storeAfter
  refine ends_transaction (fun _ db' h => ?_) fun _ => .refl
  unfold pruneRefreshTokens pruneAccessTokens deleteUsers at h
  rw [modify_bind, modify_bind] at h
  obtain ⟨hfree, rfl⟩ := guardedWrite_eq_ok.mp h
  refine PairingsKept.trans ?_ (withoutUsers_kept hfree.1)
  have moved : TablesMoved db
      { db with
        refreshTokens := db.refreshTokens.filter fun row => row.familyId ∉
          (db.families.filter fun row => textBefore row.expiresAt (now - pruneGraceMs)).map
            FamilyRow.id
        accessTokens := db.accessTokens.filter fun row =>
          ¬ textBefore row.expiresAt (now - pruneGraceMs) } :=
    { TablesMoved.refl with
      tokens := fun token htoken hzero => .inl ⟨token, (List.mem_filter.mp htoken).1, rfl, hzero, rfl⟩
      token_families := fun h token htoken => h token (List.mem_filter.mp htoken).1 }
  exact moved.kept rfl

end

section
variable {clock : Option Timestamp} {deviceNow : Id → Option Timestamp}

theorem rotateRefresh_kept {input : RotateRefreshInput} {accessToken : Token} :
    PairingsKept db (storeAfter (rotateRefresh server input clock accessToken) db) := by
  refine rotateRefresh_storeAfter .refl fun prepared now result db' _ _ h => ?_
  obtain ⟨row, hrow, -, -, hend⟩ := rotateInTransaction_eq_ok h
  obtain ⟨-, -, hfamily, -⟩ := loadRefreshRow_eq_some hrow
  rcases hend with ⟨-, -, access, haccess, -⟩ | ⟨-, -, -, hcurrent⟩ | ⟨-, rfl, -⟩
  · obtain ⟨-, -, -, rfl⟩ := issueAccess_eq_ok haccess
    exact kept_of_tables rfl rfl rfl rfl rfl
  · obtain ⟨successor, access, hsuccessor, -, -, -, haccess, -, -⟩ := rotateCurrent_eq_ok hcurrent
    have hlater : successor.generation ≠ 0 := by
      rw [hsuccessor]
      exact Nat.succ_ne_zero _
    have hrotated : PairingsKept db (afterRotation db row.token row.family successor
        prepared.rotationId now (db.issued + 1)) := by
      refine rotation_kept hlater ⟨row.family, hfamily, ?_⟩
      rw [hsuccessor]
      rfl
    obtain ⟨-, -, -, rfl⟩ := issueAccess_eq_ok haccess
    exact hrotated.trans (kept_of_tables rfl rfl rfl rfl rfl)
  · exact reuse_kept

theorem revokeDevices_kept {deviceIds : List Id} {u : Unit}
    (h : revokeDevices deviceNow deviceIds db = .ok u db') : PairingsKept db db' := by
  induction deviceIds generalizing db with
  | nil =>
    cases h
    exact .refl
  | cons deviceId rest ih =>
    obtain ⟨_, mid, hdevice, h⟩ := bind_eq_ok.mp h
    obtain ⟨now, -, rfl⟩ := revokeDevice_eq_ok hdevice
    exact deviceRevocation_kept.trans (ih h)

theorem revokeMembership_kept {membershipId : Id} :
    PairingsKept db (storeAfter (revokeMembership membershipId clock deviceNow) db) := by
  apply Ends.storeAfter
  refine ends_iff.mpr ⟨fun id db' h => ?_, fun e db' h => ?_⟩
  · obtain ⟨now, _, -, -, -, hdevices⟩ := revokeMembership_eq_ok h
    exact membershipRevoked_kept.trans (revokeDevices_kept hdevices)
  · unfold revokeMembership at h
    cases clock with
    | none =>
      cases h
      exact .refl
    | some now =>
      obtain ⟨rfl, -⟩ := transaction_eq_error.mp h
      exact .refl

theorem createGrant_kept {input : CreateRejoinGrantInput} :
    PairingsKept db (storeAfter (createGrant server input clock) db) := by
  have hends : Ends (createGrant server input clock) db (fun _ _ => True) fun _ s' => s' = db := by
    unfold createGrant
    refine .check (fun now _ => ?_) fun _ => rfl
    refine .check (fun expiresAt _ => ?_) fun _ => rfl
    exact ends_transaction (fun _ _ _ => trivial) fun _ => rfl
  apply Ends.storeAfter
  refine ends_iff.mpr ⟨fun result db' h => ?_, fun e db' h => ?_⟩
  · obtain ⟨grant, -, -, -, -, rfl⟩ := createGrant_eq_ok h
    exact kept_of_tables rfl rfl rfl rfl rfl
  · rw [(ends_iff.mp hends).2 e db' h]
    exact .refl

/-- The device a grant is redeemed for has a rejoin secret, so it is nobody's
paired device. -/
theorem redeemGrant_kept {input : RedeemRejoinGrantInput} {sessionNow : Option Timestamp} :
    PairingsKept db (storeAfter (redeemGrant server input clock sessionNow) db) := by
  apply Ends.storeAfter
  refine ends_iff.mpr ⟨fun result db' h => ?_, fun e db' h => ?_⟩
  · obtain ⟨now, grant, membership, family, token, issued, -, hredeemable, opening, hdevice, -, rfl⟩ :=
      redeemGrant_eq_ok h
    have hconsumed : PairingsKept db (afterGrantConsumed db grant.id now) :=
      kept_of_tables rfl rfl rfl rfl rfl
    have htoken : token.familyId = family.id := by
      rw [opening.token_eq]
      rfl
    have hstored : ∃ device ∈ db.devices, device.id = family.deviceId := by
      obtain ⟨device, hmem, hid, -⟩ := hredeemable.device
      exact ⟨device, hmem, hid.trans hdevice.symm⟩
    refine hconsumed.opened opening.family_free htoken hstored
      fun pairing pairedId familyId refreshHash hpaired => ?_
    rw [hdevice]
    rintro rfl
    obtain ⟨device, hmem, hid, -, -, secret, -, hsecret⟩ := hredeemable.device
    rw [(hpaired.device device hmem hid).2.2] at hsecret
    cases hsecret
  · rw [redeemGrant_eq_error h]
    exact .refl

end

variable {input : ClaimInput} {clock : Option Timestamp} {bearer : Bearer}
  {row : AgentEnrollmentRow} {attempt : ClaimAttempt} {attempts : ℕ → ClaimAttempt}

theorem enroll_kept {input : EnrollInput} :
    PairingsKept db (storeAfter (enroll server input clock) db) := by
  apply Ends.storeAfter
  refine ends_transaction (fun id db' h => ?_) fun _ => .refl
  rw [get_bind] at h
  obtain ⟨_, -, h⟩ := check_bind_eq_ok.mp h
  rw [newUuid_bind] at h
  obtain ⟨now, -, h⟩ := check_bind_eq_ok.mp h
  obtain ⟨-, h⟩ := guardedWrite_bind_eq_ok.mp h
  cases h
  exact kept_of_tables rfl rfl rfl rfl rfl

theorem enrolled_kept {name : JsText.JsString} :
    PairingsKept db (enrolled server db bearer name clock) := by
  unfold enrolled
  split
  · split
    · exact enroll_kept
    · exact .refl
  · exact .refl

theorem pushed_kept : PairingsKept db (pushed server db bearer) := by
  unfold pushed
  split
  · apply Ends.storeAfter
    exact ends_guardedWrite (fun _ => kept_of_tables rfl rfl rfl rfl rfl) .refl
  · exact .refl

instance : Std.Refl PairingsKept := ⟨fun _ => .refl⟩

instance : IsTrans AuthDatabase PairingsKept := ⟨fun _ _ _ => PairingsKept.trans⟩

theorem preserves_of_storeAfter {α : Type} {x : Auth α}
    (h : ∀ db, PairingsKept db (storeAfter x db)) : Preserves PairingsKept x :=
  fun db => Ends.everywhere (h db)

theorem preserves_check {α : Type} {x : Except AuthError α} :
    Preserves PairingsKept (check x : Auth α) := fun _ => ends_check (fun _ _ => .refl) fun _ _ => .refl

theorem admitAgent_preserves : Preserves PairingsKept (admitAgent server row input attempt) := by
  unfold admitAgent
  refine (preserves_of_storeAfter fun _ => createInvitation_kept).bind fun invitation => ?_
  refine (preserves_of_storeAfter fun _ => redeem_kept).bind fun redeemed => ?_
  exact preserves_of_storeAfter fun _ => approve_kept

theorem complete_preserves : Preserves PairingsKept (complete server row input attempt) := by
  unfold complete
  refine preserves_check.bind fun now => ?_
  refine Preserves.bind (Preserves.catching ?_ fun e => ?_) fun result => ?_
  · exact fun db => Ends.map (admitAgent_preserves db)
  · split
    · refine Preserves.bind (preserves_modify fun _ => ?_) fun _ => preserves_pure
      exact kept_of_tables rfl rfl rfl rfl rfl
    · exact preserves_throw
  · cases result with
    | none => exact preserves_pure
    | some result =>
      refine Preserves.bind (fun db => ends_guardedWrite (fun _ => ?_) .refl) fun _ => ?_
      · exact kept_of_tables rfl rfl rfl rfl rfl
      · refine preserves_get_bind fun db => ?_
        split
        · exact preserves_throw
        · exact preserves_pure

theorem claimWaiting_preserves {rounds : ℕ} :
    Preserves PairingsKept (claimWaiting server input attempts rounds) := by
  induction rounds with
  | zero => exact preserves_pure
  | succ rounds ih =>
    unfold claimWaiting
    refine preserves_get_bind fun db => ?_
    cases nextEnrollment db with
    | none => exact preserves_pure
    | some row =>
      refine complete_preserves.bind fun result => ?_
      cases result with
      | some claimed => exact preserves_pure
      | none => exact ih

theorem claim_kept : PairingsKept db (storeAfter (claim server input attempts) db) := by
  apply Ends.storeAfter
  refine ends_transaction (fun result db' h => ?_) fun _ => .refl
  rw [get_bind] at h
  cases hclaimed : findClaimed db input.redemptionId with
  | some claimed =>
    rw [hclaimed] at h
    cases h
    exact .refl
  | none =>
    rw [hclaimed] at h
    exact (ends_iff.mp (claimWaiting_preserves db)).1 result db' h

end Havemind.PairingServices
