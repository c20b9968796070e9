import Havemind.AccountChanges
import Havemind.AgentEnrollment

/-!
What a claim of an enrolled agent commits. The device it approves is the one its
own redemption created, so no device that was there before changes.
-/
namespace Havemind.AgentChanges

open RevisionSchema Transaction Endings KeyedTable AuthTables AuthChanges SessionRepository List
  Invitations InvitationChanges AgentEnrollment
open ServerDatabase (AccountStatus DeviceStatus)

variable {server : AuthServer} {permit : Permit} {base : ℕ} {db db' : AuthDatabase}

theorem enroll_changes {input : EnrollInput} {clock : Option Timestamp}
    (hsettled : Settled db input.ownerDeviceId) :
    Changes server permit base db (storeAfter (enroll server input clock) db) := by
  apply Ends.storeAfter
  refine ends_transaction (fun id db' h => ?_) fun _ => .refl
  rw [get_bind] at h
  obtain ⟨_, -, h⟩ := check_bind_eq_ok.mp h
  rw [newUuid_bind] at h
  obtain ⟨now, -, h⟩ := check_bind_eq_ok.mp h
  obtain ⟨-, h⟩ := guardedWrite_bind_eq_ok.mp h
  cases h
  refine .single (.enrollmentsSet (Nat.le_succ _) fun row hrow deviceId hdevice => ?_)
  rcases mem_append.mp hrow with hold | hnew
  · exact .inr ⟨row, hold, hdevice⟩
  · rw [mem_singleton.mp hnew] at hdevice
    rcases hdevice with rfl | hdevice
    · exact .inl hsettled
    · cases hdevice

variable {row : AgentEnrollmentRow} {input : ClaimInput} {attempt : ClaimAttempt} {id : Id}
  {now : Timestamp} {invitationInput : CreateInvitationInput} {secrets : InvitationSecrets}
  {createNow redeemNow : Option Timestamp} {created : CreateInvitationResult}
  {redeemInput : RedeemForOnboardingInput} {pendingCredential : Token}
  {redeemed : RedeemForOnboardingResult} {invited pending : AuthDatabase}
  {attempts : ℕ → ClaimAttempt}

theorem dropped_change :
    Change server permit base db
      { db with
        agentEnrollments := updateWhere (fun row => row.id = id)
          (fun row => { row with droppedAt := some now }) db.agentEnrollments } := by
  refine .enrollmentsSet (Nat.le_refl _) fun row hrow deviceId hdevice => ?_
  obtain ⟨stored, hstored, rfl | ⟨-, rfl⟩⟩ := of_mem_updateWhere hrow
  · exact .inr ⟨_, hstored, hdevice⟩
  · exact .inr ⟨stored, hstored, hdevice⟩

/-- The invitation a claim created is the one its redemption finds. -/
theorem invitation_of_claim
    (hcreate : createInvitation server invitationInput secrets createNow db = .ok created invited)
    (hinput : redeemInput.invitationToken = some created.invitationToken)
    (hredeem : redeemInvitationForOnboarding server redeemInput pendingCredential redeemNow invited =
      .ok redeemed pending) :
    ∃ user device now expiresAt initialRefreshToken,
      redeemInput.initialRefreshToken = some initialRefreshToken ∧
      device.id = server.randomUuid (db.issued + 2) ∧
      redeemed.verificationPhrase = secrets.verificationPin ∧
      pending = afterRedemption invited
        (invitationRow server invitationInput secrets db.issued expiresAt) user device now
        (server.hashToken pendingCredential) (server.hashToken initialRefreshToken)
        (invited.issued + 1) ∧
      ∀ invitation ∈ pending.invitations, invitation.id = created.invitationId →
        invitation = redeemedInvitation user.id device.id now (server.hashToken pendingCredential)
          (server.hashToken initialRefreshToken)
          (invitationRow server invitationInput secrets db.issued expiresAt) := by
  obtain ⟨_, expiresAt, -, -, -, -, hfree, hid, htoken, rfl⟩ := createInvitation_eq_ok hcreate
  obtain ⟨token, initialRefreshToken, invitation, now, _, htokenEq, hinitial, hload, hunconsumed, -,
    -, hlive, -⟩ := redeemInvitationForOnboarding_eq_ok hredeem
  obtain ⟨hmem, hhash⟩ := loadInvitationByHash_eq_ok hload
  have hsame : token = secrets.invitationToken :=
    Option.some.inj (htokenEq.symm.trans (hinput.trans (congrArg some htoken)))
  have hinvitation : invitation = invitationRow server invitationInput secrets db.issued expiresAt := by
    rcases mem_append.mp hmem with hold | hnew
    · exact absurd (hhash.trans (congrArg server.hashToken hsame)) (hfree invitation hold).2
    · exact mem_singleton.mp hnew
  obtain ⟨user, device, -, hdevice, -, -, -, -, -, houtcome, rfl⟩ := redeemLive_eq_ok hlive
  obtain ⟨-, hphrase⟩ := RedeemOutcome.ok.inj houtcome
  subst hinvitation
  refine ⟨user, device, now, expiresAt, initialRefreshToken, hinitial, hdevice, hphrase, rfl, ?_⟩
  intro other hother hotherId
  rcases mem_updateWhere.mp hother with ⟨hstored, hmiss⟩ | ⟨stored, hstored, hhit, rfl⟩
  · rcases mem_append.mp hstored with hold | hnew
    · exact absurd (hotherId.trans hid) (hfree other hold).1
    · refine absurd ?_ (of_decide_eq_false hmiss)
      rw [mem_singleton.mp hnew]
      exact ⟨rfl, rfl⟩
  · rcases mem_append.mp hstored with hold | hnew
    · exact absurd (hotherId.trans hid) (hfree stored hold).1
    · rw [mem_singleton.mp hnew]

/-- The device a claim's approval is about was drawn by its redemption. -/
theorem pending_of_claim
    (hcreate : createInvitation server invitationInput secrets createNow db = .ok created invited)
    (hinput : redeemInput.invitationToken = some created.invitationToken)
    (hredeem : redeemInvitationForOnboarding server redeemInput pendingCredential redeemNow invited =
      .ok redeemed pending) :
    pending.issued = db.issued + 3 ∧ created.invitationId = server.randomUuid (db.issued + 1) ∧
      ∀ invitation ∈ pending.invitations, invitation.id = created.invitationId →
        invitation.pendingDeviceId = some (server.randomUuid (db.issued + 2)) ∧
          invitation.approvalAttempts = 0 := by
  obtain ⟨user, device, now, expiresAt, _, -, hdevice, -, hpending, hinvitation⟩ :=
    invitation_of_claim hcreate hinput hredeem
  obtain ⟨_, _, -, -, -, -, -, hid, -, rfl⟩ := createInvitation_eq_ok hcreate
  refine ⟨hpending ▸ rfl, hid, fun invitation hmem hinvitationId => ?_⟩
  rw [hinvitation invitation hmem hinvitationId]
  exact ⟨congrArg some hdevice, rfl⟩

/-- An approval whose device was drawn in the same operation. -/
theorem approve_changes {approveInput : ApproveRedeemedDeviceInput}
    {clock sessionNow : Option Timestamp} (hbase : base ≤ db.issued)
    (hid : Drawn server base db.issued approveInput.invitationId)
    (hnew : ∀ invitation ∈ db.invitations, invitation.id = approveInput.invitationId →
      invitation.approvalAttempts = 0 ∧
        ∀ deviceId ∈ invitation.pendingDeviceId, Drawn server base db.issued deviceId) :
    Changes server permit base db
      (storeAfter (approveRedeemedDevice server approveInput clock sessionNow) db) := by
  refine approve_storeAfter .refl fun suppliedPhrase now outcome db' _ _ h => ?_
  obtain ⟨invitation, pending, happrovable, hend⟩ := approveInTransaction_eq_ok h
  have hdrawn : Drawn server base db.issued invitation.id := happrovable.invitation_id ▸ hid
  obtain ⟨hattempts, hdevice⟩ := hnew invitation happrovable.invitation_mem happrovable.invitation_id
  rcases hend with ⟨-, hcount⟩ | ⟨-, hadmission⟩
  · rcases countMismatch_eq_ok hcount with ⟨hbounded, -, rfl⟩ | ⟨hlast, -, -, rfl⟩
    · exact .single (.attemptsRecorded hdrawn hbounded)
    · rw [hattempts] at hlast
      exact absurd hlast (by decide)
  · obtain ⟨membership, family, token, issued, admitted, opening, hbound, rfl⟩ :=
      admitDevice_admitted happrovable hbase hadmission
    have hcleared : Change server permit base db (afterAttempts db invitation.id 0) :=
      .attemptsRecorded hdrawn (by decide)
    exact (Relation.ReflTransGen.single hcleared).tail (.approved (.mk admitted opening hbound) hdevice)

theorem changes_issued_le (h : Changes server permit base db db') : db.issued ≤ db'.issued := by
  induction h with
  | refl => exact Nat.le_refl _
  | tail _ change ih => exact Nat.le_trans ih change.issued_le

theorem changes_of_ok {α : Type} {x : Auth α} {a : α} (h : Changes server permit base db (storeAfter x db))
    (hx : x db = .ok a db') : Changes server permit base db db' := by
  rw [storeAfter_of_ok hx] at h
  exact h

/-- However one admission ends, it is a sequence of changes. -/
theorem admitAgent_ends (hbase : base ≤ db.issued) :
    Ends (admitAgent server row input attempt) db
      (fun result db' => Changes server permit base db db' ∧ Settled db' result.deviceId)
      fun _ db' => Changes server permit base db db' := by
  unfold admitAgent
  refine Ends.bind (Ends.of_storeAfter (createInvitation_changes hbase) ?_)
  intro created invited hcreate
  have hinvited : Changes server permit base db invited :=
    changes_of_ok (createInvitation_changes hbase) hcreate
  have hbase' : base ≤ invited.issued := Nat.le_trans hbase (changes_issued_le hinvited)
  have hredeemed : Ends (redeemInvitationForOnboarding server
      { invitationToken := some created.invitationToken
        deviceLabel := row.displayName ++ agentSuffix
        initialRefreshToken := input.initialRefreshToken
        rejoinSecret := none }
      attempt.pendingCredential attempt.redeemNow) invited
      (fun redeemed pending => Changes server permit base invited pending ∧
        pending.issued = db.issued + 3 ∧
        created.invitationId = server.randomUuid (db.issued + 1) ∧
        ∀ invitation ∈ pending.invitations, invitation.id = created.invitationId →
          invitation.pendingDeviceId = some (server.randomUuid (db.issued + 2)) ∧
            invitation.approvalAttempts = 0)
      fun _ failed => Changes server permit base invited failed := by
    refine Ends.of_storeAfter (redeem_changes hbase') fun redeemed pending hredeem => ?_
    exact ⟨changes_of_ok (redeem_changes hbase') hredeem, pending_of_claim hcreate rfl hredeem⟩
  refine Ends.bind (hredeemed.mono ?_ fun _ _ hfailed => hinvited.trans hfailed)
  intro redeemed pending hpending
  obtain ⟨hchanges, hissued, hid, hdevice⟩ := hpending
  have hbase'' : base ≤ pending.issued := Nat.le_trans hbase' (changes_issued_le hchanges)
  have hstore : Changes server permit base db (storeAfter (approveRedeemedDevice server
      { invitationId := created.invitationId
        approverMembershipId := row.createdByMembershipId
        verificationPhrase := some redeemed.verificationPhrase }
      attempt.approveNow attempt.sessionNow) pending) := by
    have hdrawn : ∀ k < 3, Drawn server base pending.issued (server.randomUuid (db.issued + k)) :=
      fun k hk => ⟨db.issued + k, Nat.le_add_right_of_le hbase,
        hissued ▸ Nat.add_lt_add_left hk _, rfl⟩
    refine (hinvited.trans hchanges).trans (approve_changes hbase'' ?_ ?_)
    · exact hid ▸ hdrawn 1 (by decide)
    · intro invitation hmem heq
      obtain ⟨hpending, hattempts⟩ := hdevice invitation hmem heq
      refine ⟨hattempts, fun id hpendingId => ?_⟩
      rw [hpending] at hpendingId
      cases hpendingId
      exact hdrawn 2 (by decide)
  refine Ends.of_storeAfter hstore fun result db' hx => ?_
  rw [storeAfter_of_ok hx] at hstore
  exact ⟨hstore, approved_settled hx⟩

theorem claimed_change {redemptionId membershipId deviceId : Id} (hsettled : Settled db deviceId) :
    Change server permit base db
      { db with
        agentEnrollments := updateWhere (fun row => row.id = id)
          (fun row =>
            { row with
              claimedAt := some now
              redemptionId := some redemptionId
              membershipId := some membershipId
              deviceId := some deviceId })
          db.agentEnrollments } := by
  refine .enrollmentsSet (Nat.le_refl _) fun row hrow id hid => ?_
  obtain ⟨stored, hstored, rfl | ⟨-, rfl⟩⟩ := of_mem_updateWhere hrow
  · exact .inr ⟨_, hstored, hid⟩
  · rcases hid with hinviter | hdevice
    · exact .inr ⟨stored, hstored, .inl hinviter⟩
    · cases hdevice
      exact .inl hsettled

theorem complete_ends (hbase : base ≤ db.issued) :
    Ends (complete server row input attempt) db (fun _ db' => Changes server permit base db db')
      fun _ db' => Changes server permit base db db' := by
  unfold complete
  refine .check (fun now _ => ?_) fun _ => .refl
  have hadmission := @admitAgent_ends server permit base db row input attempt hbase
  refine Ends.bind (Ends.catching (Ends.map (hadmission.mono ?_ ?_)))
  · intro result admitted hadmitted
    obtain ⟨hchanges, hsettled⟩ := hadmitted
    refine Ends.bind (ends_guardedWrite (fun _ => ?_) hchanges)
    refine ends_get_bind ?_
    split
    · exact ends_throw (hchanges.tail (claimed_change hsettled))
    · exact ends_pure (hchanges.tail (claimed_change hsettled))
  · intro e failed hfailed
    split
    · exact ends_modify_bind (ends_pure (ends_pure (hfailed.tail dropped_change)))
    · exact ends_throw hfailed

theorem claimWaiting_ends {rounds : ℕ} (hbase : base ≤ db.issued) :
    Ends (claimWaiting server input attempts rounds) db (fun _ db' => Changes server permit base db db')
      fun _ db' => Changes server permit base db db' := by
  induction rounds generalizing db with
  | zero => exact ends_pure .refl
  | succ rounds ih =>
    unfold claimWaiting
    refine ends_get_bind ?_
    cases hnext : nextEnrollment db with
    | none => exact ends_pure .refl
    | some row =>
      refine Ends.bind ((complete_ends hbase).mono ?_ fun _ _ hfailed => hfailed)
      intro result mid hmid
      cases result with
      | some claimed => exact ends_pure hmid
      | none =>
        have hbase' := Nat.le_trans hbase (changes_issued_le hmid)
        exact (ih hbase').mono (fun _ _ h => hmid.trans h) fun _ _ h => hmid.trans h

theorem claim_changes (hbase : base ≤ db.issued) :
    Changes server permit base db (storeAfter (claim server input attempts) db) := by
  apply Ends.storeAfter
  refine ends_transaction (fun result db' h => ?_) fun _ => .refl
  rw [get_bind] at h
  cases hclaimed : findClaimed db input.redemptionId with
  | some claimed =>
    rw [hclaimed] at h
    cases h
    exact .refl
  | none =>
    rw [hclaimed] at h
    exact (ends_iff.mp (claimWaiting_ends hbase)).1 result db' h

end Havemind.AgentChanges
