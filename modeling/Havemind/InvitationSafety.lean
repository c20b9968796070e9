import Havemind.MemberBirths

/-!
Invitations over a whole run. A pending device is approved by its own code or not
at all, three wrong codes end it, and it has no session before.
-/
namespace Havemind.InvitationSafety

open RevisionSchema Transaction Endings Runs KeyedTable AuthTables AuthChanges AuthSoundness List
  Invitations InvitationChanges AuthRuns MemberBirths
open ServerDatabase (AccountStatus DeviceStatus)

variable {server : AuthServer} {permit : Permit} {base : ℕ} {db db' : AuthDatabase}

section
variable {deviceId : Id}

def NotApproved (deviceId : Id) (db : AuthDatabase) : Prop :=
  ∀ device ∈ db.devices, device.id = deviceId → device.status ≠ .approved

variable (h : NotApproved deviceId db)
include h

/-- An admission approves the one device it is about. -/
theorem NotApproved.afterAdmission {admittedId : Id} (hother : deviceId ≠ admittedId)
    {membership : MembershipRow} {now : Timestamp} {issued : ℕ} :
    NotApproved deviceId (afterAdmission db admittedId membership now issued) := by
  intro device hmem hid
  rcases mem_updateWhere.mp hmem with ⟨hstored, -⟩ | ⟨stored, -, hhit, rfl⟩
  · exact h device hstored hid
  · exact absurd (hid.symm.trans (of_decide_eq_true hhit).1) hother

theorem NotApproved.approved {invitation : InvitationRow}
    (approved : Approved server base invitation db db')
    (hother : invitation.pendingDeviceId ≠ some deviceId) : NotApproved deviceId db' := by
  obtain @⟨admittedId, membership, now, _, _, issued, _, admitted, opening, -⟩ := approved
  have hadmitted : NotApproved deviceId
      (AuthChanges.afterAdmission db admittedId membership now issued) :=
    h.afterAdmission fun heq => hother (heq ▸ admitted.device_eq)
  exact hadmitted

theorem NotApproved.change (hdrawn : Drawn server 0 base deviceId)
    (change : Change server permit base db db') : NotApproved deviceId db' := by
  cases change with
  | redeemed _ _ _ _ _ device_new =>
    exact forall_concat h fun heq => absurd heq (device_new.ne hdrawn)
  | deviceAdded _ id_new => exact forall_concat h fun heq => absurd heq (id_new.ne hdrawn)
  | approved approved device_new =>
    exact h.approved approved fun heq => absurd rfl ((device_new deviceId heq).ne hdrawn)
  | deviceRevoked => exact forall_updateWhere h fun _ _ _ => by simp
  | removed => exact fun device hmem => h device (mem_devices_withoutUsers.mp hmem).1
  | _ => exact h

theorem NotApproved.changes (hdrawn : Drawn server 0 base deviceId)
    (changes : Changes server permit base db db') : NotApproved deviceId db' := by
  induction changes with
  | refl => exact h
  | tail _ change ih => exact ih.change hdrawn change

/-- A device that was there is approved by what the permit lets be approved. -/
theorem approval_permitted (hdrawn : Drawn server 0 db.issued deviceId)
    (committed : Committed server permit db db') (happroved : ¬ NotApproved deviceId db') :
    ∃ invitation ∈ db.invitations, invitation.pendingDeviceId = some deviceId ∧
      permit.approval invitation := by
  rcases committed with outcome | ⟨userId, -, -, -, -, -, rfl⟩
  · cases outcome with
    | changed changes => exact absurd (h.changes hdrawn changes) happroved
    | @approved invitation _ invitation_mem allowed approved =>
      have hattempted : NotApproved deviceId (afterAttempts db invitation.id 0) := h
      refine ⟨invitation, invitation_mem, ?_, allowed⟩
      by_contra hother
      exact happroved (hattempted.approved approved hother)
    | mismatched _ _ mismatched =>
      refine absurd ?_ happroved
      cases mismatched with
      | counted => exact h
      | locked => exact fun device hmem => h device (mem_devices_withoutUsers.mp hmem).1
    | rejoined _ rejoined =>
      obtain ⟨opening⟩ := rejoined
      exact absurd h happroved
    | pruned pruned changes =>
      obtain ⟨keepRefresh, keepAccess, rfl⟩ := pruned
      refine absurd (NotApproved.changes ?_ hdrawn changes) happroved
      exact h
  · exact absurd (fun device hmem => h device (mem_devices_withoutUsers.mp hmem).1) happroved

omit h in
/-- A pending device turns approved only in a call that presents its code. -/
theorem approved_by_code {w w' : World} {action : AuthAction} (sound : Sound server w.db)
    (hstep : authStep server w action = some w') {device device' : DeviceRow}
    (hmem : device ∈ w.db.devices) (hpending : device.status = .pending)
    (hmem' : device' ∈ w'.db.devices) (hid : device'.id = device.id)
    (happroved : device'.status = .approved) :
    ∃ input now sessionNow, action = .approveRedeemedDevice input now sessionNow ∧
      ∃ invitation ∈ w.db.invitations, invitation.pendingDeviceId = some device.id ∧
        Presented w.db input now invitation := by
  cases hstep
  have hnot : NotApproved device.id w.db := by
    intro other hother heq
    rw [sound.keys.devices.eq hother hmem heq, hpending]
    simp
  obtain ⟨invitation, hinvitation, hdevice, hpermitted⟩ := approval_permitted hnot
    (sound.issuance.devices device hmem) (afterAction_committed sound action)
    fun h => h device' hmem' hid happroved
  cases action with
  | approveRedeemedDevice input now sessionNow =>
    exact ⟨input, now, sessionNow, rfl, invitation, hinvitation, hdevice, hpermitted⟩
  | _ => cases hpermitted

end

section
variable {count count' : Id → ℕ} {invitation : InvitationRow} {now : Timestamp}
  {attempts phrase : ℕ} {userId : Id} {sessionNow : Option Timestamp}

/-- The wrong codes that were presented for an invitation are counted in its row as
long as its device awaits the approval, and never as many as end it. -/
structure Counted (server : AuthServer) (count : Id → ℕ) (db : AuthDatabase) : Prop where
  drawn : ∀ id, count id ≠ 0 → Drawn server 0 db.issued id
  unconsumed : ∀ invitation ∈ db.invitations, invitation.consumedAt = none →
    count invitation.id = 0 ∧ invitation.approvalAttempts < maxApprovalAttempts
  awaiting : ∀ invitation ∈ db.invitations, AwaitsApproval db invitation →
    count invitation.id ≤ invitation.approvalAttempts ∧
      invitation.approvalAttempts < maxApprovalAttempts

theorem awaits_back
    (hback : ∀ device ∈ db'.devices, device.status = .pending → device ∈ db.devices)
    (h : AwaitsApproval db' invitation) : AwaitsApproval db invitation := by
  obtain ⟨deviceId, hdevice, device, hmem, hid, hpending⟩ := h
  exact ⟨deviceId, hdevice, device, hback device hmem hpending, hid, hpending⟩

theorem pending_of_updateWhere {rows : List DeviceRow} {hit : DeviceRow → Bool}
    {update : DeviceRow → DeviceRow} (hnot : ∀ row, (update row).status ≠ .pending) :
    ∀ device ∈ updateWhere hit update rows, device.status = .pending → device ∈ rows := by
  intro device hmem hpending
  rcases mem_updateWhere.mp hmem with ⟨hstored, -⟩ | ⟨stored, -, -, rfl⟩
  · exact hstored
  · exact absurd hpending (hnot stored)

variable (h : Counted server count db)
include h

/-- A count is kept by a step that leaves the invitations and brings no pending device. -/
theorem Counted.of_devices (hissued : db.issued ≤ db'.issued)
    (hinvitations : db'.invitations = db.invitations)
    (hback : ∀ device ∈ db'.devices, device.status = .pending → device ∈ db.devices) :
    Counted server count db' where
  drawn := fun id hne => (h.drawn id hne).mono (Nat.le_refl _) hissued
  unconsumed := hinvitations ▸ h.unconsumed
  awaiting := by
    rw [hinvitations]
    exact fun invitation hmem hawaits => h.awaiting invitation hmem (awaits_back hback hawaits)

theorem Counted.withoutUsers {userIds : List Id} :
    Counted server count (withoutUsers userIds db) where
  drawn := h.drawn
  unconsumed := by
    intro invitation hmem hnone
    obtain ⟨stored, hstored, rfl⟩ := of_mem_invitations_withoutUsers hmem
    exact h.unconsumed stored hstored hnone
  awaiting := by
    intro invitation hmem hawaits
    obtain ⟨stored, hstored, rfl⟩ := of_mem_invitations_withoutUsers hmem
    obtain ⟨deviceId, hdevice, device, hdeviceMem, hid, hpending⟩ := hawaits
    exact h.awaiting stored hstored ⟨deviceId, (Option.filter_eq_some_iff.mp hdevice).1, device,
      (mem_devices_withoutUsers.mp hdeviceMem).1, hid, hpending⟩

theorem Counted.approved (approved : Approved server base invitation db db') :
    Counted server count db' := by
  have hissued := issued_le_of_approved approved
  obtain ⟨admitted, opening, -⟩ := approved
  exact h.of_devices hissued rfl (pending_of_updateWhere fun _ => by simp)

variable (sound : Sound server db)
include sound

/-- A redemption starts from a row no code was presented for. -/
theorem Counted.redeemed {user : UserRow} {device : DeviceRow}
    {credentialHash refreshTokenHash : TokenHash} {issued : ℕ} (hissued : db.issued ≤ issued)
    (hfree : ∀ stored ∈ db.devices, stored.id ≠ device.id) :
    Counted server count
      (afterRedemption db invitation user device now credentialHash refreshTokenHash issued) where
  drawn := fun id hne => (h.drawn id hne).mono (Nat.le_refl _) hissued
  unconsumed := by
    intro row hmem hnone
    rcases mem_updateWhere.mp hmem with ⟨hstored, -⟩ | ⟨stored, -, -, rfl⟩
    · exact h.unconsumed row hstored hnone
    · cases hnone
  awaiting := by
    intro row hmem hawaits
    rcases mem_updateWhere.mp hmem with ⟨hstored, -⟩ | ⟨stored, hstored, hhit, rfl⟩
    · obtain ⟨deviceId, hdevice, found, hfound, hid, hpending⟩ := hawaits
      obtain ⟨_, -, owned, howned, hownedId, -⟩ :=
        sound.onboarding.pending_device row hstored deviceId hdevice
      rcases mem_append.mp hfound with hold | hnew
      · exact h.awaiting row hstored ⟨deviceId, hdevice, found, hold, hid, hpending⟩
      · rw [mem_singleton.mp hnew] at hid
        exact absurd (hownedId.trans hid.symm) (hfree owned howned)
    · obtain ⟨hzero, hbounded⟩ := h.unconsumed stored hstored (of_decide_eq_true hhit).2
      exact ⟨hzero ▸ Nat.zero_le _, hbounded⟩

theorem Counted.change (hearly : ∀ id, count id ≠ 0 → Drawn server 0 base id)
    (change : Change server permit base db db') : Counted server count db' := by
  have hnew : ∀ {issued id}, Drawn server base issued id → count id = 0 := by
    intro issued id hdrawn
    by_contra hne
    exact hdrawn.ne (hearly id hne) rfl
  have hissued := change.issued_le
  cases change with
  | invited _ id_new _ _ _ unconsumed _ no_device no_attempts =>
    refine ⟨fun id hne => (h.drawn id hne).mono (Nat.le_refl _) hissued, ?_, ?_⟩
    · refine forall_concat h.unconsumed fun _ => ⟨hnew id_new, ?_⟩
      rw [no_attempts]
      decide
    · refine forall_concat (fun row hmem hawaits => h.awaiting row hmem hawaits) fun hawaits => ?_
      obtain ⟨deviceId, hdevice, -⟩ := hawaits
      rw [no_device] at hdevice
      cases hdevice
  | burned =>
    refine ⟨h.drawn, ?_, ?_⟩
    · intro row hmem hnone
      rcases mem_updateWhere.mp hmem with ⟨hstored, -⟩ | ⟨stored, -, -, rfl⟩
      · exact h.unconsumed row hstored hnone
      · cases hnone
    · intro row hmem hawaits
      rcases mem_updateWhere.mp hmem with ⟨hstored, -⟩ | ⟨stored, hstored, -, rfl⟩
      · exact h.awaiting row hstored hawaits
      · exact h.awaiting stored hstored hawaits
  | redeemed issued_le _ _ _ _ _ device_free => exact h.redeemed sound issued_le device_free
  | attemptsRecorded drawn bounded =>
    refine ⟨h.drawn, ?_, ?_⟩
    · intro row hmem hnone
      rcases mem_updateWhere.mp hmem with ⟨hstored, -⟩ | ⟨stored, hstored, -, rfl⟩
      · exact h.unconsumed row hstored hnone
      · exact ⟨(h.unconsumed stored hstored hnone).1, bounded⟩
    · intro row hmem hawaits
      rcases mem_updateWhere.mp hmem with ⟨hstored, -⟩ | ⟨stored, hstored, hhit, rfl⟩
      · exact h.awaiting row hstored hawaits
      · refine ⟨?_, bounded⟩
        have hid : stored.id = _ := of_decide_eq_true hhit
        show count stored.id ≤ _
        rw [hid, hnew drawn]
        exact Nat.zero_le _
  | approved approved => exact h.approved approved
  | removed => exact h.withoutUsers
  | deviceRevoked =>
    exact h.of_devices (Nat.le_refl _) rfl (pending_of_updateWhere fun _ => by simp)
  | deviceAdded _ _ _ _ _ approved =>
    refine h.of_devices (Nat.le_refl _) rfl fun device hmem hpending => ?_
    rcases mem_append.mp hmem with hold | hnew
    · exact hold
    · rw [mem_singleton.mp hnew, approved] at hpending
      cases hpending
  | _ => exact h.of_devices hissued rfl fun _ hmem _ => hmem

theorem Counted.changes (hearly : ∀ id, count id ≠ 0 → Drawn server 0 base id)
    (changes : Changes server permit base db db') : Counted server count db' := by
  induction changes with
  | refl => exact h
  | tail before change ih => exact ih.change (sound.changes before) hearly change

/-- The attempts of an invitation that awaits its approval, counted anew. -/
theorem Counted.attempted (hmem : invitation ∈ db.invitations)
    (hawaits : AwaitsApproval db invitation)
    (hle : ∀ id, count' id ≠ 0 → count id ≠ 0 ∨ id = invitation.id)
    (hother : ∀ id, id ≠ invitation.id → count' id = count id)
    (hbounded : count' invitation.id ≤ attempts ∧ attempts < maxApprovalAttempts) :
    Counted server count' (afterAttempts db invitation.id attempts) where
  drawn := by
    intro id hne
    rcases hle id hne with hold | rfl
    · exact h.drawn id hold
    · exact sound.issuance.invitations invitation hmem
  unconsumed := by
    intro row hrow hnone
    rcases mem_updateWhere.mp hrow with ⟨hstored, hmiss⟩ | ⟨stored, hstored, hhit, rfl⟩
    · rw [hother row.id (of_decide_eq_false hmiss)]
      exact h.unconsumed row hstored hnone
    · obtain ⟨deviceId, hdevice, -⟩ := hawaits
      rw [sound.keys.invitations.eq hstored hmem (of_decide_eq_true hhit)] at hnone
      rw [(sound.onboarding.unconsumed_blank invitation hmem hnone).2] at hdevice
      cases hdevice
  awaiting := by
    intro row hrow hrowAwaits
    rcases mem_updateWhere.mp hrow with ⟨hstored, hmiss⟩ | ⟨stored, hstored, hhit, rfl⟩
    · rw [hother row.id (of_decide_eq_false hmiss)]
      exact h.awaiting row hstored hrowAwaits
    · rw [← of_decide_eq_true hhit] at hbounded
      exact hbounded

/-- With the user gone its invitation awaits nothing. -/
theorem Counted.locked (hmem : invitation ∈ db.invitations)
    (hawaits : AwaitsApproval db invitation) (huser : invitation.consumedByUserId = some userId)
    (hle : ∀ id, count' id ≠ 0 → count id ≠ 0 ∨ id = invitation.id)
    (hother : ∀ id, id ≠ invitation.id → count' id = count id) :
    Counted server count' (AuthTables.withoutUsers [userId] (afterAttempts db invitation.id attempts)) := by
  obtain ⟨deviceId, hdevice, -⟩ := hawaits
  constructor
  · intro id hne
    rcases hle id hne with hold | rfl
    · exact h.drawn id hold
    · exact sound.issuance.invitations invitation hmem
  · intro row hrow hnone
    obtain ⟨kept, hkept, rfl⟩ := of_mem_invitations_withoutUsers hrow
    rcases mem_updateWhere.mp hkept with ⟨hstored, hmiss⟩ | ⟨stored, hstored, hhit, rfl⟩
    · show count' kept.id = 0 ∧ _
      rw [hother kept.id (of_decide_eq_false hmiss)]
      exact h.unconsumed kept hstored hnone
    · rw [sound.keys.invitations.eq hstored hmem (of_decide_eq_true hhit)] at hnone
      rw [(sound.onboarding.unconsumed_blank invitation hmem hnone).2] at hdevice
      cases hdevice
  · intro row hrow hrowAwaits
    obtain ⟨kept, hkept, rfl⟩ := of_mem_invitations_withoutUsers hrow
    obtain ⟨rowDevice, hrowDevice, device, hdeviceMem, hid, hpending⟩ := hrowAwaits
    obtain ⟨hkeptDevice, hfree⟩ := Option.filter_eq_some_iff.mp hrowDevice
    rcases mem_updateWhere.mp hkept with ⟨hstored, hmiss⟩ | ⟨stored, hstored, hhit, rfl⟩
    · show count' kept.id ≤ _ ∧ _
      rw [hother kept.id (of_decide_eq_false hmiss)]
      exact h.awaiting kept hstored ⟨rowDevice, hkeptDevice, device,
        (mem_devices_withoutUsers.mp hdeviceMem).1, hid, hpending⟩
    · rw [sound.keys.invitations.eq hstored hmem (of_decide_eq_true hhit)] at hkeptDevice
      obtain ⟨ownerId, howner, owned, howned, hownedId, hownedUser⟩ :=
        sound.onboarding.pending_device invitation hmem rowDevice hkeptDevice
      refine absurd (mem_devicesOf.mpr ⟨owned, howned, ?_, hownedId⟩) (of_decide_eq_true hfree)
      rw [hownedUser, Option.some.inj (howner.symm.trans huser)]
      exact mem_singleton_self _

/-- The count once the code was presented for the invitation. -/
theorem Counted.mismatched (hmem : invitation ∈ db.invitations)
    (hawaits : AwaitsApproval db invitation) (hmismatched : Mismatched invitation db db')
    (hself : count' invitation.id ≤ count invitation.id + 1)
    (hother : ∀ id, id ≠ invitation.id → count' id = count id) : Counted server count' db' := by
  have hle : ∀ id, count' id ≠ 0 → count id ≠ 0 ∨ id = invitation.id := by
    intro id hne
    by_cases hsame : id = invitation.id
    · exact .inr hsame
    · exact .inl (hother id hsame ▸ hne)
  have hcounted := (h.awaiting invitation hmem hawaits).1
  cases hmismatched with
  | counted hbounded =>
    exact h.attempted sound hmem hawaits hle hother
      ⟨Nat.le_trans hself (Nat.succ_le_succ hcounted), hbounded⟩
  | locked huser => exact h.locked sound hmem hawaits huser hle hother

/-- An approval clears the attempts of an invitation that awaits nothing afterwards. -/
theorem Counted.cleared (hmem : invitation ∈ db.invitations)
    (approved : Approved server base { invitation with approvalAttempts := 0 }
      (afterAttempts db invitation.id 0) db') : Counted server count db' := by
  have hissued := issued_le_of_approved approved
  obtain @⟨deviceId, membership, now, family, token, issued, issued', admitted, opening, -⟩ := approved
  have hdevice : invitation.pendingDeviceId = some deviceId := admitted.device_eq
  have hback : ∀ device ∈ (afterAdmission db deviceId membership now issued).devices,
      device.status = .pending → device ∈ db.devices ∧ device.id ≠ deviceId := by
    intro device hdeviceMem hpending
    rcases mem_updateWhere.mp hdeviceMem with ⟨hstored, hmiss⟩ | ⟨stored, -, -, rfl⟩
    · exact ⟨hstored, fun hid => of_decide_eq_false hmiss ⟨hid, hpending⟩⟩
    · cases hpending
  refine ⟨fun id hne => (h.drawn id hne).mono (Nat.le_refl _) hissued, ?_, ?_⟩
  · intro row hrow hnone
    rcases mem_updateWhere.mp hrow with ⟨hstored, -⟩ | ⟨stored, hstored, hhit, rfl⟩
    · exact h.unconsumed row hstored hnone
    · rw [sound.keys.invitations.eq hstored hmem (of_decide_eq_true hhit)] at hnone
      rw [(sound.onboarding.unconsumed_blank invitation hmem hnone).2] at hdevice
      cases hdevice
  · intro row hrow hawaits
    rcases mem_updateWhere.mp hrow with ⟨hstored, -⟩ | ⟨stored, hstored, hhit, rfl⟩
    · exact h.awaiting row hstored (awaits_back (fun device hin hp => (hback device hin hp).1) hawaits)
    · obtain ⟨rowDevice, hrowDevice, device, hdeviceMem, hid, hpending⟩ := hawaits
      rw [sound.keys.invitations.eq hstored hmem (of_decide_eq_true hhit)] at hrowDevice
      have hsame : deviceId = rowDevice := Option.some.inj (hdevice.symm.trans hrowDevice)
      exact absurd (hid.trans hsame.symm) (hback device hdeviceMem hpending).2

theorem Counted.committed (committed : Committed server permit db db') :
    Counted server count db' := by
  have hearly := h.drawn
  rcases committed with outcome | ⟨userId, -, -, -, -, -, rfl⟩
  · cases outcome with
    | changed changes => exact h.changes sound hearly changes
    | approved hmem _ approved => exact h.cleared sound hmem approved
    | mismatched hmem hawaits mismatched =>
      exact h.mismatched sound hmem hawaits mismatched (Nat.le_succ _) fun _ _ => rfl
    | rejoined _ rejoined =>
      obtain ⟨opening⟩ := rejoined
      exact h.of_devices opening.issued_le rfl fun _ hmem _ => hmem
    | pruned pruned changes =>
      have hmid := sound.pruned pruned
      obtain ⟨keepRefresh, keepAccess, rfl⟩ := pruned
      refine Counted.changes ?_ hmid hearly changes
      exact h.of_devices (Nat.le_refl _) rfl fun _ hmem _ => hmem
  · exact h.withoutUsers

omit h in
/-- Nothing a pending user has keeps it from being deleted. -/
theorem countMismatch_ok (hmem : invitation ∈ db.invitations)
    (hawaits : AwaitsApproval db invitation) (huser : invitation.consumedByUserId = some userId) :
    ∃ outcome db', countMismatch invitation userId db = .ok outcome db' := by
  obtain ⟨deviceId, hdevice, device, hdeviceMem, hid, hpending⟩ := hawaits
  obtain ⟨ownerId, howner, owned, howned, hownedId, hownedUser⟩ :=
    sound.onboarding.pending_device invitation hmem deviceId hdevice
  have hown : device.userId = userId := by
    rw [sound.keys.devices.eq hdeviceMem howned (hid.trans hownedId.symm), hownedUser]
    exact Option.some.inj (howner.symm.trans huser)
  have hdevices : ∀ id ∈ devicesOf db [userId], deviceReferenced db id = false := by
    intro id hin
    obtain ⟨other, hother, hotherUser, rfl⟩ := mem_devicesOf.mp hin
    have hsame := sound.onboarding.pending_alone device hdeviceMem hpending other hother
      ((mem_singleton.mp hotherUser).trans hown.symm)
    refine Bool.eq_false_iff.mpr fun hreferenced => ?_
    obtain ⟨row, hrow, hrowId, hsettled⟩ := sound.referenced other.id hreferenced
    rw [sound.keys.devices.eq hrow hdeviceMem (hrowId.trans hsame)] at hsettled
    exact hsettled hpending
  have hmemberships : membershipsOf db [userId] = [] := by
    refine eq_nil_iff_forall_not_mem.mpr fun id hin => ?_
    obtain ⟨membership, hmembership, hmemberUser, -⟩ := mem_membershipsOf.mp hin
    exact sound.onboarding.pending_no_member device hdeviceMem hpending membership hmembership
      ((mem_singleton.mp hmemberUser).trans hown.symm)
  unfold countMismatch
  split
  · set counted := afterAttempts db invitation.id (invitation.approvalAttempts + 1)
    have hdeleted : deletePendingUser userId counted =
        .ok () (AuthTables.withoutUsers [userId] counted) := by
      unfold deletePendingUser deleteUsers
      refine guardedWrite_eq_ok.mpr ⟨⟨fun id hin => ?_, fun id hin => ?_⟩, rfl⟩
      · refine Bool.eq_false_iff.mpr fun hreferenced => ?_
        have hbefore : deviceReferenced db id = true :=
          deviceReferenced_updateInvitations hreferenced fun _ => rfl
        exact Bool.false_ne_true ((hdevices id hin).symm.trans hbefore)
      · exact absurd (hmemberships ▸ hin) (not_mem_nil)
    refine ⟨.locked, AuthTables.withoutUsers [userId] counted, bind_eq_ok.mpr ?_⟩
    exact ⟨(), counted, recordApprovalAttempts_run, bind_eq_ok.mpr ⟨(), _, hdeleted, rfl⟩⟩
  · exact ⟨_, _, rfl⟩

omit h in
omit sound in
theorem approveInTransaction_wrong {invitationId approverMembershipId : Id}
    {owner : MembershipRow} {pending : PendingApproval}
    (hload : loadInvitationById db invitationId = .ok invitation)
    (howner : requireOwnerMembership db approverMembershipId invitation.vaultId = .ok owner)
    (hpending : requirePendingDevice db invitation now = .ok pending)
    (hwrong : phrase ≠ invitation.verificationSecret) :
    approveInTransaction server invitationId approverMembershipId phrase now sessionNow db =
      countMismatch invitation pending.userId db := by
  unfold approveInTransaction
  rw [get_bind, check_bind_of_ok hload, get_bind, check_bind_of_ok howner, get_bind,
    check_bind_of_ok hpending, if_pos hwrong]

omit h in
omit sound in
/-- What the transaction of an approval commits is there when the call ends. -/
theorem approve_committed {input : ApproveRedeemedDeviceInput} {outcome : RedeemedApproveOutcome}
    (hphrase : input.verificationPhrase = some phrase)
    (h : approveInTransaction server input.invitationId input.approverMembershipId phrase now
      sessionNow db = .ok outcome db') :
    storeAfter (approveRedeemedDevice server input (some now) sessionNow) db = db' := by
  have hbody := transaction_eq_ok.mpr h
  cases outcome with
  | mismatch attemptsRemaining =>
    refine storeAfter_of_error (e := .phraseMismatch attemptsRemaining) ?_
    unfold approveRedeemedDevice
    rw [hphrase]
    exact (check_bind_of_ok rfl).trans (bind_of_ok hbody)
  | locked =>
    refine storeAfter_of_error (e := .approvalLocked) ?_
    unfold approveRedeemedDevice
    rw [hphrase]
    exact (check_bind_of_ok rfl).trans (bind_of_ok hbody)
  | ok result =>
    refine storeAfter_of_ok (a := result) ?_
    unfold approveRedeemedDevice
    rw [hphrase]
    exact (check_bind_of_ok rfl).trans (bind_of_ok hbody)

omit h in
/-- A wrong code that is presented while the device can be approved is counted. -/
theorem wrongCode_cases (action : AuthAction) :
    wrongCode db action = [] ∨
      ∃ invitation ∈ db.invitations, wrongCode db action = [invitation.id] ∧
        AwaitsApproval db invitation ∧
        Mismatched invitation db (afterAction server db action) := by
  cases action with
  | approveRedeemedDevice input clock sessionNow =>
    cases clock with
    | none => exact .inl rfl
    | some now =>
      cases hphrase : input.verificationPhrase with
      | none =>
        left
        simp only [wrongCode, hphrase]
      | some phrase =>
        cases hload : loadInvitationById db input.invitationId with
        | error e =>
          left
          simp only [wrongCode, hphrase, hload]
        | ok invitation =>
          by_cases hwrong : (requireOwnerMembership db input.approverMembershipId
              invitation.vaultId).isOk ∧ (requirePendingDevice db invitation now).isOk ∧
              phrase ≠ invitation.verificationSecret
          · right
            obtain ⟨howner, hpending, hcode⟩ := hwrong
            obtain ⟨owner, howner⟩ := exists_of_isOk howner
            obtain ⟨pending, hpending⟩ := exists_of_isOk hpending
            obtain ⟨hdevice, huser, -, -, device, hfind, hstatus⟩ :=
              requirePendingDevice_eq_ok hpending
            obtain ⟨hdeviceMem, hdeviceId⟩ := find?_key hfind
            have hmem := (loadInvitationById_eq_ok hload).1
            have hawaits : AwaitsApproval db invitation :=
              ⟨pending.deviceId, hdevice, device, hdeviceMem, hdeviceId, hstatus⟩
            obtain ⟨outcome, db', hcount⟩ := countMismatch_ok sound hmem hawaits huser
            refine ⟨invitation, hmem, ?_, hawaits, ?_⟩
            · simp only [wrongCode, hphrase, hload]
              exact if_pos ⟨by rw [howner]; rfl, by rw [hpending]; rfl, hcode⟩
            · have hcommitted : afterAction server db
                  (.approveRedeemedDevice input (some now) sessionNow) = db' :=
                approve_committed hphrase
                  ((approveInTransaction_wrong hload howner hpending hcode).trans hcount)
              rw [hcommitted]
              exact countMismatch_mismatched huser hcount
          · left
            simp only [wrongCode, hphrase, hload, if_neg hwrong]
  | _ => exact .inl rfl

omit h in
omit sound in
theorem counted_step {w w' : World} {action : AuthAction} (sound : Sound server w.db)
    (h : Counted server (fun id => w.wrongCodes.count id) w.db)
    (hstep : authStep server w action = some w') :
    Counted server (fun id => w'.wrongCodes.count id) w'.db := by
  cases hstep
  have hcases : _ ∨ _ := @wrongCode_cases server w.db sound action
  rcases hcases with hnone | ⟨invitation, hmem, hone, hawaits, hmismatched⟩
  · simp only [hnone, append_nil]
    exact h.committed sound (afterAction_committed sound action)
  · simp only [hone, count_append]
    refine h.mismatched sound hmem hawaits hmismatched ?_ fun id hother => ?_
    · rw [count_singleton_self]
    · rw [count_singleton, if_neg (by simpa using Ne.symm hother), Nat.add_zero]

end

/-- A device that awaits its approval has no session of any kind. -/
structure Sessionless (deviceId : Id) (db : AuthDatabase) : Prop where
  families : ∀ family ∈ db.families, family.deviceId ≠ deviceId
  refresh : ∀ token ∈ db.refreshTokens, ∀ family ∈ db.families, family.id = token.familyId →
    family.deviceId ≠ deviceId
  access : ∀ access ∈ db.accessTokens, access.deviceId ≠ deviceId

theorem sessionless_of_pending (sound : Sound server db) {device : DeviceRow}
    (hmem : device ∈ db.devices) (hpending : device.status = .pending) :
    Sessionless device.id db where
  families := sound.onboarding.pending_no_family device hmem hpending
  refresh := fun _ _ family hfamily _ =>
    sound.onboarding.pending_no_family device hmem hpending family hfamily
  access := sound.onboarding.pending_no_access device hmem hpending

/-- At every moment of every run: the user an invitation intends has, for as long as
no member is let in again, one device, membership and session family in all; a
pending device turns approved only in a call that presents its code; three wrong
codes, presented while the device could be approved, end its approval; and a
pending device has no session. -/
theorem invitation_safe {t : World} (reached : Reached (authStep server) anyCall World.empty t) :
    (∀ base s, Reached (authStep server) anyCall World.empty base →
      Reached (authStep server) noReentry base s → Reached (authStep server) noReentry s t →
        ∀ invitation ∈ t.db.invitations, ∀ userId, invitation.intendedMemberId = some userId →
          (∀ id, invitation.consumedByUserId = some id → id = userId) ∧
          ((∀ user ∈ base.db.users, user.id ≠ userId) → OneEach userId s.db t.db)) ∧
      (∀ action t', authStep server t action = some t' →
        ∀ device ∈ t.db.devices, device.status = .pending →
          ∀ device' ∈ t'.db.devices, device'.id = device.id → device'.status = .approved →
            ∃ input now sessionNow, action = .approveRedeemedDevice input now sessionNow ∧
              ∃ invitation ∈ t.db.invitations, invitation.pendingDeviceId = some device.id ∧
                Presented t.db input now invitation) ∧
      (∀ input now sessionNow result db',
        maxApprovalAttempts ≤ t.wrongCodes.count input.invitationId →
          approveRedeemedDevice server input now sessionNow t.db ≠ .ok result db') ∧
      ∀ device ∈ t.db.devices, device.status = .pending → Sessionless device.id t.db := by
  have hempty : Sound server World.empty.db := sound_empty server
  have hinvariant : Sound server t.db ∧ Counted server (fun id => t.wrongCodes.count id) t.db := by
    refine Reached.invariant
      (P := fun w => Sound server w.db ∧ Counted server (fun id => w.wrongCodes.count id) w.db)
      reached ⟨hempty, ?_⟩ fun w action w' hw _ hstep =>
        ⟨authStep_sound hw.1 hstep, counted_step hw.1 hw.2 hstep⟩
    exact ⟨fun id hne => absurd rfl hne, fun _ hmem => (nomatch hmem), fun _ hmem => (nomatch hmem)⟩
  obtain ⟨sound, hcounted⟩ := hinvariant
  refine ⟨fun base s hbase before later invitation hmem userId hintended => ⟨fun id hid => ?_,
    fun hfresh => ?_⟩, ?_, ?_, ?_⟩
  · exact Option.some.inj
      ((sound.onboarding.consumed_member invitation hmem id hid).symm.trans hintended)
  · exact oneEach_of_reached (reached_sound hempty hbase) hfresh before later
  · exact fun action t' hstep device hmem hpending device' hmem' hid happroved =>
      approved_by_code sound hstep hmem hpending hmem' hid happroved
  · intro input now sessionNow result db' hlast hok
    obtain ⟨_, invitation, pending, -, happrovable, -⟩ := approveRedeemedDevice_eq_ok hok
    obtain ⟨hle, hlt⟩ := hcounted.awaiting invitation happrovable.invitation_mem happrovable.awaits
    rw [← happrovable.invitation_id] at hlast
    exact absurd (Nat.lt_of_le_of_lt (Nat.le_trans hlast hle) hlt) (Nat.lt_irrefl _)
  · exact fun device hmem hpending => sessionless_of_pending sound hmem hpending

/-- Three wrong codes from somebody who owns nothing. -/
def strangerActions : List AuthAction :=
  pendingActions ++ List.replicate maxApprovalAttempts
    (.approveRedeemedDevice ⟨11, 99, some 999999⟩ (some 3500) (some 3500))

def strangerWorld : World := calls plainServer World.empty strangerActions

/-- A stranger's wrong codes count for nothing: the right code still approves. -/
theorem invitation_safe_stranger :
    Reached (authStep plainServer) anyCall World.empty strangerWorld ∧
      (∃ invitation ∈ strangerWorld.db.invitations, invitation.id = 11 ∧
        invitation.verificationSecret ≠ 999999) ∧
      ∃ result db', approveRedeemedDevice plainServer ⟨11, 4, some 123456⟩ (some 4000) (some 4000)
        strangerWorld.db = .ok result db' :=
  ⟨calls_reached _ _, by decide +kernel, _, _, rfl⟩

def ownerWorld : World := calls plainServer World.empty ownerActions

/-- The owner invites, and a device redeems. -/
def pendingWorld : World := calls plainServer ownerWorld (pendingActions.drop ownerActions.length)

def lockedWorld : World :=
  calls plainServer pendingWorld
    (List.replicate maxApprovalAttempts
      (.approveRedeemedDevice ⟨11, 4, some 999999⟩ (some 3500) (some 3500)))

/-- The owner's own wrong codes end the approval, and no second device comes. -/
theorem invitation_safe_locked :
    (∃ device ∈ pendingWorld.db.devices, device.id = 12 ∧ device.status = .pending) ∧
      OneEach 10 pendingWorld.db lockedWorld.db ∧
      ∀ result db', approveRedeemedDevice plainServer ⟨11, 4, some 123456⟩ (some 4000) (some 4000)
        lockedWorld.db ≠ .ok result db' := by
  have howner : Reached (authStep plainServer) anyCall World.empty ownerWorld := calls_reached _ _
  have hpending : Reached (authStep plainServer) noReentry ownerWorld pendingWorld := by
    refine Reached.start.run (allowed_of_mem ?_ _) (run_calls _ _)
    simp [pendingActions, ownerActions, noReentry, permitted]
  have hlocked : Reached (authStep plainServer) noReentry pendingWorld lockedWorld := by
    refine Reached.start.run (allowed_of_mem ?_ _) (run_calls _ _)
    simp [maxApprovalAttempts, noReentry, permitted]
  have hreached : Reached (authStep plainServer) anyCall World.empty lockedWorld := by
    have hbefore := howner.run (allowed_of_forall (fun _ _ => trivial) _ _)
      (run_calls ownerWorld (pendingActions.drop ownerActions.length))
    exact hbefore.run (allowed_of_forall (fun _ _ => trivial) _ _) (run_calls pendingWorld _)
  obtain ⟨honce, -, hlast, -⟩ := invitation_safe hreached
  refine ⟨by decide +kernel, ?_, fun result db' => hlast _ _ _ result db' (by decide +kernel)⟩
  have hinvited : ∃ invitation ∈ lockedWorld.db.invitations,
      invitation.intendedMemberId = some 10 := by
    decide +kernel
  obtain ⟨invitation, hmem, hintended⟩ := hinvited
  exact (honce ownerWorld pendingWorld howner hpending hlocked invitation hmem 10 hintended).2
    (by decide +kernel)

end Havemind.InvitationSafety
