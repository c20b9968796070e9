import Havemind.ReuseFinality

/-!
A revoked membership never comes back. No call makes the member active in the
vault again, and none gives out a session of a device the revocation covered; the
devices of the same user in other vaults keep every row they had.
-/
namespace Havemind.RevocationSafety

open RevisionSchema Endings Runs KeyedTable AuthTables AuthChanges AuthSoundness SessionRepository
  MembershipRevocation AccountChanges AuthRuns ReuseFinality
open ServerDatabase (AccountStatus DeviceStatus)

variable {server : AuthServer} {permit : Permit} {base : ℕ} {db db' : AuthDatabase}
  {membershipId userId vaultId deviceId : Id}

/-- The membership is revoked, and nothing is left that could make another one. -/
structure MembershipEnded (server : AuthServer) (membershipId userId vaultId : Id)
    (db : AuthDatabase) : Prop where
  user_drawn : Drawn server 0 db.issued userId
  row : ∀ membership ∈ db.memberships, membership.id = membershipId → membership.status = .revoked
  revoked : ∀ membership ∈ db.memberships, membership.userId = userId →
    membership.vaultId = vaultId → membership.status = .revoked
  consumed : ∀ invitation ∈ db.invitations, invitation.intendedMemberId = some userId →
    invitation.consumedAt ≠ none
  closed : (∃ membership ∈ db.memberships, membership.userId = userId ∧
    membership.vaultId = vaultId) ∨ ∀ user ∈ db.users, user.id ≠ userId

def DeviceDead (deviceId : Id) (db : AuthDatabase) : Prop :=
  ∀ device ∈ db.devices, device.id = deviceId → device.status = .revoked

/-- An approval touches pending devices only. -/
theorem DeviceDead.afterAdmission (h : DeviceDead deviceId db) {admittedId : Id}
    {membership : MembershipRow} {now : Timestamp} {issued : ℕ} :
    DeviceDead deviceId (afterAdmission db admittedId membership now issued) := by
  intro device hdevice hid
  rcases mem_updateWhere.mp hdevice with ⟨hmem, -⟩ | ⟨stored, hstored, hhit, rfl⟩
  · exact h device hmem hid
  · have hpending := (of_decide_eq_true hhit).2
    rw [h stored hstored hid] at hpending
    cases hpending

theorem DeviceDead.change (h : DeviceDead deviceId db) (hdrawn : Drawn server 0 base deviceId)
    (change : Change server permit base db db') : DeviceDead deviceId db' := by
  cases change with
  | redeemed _ _ _ _ _ device_new =>
    exact forall_concat h fun heq => absurd heq (device_new.ne hdrawn)
  | deviceAdded _ id_new => exact forall_concat h fun heq => absurd heq (id_new.ne hdrawn)
  | approved approved =>
    obtain @⟨admittedId, membership, now, _, _, issued, _, _, _, _⟩ := approved
    have hadmitted : DeviceDead deviceId
        (AuthChanges.afterAdmission db admittedId membership now issued) := h.afterAdmission
    exact hadmitted
  | deviceRevoked => exact forall_updateWhere h fun _ _ _ => rfl
  | removed => exact fun device hdevice => h device (mem_devices_withoutUsers.mp hdevice).1
  | _ => exact h

theorem deviceDead_kept (hdrawn : Drawn server 0 base deviceId) :
    Kept server base (DeviceDead deviceId) where
  change := fun h change => h.change hdrawn change
  attempts := fun h => h
  admitted := fun h _ => h.afterAdmission
  opened := fun h _ => h
  consumed := fun h => h
  pruned := by
    intro s t h pruned
    obtain ⟨keepRefresh, keepAccess, rfl⟩ := pruned
    exact h
  removed := fun h device hdevice => h device (mem_devices_withoutUsers.mp hdevice).1

/-- No call gives out a session of the device. -/
structure DeviceRefused (server : AuthServer) (db : AuthDatabase) (deviceId : Id) : Prop where
  rotate : ∀ input clock accessToken result db',
    rotateRefresh server input clock accessToken db = .ok result db' →
      ∀ family ∈ db.families, family.id = result.familyId → family.deviceId ≠ deviceId
  access : ∀ token clock session, lookupAccess db server token clock = .ok (some session) →
    session.deviceId ≠ deviceId
  context : ∀ token clock context, lookupRefreshContext db server token clock = .ok (some context) →
    context.deviceId ≠ deviceId

theorem DeviceDead.refused (h : DeviceDead deviceId db) (keys : Keys db) :
    DeviceRefused server db deviceId := by
  have hnot : ∀ device ∈ db.devices, device.status = .approved → device.id ≠ deviceId := by
    intro device hdevice happroved hid
    rw [h device hdevice hid] at happroved
    cases happroved
  constructor
  · intro input clock accessToken result db' hrotate family hfamily hid
    obtain ⟨row, hrow, hrowId, -, device, hdevice, hdeviceId, happroved⟩ :=
      rotateRefresh_family hrotate
    rw [keys.families.eq hfamily hrow (hid.trans hrowId.symm), ← hdeviceId]
    exact hnot device hdevice happroved
  · intro token clock session hlookup
    obtain ⟨row, now, -, hrow⟩ := lookupAccess_eq_some hlookup
    rw [hrow.session_eq, ← hrow.device_id]
    exact hnot row.device hrow.device_mem hrow.device_approved
  · intro token clock context hlookup
    obtain ⟨row, -, -, hcontext, -, device, hdevice, hdeviceId, happroved⟩ :=
      lookupRefreshContext_family hlookup
    rw [← hcontext, ← hdeviceId]
    exact hnot device hdevice happroved

section

variable (h : MembershipEnded server membershipId userId vaultId db)
include h

theorem MembershipEnded.withoutUsers {userIds : List Id} :
    MembershipEnded server membershipId userId vaultId (withoutUsers userIds db) where
  user_drawn := h.user_drawn
  row := fun membership hmem => h.row membership (mem_memberships_withoutUsers.mp hmem).1
  revoked := fun membership hmem => h.revoked membership (mem_memberships_withoutUsers.mp hmem).1
  consumed := by
    intro invitation hmem
    obtain ⟨stored, hstored, rfl⟩ := of_mem_invitations_withoutUsers hmem
    exact h.consumed stored hstored
  closed := by
    by_cases hgone : userId ∈ userIds
    · exact .inr fun user huser hid => (mem_users_withoutUsers.mp huser).2 (hid ▸ hgone)
    rcases h.closed with ⟨membership, hmem, huser, hvault⟩ | hnone
    · exact .inl ⟨membership, mem_memberships_withoutUsers.mpr ⟨hmem, huser ▸ hgone⟩, huser, hvault⟩
    · exact .inr fun user huser => hnone user (mem_users_withoutUsers.mp huser).1

variable (hdrawn : Drawn server 0 base membershipId)
include hdrawn

/-- An approval cannot be of the member: it has its row, or no user any more. -/
theorem MembershipEnded.afterAdmission {invitation : InvitationRow} {admittedId : Id}
    {membership : MembershipRow} {now : Timestamp} {issued : ℕ}
    (admitted : Admitted server base db invitation admittedId membership issued) :
    MembershipEnded server membershipId userId vaultId
      (afterAdmission db admittedId membership now issued) where
  user_drawn := h.user_drawn.mono (Nat.le_refl _) admitted.issued_le
  row := forall_concat h.row fun heq => absurd heq (admitted.membership_new.ne hdrawn)
  revoked := by
    refine forall_concat h.revoked fun huser hvault => ?_
    rcases h.closed with ⟨stored, hmem, hstoredUser, hstoredVault⟩ | hnone
    · exact absurd ⟨hstoredVault.trans hvault.symm, hstoredUser.trans huser.symm⟩
        (admitted.membership_free stored hmem).2
    · obtain ⟨user, hmem, hid⟩ := admitted.user_mem
      exact absurd (hid.trans huser) (hnone user hmem)
  consumed := h.consumed
  closed := h.closed.imp_left exists_concat

theorem MembershipEnded.change (change : Change server permit base db db') :
    MembershipEnded server membershipId userId vaultId db' := by
  have huserDrawn := h.user_drawn.mono (Nat.le_refl _) change.issued_le
  cases change with
  | ownerAdded _ _ user_fresh _ membership_new _ membership_user =>
    have hother := user_fresh.ne h.user_drawn
    refine { h with user_drawn := huserDrawn, row := ?_, revoked := ?_, closed := ?_ }
    · exact forall_concat h.row fun heq => absurd heq (membership_new.ne hdrawn)
    · exact forall_concat h.revoked fun heq => absurd (membership_user.symm.trans heq) hother
    · exact h.closed.imp exists_concat fun hnone => forall_concat hnone hother
  | invited _ _ _ member member_new =>
    refine { h with user_drawn := huserDrawn, consumed := forall_concat h.consumed fun heq => ?_ }
    cases member.symm.trans heq
    exact absurd rfl (member_new.ne h.user_drawn)
  | burned =>
    exact { h with consumed := forall_updateWhere h.consumed fun _ _ _ => by simp }
  | redeemed _ invitation_mem unconsumed user_eq =>
    refine
      { h with
        user_drawn := huserDrawn
        consumed := forall_updateWhere h.consumed fun _ _ _ => by simp [redeemedInvitation]
        closed := h.closed.imp_right fun hnone => forall_concat hnone fun heq => ?_ }
    exact h.consumed _ invitation_mem (heq ▸ user_eq) unconsumed
  | attemptsRecorded =>
    exact { h with consumed := forall_updateWhere h.consumed fun _ hrow => hrow }
  | approved approved =>
    obtain @⟨admittedId, membership, now, _, _, issued, _, admitted, opening, _⟩ := approved
    have hadmitted : MembershipEnded server membershipId userId vaultId
        (AuthChanges.afterAdmission db admittedId membership now issued) :=
      h.afterAdmission hdrawn admitted
    exact { hadmitted with user_drawn := huserDrawn }
  | removed => exact h.withoutUsers
  | membershipRevoked =>
    exact
      { h with
        row := forall_updateWhere h.row fun _ _ _ => rfl
        revoked := forall_updateWhere h.revoked fun _ _ _ _ => rfl
        closed := h.closed.imp_left fun hmember => exists_updateWhere hmember fun _ hrow => hrow }
  | _ => exact { h with user_drawn := huserDrawn }

omit h in
theorem membershipEnded_kept :
    Kept server base (MembershipEnded server membershipId userId vaultId) where
  change := fun h change => h.change hdrawn change
  attempts := fun h => { h with consumed := forall_updateWhere h.consumed fun _ hrow => hrow }
  admitted := fun h admitted => h.afterAdmission hdrawn admitted
  opened := fun h opening =>
    { h with user_drawn := h.user_drawn.mono (Nat.le_refl _) opening.issued_le }
  consumed := fun h => { h with }
  pruned := by
    intro s t h pruned
    obtain ⟨keepRefresh, keepAccess, rfl⟩ := pruned
    exact { h with }
  removed := fun h => h.withoutUsers

omit hdrawn in
theorem MembershipEnded.inactive : loadActiveMembership db userId vaultId = none := by
  refine List.find?_eq_none.mpr fun membership hmem hhit => ?_
  obtain ⟨huser, hvault, hactive⟩ := of_decide_eq_true hhit
  rw [h.revoked membership hmem huser hvault] at hactive
  cases hactive

end

variable {guard : World → AuthAction → Prop} {start w w' : World} {clock : Option Timestamp}
  {deviceNow : Id → Option Timestamp} {now : Timestamp} {deviceIds : List Id}

theorem mem_devicesInScope : deviceId ∈ devicesInScope db userId vaultId ↔
    ∃ device ∈ db.devices, device.userId = userId ∧
      (device.vaultId = some vaultId ∨ device.vaultId = none) ∧ device.id = deviceId := by
  simp [devicesInScope, and_assoc]

/-- What a revocation establishes about the membership. -/
theorem membershipEnded_of_revocation (sound : Sound server db) {membership : MembershipRow}
    (hmem : membership ∈ db.memberships)
    (hrevoked : DevicesRevoked deviceIds (afterMembershipRevocation db membership.id now) db') :
    MembershipEnded server membership.id membership.userId membership.vaultId db' := by
  obtain ⟨user, huser, hid⟩ := sound.references.membership_user membership hmem
  have hrow : ∀ row ∈ (afterMembershipRevocation db membership.id now).memberships,
      row.id = membership.id → row.status = .revoked := by
    intro row hrow heq
    rcases mem_updateWhere.mp hrow with ⟨-, hmiss⟩ | ⟨stored, -, -, rfl⟩
    · exact absurd heq (of_decide_eq_false hmiss)
    · rfl
  constructor
  · rw [hrevoked.issued]
    exact hid ▸ sound.issuance.users user huser
  · rw [hrevoked.memberships]
    exact hrow
  · rw [hrevoked.memberships]
    intro row hmemRow huserRow hvaultRow
    refine hrow row hmemRow ?_
    obtain ⟨stored, hstored, rfl | ⟨-, rfl⟩⟩ := of_mem_updateWhere hmemRow
    · rw [sound.members _ hstored membership hmem huserRow hvaultRow]
    · show stored.id = membership.id
      rw [sound.members stored hstored membership hmem huserRow hvaultRow]
  · rw [hrevoked.invitations]
    intro invitation hinvitation hintended hnone
    exact sound.onboarding.unconsumed_unused invitation hinvitation hnone user huser
      (hid ▸ hintended)
  · left
    rw [hrevoked.memberships]
    exact exists_updateWhere ⟨membership, hmem, rfl, rfl⟩ fun _ hP => hP

/-- Every row of the device is as it was. -/
structure DeviceKept (deviceId : Id) (db db' : AuthDatabase) : Prop where
  devices : db'.devices.filter (fun row => row.id = deviceId) =
    db.devices.filter fun row => row.id = deviceId
  families : db'.families.filter (fun row => row.deviceId = deviceId) =
    db.families.filter fun row => row.deviceId = deviceId
  access : db'.accessTokens.filter (fun row => row.deviceId = deviceId) =
    db.accessTokens.filter fun row => row.deviceId = deviceId
  tokens : db'.refreshTokens = db.refreshTokens

theorem deviceKept_of_revocation
    (h : DevicesRevoked deviceIds (afterMembershipRevocation db membershipId now) db')
    (hother : deviceId ∉ deviceIds) : DeviceKept deviceId db db' := by
  have himp : ∀ id : Id, decide (id = deviceId) = true → decide (id ∉ deviceIds) = true := by
    intro id hid
    rw [of_decide_eq_true hid]
    exact decide_eq_true hother
  exact
    { devices := filter_eq_of_imp (fun row => himp row.id) h.other_devices
      families := filter_eq_of_imp (fun row => himp row.deviceId) h.other_families
      access := filter_eq_of_imp (fun row => himp row.deviceId) h.other_access
      tokens := h.tokens }

/-- Once a membership is revoked, no run makes its member active in the vault again
or gives out a session of a device bound to that vault or to none; every device
of the same user bound to another vault keeps its rows through the revocation. -/
theorem revokeMembership_terminal {id : Id} {db' : AuthDatabase} (hstart : Sound server start.db)
    (reached : Reached (authStep server) guard start w)
    (hrevoke : revokeMembership membershipId clock deviceNow w.db = .ok id db')
    (hstep : authStep server w (.revokeMembership membershipId clock deviceNow) = some w') :
    ∃ membership ∈ w.db.memberships, membership.id = membershipId ∧
      (∀ device ∈ w.db.devices, device.userId = membership.userId → ∀ other ≠ membership.vaultId,
        device.vaultId = some other → DeviceKept device.id w.db w'.db) ∧
      ∀ t, Reached (authStep server) anyCall w' t →
        (∀ row ∈ t.db.memberships, row.id = membershipId → row.status = .revoked) ∧
        loadActiveMembership t.db membership.userId membership.vaultId = none ∧
        ∀ device ∈ w.db.devices, device.userId = membership.userId →
          device.vaultId = some membership.vaultId ∨ device.vaultId = none →
            DeviceRefused server t.db device.id := by
  have sound : Sound server w.db := reached_sound hstart reached
  have hsound' : Sound server w'.db := authStep_sound sound hstep
  obtain ⟨now, membership, hmem, -, hid, hdevices⟩ := revokeMembership_eq_ok hrevoke
  have hdb' : w'.db = db' := by
    cases hstep
    exact storeAfter_of_ok hrevoke
  have hrevoked := revokeDevices_eq_ok hdevices
  rw [← hid, ← hdb'] at hrevoked
  refine ⟨membership, hmem, hid, fun device hdevice huser other hother hvault => ?_,
    fun t ht => ?_⟩
  · refine deviceKept_of_revocation hrevoked fun hscope => ?_
    obtain ⟨stored, hstored, -, hbound, hstoredId⟩ := mem_devicesInScope.mp hscope
    rw [sound.keys.devices.eq hstored hdevice hstoredId, hvault] at hbound
    rcases hbound with hbound | hbound
    · exact hother (Option.some.inj hbound)
    · cases hbound
  · have hdrawn : Drawn server 0 w'.db.issued membership.id := by
      rw [hrevoked.issued]
      exact sound.issuance.memberships membership hmem
    have hended := reached_kept
      (fun base hbase => membershipEnded_kept (hdrawn.mono (Nat.le_refl _) hbase)) hsound'
      (membershipEnded_of_revocation sound hmem hrevoked) ht
    refine ⟨hid ▸ hended.row, hended.inactive, fun device hdevice huser hbound => ?_⟩
    have hscope : device.id ∈ devicesInScope w.db membership.userId membership.vaultId :=
      mem_devicesInScope.mpr ⟨device, hdevice, huser, hbound, rfl⟩
    have hdeviceDrawn : Drawn server 0 w'.db.issued device.id := by
      rw [hrevoked.issued]
      exact sound.issuance.devices device hdevice
    have hdead : DeviceDead device.id w'.db := fun row hrow hrowId =>
      hrevoked.devices row hrow (hrowId ▸ hscope)
    have hlater := reached_kept
      (fun base hbase => deviceDead_kept (hdeviceDrawn.mono (Nat.le_refl _) hbase)) hsound' hdead ht
    exact hlater.refused (reached_sound hsound' ht).keys

def revokedWorld : World :=
  (authStep plainServer memberWorld (.revokeMembership 13 (some 5000) fun _ => some 5000)).getD
    World.empty

theorem revokeMembership_terminal_member :
    (∃ membership ∈ memberWorld.db.memberships, membership.id = 13 ∧ membership.status = .active) ∧
      ∃ membership ∈ memberWorld.db.memberships, membership.id = 13 ∧
        ∀ t, Reached (authStep plainServer) anyCall revokedWorld t →
          loadActiveMembership t.db membership.userId membership.vaultId = none := by
  have hrevoke : revokeMembership 13 (some 5000) (fun _ => some 5000) memberWorld.db =
      .ok 13 revokedWorld.db := rfl
  have hstep : authStep plainServer memberWorld
      (.revokeMembership 13 (some 5000) fun _ => some 5000) = some revokedWorld := rfl
  obtain ⟨membership, hmem, hid, -, hlater⟩ := revokeMembership_terminal
    (sound_empty plainServer) (calls_reached World.empty memberActions) hrevoke hstep
  exact ⟨by decide +kernel, membership, hmem, hid, fun t ht => (hlater t ht).2.1⟩

end Havemind.RevocationSafety
