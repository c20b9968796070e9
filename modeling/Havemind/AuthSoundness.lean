import Havemind.AuthChanges

/-!
What every stored database satisfies, kept by every change: keys are distinct
and were drawn, references lead to rows, and a pending device belongs to the one
invitation that brought it, with no membership and no session of its own.
-/
namespace Havemind.AuthSoundness

open RevisionSchema KeyedTable AuthTables AuthChanges List
open ServerDatabase (AccountStatus DeviceStatus)

structure Keys (db : AuthDatabase) : Prop where
  users : Keyed UserRow.id db.users
  devices : Keyed DeviceRow.id db.devices
  memberships : Keyed MembershipRow.id db.memberships
  invitations : Keyed InvitationRow.id db.invitations
  families : Keyed FamilyRow.id db.families
  grants : Keyed RejoinGrantRow.id db.rejoinGrants

structure References (db : AuthDatabase) : Prop where
  device_user : ∀ device ∈ db.devices, ∃ user ∈ db.users, user.id = device.userId
  membership_user : ∀ membership ∈ db.memberships, ∃ user ∈ db.users, user.id = membership.userId
  family_device : ∀ family ∈ db.families, ∃ device ∈ db.devices, device.id = family.deviceId
  access_device : ∀ access ∈ db.accessTokens, ∃ device ∈ db.devices, device.id = access.deviceId

/-- Every key, and every user an invitation intends, was drawn. -/
structure Issuance (server : AuthServer) (db : AuthDatabase) : Prop where
  users : ∀ user ∈ db.users, Drawn server 0 db.issued user.id
  devices : ∀ device ∈ db.devices, Drawn server 0 db.issued device.id
  memberships : ∀ membership ∈ db.memberships, Drawn server 0 db.issued membership.id
  invitations : ∀ invitation ∈ db.invitations, Drawn server 0 db.issued invitation.id
  members : ∀ invitation ∈ db.invitations, ∀ id ∈ invitation.intendedMemberId,
    Drawn server 0 db.issued id
  families : ∀ family ∈ db.families, Drawn server 0 db.issued family.id
  grants : ∀ grant ∈ db.rejoinGrants, Drawn server 0 db.issued grant.id

structure Onboarding (db : AuthDatabase) : Prop where
  consumed_member : ∀ invitation ∈ db.invitations, ∀ userId,
    invitation.consumedByUserId = some userId → invitation.intendedMemberId = some userId
  members_distinct : ∀ a ∈ db.invitations, ∀ b ∈ db.invitations,
    a.intendedMemberId ≠ none → a.intendedMemberId = b.intendedMemberId → a = b
  unconsumed_unused : ∀ invitation ∈ db.invitations, invitation.consumedAt = none →
    ∀ user ∈ db.users, invitation.intendedMemberId ≠ some user.id
  unconsumed_blank : ∀ invitation ∈ db.invitations, invitation.consumedAt = none →
    invitation.consumedByUserId = none ∧ invitation.pendingDeviceId = none
  pending_device : ∀ invitation ∈ db.invitations, ∀ deviceId,
    invitation.pendingDeviceId = some deviceId → ∃ userId,
      invitation.consumedByUserId = some userId ∧
        ∃ device ∈ db.devices, device.id = deviceId ∧ device.userId = userId
  pending_invited : ∀ device ∈ db.devices, device.status = .pending →
    ∃ invitation ∈ db.invitations, invitation.pendingDeviceId = some device.id
  pending_no_member : ∀ device ∈ db.devices, device.status = .pending →
    ∀ membership ∈ db.memberships, membership.userId ≠ device.userId
  pending_alone : ∀ device ∈ db.devices, device.status = .pending →
    ∀ other ∈ db.devices, other.userId = device.userId → other.id = device.id
  pending_no_family : ∀ device ∈ db.devices, device.status = .pending →
    ∀ family ∈ db.families, family.deviceId ≠ device.id
  pending_no_access : ∀ device ∈ db.devices, device.status = .pending →
    ∀ access ∈ db.accessTokens, access.deviceId ≠ device.id

/-- The user of a pairing has a membership. -/
def PairingsOwned (db : AuthDatabase) : Prop :=
  ∀ pairing ∈ db.ownerPairings, ∃ membership ∈ db.memberships, membership.userId = pairing.userId

/-- No generation is out of the range the services can read. -/
structure Generations (db : AuthDatabase) : Prop where
  families : ∀ family ∈ db.families, family.currentGeneration ≤ maxSafeInteger
  tokens : ∀ token ∈ db.refreshTokens, token.generation ≤ maxSafeInteger

/-- A grant supersedes the older ones of its membership. -/
def GrantsSuperseded (db : AuthDatabase) : Prop :=
  ∀ a ∈ db.rejoinGrants, ∀ b ∈ db.rejoinGrants, a.membershipId = b.membershipId →
    a.consumedAt = none → b.consumedAt = none → a = b

/-- A user has one membership in a vault. -/
def MembersUnique (db : AuthDatabase) : Prop :=
  ∀ a ∈ db.memberships, ∀ b ∈ db.memberships, a.userId = b.userId → a.vaultId = b.vaultId → a = b

/-- A device some other row names is past its approval. -/
def ReferencedSettled (db : AuthDatabase) : Prop :=
  ∀ deviceId, deviceReferenced db deviceId = true → Settled db deviceId

structure Sound (server : AuthServer) (db : AuthDatabase) : Prop where
  keys : Keys db
  references : References db
  issuance : Issuance server db
  onboarding : Onboarding db
  owned : PairingsOwned db
  referenced : ReferencedSettled db
  generations : Generations db
  grants : GrantsSuperseded db
  members : MembersUnique db

theorem sound_empty (server : AuthServer) : Sound server AuthDatabase.empty where
  keys := by constructor <;> exact nodup_nil
  references := by constructor <;> intro row hrow <;> cases hrow
  issuance := by constructor <;> intro row hrow <;> cases hrow
  onboarding := by constructor <;> intro row hrow <;> cases hrow
  owned := fun _ hpairing => nomatch hpairing
  referenced := fun _ hreferenced => nomatch hreferenced
  generations := by constructor <;> intro row hrow <;> cases hrow
  grants := fun _ hgrant => nomatch hgrant
  members := fun _ hmembership => nomatch hmembership

section
variable {db : AuthDatabase} {userIds : List Id} {id : Id} {server : AuthServer}

theorem mem_devicesOf : id ∈ devicesOf db userIds ↔
    ∃ device ∈ db.devices, device.userId ∈ userIds ∧ device.id = id := by
  simp [devicesOf, and_assoc]

theorem mem_membershipsOf : id ∈ membershipsOf db userIds ↔
    ∃ membership ∈ db.memberships, membership.userId ∈ userIds ∧ membership.id = id := by
  simp [membershipsOf, and_assoc]

theorem mem_users_withoutUsers {row : UserRow} : row ∈ (withoutUsers userIds db).users ↔
    row ∈ db.users ∧ row.id ∉ userIds := by
  simp [withoutUsers]

theorem mem_devices_withoutUsers {row : DeviceRow} : row ∈ (withoutUsers userIds db).devices ↔
    row ∈ db.devices ∧ row.userId ∉ userIds := by
  simp [withoutUsers]

theorem mem_memberships_withoutUsers {row : MembershipRow} :
    row ∈ (withoutUsers userIds db).memberships ↔
      row ∈ db.memberships ∧ row.userId ∉ userIds := by
  simp [withoutUsers]

theorem mem_families_withoutUsers {row : FamilyRow} : row ∈ (withoutUsers userIds db).families ↔
    row ∈ db.families ∧ row.userId ∉ userIds ∧ row.deviceId ∉ devicesOf db userIds := by
  simp [withoutUsers]

theorem mem_access_withoutUsers {row : AccessTokenRow}
    (h : row ∈ (withoutUsers userIds db).accessTokens) :
    row ∈ db.accessTokens ∧ row.deviceId ∉ devicesOf db userIds := by
  obtain ⟨hmem, hkept⟩ := mem_filter.mp h
  exact ⟨hmem, (of_decide_eq_true hkept).2.2⟩

theorem mem_grants_withoutUsers {row : RejoinGrantRow} :
    row ∈ (withoutUsers userIds db).rejoinGrants → row ∈ db.rejoinGrants := by
  intro h
  exact (mem_filter.mp h).1

/-- An invitation after the deletion: as it was, with the lost references gone. -/
theorem of_mem_invitations_withoutUsers {row : InvitationRow}
    (h : row ∈ (withoutUsers userIds db).invitations) :
    ∃ stored ∈ db.invitations, row =
      { stored with
        consumedByUserId := stored.consumedByUserId.filter fun id => id ∉ userIds
        pendingDeviceId := stored.pendingDeviceId.filter fun id => id ∉ devicesOf db userIds } := by
  obtain ⟨stored, hstored, heq⟩ := mem_map.mp h
  exact ⟨stored, hstored, heq.symm⟩

theorem Keys.withoutUsers (h : Keys db) : Keys (withoutUsers userIds db) where
  users := h.users.filter _
  devices := h.devices.filter _
  memberships := h.memberships.filter _
  invitations := by
    unfold Keyed AuthTables.withoutUsers
    rw [map_map]
    exact h.invitations
  families := h.families.filter _
  grants := h.grants.filter _

theorem References.withoutUsers (h : References db) : References (withoutUsers userIds db) where
  device_user := by
    intro device hdevice
    obtain ⟨hdevice, hkept⟩ := mem_devices_withoutUsers.mp hdevice
    obtain ⟨user, huser, hid⟩ := h.device_user device hdevice
    exact ⟨user, mem_users_withoutUsers.mpr ⟨huser, hid ▸ hkept⟩, hid⟩
  membership_user := by
    intro membership hmembership
    obtain ⟨hmembership, hkept⟩ := mem_memberships_withoutUsers.mp hmembership
    obtain ⟨user, huser, hid⟩ := h.membership_user membership hmembership
    exact ⟨user, mem_users_withoutUsers.mpr ⟨huser, hid ▸ hkept⟩, hid⟩
  family_device := by
    intro family hfamily
    obtain ⟨hfamily, -, hkept⟩ := mem_families_withoutUsers.mp hfamily
    obtain ⟨device, hdevice, hid⟩ := h.family_device family hfamily
    refine ⟨device, mem_devices_withoutUsers.mpr ⟨hdevice, fun hgone => hkept ?_⟩, hid⟩
    exact mem_devicesOf.mpr ⟨device, hdevice, hgone, hid⟩
  access_device := by
    intro access haccess
    obtain ⟨haccess, hkept⟩ := mem_access_withoutUsers haccess
    obtain ⟨device, hdevice, hid⟩ := h.access_device access haccess
    refine ⟨device, mem_devices_withoutUsers.mpr ⟨hdevice, fun hgone => hkept ?_⟩, hid⟩
    exact mem_devicesOf.mpr ⟨device, hdevice, hgone, hid⟩

theorem Issuance.withoutUsers (h : Issuance server db) :
    Issuance server (withoutUsers userIds db) where
  users := fun row hrow => h.users row (mem_users_withoutUsers.mp hrow).1
  devices := fun row hrow => h.devices row (mem_devices_withoutUsers.mp hrow).1
  memberships := fun row hrow => h.memberships row (mem_memberships_withoutUsers.mp hrow).1
  invitations := by
    intro row hrow
    obtain ⟨stored, hstored, rfl⟩ := of_mem_invitations_withoutUsers hrow
    exact h.invitations stored hstored
  members := by
    intro row hrow
    obtain ⟨stored, hstored, rfl⟩ := of_mem_invitations_withoutUsers hrow
    exact h.members stored hstored
  families := fun row hrow => h.families row (mem_families_withoutUsers.mp hrow).1
  grants := fun row hrow => h.grants row (mem_grants_withoutUsers hrow)

theorem Onboarding.withoutUsers (h : Onboarding db) (keys : Keys db) :
    Onboarding (withoutUsers userIds db) where
  consumed_member := by
    intro row hrow userId hconsumed
    obtain ⟨stored, hstored, rfl⟩ := of_mem_invitations_withoutUsers hrow
    exact h.consumed_member stored hstored userId (Option.filter_eq_some_iff.mp hconsumed).1
  members_distinct := by
    intro a ha b hb hsome heq
    obtain ⟨storedA, hstoredA, rfl⟩ := of_mem_invitations_withoutUsers ha
    obtain ⟨storedB, hstoredB, rfl⟩ := of_mem_invitations_withoutUsers hb
    rw [h.members_distinct storedA hstoredA storedB hstoredB hsome heq]
  unconsumed_unused := by
    intro row hrow hconsumed user huser
    obtain ⟨stored, hstored, rfl⟩ := of_mem_invitations_withoutUsers hrow
    exact h.unconsumed_unused stored hstored hconsumed user (mem_users_withoutUsers.mp huser).1
  unconsumed_blank := by
    intro row hrow hconsumed
    obtain ⟨stored, hstored, rfl⟩ := of_mem_invitations_withoutUsers hrow
    obtain ⟨huser, hdevice⟩ := h.unconsumed_blank stored hstored hconsumed
    simp [huser, hdevice]
  pending_device := by
    intro row hrow deviceId hdevice
    obtain ⟨stored, hstored, rfl⟩ := of_mem_invitations_withoutUsers hrow
    obtain ⟨hpending, hkept⟩ := Option.filter_eq_some_iff.mp hdevice
    obtain ⟨userId, hconsumed, device, hmem, hid, huser⟩ :=
      h.pending_device stored hstored deviceId hpending
    have huserKept : device.userId ∉ userIds := by
      intro hgone
      exact absurd (mem_devicesOf.mpr ⟨device, hmem, hgone, hid⟩) (of_decide_eq_true hkept)
    refine ⟨userId, ?_, device, mem_devices_withoutUsers.mpr ⟨hmem, huserKept⟩, hid, huser⟩
    exact Option.filter_eq_some_iff.mpr ⟨hconsumed, decide_eq_true (huser ▸ huserKept)⟩
  pending_invited := by
    intro device hdevice hpending
    obtain ⟨hmem, hkept⟩ := mem_devices_withoutUsers.mp hdevice
    obtain ⟨stored, hstored, hstoredDevice⟩ := h.pending_invited device hmem hpending
    refine ⟨_, mem_map.mpr ⟨stored, hstored, rfl⟩, ?_⟩
    refine Option.filter_eq_some_iff.mpr ⟨hstoredDevice, decide_eq_true fun hgone => ?_⟩
    obtain ⟨other, hother, hotherGone, hid⟩ := mem_devicesOf.mp hgone
    rw [keys.devices.eq hother hmem hid] at hotherGone
    exact hkept hotherGone
  pending_no_member := by
    intro device hdevice hpending membership hmembership
    exact h.pending_no_member device (mem_devices_withoutUsers.mp hdevice).1 hpending membership
      (mem_memberships_withoutUsers.mp hmembership).1
  pending_alone := by
    intro device hdevice hpending other hother
    exact h.pending_alone device (mem_devices_withoutUsers.mp hdevice).1 hpending other
      (mem_devices_withoutUsers.mp hother).1
  pending_no_family := by
    intro device hdevice hpending family hfamily
    exact h.pending_no_family device (mem_devices_withoutUsers.mp hdevice).1 hpending family
      (mem_families_withoutUsers.mp hfamily).1
  pending_no_access := by
    intro device hdevice hpending access haccess
    exact h.pending_no_access device (mem_devices_withoutUsers.mp hdevice).1 hpending access
      (mem_access_withoutUsers haccess).1

theorem PairingsOwned.withoutUsers (h : PairingsOwned db) :
    PairingsOwned (withoutUsers userIds db) := by
  intro pairing hpairing
  obtain ⟨hmem, hkept⟩ := mem_filter.mp hpairing
  obtain ⟨membership, hmembership, huser⟩ := h pairing hmem
  refine ⟨membership, mem_memberships_withoutUsers.mpr ⟨hmembership, ?_⟩, huser⟩
  rw [huser]
  exact (of_decide_eq_true hkept).1

theorem Generations.withoutUsers (h : Generations db) :
    Generations (withoutUsers userIds db) where
  families := fun row hrow => h.families row (mem_families_withoutUsers.mp hrow).1
  tokens := fun row hrow => h.tokens row (mem_filter.mp hrow).1

theorem GrantsSuperseded.withoutUsers (h : GrantsSuperseded db) :
    GrantsSuperseded (withoutUsers userIds db) :=
  fun a ha b hb => h a (mem_grants_withoutUsers ha) b (mem_grants_withoutUsers hb)

theorem deviceReferenced_iff {deviceId : Id} : deviceReferenced db deviceId = true ↔
    (∃ row ∈ db.ownerPairings, row.consumedByDeviceId = some deviceId) ∨
      (∃ row ∈ db.invitations, row.inviterDeviceId = deviceId) ∨
      (∃ row ∈ db.revisions, row.deviceId = deviceId) ∨
      ∃ row ∈ db.agentEnrollments,
        row.inviterDeviceId = deviceId ∨ row.deviceId = some deviceId := by
  simp [deviceReferenced, or_assoc]

theorem ReferencedSettled.withoutUsers (h : ReferencedSettled db)
    (hfree : ∀ deviceId ∈ devicesOf db userIds, deviceReferenced db deviceId = false) :
    ReferencedSettled (withoutUsers userIds db) := by
  intro deviceId hreferenced
  have hbefore : deviceReferenced db deviceId = true := by
    rw [deviceReferenced_iff] at hreferenced ⊢
    rcases hreferenced with ⟨row, hrow, hid⟩ | ⟨row, hrow, hid⟩ | hreferenced
    · exact .inl ⟨row, (mem_filter.mp hrow).1, hid⟩
    · obtain ⟨stored, hstored, rfl⟩ := of_mem_invitations_withoutUsers hrow
      exact .inr (.inl ⟨stored, hstored, hid⟩)
    · exact .inr (.inr hreferenced)
  obtain ⟨device, hdevice, hid, hsettled⟩ := h deviceId hbefore
  refine ⟨device, mem_devices_withoutUsers.mpr ⟨hdevice, fun hgone => ?_⟩, hid, hsettled⟩
  have hunreferenced := hfree deviceId (mem_devicesOf.mpr ⟨device, hdevice, hgone, hid⟩)
  rw [hbefore] at hunreferenced
  cases hunreferenced

theorem Sound.withoutUsers (h : Sound server db)
    (hfree : ∀ deviceId ∈ devicesOf db userIds, deviceReferenced db deviceId = false) :
    Sound server (withoutUsers userIds db) where
  keys := h.keys.withoutUsers
  references := h.references.withoutUsers
  issuance := h.issuance.withoutUsers
  onboarding := h.onboarding.withoutUsers h.keys
  owned := h.owned.withoutUsers
  referenced := h.referenced.withoutUsers hfree
  generations := h.generations.withoutUsers
  grants := h.grants.withoutUsers
  members := fun a ha b hb => h.members a (mem_memberships_withoutUsers.mp ha).1 b
    (mem_memberships_withoutUsers.mp hb).1

end

variable {server : AuthServer} {permit : Permit} {base : ℕ} {db db' : AuthDatabase} {deviceId : Id}
  {membership : MembershipRow} {now : Timestamp} {issued : ℕ} {family : FamilyRow}
  {token : RefreshTokenRow} {device : DeviceRow} {invitation : InvitationRow}
  {hit : InvitationRow → Bool} {update : InvitationRow → InvitationRow} {user : UserRow}
  {credentialHash refreshTokenHash : TokenHash}

theorem Keys.afterAdmission (h : Keys db)
    (hfree : ∀ stored ∈ db.memberships, stored.id ≠ membership.id) :
    Keys (afterAdmission db deviceId membership now issued) :=
  { h with
    devices := h.devices.updateWhere fun _ => rfl
    memberships := h.memberships.concat hfree }

theorem Keys.afterOpening (h : Keys db) (opening : Opening server base db family token issued) :
    Keys (afterOpening db family token issued) :=
  { h with families := h.families.concat opening.family_free }

theorem Keys.change (h : Keys db) (change : Change server permit base db db') : Keys db' := by
  cases change with
  | drawn | initialized | pairingsSet | enrollmentsSet | revisionAdded | accessIssued =>
    exact { h with }
  | ownerAdded _ _ _ user_free _ membership_free =>
    exact
      { h with
        users := h.users.concat user_free
        memberships := h.memberships.concat membership_free }
  | invited _ _ id_free => exact { h with invitations := h.invitations.concat id_free }
  | burned | attemptsRecorded =>
    exact { h with invitations := h.invitations.updateWhere fun _ => rfl }
  | redeemed _ _ _ _ user_free _ device_free =>
    exact
      { h with
        users := h.users.concat user_free
        devices := h.devices.concat device_free
        invitations := h.invitations.updateWhere fun _ => rfl }
  | approved approved =>
    obtain ⟨admitted, opening, -⟩ := approved
    exact (h.afterAdmission fun stored hstored =>
      (admitted.membership_free stored hstored).1).afterOpening opening
  | removed => exact h.withoutUsers
  | membershipRevoked => exact { h with memberships := h.memberships.updateWhere fun _ => rfl }
  | deviceRevoked =>
    exact
      { h with
        devices := h.devices.updateWhere fun _ => rfl
        families := h.families.updateWhere fun _ => rfl }
  | deviceAdded _ _ id_free => exact { h with devices := h.devices.concat id_free }
  | grantIssued _ _ id_free =>
    refine { h with grants := Keyed.concat (h.grants.updateWhere ?_) ?_ }
    · exact fun _ => rfl
    intro stored hstored
    obtain ⟨old, hold, rfl | ⟨-, rfl⟩⟩ := of_mem_updateWhere hstored
    · exact id_free _ hold
    · exact id_free old hold
  | sessionOpened _ opening => exact h.afterOpening opening
  | rotated | reuseMarked => exact { h with families := h.families.updateWhere fun _ => rfl }

theorem References.afterAdmission (h : References db)
    (huser : ∃ user ∈ db.users, user.id = membership.userId) :
    References (afterAdmission db deviceId membership now issued) where
  device_user := forall_updateWhere h.device_user fun _ hrow => hrow
  membership_user := forall_concat h.membership_user huser
  family_device := fun family hfamily =>
    exists_updateWhere (h.family_device family hfamily) fun _ hrow => hrow
  access_device := fun access haccess =>
    exists_updateWhere (h.access_device access haccess) fun _ hrow => hrow

theorem References.afterOpening (h : References db)
    (opening : Opening server base db family token issued) :
    References (afterOpening db family token issued) := by
  obtain ⟨device, hdevice, hid, -⟩ := opening.device_settled
  exact { h with family_device := forall_concat h.family_device ⟨device, hdevice, hid⟩ }

theorem References.change (h : References db) (change : Change server permit base db db') :
    References db' := by
  cases change with
  | drawn | initialized | pairingsSet | enrollmentsSet | revisionAdded | invited | burned
  | attemptsRecorded | grantIssued => exact { h with }
  | ownerAdded _ _ _ _ _ _ membership_user =>
    constructor
    · exact fun device hdevice => exists_concat (h.device_user device hdevice)
    · refine forall_concat (fun row hrow => exists_concat (h.membership_user row hrow)) ?_
      exact ⟨_, mem_append_right _ (mem_singleton_self _), membership_user.symm⟩
    · exact h.family_device
    · exact h.access_device
  | redeemed _ _ _ _ _ _ _ device_user =>
    constructor
    · refine forall_concat (fun row hrow => exists_concat (h.device_user row hrow)) ?_
      exact ⟨_, mem_append_right _ (mem_singleton_self _), device_user.symm⟩
    · exact fun row hrow => exists_concat (h.membership_user row hrow)
    · exact fun row hrow => exists_concat (h.family_device row hrow)
    · exact fun row hrow => exists_concat (h.access_device row hrow)
  | approved approved =>
    obtain ⟨admitted, opening, -⟩ := approved
    exact (h.afterAdmission admitted.user_mem).afterOpening opening
  | removed => exact h.withoutUsers
  | membershipRevoked =>
    exact { h with membership_user := forall_updateWhere h.membership_user fun _ hrow => hrow }
  | deviceRevoked =>
    constructor
    · exact forall_updateWhere h.device_user fun _ hrow => hrow
    · exact h.membership_user
    · refine forall_updateWhere ?_ fun _ hrow => hrow
      exact fun row hrow => exists_updateWhere (h.family_device row hrow) fun _ hid => hid
    · refine forall_updateWhere ?_ fun _ hrow => hrow
      exact fun row hrow => exists_updateWhere (h.access_device row hrow) fun _ hid => hid
  | deviceAdded _ _ _ user_mem _ =>
    constructor
    · exact forall_concat h.device_user user_mem
    · exact h.membership_user
    · exact fun row hrow => exists_concat (h.family_device row hrow)
    · exact fun row hrow => exists_concat (h.access_device row hrow)
  | sessionOpened _ opening => exact h.afterOpening opening
  | accessIssued _ family =>
    obtain ⟨family, hfamily, -, hid, -⟩ := family
    refine { h with access_device := forall_concat h.access_device ?_ }
    exact hid ▸ h.family_device family hfamily
  | rotated =>
    exact { h with family_device := forall_updateWhere h.family_device fun _ hrow => hrow }
  | reuseMarked =>
    exact
      { h with
        family_device := forall_updateWhere h.family_device fun _ hrow => hrow
        access_device := forall_updateWhere h.access_device fun _ hrow => hrow }

theorem Issuance.mono (h : Issuance server db) (hle : db.issued ≤ issued) :
    Issuance server { db with issued } where
  users := fun row hrow => (h.users row hrow).mono (Nat.le_refl _) hle
  devices := fun row hrow => (h.devices row hrow).mono (Nat.le_refl _) hle
  memberships := fun row hrow => (h.memberships row hrow).mono (Nat.le_refl _) hle
  invitations := fun row hrow => (h.invitations row hrow).mono (Nat.le_refl _) hle
  members := fun row hrow id hid => (h.members row hrow id hid).mono (Nat.le_refl _) hle
  families := fun row hrow => (h.families row hrow).mono (Nat.le_refl _) hle
  grants := fun row hrow => (h.grants row hrow).mono (Nat.le_refl _) hle

theorem Issuance.afterAdmission (h : Issuance server db) (hle : db.issued ≤ issued)
    (hnew : Drawn server base issued membership.id) :
    Issuance server (afterAdmission db deviceId membership now issued) :=
  have hmono := h.mono hle
  { hmono with
    devices := forall_updateWhere hmono.devices fun _ hrow => hrow
    memberships := forall_concat hmono.memberships (hnew.mono (Nat.zero_le _) (Nat.le_refl _)) }

theorem Issuance.afterOpening (h : Issuance server db)
    (opening : Opening server base db family token issued) :
    Issuance server (afterOpening db family token issued) :=
  have hmono := h.mono opening.issued_le
  { hmono with
    families := forall_concat hmono.families
      (opening.family_new.mono (Nat.zero_le _) (Nat.le_refl _)) }

theorem Issuance.change (h : Issuance server db) (change : Change server permit base db db') :
    Issuance server db' := by
  have hmono := h.mono change.issued_le
  cases change with
  | drawn | initialized | pairingsSet | enrollmentsSet | revisionAdded | accessIssued =>
    exact { hmono with }
  | ownerAdded _ user_new _ _ membership_new =>
    exact
      { hmono with
        users := forall_concat hmono.users (user_new.mono (Nat.zero_le _) (Nat.le_refl _))
        memberships := forall_concat hmono.memberships
          (membership_new.mono (Nat.zero_le _) (Nat.le_refl _)) }
  | invited _ id_new _ member member_new =>
    refine
      { hmono with
        invitations := forall_concat hmono.invitations
          (id_new.mono (Nat.zero_le _) (Nat.le_refl _))
        members := forall_concat hmono.members ?_ }
    intro id hid
    cases hid.symm.trans member
    exact member_new.mono (Nat.zero_le _) (Nat.le_refl _)
  | burned | attemptsRecorded =>
    exact
      { hmono with
        invitations := forall_updateWhere hmono.invitations fun _ hrow => hrow
        members := forall_updateWhere hmono.members fun _ hrow => hrow }
  | redeemed _ invitation_mem _ user_eq _ device_new =>
    exact
      { hmono with
        users := forall_concat hmono.users (hmono.members _ invitation_mem _ user_eq)
        devices := forall_concat hmono.devices (device_new.mono (Nat.zero_le _) (Nat.le_refl _))
        invitations := forall_updateWhere hmono.invitations fun _ hrow => hrow
        members := forall_updateWhere hmono.members fun _ hrow => hrow }
  | approved approved =>
    obtain ⟨admitted, opening, -⟩ := approved
    exact (h.afterAdmission admitted.issued_le admitted.membership_new).afterOpening opening
  | removed => exact h.withoutUsers
  | membershipRevoked =>
    exact { h with memberships := forall_updateWhere h.memberships fun _ hrow => hrow }
  | deviceRevoked =>
    exact
      { h with
        devices := forall_updateWhere h.devices fun _ hrow => hrow
        families := forall_updateWhere h.families fun _ hrow => hrow }
  | deviceAdded _ id_new =>
    exact
      { h with
        devices := forall_concat h.devices (id_new.mono (Nat.zero_le _) (Nat.le_refl _)) }
  | grantIssued _ id_new =>
    refine { hmono with grants := forall_concat ?_ (id_new.mono (Nat.zero_le _) (Nat.le_refl _)) }
    exact forall_updateWhere hmono.grants fun _ hrow => hrow
  | sessionOpened _ opening => exact h.afterOpening opening
  | rotated | reuseMarked =>
    exact { hmono with families := forall_updateWhere hmono.families fun _ hrow => hrow }

/-- A pending device and the user its invitation was consumed by. -/
theorem Onboarding.invitation_of_pending (h : Onboarding db) (keys : Keys db)
    (hdevice : device ∈ db.devices) (hpending : device.status = .pending) :
    ∃ invitation ∈ db.invitations, invitation.pendingDeviceId = some device.id ∧
      invitation.consumedByUserId = some device.userId := by
  obtain ⟨invitation, hinvitation, heq⟩ := h.pending_invited device hdevice hpending
  obtain ⟨userId, hconsumed, stored, hstored, hid, huser⟩ :=
    h.pending_device invitation hinvitation device.id heq
  rw [keys.devices.eq hstored hdevice hid] at huser
  exact ⟨invitation, hinvitation, heq, huser ▸ hconsumed⟩

theorem Onboarding.afterAdmission (h : Onboarding db) (keys : Keys db)
    (admitted : Admitted server base db invitation deviceId membership issued) :
    Onboarding (afterAdmission db deviceId membership now issued) := by
  have hstill : ∀ device ∈ (AuthChanges.afterAdmission db deviceId membership now issued).devices,
      device.status = .pending → device ∈ db.devices ∧ device.id ≠ deviceId := by
    intro device hdevice hpending
    rcases mem_updateWhere.mp hdevice with ⟨hmem, hmiss⟩ | ⟨stored, -, -, rfl⟩
    · exact ⟨hmem, fun hid => absurd ⟨hid, hpending⟩ (of_decide_eq_false hmiss)⟩
    · cases hpending
  constructor
  · exact h.consumed_member
  · exact h.members_distinct
  · exact h.unconsumed_unused
  · exact h.unconsumed_blank
  · intro row hrow id hid
    obtain ⟨userId, hconsumed, hdevice⟩ := h.pending_device row hrow id hid
    exact ⟨userId, hconsumed, exists_updateWhere hdevice fun _ hP => hP⟩
  · intro device hdevice hpending
    exact h.pending_invited device (hstill device hdevice hpending).1 hpending
  · intro device hdevice hpending
    obtain ⟨hmem, hne⟩ := hstill device hdevice hpending
    refine forall_concat (h.pending_no_member device hmem hpending) ?_
    intro huser
    -- A second pending device of the new member would come from the same invitation.
    obtain ⟨other, hother, hotherDevice, hotherUser⟩ := h.invitation_of_pending keys hmem hpending
    have hmember := h.consumed_member _ admitted.invitation_mem _ admitted.user_eq
    have hotherMember := h.consumed_member other hother _ hotherUser
    have hsame := h.members_distinct other hother _ admitted.invitation_mem (by simp [hotherMember])
      (by rw [hotherMember, hmember, huser])
    rw [hsame, admitted.device_eq] at hotherDevice
    exact hne (Option.some.inj hotherDevice).symm
  · intro device hdevice hpending
    exact forall_updateWhere (h.pending_alone device (hstill device hdevice hpending).1 hpending)
      fun _ hrow => hrow
  · intro device hdevice hpending
    exact h.pending_no_family device (hstill device hdevice hpending).1 hpending
  · intro device hdevice hpending
    exact h.pending_no_access device (hstill device hdevice hpending).1 hpending

theorem Onboarding.afterOpening (h : Onboarding db) (keys : Keys db)
    (opening : Opening server base db family token issued) :
    Onboarding (afterOpening db family token issued) := by
  refine { h with pending_no_family := fun device hdevice hpending => ?_ }
  refine forall_concat (h.pending_no_family device hdevice hpending) fun heq => ?_
  obtain ⟨settled, hsettled, hid, hnot⟩ := opening.device_settled
  rw [keys.devices.eq hsettled hdevice (hid.trans heq)] at hnot
  exact hnot hpending

/-- An update of invitations that leaves their identities and links alone. -/
theorem Onboarding.updateInvitations (h : Onboarding db)
    (hmember : ∀ row, (update row).intendedMemberId = row.intendedMemberId)
    (huser : ∀ row, (update row).consumedByUserId = row.consumedByUserId)
    (hdevice : ∀ row, (update row).pendingDeviceId = row.pendingDeviceId)
    (hconsumed : ∀ row, (update row).consumedAt = none → row.consumedAt = none) :
    Onboarding { db with invitations := updateWhere hit update db.invitations } := by
  constructor
  · refine forall_updateWhere h.consumed_member fun row hrow userId hid => ?_
    rw [hmember]
    exact hrow userId (huser row ▸ hid)
  · intro a ha b hb hsome heq
    obtain ⟨storedA, hstoredA, rfl⟩ := mem_map.mp ha
    obtain ⟨storedB, hstoredB, rfl⟩ := mem_map.mp hb
    have hkeeps : ∀ row, (if hit row = true then update row else row).intendedMemberId =
        row.intendedMemberId := by
      intro row
      split
      · exact hmember row
      · rfl
    rw [hkeeps] at hsome heq
    rw [hkeeps] at heq
    rw [h.members_distinct storedA hstoredA storedB hstoredB hsome heq]
  · refine forall_updateWhere h.unconsumed_unused fun row hrow hnone => ?_
    rw [hmember]
    exact hrow (hconsumed row hnone)
  · refine forall_updateWhere h.unconsumed_blank fun row hrow hnone => ?_
    rw [huser, hdevice]
    exact hrow (hconsumed row hnone)
  · refine forall_updateWhere h.pending_device fun row hrow deviceId hid => ?_
    obtain ⟨userId, hby, hexists⟩ := hrow deviceId (hdevice row ▸ hid)
    exact ⟨userId, huser row ▸ hby, hexists⟩
  · intro device hmem hpending
    refine exists_updateWhere (h.pending_invited device hmem hpending) fun row hrow => ?_
    rw [hdevice, hrow]
  · exact h.pending_no_member
  · exact h.pending_alone
  · exact h.pending_no_family
  · exact h.pending_no_access

/-- The only invitation a redemption rewrites is the one redeemed. -/
theorem of_mem_invitations_afterRedemption (keys : Keys db) {row : InvitationRow}
    (hinvitation : invitation ∈ db.invitations)
    (hrow : row ∈ (afterRedemption db invitation user device now credentialHash refreshTokenHash
      issued).invitations) :
    (row ∈ db.invitations ∧ (row.id = invitation.id → row.consumedAt ≠ none)) ∨
      row = redeemedInvitation user.id device.id now credentialHash refreshTokenHash invitation := by
  rcases mem_updateWhere.mp hrow with ⟨hmem, hmiss⟩ | ⟨stored, hstored, hhit, rfl⟩
  · exact .inl ⟨hmem, fun hid hnone => of_decide_eq_false hmiss ⟨hid, hnone⟩⟩
  · rw [keys.invitations.eq hstored hinvitation (of_decide_eq_true hhit).1]
    exact .inr rfl

theorem Onboarding.afterRedemption (h : Onboarding db) (keys : Keys db)
    (references : References db) (hinvitation : invitation ∈ db.invitations)
    (hunconsumed : invitation.consumedAt = none)
    (huser : invitation.intendedMemberId = some user.id)
    (huserFree : ∀ stored ∈ db.users, stored.id ≠ user.id)
    (hdeviceFree : ∀ stored ∈ db.devices, stored.id ≠ device.id)
    (hdeviceUser : device.userId = user.id) :
    Onboarding (afterRedemption db invitation user device now credentialHash refreshTokenHash
      issued) := by
  have hcases : ∀ row ∈ (AuthChanges.afterRedemption db invitation user device now credentialHash
      refreshTokenHash issued).invitations,
      (row ∈ db.invitations ∧ (row.id = invitation.id → row.consumedAt ≠ none)) ∨
        row = redeemedInvitation user.id device.id now credentialHash refreshTokenHash invitation :=
    fun row hrow => of_mem_invitations_afterRedemption keys hinvitation hrow
  constructor
  · intro row hrow userId hid
    rcases hcases row hrow with ⟨hmem, -⟩ | rfl
    · exact h.consumed_member row hmem userId hid
    · exact huser.trans hid
  · intro a ha b hb hsome heq
    obtain ⟨storedA, hstoredA, rfl⟩ := mem_map.mp ha
    obtain ⟨storedB, hstoredB, rfl⟩ := mem_map.mp hb
    have hkeeps : ∀ row : InvitationRow,
        (if decide (row.id = invitation.id ∧ row.consumedAt = none) = true then
          redeemedInvitation user.id device.id now credentialHash refreshTokenHash row
          else row).intendedMemberId = row.intendedMemberId := by
      intro row
      split <;> rfl
    rw [hkeeps] at hsome heq
    rw [hkeeps] at heq
    rw [h.members_distinct storedA hstoredA storedB hstoredB hsome heq]
  · intro row hrow hnone
    rcases hcases row hrow with ⟨hmem, hother⟩ | rfl
    · refine forall_concat (h.unconsumed_unused row hmem hnone) fun heq => ?_
      have hsame := h.members_distinct row hmem invitation hinvitation (by simp [heq])
        (heq.trans huser.symm)
      exact hother (congrArg InvitationRow.id hsame) hnone
    · cases hnone
  · intro row hrow hnone
    rcases hcases row hrow with ⟨hmem, -⟩ | rfl
    · exact h.unconsumed_blank row hmem hnone
    · cases hnone
  · intro row hrow deviceId hid
    rcases hcases row hrow with ⟨hmem, -⟩ | rfl
    · obtain ⟨userId, hby, hexists⟩ := h.pending_device row hmem deviceId hid
      exact ⟨userId, hby, exists_concat hexists⟩
    · refine ⟨user.id, rfl, device, ?_, Option.some.inj hid, hdeviceUser⟩
      exact mem_append_right _ (mem_singleton_self _)
  · intro stored hstored hpending
    rcases mem_append.mp hstored with hstored | hnew
    · obtain ⟨other, hother, hid⟩ := h.pending_invited stored hstored hpending
      refine ⟨other, mem_updateWhere.mpr (.inl ⟨hother, decide_eq_false fun hhit => ?_⟩), hid⟩
      rw [(h.unconsumed_blank other hother hhit.2).2] at hid
      cases hid
    · rw [mem_singleton.mp hnew]
      refine ⟨_, mem_updateWhere.mpr (.inr ⟨invitation, hinvitation, ?_, rfl⟩), rfl⟩
      exact decide_eq_true ⟨rfl, hunconsumed⟩
  · intro stored hstored hpending membership hmembership
    rcases mem_append.mp hstored with hstored | hnew
    · exact h.pending_no_member stored hstored hpending membership hmembership
    · rw [mem_singleton.mp hnew, hdeviceUser]
      obtain ⟨owner, howner, hid⟩ := references.membership_user membership hmembership
      exact hid ▸ huserFree owner howner
  · intro stored hstored hpending
    rcases mem_append.mp hstored with hstored | hnew
    · refine forall_concat (h.pending_alone stored hstored hpending) fun heq => ?_
      obtain ⟨owner, howner, hid⟩ := references.device_user stored hstored
      exact absurd (hid.trans (heq.symm.trans hdeviceUser)) (huserFree owner howner)
    · rw [mem_singleton.mp hnew]
      refine forall_concat (fun other hother heq => ?_) fun _ => rfl
      obtain ⟨owner, howner, hid⟩ := references.device_user other hother
      exact absurd (hid.trans (heq.trans hdeviceUser)) (huserFree owner howner)
  · intro stored hstored hpending family hfamily
    rcases mem_append.mp hstored with hstored | hnew
    · exact h.pending_no_family stored hstored hpending family hfamily
    · rw [mem_singleton.mp hnew]
      obtain ⟨bound, hbound, hid⟩ := references.family_device family hfamily
      exact hid ▸ hdeviceFree bound hbound
  · intro stored hstored hpending access haccess
    rcases mem_append.mp hstored with hstored | hnew
    · exact h.pending_no_access stored hstored hpending access haccess
    · rw [mem_singleton.mp hnew]
      obtain ⟨bound, hbound, hid⟩ := references.access_device access haccess
      exact hid ▸ hdeviceFree bound hbound

theorem Onboarding.change (h : Sound server db) (change : Change server permit base db db') :
    Onboarding db' := by
  have onboarding := h.onboarding
  cases change with
  | drawn | initialized | pairingsSet | enrollmentsSet | revisionAdded | grantIssued =>
    exact { onboarding with }
  | ownerAdded _ _ user_fresh user_free _ _ membership_user =>
    refine { onboarding with unconsumed_unused := ?_, pending_no_member := ?_ }
    · intro row hrow hnone
      refine forall_concat (onboarding.unconsumed_unused row hrow hnone) fun heq => ?_
      exact user_fresh.ne (h.issuance.members row hrow _ heq) rfl
    intro device hdevice hpending
    refine forall_concat (onboarding.pending_no_member device hdevice hpending) ?_
    obtain ⟨owner, howner, hid⟩ := h.references.device_user device hdevice
    exact fun heq => user_free owner howner (hid.trans (heq.symm.trans membership_user))
  | @invited row memberId _ _ _ _ member member_new unconsumed no_user no_device =>
    have hother : ∀ stored ∈ db.invitations, stored.intendedMemberId ≠ row.intendedMemberId := by
      intro stored hstored heq
      have hmember := heq.trans member
      exact member_new.ne (h.issuance.members stored hstored memberId hmember) rfl
    refine
      { onboarding with
        consumed_member := forall_concat onboarding.consumed_member (by simp [no_user])
        members_distinct := ?_
        unconsumed_unused := ?_
        unconsumed_blank := forall_concat onboarding.unconsumed_blank fun _ => ⟨no_user, no_device⟩
        pending_device := forall_concat onboarding.pending_device (by simp [no_device])
        pending_invited := fun device hdevice hpending =>
          exists_concat (onboarding.pending_invited device hdevice hpending) }
    · refine forall_concat (fun a ha => forall_concat (onboarding.members_distinct a ha) ?_) ?_
      · exact fun _ heq => absurd heq (hother a ha)
      · refine forall_concat (fun b hb _ heq => absurd heq.symm (hother b hb)) fun _ _ => rfl
    · refine forall_concat onboarding.unconsumed_unused fun _ user huser heq => ?_
      cases member.symm.trans heq
      exact member_new.ne (h.issuance.users user huser) rfl
  | burned =>
    exact onboarding.updateInvitations (fun _ => rfl) (fun _ => rfl) (fun _ => rfl)
      fun _ hnone => nomatch hnone
  | redeemed _ invitation_mem unconsumed user_eq user_free _ device_free device_user =>
    exact onboarding.afterRedemption h.keys h.references invitation_mem unconsumed user_eq
      user_free device_free device_user
  | attemptsRecorded =>
    exact onboarding.updateInvitations (fun _ => rfl) (fun _ => rfl) (fun _ => rfl)
      fun _ hnone => hnone
  | approved approved =>
    obtain ⟨admitted, opening, -⟩ := approved
    refine (onboarding.afterAdmission h.keys admitted).afterOpening ?_ opening
    exact h.keys.afterAdmission fun stored hstored => (admitted.membership_free stored hstored).1
  | removed => exact onboarding.withoutUsers h.keys
  | membershipRevoked =>
    refine { onboarding with pending_no_member := fun device hdevice hpending => ?_ }
    exact forall_updateWhere (onboarding.pending_no_member device hdevice hpending)
      fun _ hrow => hrow
  | @deviceRevoked deviceId now =>
    have hstill : ∀ device ∈ (afterDeviceRevocation db deviceId now).devices,
        device.status = .pending → device ∈ db.devices := by
      intro device hdevice hpending
      obtain ⟨stored, hstored, rfl | ⟨-, rfl⟩⟩ := of_mem_updateWhere hdevice
      · exact hstored
      · cases hpending
    refine
      { onboarding with
        pending_device := fun row hrow id hid => ?_
        pending_invited := fun device hdevice hpending =>
          onboarding.pending_invited device (hstill device hdevice hpending) hpending
        pending_no_member := fun device hdevice hpending =>
          onboarding.pending_no_member device (hstill device hdevice hpending) hpending
        pending_alone := fun device hdevice hpending =>
          forall_updateWhere
            (onboarding.pending_alone device (hstill device hdevice hpending) hpending)
            fun _ hrow => hrow
        pending_no_family := fun device hdevice hpending => ?_
        pending_no_access := fun device hdevice hpending => ?_ }
    · obtain ⟨userId, hby, hexists⟩ := onboarding.pending_device row hrow id hid
      exact ⟨userId, hby, exists_updateWhere hexists fun _ hP => hP⟩
    · exact forall_updateWhere
        (onboarding.pending_no_family device (hstill device hdevice hpending) hpending)
        fun _ hrow => hrow
    · exact forall_updateWhere
        (onboarding.pending_no_access device (hstill device hdevice hpending) hpending)
        fun _ hrow => hrow
  | deviceAdded _ _ _ _ member approved =>
    refine
      { onboarding with
        pending_device := fun row hrow id hid => ?_
        pending_invited := forall_concat onboarding.pending_invited (by simp [approved])
        pending_no_member := forall_concat onboarding.pending_no_member (by simp [approved])
        pending_alone := ?_
        pending_no_family := forall_concat onboarding.pending_no_family (by simp [approved])
        pending_no_access := forall_concat onboarding.pending_no_access (by simp [approved]) }
    · obtain ⟨userId, hby, hexists⟩ := onboarding.pending_device row hrow id hid
      exact ⟨userId, hby, exists_concat hexists⟩
    · refine forall_concat (fun device hdevice hpending => ?_) (by simp [approved])
      refine forall_concat (onboarding.pending_alone device hdevice hpending) fun heq => ?_
      obtain ⟨membership, hmembership, huser⟩ := member
      exact absurd (huser.trans heq)
        (onboarding.pending_no_member device hdevice hpending membership hmembership)
  | sessionOpened _ opening => exact onboarding.afterOpening h.keys opening
  | accessIssued _ family =>
    refine { onboarding with pending_no_access := fun device hdevice hpending => ?_ }
    refine forall_concat (onboarding.pending_no_access device hdevice hpending) ?_
    obtain ⟨family, hfamily, -, hid, -⟩ := family
    exact hid ▸ onboarding.pending_no_family device hdevice hpending family hfamily
  | rotated =>
    refine { onboarding with pending_no_family := fun device hdevice hpending => ?_ }
    exact forall_updateWhere (onboarding.pending_no_family device hdevice hpending)
      fun _ hrow => hrow
  | reuseMarked =>
    refine
      { onboarding with
        pending_no_family := fun device hdevice hpending => ?_
        pending_no_access := fun device hdevice hpending => ?_ }
    · exact forall_updateWhere (onboarding.pending_no_family device hdevice hpending)
        fun _ hrow => hrow
    · exact forall_updateWhere (onboarding.pending_no_access device hdevice hpending)
        fun _ hrow => hrow

/-- References that were there, or that lead to settled devices, over devices none
of which turned pending. -/
theorem ReferencedSettled.of_devices (h : ReferencedSettled db)
    (hold : ∀ deviceId, deviceReferenced db' deviceId = true →
      deviceReferenced db deviceId = true ∨ Settled db deviceId)
    (hdevices : ∀ deviceId, Settled db deviceId → Settled db' deviceId) :
    ReferencedSettled db' := by
  intro deviceId hreferenced
  rcases hold deviceId hreferenced with hbefore | hsettled
  · exact hdevices deviceId (h deviceId hbefore)
  · exact hdevices deviceId hsettled

/-- Rewritten invitations with the inviters they had. -/
theorem deviceReferenced_updateInvitations
    (h : deviceReferenced { db with invitations := updateWhere hit update db.invitations } deviceId =
      true) (hkeep : ∀ row, (update row).inviterDeviceId = row.inviterDeviceId) :
    deviceReferenced db deviceId = true := by
  rw [deviceReferenced_iff] at h ⊢
  rcases h with hpairing | ⟨row, hrow, hid⟩ | hrest
  · exact .inl hpairing
  · obtain ⟨stored, hstored, rfl | ⟨-, rfl⟩⟩ := of_mem_updateWhere hrow
    · exact .inr (.inl ⟨_, hstored, hid⟩)
    · exact .inr (.inl ⟨stored, hstored, (hkeep stored).symm.trans hid⟩)
  · exact .inr (.inr hrest)

theorem settled_updateDevices {hit : DeviceRow → Bool} {update : DeviceRow → DeviceRow}
    (h : Settled db deviceId)
    (hdevices : db'.devices = KeyedTable.updateWhere hit update db.devices)
    (hid : ∀ row, (update row).id = row.id) (hstatus : ∀ row, (update row).status ≠ .pending) :
    Settled db' deviceId := by
  unfold Settled
  rw [hdevices]
  refine exists_updateWhere h fun row hrow => ?_
  exact ⟨(hid row).trans hrow.1, hstatus row⟩

theorem PairingsOwned.change (h : PairingsOwned db) (change : Change server permit base db db') :
    PairingsOwned db' := by
  cases change with
  | pairingsSet _ owners =>
    intro row hrow
    rcases owners row hrow with hmember | ⟨old, hold, huser⟩
    · exact hmember
    · exact huser ▸ h old hold
  | ownerAdded => exact fun row hrow => exists_concat (h row hrow)
  | approved approved =>
    obtain ⟨admitted, opening, -⟩ := approved
    exact fun row hrow => exists_concat (h row hrow)
  | removed => exact h.withoutUsers
  | membershipRevoked => exact fun row hrow => exists_updateWhere (h row hrow) fun _ hid => hid
  | drawn | initialized | enrollmentsSet | revisionAdded | invited | burned | redeemed
  | attemptsRecorded | deviceRevoked | deviceAdded | grantIssued | sessionOpened | accessIssued
  | rotated | reuseMarked => exact h

theorem Generations.afterOpening (h : Generations db)
    (opening : Opening server base db family token issued) :
    Generations (afterOpening db family token issued) where
  families := by
    refine forall_concat h.families ?_
    rw [opening.family_eq]
    exact Nat.zero_le _
  tokens := by
    refine forall_concat h.tokens ?_
    rw [opening.token_eq]
    exact Nat.zero_le _

theorem Generations.change (h : Generations db) (change : Change server permit base db db') :
    Generations db' := by
  cases change with
  | approved approved =>
    obtain ⟨admitted, opening, -⟩ := approved
    refine Generations.afterOpening ?_ opening
    exact { h with }
  | sessionOpened _ opening => exact h.afterOpening opening
  | removed => exact h.withoutUsers
  | deviceRevoked | reuseMarked =>
    exact { h with families := forall_updateWhere h.families fun _ hrow => hrow }
  | rotated _ _ _ _ _ _ _ safe _ successor_eq =>
    constructor
    · exact forall_updateWhere h.families fun _ _ => safe
    · refine forall_concat (forall_updateWhere h.tokens fun _ hrow => hrow) ?_
      rw [successor_eq]
      exact safe
  | _ => exact { h with }

/-- Consuming grants leaves no more of them unconsumed. -/
theorem GrantsSuperseded.updateGrants (h : GrantsSuperseded db) {hit : RejoinGrantRow → Bool} :
    GrantsSuperseded
      { db with
        rejoinGrants := updateWhere hit (fun row => { row with consumedAt := some now })
          db.rejoinGrants } := by
  intro a ha b hb hmembership hnoneA hnoneB
  obtain ⟨storedA, hstoredA, rfl | ⟨-, rfl⟩⟩ := of_mem_updateWhere ha
  · obtain ⟨storedB, hstoredB, rfl | ⟨-, rfl⟩⟩ := of_mem_updateWhere hb
    · exact h _ hstoredA _ hstoredB hmembership hnoneA hnoneB
    · cases hnoneB
  · cases hnoneA

theorem GrantsSuperseded.afterGrant (h : GrantsSuperseded db) {grant : RejoinGrantRow} :
    GrantsSuperseded (afterGrant db grant issued) := by
  have hold : ∀ stored ∈ updateWhere
      (fun row : RejoinGrantRow => row.membershipId = grant.membershipId ∧ row.consumedAt = none)
      (fun row => { row with consumedAt := some grant.createdAt }) db.rejoinGrants,
      stored.consumedAt = none → stored.membershipId ≠ grant.membershipId := by
    intro stored hstored hnone heq
    rcases mem_updateWhere.mp hstored with ⟨-, hmiss⟩ | ⟨row, -, -, rfl⟩
    · exact of_decide_eq_false hmiss ⟨heq, hnone⟩
    · cases hnone
  refine forall_concat (fun a ha => forall_concat (h.updateGrants a ha) ?_) ?_
  · exact fun heq hnone => absurd heq (hold a ha hnone)
  · exact forall_concat (fun b hb heq _ hnone => absurd heq.symm (hold b hb hnone))
      fun _ _ _ => rfl

theorem GrantsSuperseded.change (h : GrantsSuperseded db) (change : Change server permit base db db') :
    GrantsSuperseded db' := by
  cases change with
  | grantIssued => exact h.afterGrant
  | approved approved =>
    obtain ⟨-, -, -⟩ := approved
    exact h
  | removed => exact h.withoutUsers
  | _ => exact h

theorem MembersUnique.concat (h : MembersUnique db) {users : List UserRow}
    {vaults : List VaultRow} {devices : List DeviceRow}
    (hfree : ∀ stored ∈ db.memberships,
      ¬ (stored.vaultId = membership.vaultId ∧ stored.userId = membership.userId)) :
    MembersUnique
      { db with users, vaults, devices, issued, memberships := db.memberships ++ [membership] } := by
  refine forall_concat (fun a ha => forall_concat (h a ha) ?_) ?_
  · exact fun huser hvault => absurd ⟨hvault, huser⟩ (hfree a ha)
  · exact forall_concat (fun b hb huser hvault => absurd ⟨hvault.symm, huser.symm⟩ (hfree b hb))
      fun _ _ => rfl

theorem MembersUnique.change (h : MembersUnique db) (references : References db)
    (change : Change server permit base db db') : MembersUnique db' := by
  cases change with
  | ownerAdded _ _ _ user_free _ _ membership_user =>
    refine h.concat fun stored hstored heq => ?_
    obtain ⟨user, huser, hid⟩ := references.membership_user stored hstored
    exact user_free user huser (hid.trans (heq.2.trans membership_user))
  | approved approved =>
    obtain @⟨deviceId, membership, now, _, _, issued, _, admitted, _, _⟩ := approved
    have hadmitted : MembersUnique (afterAdmission db deviceId membership now issued) :=
      h.concat fun stored hstored => (admitted.membership_free stored hstored).2
    exact hadmitted
  | removed =>
    exact fun a ha b hb => h a (mem_memberships_withoutUsers.mp ha).1 b
      (mem_memberships_withoutUsers.mp hb).1
  | membershipRevoked =>
    intro a ha b hb huser hvault
    obtain ⟨storedA, hstoredA, rfl⟩ := mem_map.mp ha
    obtain ⟨storedB, hstoredB, rfl⟩ := mem_map.mp hb
    have hsame : storedA = storedB := by
      refine h storedA hstoredA storedB hstoredB ?_ ?_
      · split at huser <;> split at huser <;> exact huser
      · split at hvault <;> split at hvault <;> exact hvault
    rw [hsame]
  | _ => exact h

theorem ReferencedSettled.change (h : ReferencedSettled db) (change : Change server permit base db db') :
    ReferencedSettled db' := by
  cases change with
  | drawn | initialized | ownerAdded | membershipRevoked | grantIssued | sessionOpened
  | accessIssued | rotated | reuseMarked => exact h
  | pairingsSet _ _ devices =>
    refine h.of_devices (fun deviceId hreferenced => ?_) fun _ hsettled => hsettled
    rw [deviceReferenced_iff] at hreferenced ⊢
    rcases hreferenced with ⟨row, hrow, hid⟩ | hrest
    · rcases devices row hrow deviceId hid with hsettled | hold
      · exact .inr hsettled
      · exact .inl (.inl hold)
    · exact .inl (.inr hrest)
  | enrollmentsSet _ devices =>
    refine h.of_devices (fun deviceId hreferenced => ?_) fun _ hsettled => hsettled
    rw [deviceReferenced_iff] at hreferenced ⊢
    rcases hreferenced with hpairing | hinvitation | hrevision | ⟨row, hrow, hid⟩
    · exact .inl (.inl hpairing)
    · exact .inl (.inr (.inl hinvitation))
    · exact .inl (.inr (.inr (.inl hrevision)))
    · rcases devices row hrow deviceId hid with hsettled | hold
      · exact .inr hsettled
      · exact .inl (.inr (.inr (.inr hold)))
  | revisionAdded device =>
    refine h.of_devices (fun deviceId hreferenced => ?_) fun _ hsettled => hsettled
    rw [deviceReferenced_iff] at hreferenced ⊢
    rcases hreferenced with hpairing | hinvitation | ⟨row, hrow, hid⟩ | henrollment
    · exact .inl (.inl hpairing)
    · exact .inl (.inr (.inl hinvitation))
    · rcases mem_append.mp hrow with hrow | hnew
      · exact .inl (.inr (.inr (.inl ⟨row, hrow, hid⟩)))
      · rw [mem_singleton.mp hnew] at hid
        exact .inr (hid ▸ device)
    · exact .inl (.inr (.inr (.inr henrollment)))
  | invited _ _ _ _ _ _ _ _ _ inviter =>
    refine h.of_devices (fun deviceId hreferenced => ?_) fun _ hsettled => hsettled
    rw [deviceReferenced_iff] at hreferenced ⊢
    rcases hreferenced with hpairing | ⟨row, hrow, hid⟩ | hrest
    · exact .inl (.inl hpairing)
    · rcases mem_append.mp hrow with hrow | hnew
      · exact .inl (.inr (.inl ⟨row, hrow, hid⟩))
      · rw [mem_singleton.mp hnew] at hid
        exact .inr (hid ▸ inviter)
    · exact .inl (.inr (.inr hrest))
  | burned | attemptsRecorded =>
    refine h.of_devices (fun deviceId hreferenced => .inl ?_) fun _ hsettled => hsettled
    exact deviceReferenced_updateInvitations hreferenced fun _ => rfl
  | redeemed =>
    refine h.of_devices (fun deviceId hreferenced => .inl ?_) fun _ hsettled => ?_
    · exact deviceReferenced_updateInvitations hreferenced fun _ => rfl
    · exact exists_concat hsettled
  | approved approved =>
    obtain ⟨admitted, opening, -⟩ := approved
    refine h.of_devices (fun _ hreferenced => .inl hreferenced) fun _ hsettled => ?_
    exact settled_updateDevices hsettled rfl (fun _ => rfl) fun _ => by simp
  | removed _ unreferenced => exact h.withoutUsers unreferenced
  | deviceRevoked =>
    refine h.of_devices (fun _ hreferenced => .inl hreferenced) fun _ hsettled => ?_
    exact settled_updateDevices hsettled rfl (fun _ => rfl) fun _ => by simp
  | deviceAdded =>
    refine h.of_devices (fun _ hreferenced => .inl hreferenced) fun _ hsettled => ?_
    exact exists_concat hsettled

theorem Sound.change (h : Sound server db) (change : Change server permit base db db') :
    Sound server db' where
  keys := h.keys.change change
  references := h.references.change change
  issuance := h.issuance.change change
  onboarding := Onboarding.change h change
  owned := h.owned.change change
  referenced := h.referenced.change change
  generations := h.generations.change change
  grants := h.grants.change change
  members := h.members.change h.references change

theorem Sound.changes (h : Sound server db) (changes : Changes server permit base db db') :
    Sound server db' := by
  induction changes with
  | refl => exact h
  | tail _ change ih => exact ih.change change

theorem Sound.pruned (h : Sound server db) (pruned : Pruned db db') : Sound server db' := by
  obtain ⟨keepRefresh, keepAccess, rfl⟩ := pruned
  have haccess : ∀ {row : AccessTokenRow}, row ∈ db.accessTokens.filter keepAccess →
      row ∈ db.accessTokens := fun hrow => (mem_filter.mp hrow).1
  exact
    { keys := { h.keys with }
      references :=
        { h.references with
          access_device := fun row hrow => h.references.access_device row (haccess hrow) }
      issuance := { h.issuance with }
      onboarding :=
        { h.onboarding with
          pending_no_access := fun device hdevice hpending row hrow =>
            h.onboarding.pending_no_access device hdevice hpending row (haccess hrow) }
      owned := h.owned
      referenced := h.referenced
      generations :=
        { h.generations with
          tokens := fun row hrow => h.generations.tokens row (mem_filter.mp hrow).1 }
      grants := h.grants
      members := h.members }

theorem Sound.removedLate (h : Sound server db) (removed : RemovedLate db db') :
    Sound server db' := by
  obtain ⟨userId, -, -, -, -, hfree, rfl⟩ := removed
  exact h.withoutUsers hfree

theorem Sound.afterAdmission (h : Sound server db)
    (admitted : Admitted server base db invitation deviceId membership issued) :
    Sound server (afterAdmission db deviceId membership now issued) where
  keys := h.keys.afterAdmission fun stored hstored => (admitted.membership_free stored hstored).1
  references := h.references.afterAdmission admitted.user_mem
  issuance := h.issuance.afterAdmission admitted.issued_le admitted.membership_new
  onboarding := h.onboarding.afterAdmission h.keys admitted
  owned := fun row hrow => exists_concat (h.owned row hrow)
  referenced := h.referenced.of_devices (fun _ hreferenced => .inl hreferenced) fun _ hsettled =>
    settled_updateDevices hsettled rfl (fun _ => rfl) fun _ => by simp
  generations := { h.generations with }
  grants := h.grants
  members := h.members.concat fun stored hstored => (admitted.membership_free stored hstored).2

theorem Sound.afterOpening (h : Sound server db)
    (opening : Opening server base db family token issued) :
    Sound server (afterOpening db family token issued) where
  keys := h.keys.afterOpening opening
  references := h.references.afterOpening opening
  issuance := h.issuance.afterOpening opening
  onboarding := h.onboarding.afterOpening h.keys opening
  owned := h.owned
  referenced := h.referenced
  generations := h.generations.afterOpening opening
  grants := h.grants
  members := h.members

theorem Sound.afterAttempts (h : Sound server db) {invitationId : Id} {attempts : ℕ} :
    Sound server (afterAttempts db invitationId attempts) :=
  { h with
    keys := { h.keys with invitations := h.keys.invitations.updateWhere fun _ => rfl }
    references := { h.references with }
    issuance :=
      { h.issuance with
        invitations := forall_updateWhere h.issuance.invitations fun _ hrow => hrow
        members := forall_updateWhere h.issuance.members fun _ hrow => hrow }
    onboarding := h.onboarding.updateInvitations (fun _ => rfl) (fun _ => rfl) (fun _ => rfl)
      fun _ hnone => hnone
    owned := h.owned
    referenced := h.referenced.of_devices
      (fun _ hreferenced => .inl (deviceReferenced_updateInvitations hreferenced fun _ => rfl))
      fun _ hsettled => hsettled
    generations := { h.generations with }
    grants := h.grants
    members := h.members }

theorem Sound.afterGrantConsumed (h : Sound server db) {grantId : Id} :
    Sound server (afterGrantConsumed db grantId now) :=
  { h with
    keys := { h.keys with grants := h.keys.grants.updateWhere fun _ => rfl }
    references := { h.references with }
    issuance :=
      { h.issuance with grants := forall_updateWhere h.issuance.grants fun _ hrow => hrow }
    onboarding := { h.onboarding with }
    owned := h.owned
    generations := { h.generations with }
    grants := h.grants.updateGrants
    members := h.members }

theorem Sound.outcome (h : Sound server db) (outcome : Outcome server permit db db') :
    Sound server db' := by
  cases outcome with
  | changed changes => exact h.changes changes
  | approved _ _ approved =>
    obtain ⟨admitted, opening, -⟩ := approved
    exact (h.afterAttempts.afterAdmission admitted).afterOpening opening
  | mismatched _ _ mismatched =>
    cases mismatched with
    | counted => exact h.afterAttempts
    | locked _ unreferenced => exact h.afterAttempts.withoutUsers unreferenced
  | rejoined _ rejoined =>
    obtain ⟨opening⟩ := rejoined
    exact h.afterGrantConsumed.afterOpening opening
  | pruned pruned changes => exact (h.pruned pruned).changes changes

theorem Sound.committed (h : Sound server db) (committed : Committed server permit db db') :
    Sound server db' :=
  committed.elim h.outcome h.removedLate

end Havemind.AuthSoundness
