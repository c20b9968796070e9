import Havemind.AuthRuns

/-!
Membership rows are append-only as long as no rejection meets a device past its
approval. A rejection never looks at the device's status, and deleting the user
deletes the membership with it.
-/
namespace Havemind.MembershipPersistence

open RevisionSchema KeyedTable Endings Runs AuthTables AuthChanges AuthSoundness Invitations
  InvitationChanges AuthRuns
open ServerDatabase (AccountStatus DeviceStatus)

/-- The same membership, up to its status. -/
structure SameMember (a b : MembershipRow) : Prop where
  id : b.id = a.id
  vaultId : b.vaultId = a.vaultId
  userId : b.userId = a.userId
  role : b.role = a.role
  createdAt : b.createdAt = a.createdAt
  kind : b.kind = a.kind

/-- No membership row is gone, and only its status has changed. -/
def MembersKept (db db' : AuthDatabase) : Prop :=
  ∀ membership ∈ db.memberships, ∃ later ∈ db'.memberships, SameMember membership later

section
variable {server : AuthServer} {permit : Permit} {base : ℕ} {db db' db'' : AuthDatabase}

theorem SameMember.refl (a : MembershipRow) : SameMember a a := ⟨rfl, rfl, rfl, rfl, rfl, rfl⟩

theorem SameMember.trans {a b c : MembershipRow} (h : SameMember a b) (h' : SameMember b c) :
    SameMember a c where
  id := h'.id.trans h.id
  vaultId := h'.vaultId.trans h.vaultId
  userId := h'.userId.trans h.userId
  role := h'.role.trans h.role
  createdAt := h'.createdAt.trans h.createdAt
  kind := h'.kind.trans h.kind

theorem MembersKept.refl (db : AuthDatabase) : MembersKept db db :=
  fun membership hmem => ⟨membership, hmem, SameMember.refl membership⟩

theorem MembersKept.trans (h : MembersKept db db') (h' : MembersKept db' db'') :
    MembersKept db db'' := by
  intro membership hmem
  obtain ⟨mid, hmid, hsame⟩ := h membership hmem
  obtain ⟨later, hlater, hsame'⟩ := h' mid hmid
  exact ⟨later, hlater, hsame.trans hsame'⟩

theorem membersKept_of_append {rows : List MembershipRow}
    (h : db'.memberships = db.memberships ++ rows) : MembersKept db db' := by
  intro membership hmem
  refine ⟨membership, ?_, SameMember.refl membership⟩
  rw [h]
  exact List.mem_append_left _ hmem

/-- A user whose device awaits approval has no membership to lose. -/
theorem membersKept_of_pending (sound : Sound server db) {userIds : List Id}
    (hpending : ∀ userId ∈ userIds, ∃ invitation ∈ db.invitations,
      invitation.consumedByUserId = some userId ∧ AwaitsApproval db invitation) :
    MembersKept db (withoutUsers userIds db) := by
  intro membership hmem
  refine ⟨membership, mem_memberships_withoutUsers.mpr ⟨hmem, fun hgone => ?_⟩,
    SameMember.refl membership⟩
  obtain ⟨invitation, hinvitation, huser, deviceId, hdevice, device, hdeviceMem, hid, hstatus⟩ :=
    hpending membership.userId hgone
  obtain ⟨userId, huserId, owned, howned, hownedId, hownedUser⟩ :=
    sound.onboarding.pending_device invitation hinvitation deviceId hdevice
  have hsame : device = owned :=
    sound.keys.devices.eq hdeviceMem howned (hid.trans hownedId.symm)
  have hmember : membership.userId = device.userId := by
    rw [hsame, hownedUser]
    exact Option.some.inj (huser.symm.trans huserId)
  exact sound.onboarding.pending_no_member device hdeviceMem hstatus membership hmem hmember

theorem MembersKept.of_change (sound : Sound server db) (change : Change server permit base db db') :
    MembersKept db db' := by
  cases change with
  | ownerAdded => exact membersKept_of_append rfl
  | approved approved =>
    obtain ⟨admitted, opening, -⟩ := approved
    exact membersKept_of_append rfl
  | removed pending => exact membersKept_of_pending sound pending
  | membershipRevoked =>
    intro membership hmem
    obtain ⟨later, hlater, rfl | rfl⟩ := mem_updateWhere_of hmem
    · exact ⟨_, hlater, SameMember.refl _⟩
    · exact ⟨_, hlater, rfl, rfl, rfl, rfl, rfl, rfl⟩
  | _ => exact MembersKept.refl db

theorem MembersKept.of_changes (sound : Sound server db) (changes : Changes server permit base db db') :
    MembersKept db db' := by
  induction changes with
  | refl => exact MembersKept.refl db
  | tail before change ih => exact ih.trans (.of_change (sound.changes before) change)

theorem MembersKept.of_outcome (sound : Sound server db) (outcome : Outcome server permit db db') :
    MembersKept db db' := by
  cases outcome with
  | changed changes => exact .of_changes sound changes
  | approved _ _ approved =>
    obtain ⟨admitted, opening, -⟩ := approved
    exact membersKept_of_append rfl
  | mismatched hmem awaits mismatched =>
    cases mismatched with
    | counted => exact MembersKept.refl db
    | locked huser =>
      refine MembersKept.trans (MembersKept.refl db) (membersKept_of_pending sound.afterAttempts ?_)
      intro userId hin
      rw [List.mem_singleton.mp hin]
      exact ⟨_, attempted_mem hmem, huser, awaits⟩
  | rejoined _ rejoined =>
    obtain ⟨opening⟩ := rejoined
    exact MembersKept.refl db
  | pruned pruned changes =>
    have hlater := MembersKept.of_changes (sound.pruned pruned) changes
    obtain ⟨keepRefresh, keepAccess, rfl⟩ := pruned
    exact hlater

end

variable {server : AuthServer} {start s t : World} {input : RejectPendingDeviceInput}

theorem membersKept_of_reached (hstart : Sound server s.db)
    (reached : Reached (authStep server) rejectsPending s t) : MembersKept s.db t.db := by
  have hall : Sound server t.db ∧ MembersKept s.db t.db := by
    refine Reached.invariant (P := fun w => Sound server w.db ∧ MembersKept s.db w.db) reached
      ⟨hstart, MembersKept.refl s.db⟩ fun w action w' hw hguard hstep => ?_
    obtain ⟨hsound, hkept⟩ := hw
    cases hstep
    have houtcome := afterAction_outcome hsound hguard
    exact ⟨hsound.outcome houtcome, hkept.trans (.of_outcome hsound houtcome)⟩
  exact hall.2

/-- A rejection succeeds only while the invitation's device is pending. -/
def RejectsOnlyPending (db : AuthDatabase) (input : RejectPendingDeviceInput) : Prop :=
  ∀ db', rejectPendingDevice input db = .ok () db' →
    ∃ invitation ∈ db.invitations, invitation.id = input.invitationId ∧ AwaitsApproval db invitation

theorem rejectsOnlyPending_iff (sound : Sound server s.db) :
    RejectsOnlyPending s.db input ↔ rejectsPending s (.rejectPendingDevice input) := by
  constructor
  · intro h invitation hmem hid hrejectable
    obtain ⟨db', hdb'⟩ := rejectPendingDevice_of_rejectable sound.keys.invitations
      sound.keys.memberships hmem hid hrejectable
    obtain ⟨found, hfound, hfoundId, hawaits⟩ := h db' hdb'
    rwa [sound.keys.invitations.eq hmem hfound (hid.trans hfoundId.symm)]
  · intro h db' hdb'
    obtain ⟨invitation, hmem, hid, hrejectable, -⟩ := rejectPendingDevice_eq_ok hdb'
    exact ⟨invitation, hmem, hid, h invitation hmem hid hrejectable⟩

/-- A rejection of a device past its approval changes nothing. -/
theorem rejectPendingDevice_untouched (sound : Sound server s.db)
    (hguard : rejectsPending s (.rejectPendingDevice input)) {invitation : InvitationRow}
    (hmem : invitation ∈ s.db.invitations) (hid : invitation.id = input.invitationId)
    (hsettled : ¬ AwaitsApproval s.db invitation) :
    storeAfter (rejectPendingDevice input) s.db = s.db := by
  refine Ends.storeAfter (P := fun db' => db' = s.db) (ends_iff.mpr ⟨fun _ db' h => ?_,
    fun e db' h => rejectPendingDevice_eq_error h⟩)
  obtain ⟨found, hfound, hfoundId, hawaits⟩ := (rejectsOnlyPending_iff sound).mpr hguard db' h
  rw [sound.keys.invitations.eq hfound hmem (hfoundId.trans hid.symm)] at hawaits
  exact absurd hawaits hsettled

/-- In a run none of whose rejections meets a device past its approval, no
membership row is deleted, and rejections succeed on pending devices only. -/
theorem memberships_appendOnly (hstart : Sound server start.db)
    (before : Reached (authStep server) rejectsPending start s)
    (reached : Reached (authStep server) rejectsPending s t) :
    MembersKept s.db t.db ∧ ∀ input,
      (RejectsOnlyPending t.db input ↔ rejectsPending t (.rejectPendingDevice input)) ∧
      (rejectsPending t (.rejectPendingDevice input) →
        ∀ invitation ∈ t.db.invitations, invitation.id = input.invitationId →
          ¬ AwaitsApproval t.db invitation →
            storeAfter (rejectPendingDevice input) t.db = t.db) := by
  have hs : Sound server s.db := reached_sound hstart before
  have ht : Sound server t.db := reached_sound hs reached
  exact ⟨membersKept_of_reached hs reached, fun input => ⟨rejectsOnlyPending_iff ht,
    fun hguard _ hmem hid hsettled => rejectPendingDevice_untouched ht hguard hmem hid hsettled⟩⟩

/-- The owner rejects the device it approved. -/
def lateRejection : RejectPendingDeviceInput := ⟨11, 4⟩

def rejectedWorld : World := calls plainServer memberWorld [.rejectPendingDevice lateRejection]

theorem memberships_appendOnly_lateRejection :
    Reached (authStep plainServer) anyCall World.empty memberWorld ∧
      Reached (authStep plainServer) anyCall memberWorld rejectedWorld ∧
      ¬ MembersKept memberWorld.db rejectedWorld.db ∧
      ¬ RejectsOnlyPending memberWorld.db lateRejection ∧
      (∃ device ∈ memberWorld.db.devices, device.id = 12 ∧ device.status = .approved) ∧
      ∀ device ∈ rejectedWorld.db.devices, device.id ≠ 12 := by
  have hmember : ∃ membership ∈ memberWorld.db.memberships, membership.id = 13 := by
    decide +kernel
  have hgone : ∀ membership ∈ rejectedWorld.db.memberships, membership.id ≠ 13 := by
    decide +kernel
  have hsettled : ∀ device ∈ memberWorld.db.devices, device.status ≠ .pending := by
    decide +kernel
  have hrejected : rejectPendingDevice lateRejection memberWorld.db = .ok () rejectedWorld.db := rfl
  refine ⟨calls_reached _ _, calls_reached _ _, fun hkept => ?_, fun honly => ?_, ?_, ?_⟩
  · obtain ⟨membership, hmem, hid⟩ := hmember
    obtain ⟨later, hlater, hsame⟩ := hkept membership hmem
    exact hgone later hlater (hsame.id.trans hid)
  · obtain ⟨-, -, -, -, -, device, hdevice, -, hpending⟩ := honly _ hrejected
    exact hsettled device hdevice hpending
  · decide +kernel
  · decide +kernel

/-- A second member's device waits for its approval. -/
def awaitingWorld : World :=
  calls plainServer memberWorld
    [.createInvitation { vaultId := 3, createdByMembershipId := 4, inviterDeviceId := 6 }
        ⟨902, 654321, by decide⟩ (some 4100),
      .redeemInvitation ⟨some 902, [0x45], some 21, some (some 78)⟩ 61 (some 4200)]

/-- The owner rejects that device and revokes the first member, and the server prunes. -/
def removedWorld : World :=
  calls plainServer awaitingWorld
    [.rejectPendingDevice ⟨17, 4⟩, .revokeMembership 13 (some 5000) fun _ => some 5000,
      .pruneExpired 90000000]

/-- A revoked membership outlives the pruning, and a rejection takes a waiting device. -/
theorem memberships_appendOnly_revoked :
    (∃ device ∈ awaitingWorld.db.devices, device.id = 18 ∧ device.status = .pending) ∧
      (∀ device ∈ removedWorld.db.devices, device.id ≠ 18) ∧
      ∃ membership ∈ memberWorld.db.memberships, membership.id = 13 ∧
        membership.status = .active ∧
        ∃ later ∈ removedWorld.db.memberships, SameMember membership later := by
  have hbefore : Reached (authStep plainServer) rejectsPending World.empty memberWorld := by
    refine Reached.start.run (allowed_of_mem ?_ _) (run_calls _ memberActions)
    simp [memberActions, pendingActions, ownerActions, rejectsPending]
  have hawaiting : Reached (authStep plainServer) rejectsPending memberWorld awaitingWorld := by
    refine Reached.start.run (allowed_of_mem ?_ _) (run_calls _ _)
    simp [rejectsPending]
  have hwaits : ∃ device ∈ awaitingWorld.db.devices, device.id = 18 ∧ device.status = .pending := by
    decide +kernel
  have hpending : rejectsPending awaitingWorld (.rejectPendingDevice ⟨17, 4⟩) := by
    intro invitation hmem hid _
    have hdevice : ∀ invitation ∈ awaitingWorld.db.invitations, invitation.id = 17 →
        invitation.pendingDeviceId = some 18 := by
      decide +kernel
    exact ⟨18, hdevice invitation hmem hid, hwaits⟩
  have hlater : Reached (authStep plainServer) rejectsPending memberWorld removedWorld := by
    refine hawaiting.run ?_ (run_calls _ _)
    refine ⟨hpending, fun _ _ => allowed_of_mem ?_ _⟩
    simp [rejectsPending]
  have hkept := (memberships_appendOnly (sound_empty plainServer) hbefore hlater).1
  have hmember : ∃ membership ∈ memberWorld.db.memberships,
      membership.id = 13 ∧ membership.status = .active := by
    decide +kernel
  obtain ⟨membership, hmem, hid, hactive⟩ := hmember
  exact ⟨hwaits, by decide +kernel, membership, hmem, hid, hactive, hkept membership hmem⟩

end Havemind.MembershipPersistence
