import Havemind.AuthRuns
import Havemind.SingleBirth

/-!
What an invitation brings is born once: over any chain of steps that let no
member in again, the user it intends has one device, one membership and one
session family in all.
-/
namespace Havemind.MemberBirths

open RevisionSchema Runs KeyedTable SingleBirth AuthTables AuthChanges List AuthSoundness
  Invitations InvitationChanges AuthRuns Relation
open ServerDatabase (AccountStatus DeviceStatus)

/-- One step of a call that lets no member in again. -/
inductive Piece (server : AuthServer) (db : AuthDatabase) : AuthDatabase → Prop
  | changed {permit : Permit} {base : ℕ} {db' : AuthDatabase} (refused : ¬ permit.reentry)
      (change : Change server permit base db db') : Piece server db db'
  | approved {base : ℕ} {invitation : InvitationRow} {db' : AuthDatabase}
      (approved : Approved server base invitation db db') : Piece server db db'
  | attempted {invitationId : Id} {attempts : ℕ} :
      Piece server db (afterAttempts db invitationId attempts)
  | removed {userIds : List Id}
      (unreferenced : ∀ deviceId ∈ devicesOf db userIds, deviceReferenced db deviceId = false) :
      Piece server db (withoutUsers userIds db)
  | pruned {db' : AuthDatabase} (pruned : Pruned db db') : Piece server db db'

/-- The user was drawn, and no invitation that intends it is left to redeem. -/
structure Spent (server : AuthServer) (userId : Id) (db : AuthDatabase) : Prop where
  drawn : Drawn server 0 db.issued userId
  consumed : ∀ invitation ∈ db.invitations, invitation.intendedMemberId = some userId →
    invitation.consumedAt ≠ none

def MemberDevice (userId : Id) (db : AuthDatabase) (id : Id) : Prop :=
  ∃ device ∈ db.devices, device.userId = userId ∧ device.id = id

def MemberMembership (userId : Id) (db : AuthDatabase) (id : Id) : Prop :=
  ∃ membership ∈ db.memberships, membership.userId = userId ∧ membership.id = id

/-- A family of a device of the user. -/
def MemberFamily (userId : Id) (db : AuthDatabase) (id : Id) : Prop :=
  ∃ family ∈ db.families, MemberDevice userId db family.deviceId ∧ family.id = id

def NotPending (userId : Id) (db : AuthDatabase) : Prop :=
  ∀ device ∈ db.devices, device.userId = userId → device.status ≠ .pending

section
variable {server : AuthServer} {permit : Permit} {base : ℕ} {userId : Id}
  {db db' : AuthDatabase}

theorem sound_piece (h : Sound server db) (piece : Piece server db db') : Sound server db' := by
  cases piece with
  | changed _ change => exact h.change change
  | approved approved =>
    obtain ⟨admitted, opening, -⟩ := approved
    exact (h.afterAdmission admitted).afterOpening opening
  | attempted => exact h.afterAttempts
  | removed unreferenced => exact h.withoutUsers unreferenced
  | pruned pruned => exact h.pruned pruned

theorem pieces_of_changes (hrefused : ¬ permit.reentry)
    (changes : Changes server permit base db db') :
    ReflTransGen (Piece server) db db' := by
  induction changes with
  | refl => exact .refl
  | tail _ change ih => exact ih.tail (.changed hrefused change)

theorem pieces_of_committed (hrefused : ¬ permit.reentry)
    (committed : Committed server permit db db') : ReflTransGen (Piece server) db db' := by
  rcases committed with outcome | ⟨userId, -, -, -, -, unreferenced, rfl⟩
  · cases outcome with
    | changed changes => exact pieces_of_changes hrefused changes
    | approved _ _ approved =>
      exact (ReflTransGen.single .attempted).tail (.approved approved)
    | mismatched _ _ mismatched =>
      cases mismatched with
      | counted => exact .single .attempted
      | locked _ unreferenced =>
        exact (ReflTransGen.single .attempted).tail (.removed unreferenced)
    | rejoined allowed => exact absurd allowed hrefused
    | pruned pruned changes => exact .head (.pruned pruned) (pieces_of_changes hrefused changes)
  · exact .single (.removed unreferenced)

theorem issued_le_of_approved {invitation : InvitationRow}
    (approved : Approved server base invitation db db') : db.issued ≤ db'.issued := by
  obtain ⟨admitted, opening, -⟩ := approved
  exact Nat.le_trans admitted.issued_le opening.issued_le

theorem Spent.change (h : Spent server userId db) (change : Change server permit base db db') :
    Spent server userId db' := by
  have hdrawn := h.drawn.mono (Nat.le_refl _) change.issued_le
  refine ⟨hdrawn, ?_⟩
  cases change with
  | invited _ _ _ member member_new =>
    refine forall_concat h.consumed fun heq => ?_
    cases member.symm.trans heq
    exact absurd rfl (member_new.ne h.drawn)
  | burned => exact forall_updateWhere h.consumed fun _ _ _ => by simp
  | redeemed => exact forall_updateWhere h.consumed fun _ _ _ => by simp [redeemedInvitation]
  | attemptsRecorded => exact forall_updateWhere h.consumed fun _ hrow => hrow
  | approved approved =>
    obtain ⟨admitted, opening, -⟩ := approved
    exact h.consumed
  | removed =>
    intro invitation hmem
    obtain ⟨stored, hstored, rfl⟩ := of_mem_invitations_withoutUsers hmem
    exact h.consumed stored hstored
  | _ => exact h.consumed

theorem Spent.piece (h : Spent server userId db) (piece : Piece server db db') :
    Spent server userId db' := by
  cases piece with
  | changed _ change => exact h.change change
  | approved approved =>
    refine ⟨h.drawn.mono (Nat.le_refl _) (issued_le_of_approved approved), ?_⟩
    obtain ⟨admitted, opening, -⟩ := approved
    exact h.consumed
  | attempted => exact ⟨h.drawn, forall_updateWhere h.consumed fun _ hrow => hrow⟩
  | removed =>
    refine ⟨h.drawn, fun invitation hmem => ?_⟩
    obtain ⟨stored, hstored, rfl⟩ := of_mem_invitations_withoutUsers hmem
    exact h.consumed stored hstored
  | pruned pruned =>
    obtain ⟨keepRefresh, keepAccess, rfl⟩ := pruned
    exact ⟨h.drawn, h.consumed⟩

/-- A user that is there leaves no invitation of its own to redeem. -/
theorem spent_of_user (sound : Sound server db) (huser : ∃ user ∈ db.users, user.id = userId) :
    Spent server userId db := by
  obtain ⟨user, hmem, rfl⟩ := huser
  exact ⟨sound.issuance.users user hmem, fun invitation hinvitation hintended hnone =>
    sound.onboarding.unconsumed_unused invitation hinvitation hnone user hmem hintended⟩

end

section
variable {server : AuthServer} {base : ℕ} {userId : Id}
  {db db' : AuthDatabase} {invitation : InvitationRow} {issued : ℕ} {membership : MembershipRow}

theorem memberDevice_of_updateWhere {hit : DeviceRow → Bool} {update : DeviceRow → DeviceRow}
    {id : Id}
    (h : ∃ device ∈ updateWhere hit update db.devices, device.userId = userId ∧ device.id = id)
    (hkeep : ∀ row, (update row).userId = row.userId ∧ (update row).id = row.id) :
    MemberDevice userId db id := by
  obtain ⟨device, hmem, huser, hid⟩ := h
  obtain ⟨stored, hstored, rfl | ⟨-, rfl⟩⟩ := of_mem_updateWhere hmem
  · exact ⟨_, hstored, huser, hid⟩
  · exact ⟨stored, hstored, (hkeep stored).1 ▸ huser, (hkeep stored).2 ▸ hid⟩

theorem memberDevice_of_withoutUsers {userIds : List Id} {id : Id}
    (h : MemberDevice userId (withoutUsers userIds db) id) : MemberDevice userId db id := by
  obtain ⟨device, hmem, hdevice⟩ := h
  exact ⟨device, (mem_devices_withoutUsers.mp hmem).1, hdevice⟩

theorem memberDevice_of_redemption {user : UserRow} {device : DeviceRow} {now : Timestamp}
    {credentialHash refreshTokenHash : TokenHash} {id : Id}
    (h : MemberDevice userId
      (afterRedemption db invitation user device now credentialHash refreshTokenHash issued) id)
    (hdevice : device.userId = user.id) :
    MemberDevice userId db id ∨ (user.id = userId ∧ id = device.id) := by
  obtain ⟨found, hmem, huser, hid⟩ := h
  rcases mem_append.mp hmem with hold | hnew
  · exact .inl ⟨found, hold, huser, hid⟩
  · rw [mem_singleton.mp hnew] at huser hid
    exact .inr ⟨hdevice.symm.trans huser, hid.symm⟩

/-- A device is new to the user only by the redemption of its invitation. -/
theorem device_grows (piece : Piece server db db') :
    (∀ id, MemberDevice userId db' id → MemberDevice userId db id) ∨
      ¬ Spent server userId db ∧ ∃ new, (∀ stored ∈ db.devices, stored.id ≠ new) ∧
        ∀ id, MemberDevice userId db' id → MemberDevice userId db id ∨ id = new := by
  cases piece with
  | approved approved =>
    obtain ⟨admitted, opening, -⟩ := approved
    exact .inl fun id h => memberDevice_of_updateWhere h fun _ => ⟨rfl, rfl⟩
  | attempted => exact .inl fun _ h => h
  | removed => exact .inl fun _ h => memberDevice_of_withoutUsers h
  | pruned pruned =>
    obtain ⟨keepRefresh, keepAccess, rfl⟩ := pruned
    exact .inl fun _ h => h
  | changed hrefused change =>
    cases change with
    | approved approved =>
      obtain ⟨admitted, opening, -⟩ := approved
      exact .inl fun id h => memberDevice_of_updateWhere h fun _ => ⟨rfl, rfl⟩
    | removed => exact .inl fun _ h => memberDevice_of_withoutUsers h
    | deviceRevoked => exact .inl fun id h => memberDevice_of_updateWhere h fun _ => ⟨rfl, rfl⟩
    | deviceAdded allowed => exact absurd allowed hrefused
    | @redeemed invitation user device _ _ _ _ _ invitation_mem unconsumed user_eq _ _ device_free
        device_user =>
      by_cases hsame : user.id = userId
      · refine .inr ⟨fun hspent => ?_, device.id, device_free, fun id h =>
          (memberDevice_of_redemption h device_user).imp_right And.right⟩
        exact hspent.consumed invitation invitation_mem (hsame ▸ user_eq) unconsumed
      · exact .inl fun id h => (memberDevice_of_redemption h device_user).resolve_right
          fun hnew => hsame hnew.1
    | _ => exact .inl fun _ h => h

theorem devices_bornOnce : BornOnce (Sound server) (Piece server) (MemberDevice userId)
    (Spent server userId) where
  ok_step := sound_piece
  closed_of_mem := by
    intro db id sound h
    obtain ⟨device, hmem, huser, -⟩ := h
    obtain ⟨user, huserMem, hid⟩ := sound.references.device_user device hmem
    exact spent_of_user sound ⟨user, huserMem, hid.trans huser⟩
  stays := fun _ piece h => h.piece piece
  grows := by
    intro db db' _ piece
    rcases @device_grows server userId db db' piece with hkept | ⟨hopen, new, -, hnew⟩
    · exact .inl hkept
    · exact .inr ⟨hopen, new, hnew⟩

/-- A device the user has after a step was the user's before, if it was there. -/
theorem memberDevice_back (piece : Piece server db db') {id : Id}
    (hstored : ∃ device ∈ db.devices, device.id = id) (h : MemberDevice userId db' id) :
    MemberDevice userId db id := by
  rcases @device_grows server userId db db' piece with hkept | ⟨-, new, hfree, hnew⟩
  · exact hkept id h
  · obtain ⟨device, hmem, rfl⟩ := hstored
    exact (hnew _ h).resolve_right (hfree device hmem)

/-- The device an approval admits is pending and its user's. -/
theorem pending_of_admitted (sound : Sound server db) {deviceId : Id}
    (admitted : Admitted server base db invitation deviceId membership issued) :
    ∃ device ∈ db.devices, device.id = deviceId ∧ device.userId = membership.userId ∧
      device.status = .pending := by
  obtain ⟨device, hmem, hid, hpending⟩ := admitted.pending
  obtain ⟨userId, huser, owned, howned, hownedId, hownedUser⟩ :=
    sound.onboarding.pending_device invitation admitted.invitation_mem deviceId admitted.device_eq
  have hsame : device = owned := sound.keys.devices.eq hmem howned (hid.trans hownedId.symm)
  refine ⟨device, hmem, hid, ?_, hpending⟩
  rw [hsame, hownedUser]
  exact Option.some.inj (huser.symm.trans admitted.user_eq)

theorem NotPending.piece (h : NotPending userId db) (spent : Spent server userId db)
    (piece : Piece server db db') : NotPending userId db' := by
  cases piece with
  | approved approved =>
    obtain ⟨admitted, opening, -⟩ := approved
    exact forall_updateWhere h fun _ _ _ => by simp
  | attempted => exact h
  | removed => exact fun device hmem => h device (mem_devices_withoutUsers.mp hmem).1
  | pruned pruned =>
    obtain ⟨keepRefresh, keepAccess, rfl⟩ := pruned
    exact h
  | changed hrefused change =>
    cases change with
    | approved approved =>
      obtain ⟨admitted, opening, -⟩ := approved
      exact forall_updateWhere h fun _ _ _ => by simp
    | removed => exact fun device hmem => h device (mem_devices_withoutUsers.mp hmem).1
    | deviceRevoked => exact forall_updateWhere h fun _ _ _ => by simp
    | deviceAdded allowed => exact absurd allowed hrefused
    | redeemed _ invitation_mem unconsumed user_eq _ _ _ device_user =>
      refine forall_concat h fun huser => ?_
      have hintended := user_eq.trans (congrArg some (device_user.symm.trans huser))
      exact absurd unconsumed (spent.consumed _ invitation_mem hintended)
    | _ => exact h

/-- The user is there to stay as it is: nothing of it awaits an approval. -/
def Closed (server : AuthServer) (userId : Id) (db : AuthDatabase) : Prop :=
  Spent server userId db ∧ NotPending userId db

theorem Closed.piece (h : Closed server userId db) (piece : Piece server db db') :
    Closed server userId db' :=
  ⟨h.1.piece piece, h.2.piece h.1 piece⟩

theorem memberships_of_append {rows : List MembershipRow} {id : Id}
    (h : ∃ row ∈ rows ++ [membership], row.userId = userId ∧ row.id = id) :
    (∃ row ∈ rows, row.userId = userId ∧ row.id = id) ∨
      membership.userId = userId ∧ id = membership.id := by
  obtain ⟨row, hmem, huser, hid⟩ := h
  rcases mem_append.mp hmem with hold | hnew
  · exact .inl ⟨row, hold, huser, hid⟩
  · rw [mem_singleton.mp hnew] at huser hid
    exact .inr ⟨huser, hid.symm⟩

theorem membership_grows_of_approved (sound : Sound server db)
    (approved : Approved server base invitation db db') :
    (∀ id, MemberMembership userId db' id → MemberMembership userId db id) ∨
      ¬ Closed server userId db ∧
        ∃ new, ∀ id, MemberMembership userId db' id → MemberMembership userId db id ∨ id = new := by
  obtain @⟨deviceId, membership, _, _, _, _, _, admitted, opening, -⟩ := approved
  by_cases hsame : membership.userId = userId
  · refine .inr ⟨fun hclosed => ?_, membership.id, fun id h =>
      (memberships_of_append h).imp_right And.right⟩
    obtain ⟨device, hmem, -, huser, hpending⟩ := pending_of_admitted sound admitted
    exact hclosed.2 device hmem (huser.trans hsame) hpending
  · exact .inl fun id h => (memberships_of_append h).resolve_right fun hnew => hsame hnew.1

theorem membership_grows (sound : Sound server db) (piece : Piece server db db') :
    (∀ id, MemberMembership userId db' id → MemberMembership userId db id) ∨
      ¬ Closed server userId db ∧
        ∃ new, ∀ id, MemberMembership userId db' id → MemberMembership userId db id ∨ id = new := by
  have hfiltered : ∀ {userIds : List Id} id, MemberMembership userId (withoutUsers userIds db) id →
      MemberMembership userId db id := by
    intro userIds id h
    obtain ⟨membership, hmem, hmembership⟩ := h
    exact ⟨membership, (mem_memberships_withoutUsers.mp hmem).1, hmembership⟩
  cases piece with
  | approved approved => exact membership_grows_of_approved sound approved
  | attempted => exact .inl fun _ h => h
  | removed => exact .inl hfiltered
  | pruned pruned =>
    obtain ⟨keepRefresh, keepAccess, rfl⟩ := pruned
    exact .inl fun _ h => h
  | changed hrefused change =>
    cases change with
    | approved approved => exact membership_grows_of_approved sound approved
    | removed => exact .inl hfiltered
    | membershipRevoked =>
      refine .inl fun id h => ?_
      obtain ⟨membership, hmem, huser, hid⟩ := h
      obtain ⟨stored, hstored, rfl | ⟨-, rfl⟩⟩ := of_mem_updateWhere hmem
      · exact ⟨_, hstored, huser, hid⟩
      · exact ⟨stored, hstored, huser, hid⟩
    | @ownerAdded user vault membership _ _ _ user_fresh _ _ _ membership_user =>
      by_cases hsame : membership.userId = userId
      · refine .inr ⟨fun hclosed => ?_, membership.id, fun id h =>
          (memberships_of_append h).imp_right And.right⟩
        exact user_fresh.ne hclosed.1.drawn (membership_user.symm.trans hsame)
      · exact .inl fun id h => (memberships_of_append h).resolve_right fun hnew => hsame hnew.1
    | _ => exact .inl fun _ h => h

theorem memberships_bornOnce : BornOnce (Sound server) (Piece server) (MemberMembership userId)
    (Closed server userId) where
  ok_step := sound_piece
  closed_of_mem := by
    intro db id sound h
    obtain ⟨membership, hmem, huser, -⟩ := h
    obtain ⟨user, huserMem, hid⟩ := sound.references.membership_user membership hmem
    refine ⟨spent_of_user sound ⟨user, huserMem, hid.trans huser⟩, fun device hdevice hown hpending => ?_⟩
    exact sound.onboarding.pending_no_member device hdevice hpending membership hmem
      (huser.trans hown.symm)
  stays := fun _ piece h => h.piece piece
  grows := fun sound piece => membership_grows sound piece

/-- Families that all were there before are the user's only if they were before. -/
theorem memberFamily_back (sound : Sound server db) (piece : Piece server db db')
    (hold : ∀ family ∈ db'.families, ∃ stored ∈ db.families,
      stored.id = family.id ∧ stored.deviceId = family.deviceId) {id : Id}
    (h : MemberFamily userId db' id) : MemberFamily userId db id := by
  obtain ⟨family, hmem, hdevice, hid⟩ := h
  obtain ⟨stored, hstored, hstoredId, hstoredDevice⟩ := hold family hmem
  have hexists := sound.references.family_device stored hstored
  rw [hstoredDevice] at hexists
  refine ⟨stored, hstored, ?_, hstoredId.trans hid⟩
  rw [hstoredDevice]
  exact memberDevice_back piece hexists hdevice

theorem family_grows_of_approved (sound : Sound server db)
    (approved : Approved server base invitation db db') :
    (∀ id, MemberFamily userId db' id → MemberFamily userId db id) ∨
      ¬ Closed server userId db ∧
        ∃ new, ∀ id, MemberFamily userId db' id → MemberFamily userId db id ∨ id = new := by
  have piece : Piece server db db' := .approved approved
  obtain @⟨deviceId, membership, now, family, token, issued, issued', admitted, opening, hbound⟩ :=
    approved
  obtain ⟨device, hmem, hid, -, hpending⟩ := pending_of_admitted sound admitted
  have hsplit : ∀ id, MemberFamily userId
      (afterOpening (afterAdmission db deviceId membership now issued) family token issued') id →
      MemberFamily userId db id ∨ (MemberDevice userId db deviceId ∧ id = family.id) := by
    intro id h
    obtain ⟨found, hfound, hdevice, hfoundId⟩ := h
    rcases mem_append.mp hfound with hold | hnew
    · left
      exact ⟨found, hold, memberDevice_back piece (sound.references.family_device found hold) hdevice,
        hfoundId⟩
    · rw [mem_singleton.mp hnew] at hdevice hfoundId
      rw [hbound] at hdevice
      exact .inr ⟨memberDevice_back piece ⟨device, hmem, hid⟩ hdevice, hfoundId.symm⟩
  by_cases hsame : MemberDevice userId db deviceId
  · refine .inr ⟨fun hclosed => ?_, family.id, fun id h => (hsplit id h).imp_right And.right⟩
    obtain ⟨owned, howned, huser, hownedId⟩ := hsame
    rw [sound.keys.devices.eq howned hmem (hownedId.trans hid.symm)] at huser
    exact hclosed.2 device hmem huser hpending
  · exact .inl fun id h => (hsplit id h).resolve_right fun hnew => hsame hnew.1

theorem families_of_updateWhere {hit : FamilyRow → Bool} {update : FamilyRow → FamilyRow}
    (hkeep : ∀ row, (update row).id = row.id ∧ (update row).deviceId = row.deviceId) :
    ∀ family ∈ updateWhere hit update db.families, ∃ stored ∈ db.families,
      stored.id = family.id ∧ stored.deviceId = family.deviceId := by
  intro family hmem
  obtain ⟨stored, hstored, rfl | ⟨-, rfl⟩⟩ := of_mem_updateWhere hmem
  · exact ⟨_, hstored, rfl, rfl⟩
  · exact ⟨stored, hstored, (hkeep stored).1.symm, (hkeep stored).2.symm⟩

theorem family_grows (sound : Sound server db) (piece : Piece server db db') :
    (∀ id, MemberFamily userId db' id → MemberFamily userId db id) ∨
      ¬ Closed server userId db ∧
        ∃ new, ∀ id, MemberFamily userId db' id → MemberFamily userId db id ∨ id = new := by
  have hback := @memberFamily_back server userId db db' sound piece
  cases piece with
  | approved approved => exact family_grows_of_approved sound approved
  | attempted => exact .inl fun id => hback fun family hmem => ⟨family, hmem, rfl, rfl⟩
  | removed =>
    exact .inl fun id => hback fun family hmem =>
      ⟨family, (mem_families_withoutUsers.mp hmem).1, rfl, rfl⟩
  | pruned pruned =>
    obtain ⟨keepRefresh, keepAccess, rfl⟩ := pruned
    exact .inl fun id => hback fun family hmem => ⟨family, hmem, rfl, rfl⟩
  | changed hrefused change =>
    cases change with
    | approved approved => exact family_grows_of_approved sound approved
    | sessionOpened allowed => exact absurd allowed hrefused
    | removed =>
      exact .inl fun id => hback fun family hmem =>
        ⟨family, (mem_families_withoutUsers.mp hmem).1, rfl, rfl⟩
    | deviceRevoked | rotated | reuseMarked =>
      exact .inl fun id => hback (families_of_updateWhere fun _ => ⟨rfl, rfl⟩)
    | _ => exact .inl fun id => hback fun family hmem => ⟨family, hmem, rfl, rfl⟩

theorem families_bornOnce : BornOnce (Sound server) (Piece server) (MemberFamily userId)
    (Closed server userId) where
  ok_step := sound_piece
  closed_of_mem := by
    intro db id sound h
    obtain ⟨family, hmem, ⟨device, hdevice, huser, hid⟩, -⟩ := h
    obtain ⟨user, huserMem, huserId⟩ := sound.references.device_user device hdevice
    refine ⟨spent_of_user sound ⟨user, huserMem, huserId.trans huser⟩, fun other hother hown hpending => ?_⟩
    have hsame := sound.onboarding.pending_alone other hother hpending device hdevice
      (huser.trans hown.symm)
    exact sound.onboarding.pending_no_family other hother hpending family hmem (hid.symm.trans hsame)
  stays := fun _ piece h => h.piece piece
  grows := fun sound piece => family_grows sound piece

end

variable {server : AuthServer} {userId : Id} {start s t : World}

/-- No pairing and no grant redeemed. -/
def noReentry (w : World) (action : AuthAction) : Prop := ¬ (permitted w.db action).reentry

theorem pieces_of_reached (sound : Sound server s.db)
    (reached : Reached (authStep server) noReentry s t) :
    ReflTransGen (Piece server) s.db t.db := by
  have hall : Sound server t.db ∧ ReflTransGen (Piece server) s.db t.db := by
    refine Reached.invariant
      (P := fun w => Sound server w.db ∧ ReflTransGen (Piece server) s.db w.db) reached
      ⟨sound, .refl⟩ fun w action w' hw hguard hstep => ?_
    cases hstep
    have hcommitted := afterAction_committed hw.1 action
    exact ⟨hw.1.committed hcommitted, hw.2.trans (pieces_of_committed hguard hcommitted)⟩
  exact hall.2

/-- Seen at two moments, the user has one device, membership and family in all, and
is not there again once its invitation was consumed and it is gone. -/
structure OneEach (userId : Id) (s t : AuthDatabase) : Prop where
  user : (∃ invitation ∈ s.invitations, invitation.intendedMemberId = some userId ∧
    invitation.consumedAt ≠ none) → (∃ user ∈ t.users, user.id = userId) →
      ∃ user ∈ s.users, user.id = userId
  device : ∀ a b, MemberDevice userId s a → MemberDevice userId t b → a = b
  membership : ∀ a b, MemberMembership userId s a → MemberMembership userId t b → a = b
  family : ∀ a b, MemberFamily userId s a → MemberFamily userId t b → a = b

theorem user_back {db db' : AuthDatabase} (spent : Spent server userId db)
    (piece : Piece server db db') (h : ∃ user ∈ db'.users, user.id = userId) :
    ∃ user ∈ db.users, user.id = userId := by
  obtain ⟨user, hmem, hid⟩ := h
  cases piece with
  | approved approved =>
    obtain ⟨admitted, opening, -⟩ := approved
    exact ⟨user, hmem, hid⟩
  | attempted => exact ⟨user, hmem, hid⟩
  | removed => exact ⟨user, (mem_users_withoutUsers.mp hmem).1, hid⟩
  | pruned pruned =>
    obtain ⟨keepRefresh, keepAccess, rfl⟩ := pruned
    exact ⟨user, hmem, hid⟩
  | changed hrefused change =>
    cases change with
    | approved approved =>
      obtain ⟨admitted, opening, -⟩ := approved
      exact ⟨user, hmem, hid⟩
    | removed => exact ⟨user, (mem_users_withoutUsers.mp hmem).1, hid⟩
    | ownerAdded _ _ user_fresh =>
      rcases mem_append.mp hmem with hold | hnew
      · exact ⟨user, hold, hid⟩
      · rw [mem_singleton.mp hnew] at hid
        exact absurd hid (user_fresh.ne spent.drawn)
    | redeemed _ invitation_mem unconsumed user_eq =>
      rcases mem_append.mp hmem with hold | hnew
      · exact ⟨user, hold, hid⟩
      · rw [mem_singleton.mp hnew] at hid
        exact absurd unconsumed (spent.consumed _ invitation_mem (hid ▸ user_eq))
    | _ => exact ⟨user, hmem, hid⟩

theorem user_back_chain {db db' : AuthDatabase} (spent : Spent server userId db)
    (chain : ReflTransGen (Piece server) db db')
    (h : ∃ user ∈ db'.users, user.id = userId) : ∃ user ∈ db.users, user.id = userId := by
  have hall : Spent server userId db' ∧
      ((∃ user ∈ db'.users, user.id = userId) → ∃ user ∈ db.users, user.id = userId) := by
    clear h
    induction chain with
    | refl => exact ⟨spent, id⟩
    | tail _ piece ih => exact ⟨ih.1.piece piece, fun h => ih.2 (user_back ih.1 piece h)⟩
  exact hall.2 h

theorem spent_of_consumed {db : AuthDatabase} (sound : Sound server db)
    (h : ∃ invitation ∈ db.invitations, invitation.intendedMemberId = some userId ∧
      invitation.consumedAt ≠ none) : Spent server userId db := by
  obtain ⟨invitation, hmem, hintended, hconsumed⟩ := h
  refine ⟨sound.issuance.members invitation hmem userId hintended, fun other hother heq => ?_⟩
  rw [sound.onboarding.members_distinct other hother invitation hmem (by simp [heq])
    (heq.trans hintended.symm)]
  exact hconsumed

/-- What an invitation that was not redeemed at the start brings, it brings once. -/
theorem oneEach_of_reached (hstart : Sound server start.db)
    (hfresh : ∀ user ∈ start.db.users, user.id ≠ userId)
    (before : Reached (authStep server) noReentry start s)
    (later : Reached (authStep server) noReentry s t) : OneEach userId s.db t.db := by
  have hs : Sound server s.db := reached_sound hstart before
  have hbefore := pieces_of_reached hstart before
  have hlater := pieces_of_reached hs later
  have hnoDevice : ∀ id, ¬ MemberDevice userId start.db id := by
    intro id h
    obtain ⟨device, hmem, huser, -⟩ := h
    obtain ⟨user, huserMem, hid⟩ := hstart.references.device_user device hmem
    exact hfresh user huserMem (hid.trans huser)
  have hnoMembership : ∀ id, ¬ MemberMembership userId start.db id := by
    intro id h
    obtain ⟨membership, hmem, huser, -⟩ := h
    obtain ⟨user, huserMem, hid⟩ := hstart.references.membership_user membership hmem
    exact hfresh user huserMem (hid.trans huser)
  have hnoFamily : ∀ id, ¬ MemberFamily userId start.db id := by
    intro id h
    obtain ⟨family, -, hdevice, -⟩ := h
    exact hnoDevice _ hdevice
  constructor
  · intro hconsumed huser
    exact user_back_chain (spent_of_consumed hs hconsumed) hlater huser
  · intro a b ha hb
    have hone := (@devices_bornOnce server userId).atMostOne hstart
      (fun a _ ha => absurd ha (hnoDevice a)) hbefore
    exact devices_bornOnce.same hs hone hlater ha hb
  · intro a b ha hb
    have hone := (@memberships_bornOnce server userId).atMostOne hstart
      (fun a _ ha => absurd ha (hnoMembership a)) hbefore
    exact memberships_bornOnce.same hs hone hlater ha hb
  · intro a b ha hb
    have hone := (@families_bornOnce server userId).atMostOne hstart
      (fun a _ ha => absurd ha (hnoFamily a)) hbefore
    exact families_bornOnce.same hs hone hlater ha hb

end Havemind.MemberBirths
