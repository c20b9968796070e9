import Havemind.InvitationChanges
import Havemind.MembershipRevocation
import Havemind.OwnerSetup
import Havemind.RejoinGrants

/-!
What the revocation of a membership, the rejoin grants and the owner's setup
commit, as sequences of changes. A revocation leaves every row of a device
outside its scope as it was.
-/
namespace Havemind.AccountChanges

open RevisionSchema Transaction Endings KeyedTable AuthTables AuthChanges AuthSoundness List
  SessionRepository SessionChanges InvitationChanges MembershipRevocation RejoinGrants OwnerSetup
open ServerDatabase (AccountStatus DeviceStatus)

variable {server : AuthServer} {permit : Permit} {base : ℕ} {db db' : AuthDatabase}

section
variable {deviceNow : Id → Option Timestamp} {deviceIds : List Id} {u : Unit}
  {deviceId membershipId : Id} {clock : Option Timestamp}

/-- The devices are revoked, with their sessions; the rows of every other device
are the same rows in the same order. -/
structure DevicesRevoked (deviceIds : List Id) (db db' : AuthDatabase) : Prop where
  devices : ∀ device ∈ db'.devices, device.id ∈ deviceIds → device.status = .revoked
  other_devices : db'.devices.filter (fun row => row.id ∉ deviceIds) =
    db.devices.filter fun row => row.id ∉ deviceIds
  other_families : db'.families.filter (fun row => row.deviceId ∉ deviceIds) =
    db.families.filter fun row => row.deviceId ∉ deviceIds
  other_access : db'.accessTokens.filter (fun row => row.deviceId ∉ deviceIds) =
    db.accessTokens.filter fun row => row.deviceId ∉ deviceIds
  tokens : db'.refreshTokens = db.refreshTokens
  memberships : db'.memberships = db.memberships
  invitations : db'.invitations = db.invitations
  issued : db'.issued = db.issued

theorem revokeDevices_changes (h : revokeDevices deviceNow deviceIds db = .ok u db') :
    Changes server permit base db db' := by
  induction deviceIds generalizing db with
  | nil =>
    cases h
    exact .refl
  | cons deviceId rest ih =>
    obtain ⟨_, mid, hdevice, h⟩ := bind_eq_ok.mp h
    obtain ⟨now, -, rfl⟩ := revokeDevice_eq_ok hdevice
    exact .head .deviceRevoked (ih h)

theorem mem_of_filter_eq {α : Type} {rows rows' : List α} {keep : α → Bool} {row : α}
    (h : rows'.filter keep = rows.filter keep) (hrow : row ∈ rows') (hkeep : keep row = true) :
    row ∈ rows := by
  have hmem : row ∈ rows'.filter keep := mem_filter.mpr ⟨hrow, hkeep⟩
  rw [h] at hmem
  exact (mem_filter.mp hmem).1

theorem devicesRevoked_one {now : Timestamp} :
    DevicesRevoked [deviceId] db (afterDeviceRevocation db deviceId now) := by
  constructor
  · intro device hdevice hid
    rcases mem_updateWhere.mp hdevice with ⟨-, hmiss⟩ | ⟨stored, -, -, rfl⟩
    · exact absurd (mem_singleton.mp hid) (of_decide_eq_false hmiss)
    · rfl
  all_goals first | rfl | exact filter_updateWhere (by simp) (by simp)

theorem DevicesRevoked.trans {mid : AuthDatabase} {rest : List Id}
    (h : DevicesRevoked [deviceId] db mid) (hrest : DevicesRevoked rest mid db') :
    DevicesRevoked (deviceId :: rest) db db' := by
  have hfirst : ∀ id : Id, decide (id ∉ deviceId :: rest) = true → decide (id ∉ [deviceId]) = true := by
    simp +contextual
  have hlast : ∀ id : Id, decide (id ∉ deviceId :: rest) = true → decide (id ∉ rest) = true := by
    simp +contextual
  constructor
  · intro device hdevice hid
    by_cases hinRest : device.id ∈ rest
    · exact hrest.devices device hdevice hinRest
    · have hmem := mem_of_filter_eq hrest.other_devices hdevice (by simpa using hinRest)
      refine h.devices device hmem (mem_singleton.mpr ?_)
      exact (mem_cons.mp hid).resolve_right hinRest
  · exact (filter_eq_of_imp (fun row => hlast row.id) hrest.other_devices).trans
      (filter_eq_of_imp (fun row => hfirst row.id) h.other_devices)
  · exact (filter_eq_of_imp (fun row => hlast row.deviceId) hrest.other_families).trans
      (filter_eq_of_imp (fun row => hfirst row.deviceId) h.other_families)
  · exact (filter_eq_of_imp (fun row => hlast row.deviceId) hrest.other_access).trans
      (filter_eq_of_imp (fun row => hfirst row.deviceId) h.other_access)
  · exact hrest.tokens.trans h.tokens
  · exact hrest.memberships.trans h.memberships
  · exact hrest.invitations.trans h.invitations
  · exact hrest.issued.trans h.issued

theorem revokeDevices_eq_ok (h : revokeDevices deviceNow deviceIds db = .ok u db') :
    DevicesRevoked deviceIds db db' := by
  induction deviceIds generalizing db with
  | nil =>
    cases h
    constructor <;> simp
  | cons deviceId rest ih =>
    obtain ⟨_, mid, hdevice, h⟩ := bind_eq_ok.mp h
    obtain ⟨now, -, rfl⟩ := revokeDevice_eq_ok hdevice
    exact devicesRevoked_one.trans (ih h)

theorem revokeMembership_eq_ok {id : Id}
    (h : revokeMembership membershipId clock deviceNow db = .ok id db') :
    ∃ now, ∃ membership ∈ db.memberships, clock = some now ∧ membership.id = membershipId ∧
      revokeDevices deviceNow (devicesInScope db membership.userId membership.vaultId)
        (afterMembershipRevocation db membershipId now) = .ok () db' := by
  unfold revokeMembership at h
  obtain ⟨now, hnow, h⟩ := check_bind_eq_ok.mp h
  rw [transaction_eq_ok, get_bind] at h
  cases hfind : db.memberships.find? fun row => row.id = membershipId with
  | none =>
    rw [hfind] at h
    cases h
  | some membership =>
    rw [hfind] at h
    unfold revokeMembershipRow at h
    dsimp only at h
    rw [modify_bind, get_bind] at h
    obtain ⟨_, last, hdevices, h⟩ := bind_eq_ok.mp h
    cases h
    obtain ⟨hmem, hid⟩ := find?_key hfind
    exact ⟨now, membership, hmem, readClock_eq_ok.mp hnow, hid, hdevices⟩

theorem revokeMembership_changes :
    Changes server permit base db (storeAfter (revokeMembership membershipId clock deviceNow) db) := by
  apply Ends.storeAfter
  refine ends_iff.mpr ⟨fun id db' h => ?_, fun e db' h => ?_⟩
  · obtain ⟨now, _, -, -, -, hdevices⟩ := revokeMembership_eq_ok h
    exact .head .membershipRevoked (revokeDevices_changes hdevices)
  · unfold revokeMembership at h
    cases clock with
    | none =>
      cases h
      exact .refl
    | some now =>
      obtain ⟨rfl, -⟩ := transaction_eq_error.mp h
      exact .refl

end

section
variable {input : RedeemRejoinGrantInput} {now : Timestamp} {clock sessionNow : Option Timestamp}
  {membershipId : Id} {grant : RejoinGrantRow} {membership : MembershipRow}

theorem loadLiveGrant_eq_ok (h : loadLiveGrant db membershipId now = .ok grant) :
    grant ∈ db.rejoinGrants ∧ grant.membershipId = membershipId ∧ grant.consumedAt = none ∧
      now < grant.expiresAt := by
  unfold loadLiveGrant at h
  dsimp only at h
  split at h
  · cases h
  · rename_i row hhead
    split at h
    · cases h
    · rename_i hlater
      cases h
      have hmem := (mem_insertionSort _).mp (mem_of_mem_head? hhead)
      obtain ⟨hrow, hhit⟩ := mem_filter.mp hmem
      obtain ⟨hmembership, hunconsumed⟩ := of_decide_eq_true hhit
      exact ⟨hrow, hmembership, hunconsumed, Nat.not_le.mp hlater⟩

theorem loadMembership_eq_ok (h : loadMembership db membershipId = .ok membership) :
    membership ∈ db.memberships ∧ membership.id = membershipId ∧
      vaultIsLive db membership.vaultId = true := by
  unfold loadMembership at h
  cases hfind : db.memberships.find? fun row => row.id = membershipId with
  | none =>
    rw [hfind] at h
    cases h
  | some row =>
    rw [hfind] at h
    dsimp only at h
    split at h
    · rename_i hlive
      cases h
      obtain ⟨hmem, hid⟩ := find?_key hfind
      exact ⟨hmem, hid, hlive⟩
    · cases h

/-- What a redemption checked: the grant is live and bound to the device, the
membership active in a live vault, and the device approved with this secret. -/
structure Redeemable (server : AuthServer) (db : AuthDatabase) (input : RedeemRejoinGrantInput)
    (now : Timestamp) (grant : RejoinGrantRow) (membership : MembershipRow) : Prop where
  live : loadLiveGrant db input.membershipId now = .ok grant
  grant_mem : grant ∈ db.rejoinGrants
  grant_membership : grant.membershipId = input.membershipId
  unconsumed : grant.consumedAt = none
  unexpired : now < grant.expiresAt
  bound : grant.deviceId = input.deviceId
  membership_mem : membership ∈ db.memberships
  membership_id : membership.id = input.membershipId
  membership_active : membership.status = .active
  vault_live : vaultIsLive db membership.vaultId = true
  device : ∃ device ∈ db.devices, device.id = input.deviceId ∧ device.status = .approved ∧
    device.userId = membership.userId ∧
    ∃ secret, input.rejoinSecret = some secret ∧
      device.rejoinSecretHash = some (server.hashToken secret)

theorem rejoinSecretMatchesHash_iff {rawSecret : Option Token} {storedHash : Option TokenHash} :
    rejoinSecretMatchesHash server rawSecret storedHash = true ↔
      ∃ secret, rawSecret = some secret ∧ storedHash = some (server.hashToken secret) := by
  cases rawSecret <;> cases storedHash <;> simp [rejoinSecretMatchesHash, eq_comm]

theorem requireRedeemable_eq_ok
    (h : requireRedeemable server db input now = .ok (grant, membership)) :
    Redeemable server db input now grant membership := by
  unfold requireRedeemable at h
  obtain ⟨found, hgrant, h⟩ := except_bind_eq_ok.mp h
  obtain ⟨_, hbound, h⟩ := except_bind_eq_ok.mp h
  obtain ⟨target, hmembership, h⟩ := except_bind_eq_ok.mp h
  obtain ⟨_, hactive, h⟩ := except_bind_eq_ok.mp h
  cases hfind : db.devices.find? fun row => row.id = input.deviceId with
  | none =>
    rw [hfind] at h
    cases h
  | some device =>
    rw [hfind] at h
    obtain ⟨_, hdevice, h⟩ := except_bind_eq_ok.mp h
    obtain ⟨_, hsecret, h⟩ := except_bind_eq_ok.mp h
    cases h
    obtain ⟨hgrantMem, hgrantMembership, hunconsumed, hlater⟩ := loadLiveGrant_eq_ok hgrant
    obtain ⟨hmem, hid, hlive⟩ := loadMembership_eq_ok hmembership
    obtain ⟨hdeviceMem, hdeviceId⟩ := find?_key hfind
    obtain ⟨happroved, huser⟩ := require_eq_ok.mp hdevice
    exact
      { live := hgrant
        grant_mem := hgrantMem
        grant_membership := hgrantMembership
        unconsumed := hunconsumed
        unexpired := hlater
        bound := require_eq_ok.mp hbound
        membership_mem := hmem
        membership_id := hid
        membership_active := require_eq_ok.mp hactive
        vault_live := hlive
        device := ⟨device, hdeviceMem, hdeviceId, happroved, huser,
          rejoinSecretMatchesHash_iff.mp (require_eq_ok.mp hsecret)⟩ }

/-- A redemption consumes the grant it checked and opens one session on its device. -/
theorem redeemGrant_eq_ok {result : RedeemRejoinGrantResult}
    (h : redeemGrant server input clock sessionNow db = .ok result db') :
    ∃ now grant membership family token issued, clock = some now ∧
      Redeemable server db input now grant membership ∧
      Opening server db.issued (afterGrantConsumed db grant.id now) family token issued ∧
      family.deviceId = input.deviceId ∧ family.userId = membership.userId ∧
      db' = afterOpening (afterGrantConsumed db grant.id now) family token issued := by
  unfold redeemGrant at h
  cases hhash : input.initialRefreshTokenHash with
  | none =>
    rw [hhash] at h
    cases h
  | some tokenHash =>
    rw [hhash] at h
    obtain ⟨now, hnow, h⟩ := check_bind_eq_ok.mp h
    rw [transaction_eq_ok] at h
    unfold redeemGrantInTransaction consumeGrant at h
    rw [get_bind] at h
    obtain ⟨⟨grant, membership⟩, hredeemable, h⟩ := check_bind_eq_ok.mp h
    obtain ⟨_, mid, hconsume, h⟩ := bind_eq_ok.mp h
    obtain ⟨-, rfl⟩ := updateOne_eq_ok.mp hconsume
    obtain ⟨family, last, hfamily, h⟩ := bind_eq_ok.mp h
    cases h
    have hchecked := requireRedeemable_eq_ok hredeemable
    obtain ⟨hash, snow, -, -, hcreate⟩ := createInitialFamilyFromHash_eq_ok hfamily
    obtain ⟨device, hdevice, hid, happroved, -⟩ := hchecked.device
    have hsettled : Settled (afterGrantConsumed db grant.id now) input.deviceId :=
      ⟨device, hdevice, hid, by simp [happroved]⟩
    obtain ⟨row, token, issued, opening, -, huser, hbound, -, rfl⟩ :=
      createFamily_opening (Nat.le_refl _) hsettled hcreate
    exact ⟨now, grant, membership, row, token, issued, readClock_eq_ok.mp hnow, hchecked, opening,
      hbound, huser, rfl⟩

theorem redeemGrant_eq_error {e : AuthError}
    (h : redeemGrant server input clock sessionNow db = .error e db') : db' = db := by
  unfold redeemGrant at h
  cases hhash : input.initialRefreshTokenHash with
  | none =>
    rw [hhash] at h
    cases h
    rfl
  | some tokenHash =>
    rw [hhash] at h
    cases clock with
    | none =>
      cases h
      rfl
    | some now => exact (transaction_eq_error.mp h).1

theorem redeemGrant_outcome (hreentry : permit.reentry) :
    Outcome server permit db (storeAfter (redeemGrant server input clock sessionNow) db) := by
  apply Ends.storeAfter
  refine ends_iff.mpr ⟨fun result db' h => ?_, fun e db' h => ?_⟩
  · obtain ⟨now, grant, membership, family, token, issued, -, -, opening, -, -, rfl⟩ :=
      redeemGrant_eq_ok h
    exact .rejoined hreentry (.mk opening)
  · rw [redeemGrant_eq_error h]
    exact .changed .refl

/-- The grant a creation stores; every older one of the membership is superseded. -/
theorem createGrant_eq_ok {input : CreateRejoinGrantInput} {result : CreateRejoinGrantResult}
    (h : createGrant server input clock db = .ok result db') :
    ∃ grant, grant.id = server.randomUuid db.issued ∧ grant.consumedAt = none ∧
      grant.membershipId = input.targetMembershipId ∧
      (∀ stored ∈ db.rejoinGrants, stored.id ≠ grant.id) ∧
      db' = afterGrant db grant (db.issued + 1) := by
  unfold createGrant at h
  obtain ⟨now, hnow, h⟩ := check_bind_eq_ok.mp h
  obtain ⟨expiresAt, -, h⟩ := check_bind_eq_ok.mp h
  rw [transaction_eq_ok] at h
  unfold createGrantInTransaction supersedeGrants at h
  rw [get_bind] at h
  obtain ⟨target, -, h⟩ := check_bind_eq_ok.mp h
  obtain ⟨_, -, h⟩ := check_bind_eq_ok.mp h
  rw [get_bind] at h
  obtain ⟨_, -, h⟩ := check_bind_eq_ok.mp h
  rw [get_bind] at h
  obtain ⟨boundDeviceId, -, h⟩ := check_bind_eq_ok.mp h
  rw [modify_bind, newUuid_bind] at h
  obtain ⟨hfree, h⟩ := guardedWrite_bind_eq_ok.mp h
  cases h
  refine ⟨{ id := server.randomUuid db.issued
            membershipId := input.targetMembershipId
            deviceId := boundDeviceId
            createdByMembershipId := input.ownerMembershipId
            createdAt := now
            expiresAt
            consumedAt := none }, rfl, rfl, rfl, ?_, rfl⟩
  exact forall_of_forall_updateWhere hfree.1 fun _ hrow => hrow

theorem createGrant_changes {input : CreateRejoinGrantInput} (hbase : base ≤ db.issued) :
    Changes server permit base db (storeAfter (createGrant server input clock) db) := by
  apply Ends.storeAfter
  refine ends_iff.mpr ⟨fun result db' h => ?_, fun e db' h => ?_⟩
  · obtain ⟨grant, hid, -, -, hfree, rfl⟩ := createGrant_eq_ok h
    refine .single (.grantIssued (Nat.le_succ _) ?_ hfree)
    exact ⟨db.issued, hbase, Nat.lt_succ_self _, hid.symm⟩
  · have hends : Ends (createGrant server input clock) db (fun _ _ => True) fun _ s' => s' = db := by
      unfold createGrant
      refine .check (fun now _ => ?_) fun _ => rfl
      refine .check (fun expiresAt _ => ?_) fun _ => rfl
      exact ends_transaction (fun _ _ _ => trivial) fun _ => rfl
    rw [(ends_iff.mp hends).2 e db' h]
    exact .refl

end

variable {names : OwnerNames} {pairingToken : Token} {now pairingExpiresAt : Timestamp}
  {clock sessionNow : Option Timestamp} {pairing : OwnerPairingRow} {deviceId : Id}
  {isInstanceOwner : Bool} {result : CreateVaultResult} {tokenHash : TokenHash}
  {refreshTokenHash : Option TokenHash} {input : PairOwnerDeviceInput}

/-- The rows of a new owner, under identifiers drawn for them. -/
theorem insertOwner_eq_ok
    (h : insertOwner server names isInstanceOwner pairingToken now pairingExpiresAt db =
      .ok result db') :
    ∃ user vault membership pairing, user.id = server.randomUuid db.issued ∧
      pairing.userId = user.id ∧
      membership.id = server.randomUuid (db.issued + 2) ∧ membership.userId = user.id ∧
      pairing.consumedByDeviceId = none ∧
      (∀ stored ∈ db.users, stored.id ≠ user.id) ∧
      (∀ stored ∈ db.memberships, stored.id ≠ membership.id) ∧
      db' =
        { db with
          users := db.users ++ [user]
          vaults := db.vaults ++ [vault]
          memberships := db.memberships ++ [membership]
          ownerPairings := db.ownerPairings ++ [pairing]
          issued := db.issued + 4 } := by
  unfold insertOwner at h
  rw [newUuid_bind, newUuid_bind, newUuid_bind, newUuid_bind] at h
  obtain ⟨huser, h⟩ := guardedWrite_bind_eq_ok.mp h
  obtain ⟨-, h⟩ := guardedWrite_bind_eq_ok.mp h
  obtain ⟨hmembership, h⟩ := guardedWrite_bind_eq_ok.mp h
  obtain ⟨-, h⟩ := guardedWrite_bind_eq_ok.mp h
  cases h
  exact ⟨⟨server.randomUuid db.issued, names.ownerDisplayName, isInstanceOwner, .active⟩,
    ⟨server.randomUuid (db.issued + 1), names.vaultDisplayName, none⟩, _, _, rfl, rfl, rfl, rfl, rfl,
    huser.1, fun stored hstored => (hmembership.1 stored hstored).1, rfl⟩

theorem pairingAdded_change {rows : List OwnerPairingRow} {issued : ℕ}
    (hrows : ∀ row ∈ rows, row ∈ db.ownerPairings) (hissued : db.issued ≤ issued)
    (howner : ∃ membership ∈ db.memberships, membership.userId = pairing.userId)
    (hfresh : pairing.consumedByDeviceId = none) :
    Change server permit base db { db with ownerPairings := rows ++ [pairing], issued } := by
  refine .pairingsSet hissued ?_ fun row hrow deviceId hdevice => ?_
  · exact forall_concat (fun row hrow => .inr ⟨row, hrows row hrow, rfl⟩) (.inl howner)
  rcases mem_append.mp hrow with hold | hnew
  · exact .inr ⟨row, hrows row hold, hdevice⟩
  · rw [mem_singleton.mp hnew, hfresh] at hdevice
    cases hdevice

theorem insertOwner_changes (hbase : base ≤ db.issued)
    (h : insertOwner server names isInstanceOwner pairingToken now pairingExpiresAt db =
      .ok result db') : Changes server permit base db db' := by
  obtain ⟨user, vault, membership, pairing, huser, hpairing, hmembership, hof, hfresh, huserFree,
    hmembershipFree, rfl⟩ := insertOwner_eq_ok h
  have hnew : ∀ k < 4, Drawn server base (db.issued + 4) (server.randomUuid (db.issued + k)) :=
    fun k hk => ⟨db.issued + k, Nat.le_add_right_of_le hbase, Nat.add_lt_add_left hk _, rfl⟩
  have hadded : Change server permit base db
      { db with
        users := db.users ++ [user]
        vaults := db.vaults ++ [vault]
        memberships := db.memberships ++ [membership]
        issued := db.issued + 4 } :=
    .ownerAdded (Nat.le_add_right _ _) (huser ▸ hnew 0 (by decide))
      ⟨db.issued, Nat.le_refl _, Nat.lt_add_of_pos_right (by decide), huser.symm⟩ huserFree
      (hmembership ▸ hnew 2 (by decide)) hmembershipFree hof
  refine (Relation.ReflTransGen.single hadded).tail
    (pairingAdded_change (fun _ hrow => hrow) (Nat.le_refl _) ?_ hfresh)
  exact ⟨membership, mem_append_right _ (mem_singleton_self _), hof.trans hpairing.symm⟩

theorem initializeOwner_changes {localContext : Bool} (hbase : base ≤ db.issued) :
    Changes server permit base db
      (storeAfter (initializeOwner server localContext names pairingToken clock) db) := by
  apply Ends.storeAfter
  unfold initializeOwner
  refine .check (fun _ _ => ?_) fun _ => .refl
  refine .check (fun _ _ => ?_) fun _ => .refl
  refine .check (fun now _ => ?_) fun _ => .refl
  refine .check (fun pairingExpiresAt _ => ?_) fun _ => .refl
  refine ends_transaction (fun result db' h => ?_) fun _ => .refl
  rw [get_bind] at h
  obtain ⟨_, -, h⟩ := check_bind_eq_ok.mp h
  rw [newUuid_bind, newUuid_bind, modify_bind] at h
  have hdrawn : Change server permit base db { db with issued := db.issued + 2 } :=
    .drawn (Nat.le_add_right _ _)
  refine .head hdrawn (.head .initialized ?_)
  exact insertOwner_changes (Nat.le_add_right_of_le hbase) h

theorem createVault_changes (hbase : base ≤ db.issued) :
    Changes server permit base db (storeAfter (createVault server names pairingToken clock) db) := by
  apply Ends.storeAfter
  unfold createVault
  refine .check (fun _ _ => ?_) fun _ => .refl
  refine .check (fun now _ => ?_) fun _ => .refl
  refine .check (fun pairingExpiresAt _ => ?_) fun _ => .refl
  refine ends_transaction (fun result db' h => ?_) fun _ => .refl
  rw [get_bind] at h
  obtain ⟨_, -, h⟩ := check_bind_eq_ok.mp h
  exact insertOwner_changes hbase h

theorem resolveOwnerRow_mem {user : UserRow → Bool} {vault : Id → Bool} {owner : MembershipRow}
    (h : resolveOwnerRow db user vault = some owner) : owner ∈ db.memberships :=
  (mem_filter.mp ((mem_insertionSort _).mp (mem_of_mem_head? h))).1

theorem rotatePairing_changes {resolveOwner : AuthDatabase → Option MembershipRow}
    (hresolve : ∀ owner, resolveOwner db = some owner → owner ∈ db.memberships) :
    Changes server permit base db (storeAfter (rotatePairing server resolveOwner pairingToken clock) db) := by
  apply Ends.storeAfter
  unfold rotatePairing
  refine .check (fun now _ => ?_) fun _ => .refl
  refine .check (fun pairingExpiresAt _ => ?_) fun _ => .refl
  refine ends_transaction (fun result db' h => ?_) fun _ => .refl
  rw [get_bind] at h
  cases howner : resolveOwner db with
  | none =>
    rw [howner] at h
    cases h
  | some owner =>
    rw [howner] at h
    unfold deleteUnconsumedPairings at h
    dsimp only at h
    rw [modify_bind, newUuid_bind] at h
    obtain ⟨-, h⟩ := guardedWrite_bind_eq_ok.mp h
    cases h
    exact .single (pairingAdded_change (fun _ hrow => (mem_filter.mp hrow).1) (Nat.le_succ _)
      ⟨owner, hresolve owner howner, rfl⟩ rfl)

def afterPairing (db : AuthDatabase) (pairingId deviceId : Id) (now : Timestamp) : AuthDatabase :=
  { db with
    ownerPairings := updateWhere (fun row => row.id = pairingId)
      (fun row => { row with consumedAt := some now, consumedByDeviceId := some deviceId })
      db.ownerPairings }

theorem consumePairing_change {pairingId : Id} (hsettled : Settled db deviceId) :
    Change server permit base db (afterPairing db pairingId deviceId now) := by
  refine .pairingsSet (Nat.le_refl _) (fun row hrow => ?_) fun row hrow id hid => ?_
  · obtain ⟨stored, hstored, rfl | ⟨-, rfl⟩⟩ := of_mem_updateWhere hrow
    · exact .inr ⟨_, hstored, rfl⟩
    · exact .inr ⟨stored, hstored, rfl⟩
  · obtain ⟨stored, hstored, rfl | ⟨-, rfl⟩⟩ := of_mem_updateWhere hrow
    · exact .inr ⟨_, hstored, hid⟩
    · cases hid
      exact .inl hsettled

theorem findPairing_eq_ok (h : findPairing db tokenHash = .ok pairing) :
    pairing ∈ db.ownerPairings := by
  unfold findPairing at h
  cases hfind : db.ownerPairings.find? fun row => row.tokenHash = tokenHash with
  | none =>
    rw [hfind] at h
    cases h
  | some row =>
    rw [hfind] at h
    cases h
    exact (find?_key hfind).1

/-- A device added for a pairing, and its first family. -/
theorem paired_changes {refreshTtl : ℕ} {snow : Timestamp} {result : InitialFamilyResult}
    {added opened : AuthDatabase} {u : Unit} (hreentry : permit.reentry)
    (hbase : base ≤ db.issued) (hnew : Drawn server base db.issued deviceId)
    (howner : ∃ membership ∈ db.memberships, membership.userId = pairing.userId)
    (hadd : insertPairedDevice pairing deviceId now db = .ok u added)
    (hopen : createFamily server pairing.userId deviceId tokenHash refreshTtl snow added =
      .ok result opened) :
    Changes server permit base db opened ∧ Settled opened deviceId ∧
      ∃ family ∈ opened.families, family.id = result.familyId ∧ family.deviceId = deviceId ∧
        family.expiresAt = result.refreshExpiresAt := by
  unfold insertPairedDevice insertDevice at hadd
  obtain ⟨hfree, rfl⟩ := guardedWrite_eq_ok.mp hadd
  set device : DeviceRow := ⟨deviceId, pairing.userId, .approved, some now, none, none,
    some pairing.vaultId⟩ with hdevice
  set added : AuthDatabase := { db with devices := db.devices ++ [device] } with hadded
  have hsettled : Settled added deviceId :=
    ⟨device, mem_append_right _ (mem_singleton_self _), rfl, by simp [hdevice]⟩
  have hchange : Change server permit base db added :=
    .deviceAdded hreentry hnew hfree.1 hfree.2.1 howner rfl
  have hbase' : base ≤ added.issued := hbase
  obtain ⟨family, token, issued, opening, hid, -, hbound, hexpires, rfl⟩ :=
    createFamily_opening hbase' hsettled hopen
  refine ⟨.head hchange (.single (.sessionOpened hreentry opening (hbound ▸ hnew))), hsettled, family,
    ?_, hid, hbound, hexpires⟩
  exact mem_append_right _ (mem_singleton_self _)

theorem pairFresh_changes {result : PairOwnerDeviceFromHashResult} (hreentry : permit.reentry)
    (hbase : base ≤ db.issued) (hnew : Drawn server base db.issued deviceId)
    (howner : ∃ membership ∈ db.memberships, membership.userId = pairing.userId)
    (h : pairFresh server pairing deviceId refreshTokenHash now sessionNow db = .ok result db') :
    Changes server permit base db db' := by
  unfold pairFresh at h
  obtain ⟨_, -, h⟩ := check_bind_eq_ok.mp h
  obtain ⟨_, added, hadd, h⟩ := bind_eq_ok.mp h
  obtain ⟨family, opened, hfamily, h⟩ := bind_eq_ok.mp h
  obtain ⟨hash, snow, -, -, hopen⟩ := createInitialFamilyFromHash_eq_ok hfamily
  obtain ⟨hchanges, hsettled, -⟩ := paired_changes hreentry hbase hnew howner hadd hopen
  cases h
  exact hchanges.tail (consumePairing_change hsettled)

theorem pairOwnerDeviceFromHash_changes (hreentry : permit.reentry) (owned : PairingsOwned db)
    (hbase : base ≤ db.issued) (hnew : Drawn server base db.issued input.deviceId) :
    Changes server permit base db
      (storeAfter (pairOwnerDeviceFromHash server input refreshTokenHash clock sessionNow) db) := by
  apply Ends.storeAfter
  unfold pairOwnerDeviceFromHash
  refine .check (fun token _ => ?_) fun _ => .refl
  refine .check (fun now _ => ?_) fun _ => .refl
  refine ends_transaction (fun result db' h => ?_) fun _ => .refl
  rw [get_bind] at h
  obtain ⟨pairing, hfind, h⟩ := check_bind_eq_ok.mp h
  split at h
  · cases hretried : retriedSession db pairing refreshTokenHash with
    | none =>
      rw [hretried] at h
      cases h
    | some session =>
      rw [hretried] at h
      cases h
      exact .refl
  · exact pairFresh_changes hreentry hbase hnew (owned pairing (findPairing_eq_ok hfind)) h

theorem pairOwnerDevice_changes {initialRefreshToken : Option Token} {accessToken : Token}
    (hreentry : permit.reentry) (owned : PairingsOwned db) (hbase : base ≤ db.issued)
    (hnew : Drawn server base db.issued input.deviceId) :
    Changes server permit base db
      (storeAfter (pairOwnerDevice server input initialRefreshToken accessToken clock sessionNow)
        db) := by
  apply Ends.storeAfter
  unfold pairOwnerDevice
  refine .check (fun token _ => ?_) fun _ => .refl
  refine .check (fun now _ => ?_) fun _ => .refl
  refine ends_transaction (fun result db' h => ?_) fun _ => .refl
  rw [get_bind] at h
  obtain ⟨pairing, hfind, h⟩ := check_bind_eq_ok.mp h
  obtain ⟨_, -, h⟩ := check_bind_eq_ok.mp h
  obtain ⟨_, added, hadd, h⟩ := bind_eq_ok.mp h
  obtain ⟨session, last, hsession, h⟩ := bind_eq_ok.mp h
  obtain ⟨refresh, snow, family, access, opened, -, -, hopen, haccess⟩ :=
    createInitialSession_eq_ok hsession
  obtain ⟨hchanges, hsettled, row, hrow, hid, hbound, hexpires⟩ :=
    paired_changes hreentry hbase hnew
      (owned pairing (findPairing_eq_ok hfind)) hadd hopen
  have hissued : Change server permit base opened last :=
    issueAccess_change ⟨row, hrow, hid, hbound, hexpires⟩ haccess
  obtain ⟨-, -, -, rfl⟩ := issueAccess_eq_ok haccess
  cases h
  exact (hchanges.tail hissued).tail (consumePairing_change hsettled)

end Havemind.AccountChanges
