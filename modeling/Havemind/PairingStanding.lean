import Havemind.AuthRuns

/-!
What a consumed pairing stands for: the device it paired, with no rejoin secret
and past its approval, and the one session family of that device, whose first
token keeps its hash. No other service of the server touches any of it: a device
gets a second family by an approval, which needs it pending, or by a grant,
which needs its secret, and the pairing's row keeps its user from being deleted.
-/
namespace Havemind.PairingStanding

open RevisionSchema KeyedTable AuthTables AuthChanges AuthSoundness List SessionRepository
  AccountChanges AuthRuns
open ServerDatabase (DeviceStatus)

/-- The pairings under distinct keys, each of a membership of its user; every
family has its device and every token its family. -/
structure PairingRows (db : AuthDatabase) : Prop where
  ids : Keyed OwnerPairingRow.id db.ownerPairings
  hashes : Keyed OwnerPairingRow.tokenHash db.ownerPairings
  memberships : Keyed MembershipRow.id db.memberships
  member : ∀ pairing ∈ db.ownerPairings, ∃ membership ∈ db.memberships,
    membership.id = pairing.membershipId ∧ membership.userId = pairing.userId
  family_device : ∀ family ∈ db.families, ∃ device ∈ db.devices, device.id = family.deviceId
  token_family : ∀ token ∈ db.refreshTokens, ∃ family ∈ db.families, family.id = token.familyId

/-- What the consumed pairing opened is there, and nothing beside it. -/
structure Paired (pairing : OwnerPairingRow) (deviceId familyId : Id) (refreshHash : TokenHash)
    (db : AuthDatabase) : Prop where
  mem : pairing ∈ db.ownerPairings
  consumed : pairing.consumedAt ≠ none
  by_device : pairing.consumedByDeviceId = some deviceId
  device_mem : ∃ device ∈ db.devices, device.id = deviceId
  device : ∀ device ∈ db.devices, device.id = deviceId → device.userId = pairing.userId ∧
    device.status ≠ .pending ∧ device.rejoinSecretHash = none
  family_mem : ∃ family ∈ db.families, family.id = familyId
  family_iff : ∀ family ∈ db.families, family.id = familyId ↔ family.deviceId = deviceId
  family_user : ∀ family ∈ db.families, family.id = familyId → family.userId = pairing.userId
  first_token : ∀ token ∈ db.refreshTokens, token.familyId = familyId → token.generation = 0 →
    token.tokenHash = refreshHash

/-- No pairing is consumed, and none that is loses what it stands for. -/
structure PairingsKept (db db' : AuthDatabase) : Prop where
  rows : PairingRows db → PairingRows db'
  paired : PairingRows db → ∀ {pairing deviceId familyId refreshHash},
    Paired pairing deviceId familyId refreshHash db →
      Paired pairing deviceId familyId refreshHash db'
  consumed : ∀ pairing ∈ db'.ownerPairings, pairing.consumedAt ≠ none →
    pairing ∈ db.ownerPairings

variable {db mid db' : AuthDatabase}

theorem PairingsKept.refl : PairingsKept db db :=
  ⟨id, fun _ _ _ _ _ h => h, fun _ hmem _ => hmem⟩

theorem PairingsKept.trans (h : PairingsKept db mid) (h' : PairingsKept mid db') :
    PairingsKept db db' where
  rows := fun hrows => h'.rows (h.rows hrows)
  paired := fun hrows _ _ _ _ hpaired => h'.paired (h.rows hrows) (h.paired hrows hpaired)
  consumed := fun pairing hmem hconsumed =>
    h.consumed pairing (h'.consumed pairing hmem hconsumed) hconsumed

section

/-- A table whose rows keep `key` and `view`; a further row has a key of its own
and meets `fresh`. -/
structure Moved {α β γ : Type} (key : α → β) (view : α → γ) (fresh : α → Prop)
    (rows rows' : List α) : Prop where
  kept : ∀ row ∈ rows, ∃ row' ∈ rows', key row' = key row ∧ view row' = view row
  back : ∀ row' ∈ rows', (∃ row ∈ rows, key row = key row' ∧ view row = view row') ∨
    (∀ row ∈ rows, key row ≠ key row') ∧ fresh row'

variable {α β γ : Type} {key : α → β} {view : α → γ} {fresh : α → Prop} {rows : List α}

theorem Moved.refl : Moved key view fresh rows rows :=
  ⟨fun row hrow => ⟨row, hrow, rfl, rfl⟩, fun row hrow => .inl ⟨row, hrow, rfl, rfl⟩⟩

theorem Moved.concat {row : α} (hfree : ∀ stored ∈ rows, key stored ≠ key row) (hrow : fresh row) :
    Moved key view fresh rows (rows ++ [row]) := by
  refine ⟨fun stored hstored => ⟨stored, mem_append_left _ hstored, rfl, rfl⟩, ?_⟩
  exact forall_concat (fun stored hstored => .inl ⟨stored, hstored, rfl, rfl⟩) (.inr ⟨hfree, hrow⟩)

theorem Moved.updateWhere {hit : α → Bool} {update : α → α} (hkey : ∀ row, key (update row) = key row)
    (hview : ∀ row, view (update row) = view row) :
    Moved key view fresh rows (updateWhere hit update rows) := by
  constructor
  · intro row hrow
    obtain ⟨stored, hstored, rfl | rfl⟩ := @mem_updateWhere_of α rows row hit update hrow
    · exact ⟨_, hstored, rfl, rfl⟩
    · exact ⟨_, hstored, hkey row, hview row⟩
  · intro row hrow
    obtain ⟨stored, hstored, rfl | ⟨-, rfl⟩⟩ := of_mem_updateWhere hrow
    · exact .inl ⟨_, hstored, rfl, rfl⟩
    · exact .inl ⟨stored, hstored, (hkey stored).symm, (hview stored).symm⟩

end

/-- What the four tables may do without touching a pairing. -/
structure TablesMoved (db db' : AuthDatabase) : Prop where
  membership_keys : Keyed MembershipRow.id db.memberships → Keyed MembershipRow.id db'.memberships
  memberships : Moved MembershipRow.id MembershipRow.userId (fun _ => True) db.memberships
    db'.memberships
  devices_kept : ∀ device ∈ db.devices, ∃ device' ∈ db'.devices, device'.id = device.id
  devices_back : ∀ device' ∈ db'.devices, (∃ device ∈ db.devices, device.id = device'.id ∧
      device.userId = device'.userId ∧ device.rejoinSecretHash = device'.rejoinSecretHash ∧
      (device'.status = .pending → device.status = .pending)) ∨
    ∀ device ∈ db.devices, device.id ≠ device'.id
  families : Moved FamilyRow.id (fun family => (family.deviceId, family.userId))
    (fun _ => False) db.families db'.families
  tokens : ∀ token' ∈ db'.refreshTokens, token'.generation = 0 →
    (∃ token ∈ db.refreshTokens, token.familyId = token'.familyId ∧ token.generation = 0 ∧
      token.tokenHash = token'.tokenHash) ∨
    ∀ family ∈ db.families, family.id ≠ token'.familyId
  token_families : (∀ token ∈ db.refreshTokens, ∃ family ∈ db.families, family.id = token.familyId) →
    ∀ token ∈ db'.refreshTokens, ∃ family ∈ db'.families, family.id = token.familyId

section
variable {pairing : OwnerPairingRow} {deviceId familyId : Id} {refreshHash : TokenHash}
  {family : FamilyRow} {token : RefreshTokenRow} {issued : ℕ}

theorem devices_refl : (∀ device ∈ db.devices, ∃ device' ∈ db.devices, device'.id = device.id) ∧
    ∀ device' ∈ db.devices, (∃ device ∈ db.devices, device.id = device'.id ∧
        device.userId = device'.userId ∧ device.rejoinSecretHash = device'.rejoinSecretHash ∧
        (device'.status = .pending → device.status = .pending)) ∨
      ∀ device ∈ db.devices, device.id ≠ device'.id :=
  ⟨fun device hdevice => ⟨device, hdevice, rfl⟩,
    fun device hdevice => .inl ⟨device, hdevice, rfl, rfl, rfl, id⟩⟩

theorem TablesMoved.refl : TablesMoved db db where
  membership_keys := id
  memberships := .refl
  devices_kept := devices_refl.1
  devices_back := devices_refl.2
  families := .refl
  tokens := fun token htoken hzero => .inl ⟨token, htoken, rfl, hzero, rfl⟩
  token_families := id

theorem Paired.moved (h : Paired pairing deviceId familyId refreshHash db)
    (moved : TablesMoved db db') (hmem : pairing ∈ db'.ownerPairings) :
    Paired pairing deviceId familyId refreshHash db' where
  mem := hmem
  consumed := h.consumed
  by_device := h.by_device
  device_mem := by
    obtain ⟨device, hdevice, hid⟩ := h.device_mem
    obtain ⟨device', hdevice', hid'⟩ := moved.devices_kept device hdevice
    exact ⟨device', hdevice', hid'.trans hid⟩
  device := by
    intro device' hdevice' hid
    rcases moved.devices_back device' hdevice' with
      ⟨device, hdevice, hsame, huser, hsecret, hpending⟩ | hfresh
    · obtain ⟨howner, hsettled, hnone⟩ := h.device device hdevice (hsame.trans hid)
      exact ⟨huser ▸ howner, fun hbad => hsettled (hpending hbad), hsecret ▸ hnone⟩
    · obtain ⟨device, hdevice, hid'⟩ := h.device_mem
      exact absurd (hid'.trans hid.symm) (hfresh device hdevice)
  family_mem := by
    obtain ⟨family, hfamily, hid⟩ := h.family_mem
    obtain ⟨family', hfamily', hid', -⟩ := moved.families.kept family hfamily
    exact ⟨family', hfamily', hid'.trans hid⟩
  family_iff := by
    intro family' hfamily'
    obtain ⟨family, hfamily, hid, hview⟩ := (moved.families.back family' hfamily').resolve_right And.right
    have hdevice : family.deviceId = family'.deviceId := congrArg Prod.fst hview
    rw [← hid, ← hdevice]
    exact h.family_iff family hfamily
  family_user := by
    intro family' hfamily' hid
    obtain ⟨family, hfamily, hsame, hview⟩ := (moved.families.back family' hfamily').resolve_right And.right
    have huser : family.userId = family'.userId := congrArg Prod.snd hview
    rw [← huser]
    exact h.family_user family hfamily (hsame.trans hid)
  first_token := by
    intro token' htoken' hfamily hzero
    rcases moved.tokens token' htoken' hzero with ⟨token, htoken, hsame, hfirst, hhash⟩ | hfresh
    · rw [← hhash]
      exact h.first_token token htoken (hsame.trans hfamily) hfirst
    · obtain ⟨family, hfamilyMem, hid⟩ := h.family_mem
      exact absurd (hid.trans hfamily.symm) (hfresh family hfamilyMem)

/-- Another device's first session. -/
theorem Paired.opened (h : Paired pairing deviceId familyId refreshHash db)
    (hfree : ∀ stored ∈ db.families, stored.id ≠ family.id) (htoken : token.familyId = family.id)
    (hother : family.deviceId ≠ deviceId) :
    Paired pairing deviceId familyId refreshHash (afterOpening db family token issued) := by
  have hne : family.id ≠ familyId := by
    obtain ⟨stored, hstored, hid⟩ := h.family_mem
    exact fun heq => hfree stored hstored (hid.trans heq.symm)
  exact
    { h with
      family_mem := exists_concat h.family_mem
      family_iff := forall_concat h.family_iff ⟨fun hid => absurd hid hne, fun hid => absurd hid hother⟩
      family_user := forall_concat h.family_user fun hid => absurd hid hne
      first_token := forall_concat h.first_token fun hid => absurd (htoken.symm.trans hid) hne }

theorem PairingRows.opened (h : PairingRows db) (htoken : token.familyId = family.id)
    (hdevice : ∃ device ∈ db.devices, device.id = family.deviceId) :
    PairingRows (afterOpening db family token issued) :=
  { h with
    family_device := forall_concat h.family_device hdevice
    token_family := by
      refine forall_concat (fun stored hstored => exists_concat (h.token_family stored hstored)) ?_
      exact ⟨family, mem_append_right _ (mem_singleton_self _), htoken.symm⟩ }

theorem PairingRows.moved (h : PairingRows db) (moved : TablesMoved db db')
    (hpairings : db'.ownerPairings = db.ownerPairings) : PairingRows db' where
  ids := hpairings ▸ h.ids
  hashes := hpairings ▸ h.hashes
  memberships := moved.membership_keys h.memberships
  member := by
    intro pairing hpairing
    obtain ⟨membership, hmem, hid, huser⟩ := h.member pairing (hpairings ▸ hpairing)
    obtain ⟨membership', hmem', hid', huser'⟩ := moved.memberships.kept membership hmem
    exact ⟨membership', hmem', hid'.trans hid, huser'.trans huser⟩
  family_device := by
    intro family' hfamily'
    obtain ⟨family, hfamily, -, hview⟩ := (moved.families.back family' hfamily').resolve_right And.right
    obtain ⟨device, hdevice, hid⟩ := h.family_device family hfamily
    obtain ⟨device', hdevice', hid'⟩ := moved.devices_kept device hdevice
    have hsame : family.deviceId = family'.deviceId := congrArg Prod.fst hview
    exact ⟨device', hdevice', (hid'.trans hid).trans hsame⟩
  token_family := moved.token_families h.token_family

theorem TablesMoved.kept (moved : TablesMoved db db')
    (hpairings : db'.ownerPairings = db.ownerPairings) : PairingsKept db db' where
  rows := fun h => h.moved moved hpairings
  paired := fun _ _ _ _ _ h => h.moved moved (hpairings ▸ h.mem)
  consumed := fun _ hmem _ => hpairings ▸ hmem

/-- A write to none of the five tables. -/
theorem kept_of_tables (hpairings : db'.ownerPairings = db.ownerPairings)
    (hmemberships : db'.memberships = db.memberships) (hdevices : db'.devices = db.devices)
    (hfamilies : db'.families = db.families) (htokens : db'.refreshTokens = db.refreshTokens) :
    PairingsKept db db' := by
  have moved : TablesMoved db db' := by
    constructor
    · rw [hmemberships]
      exact id
    · rw [hmemberships]
      exact .refl
    · rw [hdevices]
      exact devices_refl.1
    · rw [hdevices]
      exact devices_refl.2
    · rw [hfamilies]
      exact .refl
    · rw [htokens]
      exact TablesMoved.refl.tokens
    · rw [htokens, hfamilies]
      exact id
  exact moved.kept hpairings

end

variable {now : Timestamp} {issued : ℕ} {deviceId : Id} {family : FamilyRow}
  {token : RefreshTokenRow}

theorem devices_updated (db : AuthDatabase) (hit : DeviceRow → Bool)
    (update : DeviceRow → DeviceRow) (hid : ∀ row, (update row).id = row.id)
    (huser : ∀ row, (update row).userId = row.userId)
    (hsecret : ∀ row, (update row).rejoinSecretHash = row.rejoinSecretHash)
    (hpending : ∀ row, (update row).status = .pending → row.status = .pending) :
    TablesMoved db { db with devices := updateWhere hit update db.devices } where
  membership_keys := id
  memberships := .refl
  devices_kept := by
    intro device hdevice
    obtain ⟨stored, hstored, rfl | rfl⟩ := @mem_updateWhere_of _ db.devices device hit update hdevice
    · exact ⟨_, hstored, rfl⟩
    · exact ⟨_, hstored, hid device⟩
  devices_back := by
    intro device hdevice
    obtain ⟨stored, hstored, rfl | ⟨-, rfl⟩⟩ := of_mem_updateWhere hdevice
    · exact .inl ⟨_, hstored, rfl, rfl, rfl, fun h => h⟩
    · exact .inl ⟨stored, hstored, (hid stored).symm, (huser stored).symm, (hsecret stored).symm,
        hpending stored⟩
  families := .refl
  tokens := TablesMoved.refl.tokens
  token_families := id

theorem deviceAdded_moved {row : DeviceRow} (hfree : ∀ stored ∈ db.devices, stored.id ≠ row.id) :
    TablesMoved db { db with devices := db.devices ++ [row] } where
  membership_keys := id
  memberships := .refl
  devices_kept := fun device hdevice => ⟨device, mem_append_left _ hdevice, rfl⟩
  devices_back := by
    refine forall_concat (fun device hdevice => ?_) (.inr hfree)
    exact .inl ⟨device, hdevice, rfl, rfl, rfl, id⟩
  families := .refl
  tokens := TablesMoved.refl.tokens
  token_families := id

theorem membershipAdded_moved (db : AuthDatabase) {row : MembershipRow}
    (hfree : ∀ stored ∈ db.memberships, stored.id ≠ row.id) :
    TablesMoved db { db with memberships := db.memberships ++ [row] } where
  membership_keys := fun h => h.concat hfree
  memberships := .concat hfree trivial
  devices_kept := devices_refl.1
  devices_back := devices_refl.2
  families := .refl
  tokens := TablesMoved.refl.tokens
  token_families := id

theorem membershipRevoked_kept {membershipId : Id} :
    PairingsKept db (afterMembershipRevocation db membershipId now) := by
  have moved : TablesMoved db (afterMembershipRevocation db membershipId now) :=
    { TablesMoved.refl with
      membership_keys := fun h => h.updateWhere fun _ => rfl
      memberships := .updateWhere (fun _ => rfl) fun _ => rfl }
  exact moved.kept rfl

theorem families_updated (db : AuthDatabase) (hit : FamilyRow → Bool)
    (update : FamilyRow → FamilyRow) (hid : ∀ row, (update row).id = row.id)
    (hview : ∀ row, ((update row).deviceId, (update row).userId) = (row.deviceId, row.userId)) :
    PairingsKept db { db with families := updateWhere hit update db.families } := by
  have moved : TablesMoved db { db with families := updateWhere hit update db.families } :=
    { TablesMoved.refl with
      families := .updateWhere hid hview
      token_families := fun h token htoken =>
        exists_updateWhere (h token htoken) fun row hrow => (hid row).trans hrow }
  exact moved.kept rfl

theorem deviceRevocation_kept : PairingsKept db (afterDeviceRevocation db deviceId now) := by
  refine ((devices_updated db (fun row => row.id = deviceId)
    (fun row => { row with status := .revoked, revokedAt := row.revokedAt <|> some now })
    (fun _ => rfl) (fun _ => rfl) (fun _ => rfl) fun _ hbad => by cases hbad).kept rfl).trans ?_
  refine (families_updated _ (fun row => row.deviceId = deviceId)
    (fun row => { row with status := .revoked, revokedAt := row.revokedAt <|> some now })
    (fun _ => rfl) fun _ => rfl).trans ?_
  exact kept_of_tables rfl rfl rfl rfl rfl

theorem reuse_kept {familyId : Id} : PairingsKept db (afterReuse db familyId now) := by
  refine (families_updated db (fun row => row.id = familyId)
    (fun row => { row with status := .reuseDetected, revokedAt := row.revokedAt <|> some now })
    (fun _ => rfl) fun _ => rfl).trans ?_
  exact kept_of_tables rfl rfl rfl rfl rfl

theorem admission_kept {membership : MembershipRow}
    (hfree : ∀ stored ∈ db.memberships, stored.id ≠ membership.id) :
    PairingsKept db (afterAdmission db deviceId membership now issued) := by
  refine ((devices_updated db (fun row => row.id = deviceId ∧ row.status = .pending)
    (fun row => { row with status := .approved, approvedAt := some now })
    (fun _ => rfl) (fun _ => rfl) (fun _ => rfl) fun _ hbad => by cases hbad).kept rfl).trans ?_
  refine ((membershipAdded_moved _ (by exact hfree)).kept rfl).trans ?_
  exact kept_of_tables rfl rfl rfl rfl rfl

/-- A session opened for a device that was nobody's paired device. -/
theorem PairingsKept.opened (kept : PairingsKept db mid)
    (hfree : ∀ stored ∈ mid.families, stored.id ≠ family.id) (htoken : token.familyId = family.id)
    (hdevice : ∃ device ∈ mid.devices, device.id = family.deviceId)
    (hother : ∀ pairing deviceId familyId refreshHash,
      Paired pairing deviceId familyId refreshHash db → family.deviceId ≠ deviceId) :
    PairingsKept db (afterOpening mid family token issued) where
  rows := fun hrows => (kept.rows hrows).opened htoken hdevice
  paired := fun hrows pairing deviceId familyId refreshHash h =>
    (kept.paired hrows h).opened hfree htoken (hother pairing deviceId familyId refreshHash h)
  consumed := kept.consumed

theorem rotation_kept {successor : RefreshTokenRow} {rotationId : Token}
    (hsuccessor : successor.generation ≠ 0)
    (hfamily : ∃ stored ∈ db.families, stored.id = successor.familyId) :
    PairingsKept db (afterRotation db token family successor rotationId now issued) := by
  have moved : TablesMoved db (afterRotation db token family successor rotationId now issued) :=
    { TablesMoved.refl with
      families := .updateWhere (fun _ => rfl) fun _ => rfl
      tokens := by
        intro stored hstored hzero
        rcases mem_append.mp hstored with hold | hnew
        · obtain ⟨before, hbefore, rfl | ⟨-, rfl⟩⟩ := of_mem_updateWhere hold
          · exact .inl ⟨_, hbefore, rfl, hzero, rfl⟩
          · exact .inl ⟨before, hbefore, rfl, hzero, rfl⟩
        · rw [mem_singleton.mp hnew] at hzero
          exact absurd hzero hsuccessor
      token_families := by
        intro h stored hstored
        refine exists_updateWhere ?_ fun _ hrow => hrow
        rcases mem_append.mp hstored with hold | hnew
        · obtain ⟨before, hbefore, rfl | ⟨-, rfl⟩⟩ := of_mem_updateWhere hold
          · exact h _ hbefore
          · exact h before hbefore
        · rw [mem_singleton.mp hnew]
          exact hfamily }
  exact moved.kept rfl

/-- A deletion of users is refused for the user of a consumed pairing, whose
device the pairing refers to. -/
theorem withoutUsers_kept {userIds : List Id}
    (hunreferenced : ∀ deviceId ∈ devicesOf db userIds, deviceReferenced db deviceId = false) :
    PairingsKept db (withoutUsers userIds db) where
  rows := by
    intro h
    refine ⟨h.ids.filter _, h.hashes.filter _, h.memberships.filter _, ?_, ?_, ?_⟩
    · intro pairing hpairing
      obtain ⟨hmem, hkept⟩ := mem_filter.mp hpairing
      obtain ⟨-, hmembership⟩ := of_decide_eq_true hkept
      obtain ⟨membership, hmembershipMem, hid, huser⟩ := h.member pairing hmem
      refine ⟨membership, mem_memberships_withoutUsers.mpr ⟨hmembershipMem, fun hgone => ?_⟩, hid, huser⟩
      exact hmembership (mem_membershipsOf.mpr ⟨membership, hmembershipMem, hgone, hid⟩)
    · intro family hfamily
      obtain ⟨hmem, -, hof⟩ := mem_families_withoutUsers.mp hfamily
      obtain ⟨device, hdevice, hid⟩ := h.family_device family hmem
      refine ⟨device, mem_devices_withoutUsers.mpr ⟨hdevice, fun hgone => ?_⟩, hid⟩
      exact hof (mem_devicesOf.mpr ⟨device, hdevice, hgone, hid⟩)
    · intro token htoken
      obtain ⟨hmem, hkept⟩ := mem_filter.mp htoken
      obtain ⟨family, hfamily, hid⟩ := h.token_family token hmem
      have hof : token.familyId ∉ familiesOf db userIds := of_decide_eq_true hkept
      have hstays : ¬ (family.userId ∈ userIds ∨ family.deviceId ∈ devicesOf db userIds) := by
        intro hgone
        apply hof
        rw [← hid]
        exact mem_map_of_mem (mem_filter.mpr ⟨hfamily, decide_eq_true hgone⟩)
      exact ⟨family, mem_families_withoutUsers.mpr ⟨hfamily, not_or.mp hstays⟩, hid⟩
  paired := by
    intro hrows pairing deviceId familyId refreshHash h
    obtain ⟨device, hdevice, hid⟩ := h.device_mem
    have howner : device.userId = pairing.userId := (h.device device hdevice hid).1
    have hstays : pairing.userId ∉ userIds := by
      intro hgone
      have hof : deviceId ∈ devicesOf db userIds :=
        mem_devicesOf.mpr ⟨device, hdevice, howner ▸ hgone, hid⟩
      have hreferenced : deviceReferenced db deviceId = true :=
        deviceReferenced_iff.mpr (.inl ⟨pairing, h.mem, h.by_device⟩)
      rw [hunreferenced deviceId hof] at hreferenced
      cases hreferenced
    have hdeviceStays : deviceId ∉ devicesOf db userIds := by
      intro hof
      obtain ⟨other, hother, hgone, hotherId⟩ := mem_devicesOf.mp hof
      exact hstays ((h.device other hother hotherId).1 ▸ hgone)
    have hmembership : pairing.membershipId ∉ membershipsOf db userIds := by
      intro hof
      obtain ⟨other, hother, hgone, hotherId⟩ := mem_membershipsOf.mp hof
      obtain ⟨membership, hmem, hmembershipId, huser⟩ := hrows.member pairing h.mem
      obtain rfl : other = membership :=
        hrows.memberships.eq hother hmem (hotherId.trans hmembershipId.symm)
      exact hstays (huser ▸ hgone)
    obtain ⟨family, hfamily, hfamilyId⟩ := h.family_mem
    have hfamilyDevice : family.deviceId = deviceId := (h.family_iff family hfamily).mp hfamilyId
    exact
      { mem := mem_filter.mpr ⟨h.mem, decide_eq_true ⟨hstays, hmembership⟩⟩
        consumed := h.consumed
        by_device := h.by_device
        device_mem := ⟨device, mem_devices_withoutUsers.mpr ⟨hdevice, howner ▸ hstays⟩, hid⟩
        device := fun other hother => h.device other (mem_devices_withoutUsers.mp hother).1
        family_mem := by
          refine ⟨family, mem_families_withoutUsers.mpr ⟨hfamily, ?_, ?_⟩, hfamilyId⟩
          · exact h.family_user family hfamily hfamilyId ▸ hstays
          · exact hfamilyDevice ▸ hdeviceStays
        family_iff := fun other hother => h.family_iff other (mem_families_withoutUsers.mp hother).1
        family_user := fun other hother => h.family_user other (mem_families_withoutUsers.mp hother).1
        first_token := fun token htoken => h.first_token token (mem_filter.mp htoken).1 }
  consumed := fun pairing hmem _ => (mem_filter.mp hmem).1

end Havemind.PairingStanding
