import Havemind.PairingServices

/-!
Owner pairing over whole histories of the server: both entry points with any
input, between any other calls. A token pairs one device with one session
family. Every later call with it changes nothing; the one that repeats the first
refresh token is answered with the same session while that session is active.
-/
namespace Havemind.OwnerPairing

open RevisionSchema Transaction Endings KeyedTable AuthTables AuthChanges List SessionRepository
  SessionChanges OwnerSetup AccountChanges AuthRuns PairingStanding PairingServices

variable {server : AuthServer} {db mid db' : AuthDatabase}

section
variable {names : OwnerNames} {pairingToken : Token} {localContext : Bool}
  {clock : Option Timestamp}

/-- A pairing token issued, in place of none that was consumed. -/
theorem pairingIssued_kept {rows : List OwnerPairingRow} {pairing : OwnerPairingRow}
    (moved : TablesMoved db db') (hpairings : db'.ownerPairings = rows ++ [pairing])
    (hsub : rows.Sublist db.ownerPairings)
    (hkept : ∀ stored ∈ db.ownerPairings, stored.consumedAt ≠ none → stored ∈ rows)
    (hfree : ∀ stored ∈ rows, stored.id ≠ pairing.id ∧ stored.tokenHash ≠ pairing.tokenHash)
    (hfresh : pairing.consumedAt = none)
    (howner : ∃ membership ∈ db'.memberships,
      membership.id = pairing.membershipId ∧ membership.userId = pairing.userId) :
    PairingsKept db db' where
  rows := by
    intro h
    have hbase : PairingRows { db' with ownerPairings := db.ownerPairings } :=
      h.moved { moved with } rfl
    have hids : Keyed OwnerPairingRow.id rows := h.ids.sublist (hsub.map _)
    have hhashes : Keyed OwnerPairingRow.tokenHash rows := h.hashes.sublist (hsub.map _)
    refine ⟨?_, ?_, hbase.memberships, ?_, hbase.family_device, hbase.token_family⟩
    · rw [hpairings]
      exact hids.concat fun stored hstored => (hfree stored hstored).1
    · rw [hpairings]
      exact hhashes.concat fun stored hstored => (hfree stored hstored).2
    · rw [hpairings]
      exact forall_concat (fun stored hstored => hbase.member stored (hsub.subset hstored)) howner
  paired := by
    intro _ pairing' deviceId familyId refreshHash h
    apply h.moved moved
    rw [hpairings]
    exact mem_append_left _ (hkept pairing' h.mem h.consumed)
  consumed := by
    rw [hpairings]
    refine forall_concat (fun stored hstored _ => hsub.subset hstored) fun hconsumed => ?_
    exact absurd hfresh hconsumed

theorem insertOwner_kept {isInstanceOwner : Bool} {now pairingExpiresAt : Timestamp}
    {result : CreateVaultResult}
    (h : insertOwner server names isInstanceOwner pairingToken now pairingExpiresAt db =
      .ok result db') : PairingsKept db db' := by
  unfold insertOwner at h
  rw [newUuid_bind, newUuid_bind, newUuid_bind, newUuid_bind] at h
  obtain ⟨-, h⟩ := guardedWrite_bind_eq_ok.mp h
  obtain ⟨-, h⟩ := guardedWrite_bind_eq_ok.mp h
  obtain ⟨hmembership, h⟩ := guardedWrite_bind_eq_ok.mp h
  obtain ⟨hpairing, h⟩ := guardedWrite_bind_eq_ok.mp h
  cases h
  have hfree : ∀ stored ∈ db.memberships, stored.id ≠ server.randomUuid (db.issued + 2) :=
    fun stored hstored => (hmembership.1 stored hstored).1
  refine pairingIssued_kept { membershipAdded_moved db hfree with } rfl (.refl _) (fun _ h _ => h)
    hpairing.1 rfl ⟨_, mem_append_right _ (mem_singleton_self _), rfl, rfl⟩

theorem initializeOwner_kept : PairingsKept db
      (storeAfter (initializeOwner server localContext names pairingToken clock) db) := by
  apply Ends.storeAfter
  unfold initializeOwner
  refine .check (fun _ _ => ?_) fun _ => .refl
  refine .check (fun _ _ => ?_) fun _ => .refl
  refine .check (fun now _ => ?_) fun _ => .refl
  refine .check (fun pairingExpiresAt _ => ?_) fun _ => .refl
  refine ends_transaction (fun result db' h => ?_) fun _ => .refl
  rw [get_bind] at h
  obtain ⟨_, -, h⟩ := check_bind_eq_ok.mp h
  rw [newUuid_bind, newUuid_bind, modify_bind] at h
  have hbefore : PairingsKept db { db with instanceInitialized := true, issued := db.issued + 2 } :=
    kept_of_tables rfl rfl rfl rfl rfl
  exact hbefore.trans (insertOwner_kept h)

theorem createVault_kept :
    PairingsKept db (storeAfter (createVault server names pairingToken clock) db) := by
  apply Ends.storeAfter
  unfold createVault
  refine .check (fun _ _ => ?_) fun _ => .refl
  refine .check (fun now _ => ?_) fun _ => .refl
  refine .check (fun pairingExpiresAt _ => ?_) fun _ => .refl
  refine ends_transaction (fun result db' h => ?_) fun _ => .refl
  rw [get_bind] at h
  obtain ⟨_, -, h⟩ := check_bind_eq_ok.mp h
  exact insertOwner_kept h

/-- A new token replaces the owner's unused ones only. -/
theorem rotatePairing_kept {resolveOwner : AuthDatabase → Option MembershipRow}
    (hresolve : ∀ owner, resolveOwner db = some owner → owner ∈ db.memberships) :
    PairingsKept db (storeAfter (rotatePairing server resolveOwner pairingToken clock) db) := by
  apply Ends.storeAfter
  unfold rotatePairing
  refine .check (fun now _ => ?_) fun _ => .refl
  refine .check (fun pairingExpiresAt _ => ?_) fun _ => .refl
  refine ends_transaction (fun result db' h => ?_) fun _ => .refl
  rw [get_bind] at h
  cases howner : resolveOwner db with
  | none =>
    rw [howner] at h
    cases h
  | some owner =>
    rw [howner] at h
    unfold deleteUnconsumedPairings at h
    dsimp only at h
    rw [modify_bind, newUuid_bind] at h
    obtain ⟨hpairing, h⟩ := guardedWrite_bind_eq_ok.mp h
    cases h
    refine pairingIssued_kept { TablesMoved.refl with } rfl filter_sublist ?_ hpairing.1 rfl
      ⟨owner, hresolve owner howner, rfl, rfl⟩
    intro stored hstored hconsumed
    exact mem_filter.mpr ⟨hstored, decide_eq_true fun hunused => hconsumed hunused.2.2⟩

theorem rotateOwnerPairing_kept : PairingsKept db
      (storeAfter (rotateOwnerPairing server localContext pairingToken clock) db) := by
  apply Ends.storeAfter
  refine .check (fun _ _ => ?_) fun _ => .refl
  exact Ends.everywhere (rotatePairing_kept fun _ => resolveOwnerRow_mem)

theorem rotateVaultOwnerPairing_kept {vaultId : Id} : PairingsKept db
      (storeAfter (rotateVaultOwnerPairing server localContext vaultId pairingToken clock) db) := by
  apply Ends.storeAfter
  refine .check (fun _ _ => ?_) fun _ => .refl
  exact Ends.everywhere (rotatePairing_kept fun _ => resolveOwnerRow_mem)

end

section
variable {pairing : OwnerPairingRow} {deviceId familyId : Id} {refreshHash : TokenHash}
  {now snow : Timestamp}

def consumedPairing (pairing : OwnerPairingRow) (deviceId : Id) (now : Timestamp) : OwnerPairingRow :=
  { pairing with consumedAt := some now, consumedByDeviceId := some deviceId }

/-- A token used for the first time: its pairing stands for the new device and
session, and every other one for what it did. -/
structure NewlyPaired (pairing : OwnerPairingRow) (deviceId familyId : Id) (refreshHash : TokenHash)
    (now : Timestamp) (db db' : AuthDatabase) : Prop where
  rows : PairingRows db'
  opened : Paired (consumedPairing pairing deviceId now) deviceId familyId refreshHash db'
  others : ∀ {other otherDevice otherFamily otherHash}, Paired other otherDevice otherFamily otherHash db →
    Paired other otherDevice otherFamily otherHash db'
  consumed : ∀ stored ∈ db'.ownerPairings, stored.consumedAt ≠ none →
    stored ∈ db.ownerPairings ∨ stored = consumedPairing pairing deviceId now

/-- The pairing's row is updated and the device's session already there. -/
theorem afterPairing_newlyPaired (h : PairingRows db) (hmem : pairing ∈ db.ownerPairings)
    (hunused : pairing.consumedAt = none) (kept : PairingsKept db mid)
    (hpairings : mid.ownerPairings = db.ownerPairings)
    (hdevice : ∃ device ∈ mid.devices, device.id = deviceId)
    (hdevices : ∀ device ∈ mid.devices, device.id = deviceId → device.userId = pairing.userId ∧
      device.status ≠ .pending ∧ device.rejoinSecretHash = none)
    (hfamily : ∃ family ∈ mid.families, family.id = familyId)
    (hfamilies : ∀ family ∈ mid.families, (family.id = familyId ↔ family.deviceId = deviceId) ∧
      (family.id = familyId → family.userId = pairing.userId))
    (htokens : ∀ token ∈ mid.refreshTokens, token.familyId = familyId → token.generation = 0 →
      token.tokenHash = refreshHash) :
    NewlyPaired pairing deviceId familyId refreshHash now db (afterPairing mid pairing.id deviceId now) := by
  have hrows := kept.rows h
  have hsame : ∀ stored ∈ mid.ownerPairings, stored.id = pairing.id → stored = pairing :=
    fun stored hstored hid => hrows.ids.eq hstored (hpairings ▸ hmem) hid
  refine ⟨?_, ?_, ?_, ?_⟩
  · refine ⟨hrows.ids.updateWhere fun _ => rfl, hrows.hashes.updateWhere fun _ => rfl,
      hrows.memberships, forall_updateWhere hrows.member fun _ hrow => hrow, hrows.family_device,
      hrows.token_family⟩
  · exact
      { mem := mem_updateWhere.mpr (.inr ⟨pairing, hpairings ▸ hmem, decide_eq_true rfl, rfl⟩)
        consumed := by simp [consumedPairing]
        by_device := rfl
        device_mem := hdevice
        device := hdevices
        family_mem := hfamily
        family_iff := fun family hmem => (hfamilies family hmem).1
        family_user := fun family hmem => (hfamilies family hmem).2
        first_token := htokens }
  · intro other otherDevice otherFamily otherHash hother
    have hafter := kept.paired h hother
    have hne : other.id ≠ pairing.id := by
      intro hid
      obtain rfl := hsame other hafter.mem hid
      exact hother.consumed hunused
    exact { hafter with mem := mem_updateWhere.mpr (.inl ⟨hafter.mem, decide_eq_false hne⟩) }
  · intro stored hstored hconsumed
    obtain ⟨before, hbefore, rfl | ⟨hhit, rfl⟩⟩ := of_mem_updateWhere hstored
    · exact .inl (hpairings ▸ hbefore)
    · obtain rfl := hsame before hbefore (of_decide_eq_true hhit)
      exact .inr rfl

/-- A device inserted for the pairing, with its first session. -/
theorem newlyPaired_of_steps {tokenHash : TokenHash} {refreshTtl : ℕ} {family : InitialFamilyResult}
    {added opened last : AuthDatabase} {access : List AccessTokenRow} {issued : ℕ} {u : Unit}
    (h : PairingRows db) (hfind : findPairing db tokenHash = .ok pairing)
    (hunused : pairing.consumedAt = none)
    (hadd : insertPairedDevice pairing deviceId now db = .ok u added)
    (hcreate : createFamily server pairing.userId deviceId refreshHash refreshTtl snow added =
      .ok family opened)
    (hlast : last = { opened with accessTokens := access, issued }) :
    NewlyPaired pairing deviceId family.familyId refreshHash now db
      (afterPairing last pairing.id deviceId now) := by
  unfold insertPairedDevice insertDevice at hadd
  obtain ⟨⟨hfree, -⟩, hadded⟩ := guardedWrite_eq_ok.mp hadd
  obtain ⟨-, -, hfamilyFree, hstored, -, hopened⟩ := createFamily_eq_ok hcreate
  set row := newFamily family.familyId pairing.userId deviceId family.refreshExpiresAt with hrow
  set token := newToken (server.randomUuid (added.issued + 1)) family.familyId 0 refreshHash snow
    family.refreshExpiresAt with htoken
  have hkeptAdded : PairingsKept db added := by
    rw [hadded]
    exact (deviceAdded_moved hfree).kept rfl
  have hkeptOpened : PairingsKept db opened := by
    rw [hopened]
    refine hkeptAdded.opened hfamilyFree rfl hstored fun other otherDevice _ _ hother => ?_
    rintro rfl
    obtain ⟨stored, hmem, hid⟩ := hother.device_mem
    exact hfree stored hmem hid
  have hfamilies : last.families = db.families ++ [row] := by
    rw [hlast, hopened, hadded]
  have htokens : last.refreshTokens = db.refreshTokens ++ [token] := by
    rw [hlast, hopened, hadded]
  have hdevices : last.devices = db.devices ++ [⟨deviceId, pairing.userId, .approved, some now, none,
      none, some pairing.vaultId⟩] := by
    rw [hlast, hopened, hadded]
  have hpairings : last.ownerPairings = db.ownerPairings := by
    rw [hlast, hopened, hadded]
  have hkept : PairingsKept db last := by
    rw [hlast]
    exact hkeptOpened.trans (kept_of_tables rfl rfl rfl rfl rfl)
  have hfamilyNew : ∀ stored ∈ db.families, stored.id ≠ family.familyId := by
    rw [hadded] at hfamilyFree
    exact hfamilyFree
  refine afterPairing_newlyPaired h (findPairing_eq_ok hfind) hunused hkept hpairings ?_ ?_ ?_ ?_ ?_
  · rw [hdevices]
    exact ⟨_, mem_append_right _ (mem_singleton_self _), rfl⟩
  · rw [hdevices]
    exact forall_concat (fun stored hmem hid => absurd hid (hfree stored hmem))
      fun _ => ⟨rfl, by simp, rfl⟩
  · rw [hfamilies]
    exact ⟨row, mem_append_right _ (mem_singleton_self _), rfl⟩
  · rw [hfamilies]
    refine forall_concat (fun stored hmem => ⟨⟨?_, ?_⟩, ?_⟩) ⟨⟨fun _ => rfl, fun _ => rfl⟩, fun _ => rfl⟩
    · exact fun hid => absurd hid (hfamilyNew stored hmem)
    · intro hid
      -- a family of the new device would have had a stored device
      obtain ⟨device, hdevice, hdeviceId⟩ := h.family_device stored hmem
      exact absurd (hdeviceId.trans hid) (hfree device hdevice)
    · exact fun hid => absurd hid (hfamilyNew stored hmem)
  · rw [htokens]
    refine forall_concat (fun stored hmem hid _ => ?_) fun _ _ => rfl
    obtain ⟨before, hbefore, hbeforeId⟩ := h.token_family stored hmem
    exact absurd (hbeforeId.trans hid) (hfamilyNew before hbefore)

end

section
variable {input : PairOwnerDeviceInput} {clock sessionNow : Option Timestamp}
  {initialRefreshToken : Option Token} {accessToken : Token} {refreshTokenHash : Option TokenHash}
  {result : PairOwnerDeviceFromHashResult} {e : AuthError}

theorem requirePairingInput_eq_ok {token : Token} (h : requirePairingInput input = .ok token) :
    input.pairingToken = some token := by
  unfold requirePairingInput at h
  obtain ⟨_, -, h⟩ := except_bind_eq_ok.mp h
  obtain ⟨_, -, h⟩ := except_bind_eq_ok.mp h
  split at h
  · cases h
  · rename_i found hfound
    cases h
    exact hfound

theorem pairOwnerDevice_eq_ok {result : PairOwnerDeviceResult}
    (h : pairOwnerDevice server input initialRefreshToken accessToken clock sessionNow db =
      .ok result db') :
    ∃ token pairing now refreshHash, input.pairingToken = some token ∧
      findPairing db (server.hashToken token) = .ok pairing ∧ clock = some now ∧
      pairing.consumedAt = none ∧ now < pairing.expiresAt ∧
      (PairingRows db →
        NewlyPaired pairing result.deviceId result.familyId refreshHash now db db') := by
  unfold pairOwnerDevice at h
  obtain ⟨token, htoken, h⟩ := check_bind_eq_ok.mp h
  obtain ⟨now, hnow, h⟩ := check_bind_eq_ok.mp h
  rw [transaction_eq_ok, get_bind] at h
  obtain ⟨pairing, hfind, h⟩ := check_bind_eq_ok.mp h
  obtain ⟨_, hlive, h⟩ := check_bind_eq_ok.mp h
  obtain ⟨hunused, hlater⟩ := require_eq_ok.mp hlive
  obtain ⟨_, added, hadd, h⟩ := bind_eq_ok.mp h
  obtain ⟨session, last, hsession, h⟩ := bind_eq_ok.mp h
  cases h
  unfold createInitialSessionInCurrentTransaction at hsession
  cases initialRefreshToken with
  | none => cases hsession
  | some refresh =>
    obtain ⟨_, -, hsession⟩ := check_bind_eq_ok.mp hsession
    obtain ⟨snow, -, hsession⟩ := check_bind_eq_ok.mp hsession
    obtain ⟨family, opened, hcreate, hsession⟩ := bind_eq_ok.mp hsession
    obtain ⟨access, issued, haccess, hsession⟩ := bind_eq_ok.mp hsession
    cases hsession
    obtain ⟨-, -, -, hlast⟩ := issueAccess_eq_ok haccess
    refine ⟨token, pairing, now, server.hashToken refresh, requirePairingInput_eq_ok htoken, hfind,
      readClock_eq_ok.mp hnow, hunused, hlater, fun hrows => ?_⟩
    exact newlyPaired_of_steps hrows hfind hunused hadd hcreate hlast

theorem pairFresh_eq_ok {pairing : OwnerPairingRow} {tokenHash : TokenHash} {deviceId : Id}
    {now : Timestamp} (hfind : findPairing db tokenHash = .ok pairing)
    (hunused : pairing.consumedAt = none)
    (h : pairFresh server pairing deviceId refreshTokenHash now sessionNow db = .ok result db') :
    ∃ refreshHash, refreshTokenHash = some refreshHash ∧ now < pairing.expiresAt ∧
      result.ownerUserId = pairing.userId ∧ result.vaultId = pairing.vaultId ∧
      (PairingRows db →
        NewlyPaired pairing result.deviceId result.familyId refreshHash now db db') := by
  unfold pairFresh at h
  obtain ⟨_, hlater, h⟩ := check_bind_eq_ok.mp h
  obtain ⟨_, added, hadd, h⟩ := bind_eq_ok.mp h
  obtain ⟨family, opened, hfamily, h⟩ := bind_eq_ok.mp h
  cases h
  obtain ⟨refreshHash, snow, hhash, -, hcreate⟩ := createInitialFamilyFromHash_eq_ok hfamily
  refine ⟨refreshHash, hhash, require_eq_ok.mp hlater, rfl, rfl, fun hrows => ?_⟩
  exact newlyPaired_of_steps hrows hfind hunused hadd hcreate rfl

theorem pairOwnerDeviceFromHash_eq_ok
    (h : pairOwnerDeviceFromHash server input refreshTokenHash clock sessionNow db = .ok result db') :
    ∃ token pairing now, input.pairingToken = some token ∧
      findPairing db (server.hashToken token) = .ok pairing ∧ clock = some now ∧
      result.ownerUserId = pairing.userId ∧ result.vaultId = pairing.vaultId ∧
      ((pairing.consumedAt ≠ none ∧ db' = db ∧ ∃ family,
          retriedSession db pairing refreshTokenHash = some (result.deviceId, family) ∧
            family.id = result.familyId) ∨
        pairing.consumedAt = none ∧ now < pairing.expiresAt ∧
          ∃ refreshHash, refreshTokenHash = some refreshHash ∧ (PairingRows db →
            NewlyPaired pairing result.deviceId result.familyId refreshHash now db db')) := by
  unfold pairOwnerDeviceFromHash at h
  obtain ⟨token, htoken, h⟩ := check_bind_eq_ok.mp h
  obtain ⟨now, hnow, h⟩ := check_bind_eq_ok.mp h
  rw [transaction_eq_ok, get_bind] at h
  obtain ⟨pairing, hfind, h⟩ := check_bind_eq_ok.mp h
  refine ⟨token, pairing, now, requirePairingInput_eq_ok htoken, hfind, readClock_eq_ok.mp hnow, ?_⟩
  split at h
  · rename_i hconsumed
    cases hretried : retriedSession db pairing refreshTokenHash with
    | none =>
      rw [hretried] at h
      cases h
    | some session =>
      rw [hretried] at h
      cases h
      exact ⟨rfl, rfl, .inl ⟨hconsumed, rfl, session.2, rfl, rfl⟩⟩
  · rename_i hconsumed
    have hunused := not_not.mp hconsumed
    obtain ⟨refreshHash, hhash, hlater, howner, hvault, hnew⟩ := pairFresh_eq_ok hfind hunused h
    exact ⟨howner, hvault, .inr ⟨hunused, hlater, refreshHash, hhash, hnew⟩⟩

theorem pairOwnerDevice_eq_error
    (h : pairOwnerDevice server input initialRefreshToken accessToken clock sessionNow db =
      .error e db') : db' = db := by
  have hends : Ends (pairOwnerDevice server input initialRefreshToken accessToken clock sessionNow) db
      (fun _ _ => True) fun _ s' => s' = db := by
    unfold pairOwnerDevice
    refine .check (fun _ _ => ?_) fun _ => rfl
    refine .check (fun _ _ => ?_) fun _ => rfl
    exact ends_transaction (fun _ _ _ => trivial) fun _ => rfl
  exact (ends_iff.mp hends).2 e db' h

theorem pairOwnerDeviceFromHash_eq_error
    (h : pairOwnerDeviceFromHash server input refreshTokenHash clock sessionNow db = .error e db') :
    db' = db := by
  have hends : Ends (pairOwnerDeviceFromHash server input refreshTokenHash clock sessionNow) db
      (fun _ _ => True) fun _ s' => s' = db := by
    unfold pairOwnerDeviceFromHash
    refine .check (fun _ _ => ?_) fun _ => rfl
    refine .check (fun _ _ => ?_) fun _ => rfl
    exact ends_transaction (fun _ _ _ => trivial) fun _ => rfl
  exact (ends_iff.mp hends).2 e db' h

/-- The token names no pairing, or one that is consumed or past its time. -/
def Unusable (server : AuthServer) (db : AuthDatabase) (input : PairOwnerDeviceInput)
    (clock : Option Timestamp) : Prop :=
  ∀ token ∈ input.pairingToken, ∀ pairing, findPairing db (server.hashToken token) = .ok pairing →
    pairing.consumedAt ≠ none ∨ ∀ now ∈ clock, pairing.expiresAt ≤ now

theorem pairOwnerDevice_unusable (h : Unusable server db input clock) :
    storeAfter (pairOwnerDevice server input initialRefreshToken accessToken clock sessionNow) db =
      db := by
  apply Ends.storeAfter (P := fun s => s = db)
  refine ends_iff.mpr ⟨fun result db' hok => ?_, fun e db' herror => pairOwnerDevice_eq_error herror⟩
  obtain ⟨token, pairing, now, refreshHash, htoken, hfind, hclock, hunused, hlater, -⟩ :=
    pairOwnerDevice_eq_ok hok
  rcases h token htoken pairing hfind with hconsumed | hexpired
  · exact absurd hunused hconsumed
  · exact absurd hlater (Nat.not_lt.mpr (hexpired now hclock))

theorem pairOwnerDeviceFromHash_unusable (h : Unusable server db input clock) :
    storeAfter (pairOwnerDeviceFromHash server input refreshTokenHash clock sessionNow) db = db := by
  apply Ends.storeAfter (P := fun s => s = db)
  refine ends_iff.mpr ⟨fun result db' hok => ?_, fun e db' herror =>
    pairOwnerDeviceFromHash_eq_error herror⟩
  obtain ⟨token, pairing, now, htoken, hfind, hclock, -, -, hend⟩ := pairOwnerDeviceFromHash_eq_ok hok
  rcases hend with ⟨-, hsame, -⟩ | ⟨hunused, hlater, -⟩
  · exact hsame
  · rcases h token htoken pairing hfind with hconsumed | hexpired
    · exact absurd hunused hconsumed
    · exact absurd hlater (Nat.not_lt.mpr (hexpired now hclock))

end

section
variable {input : PairOwnerDeviceInput} {now sessionNow : Option Timestamp}

/-- One call, or a pairing for a device identifier of the caller's choice. -/
inductive Step (server : AuthServer) (db : AuthDatabase) : AuthDatabase → Prop
  | call (action : AuthAction) : Step server db (afterAction server db action)
  | pairOwnerDevice (input : PairOwnerDeviceInput) (initialRefreshToken : Option Token)
      (accessToken : Token) (now sessionNow : Option Timestamp) :
      Step server db
        (storeAfter (OwnerSetup.pairOwnerDevice server input initialRefreshToken accessToken now
          sessionNow) db)
  | pairOwnerDeviceFromHash (input : PairOwnerDeviceInput) (refreshTokenHash : Option TokenHash)
      (now sessionNow : Option Timestamp) :
      Step server db
        (storeAfter (OwnerSetup.pairOwnerDeviceFromHash server input refreshTokenHash now sessionNow)
          db)

def History (server : AuthServer) : AuthDatabase → AuthDatabase → Prop :=
  Relation.ReflTransGen (Step server)

/-- Every consumed pairing stands for a device and its session. -/
structure AllPaired (db : AuthDatabase) : Prop where
  rows : PairingRows db
  paired : ∀ pairing ∈ db.ownerPairings, pairing.consumedAt ≠ none →
    ∃ deviceId familyId refreshHash, Paired pairing deviceId familyId refreshHash db

/-- The pairings are all paired, and those of an earlier state still. -/
structure Extends (db db' : AuthDatabase) : Prop where
  all : AllPaired db'
  others : ∀ {pairing deviceId familyId refreshHash},
    Paired pairing deviceId familyId refreshHash db → Paired pairing deviceId familyId refreshHash db'

variable (h : AllPaired db)
include h

theorem AllPaired.kept (kept : PairingsKept db db') : Extends db db' where
  all := by
    refine ⟨kept.rows h.rows, fun pairing hmem hconsumed => ?_⟩
    obtain ⟨deviceId, familyId, refreshHash, hpaired⟩ :=
      h.paired pairing (kept.consumed pairing hmem hconsumed) hconsumed
    exact ⟨deviceId, familyId, refreshHash, kept.paired h.rows hpaired⟩
  others := kept.paired h.rows

theorem AllPaired.newlyPaired {pairing : OwnerPairingRow} {deviceId familyId : Id}
    {refreshHash : TokenHash} {now : Timestamp}
    (hnew : NewlyPaired pairing deviceId familyId refreshHash now db db') : Extends db db' where
  all := by
    refine ⟨hnew.rows, fun stored hmem hconsumed => ?_⟩
    rcases hnew.consumed stored hmem hconsumed with hold | rfl
    · obtain ⟨otherDevice, otherFamily, otherHash, hpaired⟩ := h.paired stored hold hconsumed
      exact ⟨otherDevice, otherFamily, otherHash, hnew.others hpaired⟩
    · exact ⟨deviceId, familyId, refreshHash, hnew.opened⟩
  others := hnew.others

theorem pairOwnerDevice_extends {initialRefreshToken : Option Token} {accessToken : Token} :
    Extends db (storeAfter (pairOwnerDevice server input initialRefreshToken accessToken now
      sessionNow) db) := by
  apply Ends.storeAfter
  refine ends_iff.mpr ⟨fun result db' hok => ?_, fun e db' herror => ?_⟩
  · obtain ⟨token, pairing, now, refreshHash, -, -, -, -, -, hnew⟩ := pairOwnerDevice_eq_ok hok
    exact h.newlyPaired (hnew h.rows)
  · rw [pairOwnerDevice_eq_error herror]
    exact h.kept .refl

theorem pairOwnerDeviceFromHash_extends {refreshTokenHash : Option TokenHash} :
    Extends db (storeAfter (pairOwnerDeviceFromHash server input refreshTokenHash now sessionNow)
      db) := by
  apply Ends.storeAfter
  refine ends_iff.mpr ⟨fun result db' hok => ?_, fun e db' herror => ?_⟩
  · obtain ⟨token, pairing, now, -, -, -, -, -, hend⟩ := pairOwnerDeviceFromHash_eq_ok hok
    rcases hend with ⟨-, rfl, -⟩ | ⟨-, -, refreshHash, -, hnew⟩
    · exact h.kept .refl
    · exact h.newlyPaired (hnew h.rows)
  · rw [pairOwnerDeviceFromHash_eq_error herror]
    exact h.kept .refl

omit h in
theorem Extends.trans (h : Extends db mid) (h' : Extends mid db') : Extends db db' :=
  ⟨h'.all, fun hpaired => h'.others (h.others hpaired)⟩

theorem step_extends (step : Step server db db') : Extends db db' := by
  cases step with
  | pairOwnerDevice => exact pairOwnerDevice_extends h
  | pairOwnerDeviceFromHash => exact pairOwnerDeviceFromHash_extends h
  | call action =>
    have hdraw : Extends db (pairingDraw db) := h.kept (kept_of_tables rfl rfl rfl rfl rfl)
    cases action with
    | initializeOwner => exact h.kept initializeOwner_kept
    | createVault => exact h.kept createVault_kept
    | rotateOwnerPairing => exact h.kept rotateOwnerPairing_kept
    | rotateVaultOwnerPairing => exact h.kept rotateVaultOwnerPairing_kept
    | pairOwnerDevice => exact hdraw.trans (pairOwnerDevice_extends hdraw.all)
    | pairOwnerDeviceFromHash => exact hdraw.trans (pairOwnerDeviceFromHash_extends hdraw.all)
    | createInvitation => exact h.kept createInvitation_kept
    | redeemInvitation => exact h.kept redeem_kept
    | approveRedeemedDevice => exact h.kept approve_kept
    | rejectPendingDevice => exact h.kept reject_kept
    | revokeMembership => exact h.kept revokeMembership_kept
    | createGrant => exact h.kept createGrant_kept
    | redeemGrant => exact h.kept redeemGrant_kept
    | rotateRefresh => exact h.kept rotateRefresh_kept
    | enroll => exact h.kept enrolled_kept
    | claim => exact h.kept claim_kept
    | pushRevision => exact h.kept pushed_kept
    | pruneExpired => exact h.kept pruneExpiredRecords_kept

theorem history_extends (history : History server db db') : Extends db db' := by
  induction history with
  | refl => exact h.kept .refl
  | tail _ step ih => exact ih.trans (step_extends ih.all step)

omit h in
theorem allPaired_empty : AllPaired AuthDatabase.empty := by
  refine ⟨⟨nodup_nil, nodup_nil, nodup_nil, ?_, ?_, ?_⟩, ?_⟩ <;>
    exact fun row hrow => absurd hrow not_mem_nil

end

variable {pairing : OwnerPairingRow} {deviceId familyId : Id} {refreshHash : TokenHash}
  {token : Token} {found : Id} {input : PairOwnerDeviceInput}

/-- What answers a repeated pairing is the session the pairing stands for. -/
theorem retriedSession_eq (h : Paired pairing deviceId familyId refreshHash db)
    {hash : Option TokenHash} {family : FamilyRow}
    (hretried : retriedSession db pairing hash = some (found, family)) :
    found = deviceId ∧ family.id = familyId ∧ hash = some refreshHash := by
  unfold retriedSession at hretried
  rw [h.by_device, Option.bind_eq_bind, Option.bind_some] at hretried
  obtain ⟨stored, hstored, heq⟩ := Option.bind_eq_some_iff.mp hretried
  cases heq
  have hmem := mem_of_find?_eq_some hstored
  have hhit := List.find?_some hstored
  simp only [decide_eq_true_eq] at hhit
  obtain ⟨hdevice, -, -, htoken⟩ := hhit
  have hid : family.id = familyId := (h.family_iff family hmem).mpr hdevice
  obtain ⟨token, htokenMem, hhit⟩ := any_eq_true.mp htoken
  obtain ⟨hfamily, hzero, hhash⟩ := of_decide_eq_true hhit
  refine ⟨rfl, hid, ?_⟩
  rw [← hhash, h.first_token token htokenMem (hfamily.trans hid) hzero]

/-- The session is active and its first token was not pruned. -/
def FirstTokenLive (db : AuthDatabase) (familyId : Id) : Prop :=
  (∃ family ∈ db.families, family.id = familyId ∧ family.status = .active) ∧
    ∃ token ∈ db.refreshTokens, token.familyId = familyId ∧ token.generation = 0

theorem retriedSession_of_live (h : Paired pairing deviceId familyId refreshHash db)
    (live : FirstTokenLive db familyId) :
    ∃ family, retriedSession db pairing (some refreshHash) = some (deviceId, family) := by
  obtain ⟨⟨family, hfamily, hid, hactive⟩, token, htoken, htokenFamily, hzero⟩ := live
  have hfound : (db.families.find? fun family =>
      family.deviceId = deviceId ∧ family.userId = pairing.userId ∧ family.status = .active ∧
        db.refreshTokens.any fun token =>
          token.familyId = family.id ∧ token.generation = 0 ∧
            some token.tokenHash = some refreshHash).isSome = true := by
    rw [List.find?_isSome]
    refine ⟨family, hfamily, decide_eq_true ⟨(h.family_iff family hfamily).mp hid,
      h.family_user family hfamily hid, hactive, any_eq_true.mpr ⟨token, htoken, ?_⟩⟩⟩
    refine decide_eq_true ⟨htokenFamily.trans hid.symm, hzero, ?_⟩
    rw [h.first_token token htoken htokenFamily hzero]
  obtain ⟨found, hfound⟩ := Option.isSome_iff_exists.mp hfound
  refine ⟨found, ?_⟩
  unfold retriedSession
  rw [h.by_device, Option.bind_eq_bind, Option.bind_some]
  exact Option.bind_eq_some_iff.mpr ⟨found, hfound, rfl⟩

/-- A pairing call that succeeds, through either entry point. -/
inductive Pairs (server : AuthServer) (db : AuthDatabase) (token : Token) :
    Id → Id → AuthDatabase → Prop
  | withToken {input : PairOwnerDeviceInput} {initialRefreshToken : Option Token}
      {accessToken : Token} {now sessionNow : Option Timestamp} {result : PairOwnerDeviceResult}
      {db' : AuthDatabase} (token_eq : input.pairingToken = some token)
      (paired : pairOwnerDevice server input initialRefreshToken accessToken now sessionNow db =
        .ok result db') : Pairs server db token result.deviceId result.familyId db'
  | withHash {input : PairOwnerDeviceInput} {refreshTokenHash : Option TokenHash}
      {now sessionNow : Option Timestamp} {result : PairOwnerDeviceFromHashResult}
      {db' : AuthDatabase} (token_eq : input.pairingToken = some token)
      (paired : pairOwnerDeviceFromHash server input refreshTokenHash now sessionNow db =
        .ok result db') : Pairs server db token result.deviceId result.familyId db'

/-- The pairing of a token is the row found under its hash. -/
theorem findPairing_of_paired (rows : PairingRows db)
    (h : Paired pairing deviceId familyId refreshHash db) :
    findPairing db pairing.tokenHash = .ok pairing := by
  unfold findPairing
  rw [rows.hashes.find? h.mem rfl]

theorem findPairing_hash {tokenHash : TokenHash} (h : findPairing db tokenHash = .ok pairing) :
    pairing.tokenHash = tokenHash := by
  unfold findPairing at h
  split at h
  · cases h
  · rename_i row hfind
    cases h
    exact (find?_key hfind).2

/-- After a success, the token's pairing stands for what was answered. -/
theorem paired_of_fromHash (h : AllPaired db) {refreshTokenHash : Option TokenHash}
    {clock sessionNow : Option Timestamp} {result : PairOwnerDeviceFromHashResult}
    (hok : pairOwnerDeviceFromHash server input refreshTokenHash clock sessionNow db =
      .ok result db') :
    ∃ token pairing refreshHash, input.pairingToken = some token ∧
      pairing.tokenHash = server.hashToken token ∧ refreshTokenHash = some refreshHash ∧
      result.ownerUserId = pairing.userId ∧ result.vaultId = pairing.vaultId ∧
      Paired pairing result.deviceId result.familyId refreshHash db' := by
  obtain ⟨token, pairing, now, htoken, hfind, -, howner, hvault, hend⟩ :=
    pairOwnerDeviceFromHash_eq_ok hok
  have hhash := findPairing_hash hfind
  rcases hend with ⟨hconsumed, rfl, family, hretried, hid⟩ | ⟨-, -, refreshHash, hrefresh, hnew⟩
  · obtain ⟨deviceId, familyId, refreshHash, hpaired⟩ :=
      h.paired pairing (findPairing_eq_ok hfind) hconsumed
    obtain ⟨hdevice, hfamily, hrefresh⟩ := retriedSession_eq hpaired hretried
    refine ⟨token, pairing, refreshHash, htoken, hhash, hrefresh, howner, hvault, ?_⟩
    rw [hdevice, ← hid, hfamily]
    exact hpaired
  · exact ⟨token, consumedPairing pairing _ now, refreshHash, htoken, hhash, hrefresh, howner, hvault,
      (hnew h.rows).opened⟩

theorem pairs_extends (h : AllPaired db) (pairs : Pairs server db token deviceId familyId db') :
    Extends db db' := by
  cases pairs with
  | withToken _ paired =>
    rw [← storeAfter_of_ok paired]
    exact pairOwnerDevice_extends h
  | withHash _ paired =>
    rw [← storeAfter_of_ok paired]
    exact pairOwnerDeviceFromHash_extends h

theorem paired_of_pairs (h : AllPaired db) (pairs : Pairs server db token deviceId familyId db') :
    ∃ pairing refreshHash, pairing.tokenHash = server.hashToken token ∧
      Paired pairing deviceId familyId refreshHash db' := by
  cases pairs with
  | withToken token_eq paired =>
    obtain ⟨other, pairing, now, refreshHash, hother, hfind, -, -, -, hnew⟩ :=
      pairOwnerDevice_eq_ok paired
    cases token_eq.symm.trans hother
    have hhash := findPairing_hash hfind
    exact ⟨consumedPairing pairing _ now, refreshHash, hhash, (hnew h.rows).opened⟩
  | withHash token_eq paired =>
    obtain ⟨other, pairing, refreshHash, hother, hhash, -, -, -, hpaired⟩ := paired_of_fromHash h paired
    cases token_eq.symm.trans hother
    exact ⟨pairing, refreshHash, hhash, hpaired⟩

/-- The only success left to a token that was used is the repeated one. -/
theorem pairs_of_paired (rows : PairingRows db)
    (h : Paired pairing deviceId familyId refreshHash db)
    (hhash : pairing.tokenHash = server.hashToken token) {family : Id}
    (pairs : Pairs server db token found family db') :
    found = deviceId ∧ family = familyId ∧ db' = db := by
  have hmine := findPairing_of_paired rows h
  rw [hhash] at hmine
  cases pairs with
  | withToken token_eq paired =>
    obtain ⟨other, stored, now, _, hother, hfind, -, hunused, -, -⟩ := pairOwnerDevice_eq_ok paired
    cases token_eq.symm.trans hother
    cases hmine.symm.trans hfind
    exact absurd hunused h.consumed
  | withHash token_eq paired =>
    obtain ⟨other, stored, now, hother, hfind, -, -, -, hend⟩ := pairOwnerDeviceFromHash_eq_ok paired
    cases token_eq.symm.trans hother
    cases hmine.symm.trans hfind
    rcases hend with ⟨-, hsame, row, hretried, hid⟩ | ⟨hunused, -⟩
    · obtain ⟨hdevice, hfamily, -⟩ := retriedSession_eq h hretried
      exact ⟨hdevice, hid.symm.trans hfamily, hsame⟩
    · exact absurd hunused h.consumed

/-- The answer to a repeated pairing while its session is live. -/
theorem repeated_of_live (rows : PairingRows db)
    (h : Paired pairing deviceId familyId refreshHash db) (live : FirstTokenLive db familyId)
    (hinput : requirePairingInput input = .ok token)
    (hhash : pairing.tokenHash = server.hashToken token) (now : Timestamp)
    (sessionNow : Option Timestamp) :
    ∃ refreshExpiresAt, pairOwnerDeviceFromHash server input (some refreshHash) (some now) sessionNow
      db = .ok ⟨deviceId, familyId, pairing.userId, refreshExpiresAt, pairing.vaultId⟩ db := by
  obtain ⟨family, hretried⟩ := retriedSession_of_live h live
  obtain ⟨-, hid, -⟩ := retriedSession_eq h hretried
  have hfind := findPairing_of_paired rows h
  rw [hhash] at hfind
  refine ⟨family.expiresAt, ?_⟩
  unfold pairOwnerDeviceFromHash
  rw [check_bind_of_ok hinput, check_bind_of_ok (readClock_eq_ok.mpr rfl), transaction_eq_ok, get_bind,
    check_bind_of_ok hfind, if_pos h.consumed, hretried, ← hid]
  rfl

/-- Owner pairing is single use and can be retried. -/
theorem ownerPairing_singleUse (server : AuthServer) (db : AuthDatabase)
    (reached : History server AuthDatabase.empty db) :
    (∀ input initialRefreshToken refreshTokenHash accessToken now sessionNow,
      Unusable server db input now →
        storeAfter (pairOwnerDevice server input initialRefreshToken accessToken now sessionNow) db =
          db ∧
        storeAfter (pairOwnerDeviceFromHash server input refreshTokenHash now sessionNow) db = db) ∧
    (∀ token deviceId familyId after, Pairs server db token deviceId familyId after →
      ∀ later, History server after later → ∀ otherDevice otherFamily last,
        Pairs server later token otherDevice otherFamily last →
          otherDevice = deviceId ∧ otherFamily = familyId ∧ last = later) ∧
    ∀ input refreshTokenHash now sessionNow result after,
      pairOwnerDeviceFromHash server input refreshTokenHash now sessionNow db = .ok result after →
      ∀ later, History server after later →
        (∀ again token clock laterNow, requirePairingInput again = .ok token →
          again.pairingToken = input.pairingToken → FirstTokenLive later result.familyId →
          ∃ refreshExpiresAt,
            pairOwnerDeviceFromHash server again refreshTokenHash (some clock) laterNow later =
              .ok { result with refreshExpiresAt } later) ∧
        ∀ again otherHash clock laterNow, again.pairingToken = input.pairingToken →
          otherHash ≠ refreshTokenHash → ∀ answer last,
            pairOwnerDeviceFromHash server again otherHash clock laterNow later ≠ .ok answer last := by
  have hall : AllPaired db := (history_extends allPaired_empty reached).all
  refine ⟨?_, ?_, ?_⟩
  · intro input initialRefreshToken refreshTokenHash accessToken now sessionNow hunusable
    exact ⟨pairOwnerDevice_unusable hunusable, pairOwnerDeviceFromHash_unusable hunusable⟩
  · intro token deviceId familyId after pairs later history otherDevice otherFamily last again
    obtain ⟨pairing, refreshHash, hhash, hpaired⟩ := paired_of_pairs hall pairs
    have hextends := history_extends (pairs_extends hall pairs).all history
    exact pairs_of_paired hextends.all.rows (hextends.others hpaired) hhash again
  · intro input refreshTokenHash now sessionNow result after hok later history
    obtain ⟨token, pairing, refreshHash, htoken, hhash, hrefresh, howner, hvault, hpaired⟩ :=
      paired_of_fromHash hall hok
    have hextends := history_extends (pairs_extends hall (.withHash htoken hok)).all history
    have hlater := hextends.others hpaired
    refine ⟨?_, ?_⟩
    · intro again token' clock laterNow hinput hsame live
      have htoken' := requirePairingInput_eq_ok hinput
      cases (hsame.symm.trans htoken').symm.trans htoken
      obtain ⟨refreshExpiresAt, hagain⟩ :=
        repeated_of_live hextends.all.rows hlater live hinput hhash clock laterNow
      refine ⟨refreshExpiresAt, ?_⟩
      rw [hrefresh, hagain, howner, hvault]
    · intro again otherHash clock laterNow hsame hother answer last hagain
      obtain ⟨token', stored, now', htoken', hfind, -, -, -, hend⟩ :=
        pairOwnerDeviceFromHash_eq_ok hagain
      cases (hsame.symm.trans htoken').symm.trans htoken
      have hmine := findPairing_of_paired hextends.all.rows hlater
      rw [hhash] at hmine
      cases hmine.symm.trans hfind
      rcases hend with ⟨-, -, row, hretried, -⟩ | ⟨hunused, -⟩
      · obtain ⟨-, -, hsameHash⟩ := retriedSession_eq hlater hretried
        exact hother (hsameHash.trans hrefresh.symm)
      · exact hlater.consumed hunused

/-- A fresh instance, whose pairing token was issued at instant 0. -/
def initialized : AuthDatabase :=
  afterAction plainServer AuthDatabase.empty (.initializeOwner true ⟨[0x41], [0x42]⟩ 900 (some 0))

def laptop : PairOwnerDeviceInput := ⟨[0x43], 40, some 900, true⟩

def laptopPaired : AuthDatabase :=
  storeAfter (pairOwnerDeviceFromHash plainServer laptop (some 7) (some 1000) (some 1000)) initialized

/-- The answer to the laptop was lost: asked again long after the token expired,
the server gives the same session, and refuses a different refresh token. -/
theorem ownerPairing_singleUse_laptop :
    (∃ refreshExpiresAt,
      pairOwnerDeviceFromHash plainServer laptop (some 7) (some 5000000) none laptopPaired =
        .ok ⟨40, 6, 2, refreshExpiresAt, 3⟩ laptopPaired) ∧
      ∀ answer last, pairOwnerDeviceFromHash plainServer laptop (some 8) (some 2000) (some 2000)
        laptopPaired ≠ .ok answer last := by
  have reached : History plainServer AuthDatabase.empty initialized :=
    .single (.call (.initializeOwner true ⟨[0x41], [0x42]⟩ 900 (some 0)))
  have hok : pairOwnerDeviceFromHash plainServer laptop (some 7) (some 1000) (some 1000) initialized =
      .ok ⟨40, 6, 2, 2592001000, 3⟩ laptopPaired := by rfl
  have live : FirstTokenLive laptopPaired 6 := by
    unfold FirstTokenLive
    decide
  obtain ⟨hrepeated, hrefused⟩ := (ownerPairing_singleUse plainServer initialized reached).2.2
    laptop (some 7) (some 1000) (some 1000) _ laptopPaired hok laptopPaired .refl
  exact ⟨hrepeated laptop 900 5000000 none rfl rfl live,
    hrefused laptop (some 8) (some 2000) (some 2000) rfl (by decide)⟩

end Havemind.OwnerPairing
