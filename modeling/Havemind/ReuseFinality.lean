import Havemind.AuthRuns

/-!
The end of a refresh family. A family that is not active stays so for ever, and
gives out no session. A consumed token, presented while its family is in use,
either repeats the last rotation exactly, and then no family changes, or ends the
family.
-/
namespace Havemind.ReuseFinality

open RevisionSchema Transaction Endings Runs KeyedTable AuthTables AuthChanges AuthSoundness
  SessionRepository SessionChanges AuthRuns
open ServerDatabase (AccountStatus DeviceStatus)

variable {server : AuthServer} {permit : Permit} {base : ℕ} {db db' : AuthDatabase} {familyId : Id}

def FamilyDead (familyId : Id) (db : AuthDatabase) : Prop :=
  ∀ family ∈ db.families, family.id = familyId → family.status ≠ .active

theorem FamilyDead.afterOpening (h : FamilyDead familyId db)
    (hdrawn : Drawn server 0 base familyId) {family : FamilyRow} {token : RefreshTokenRow}
    {issued : ℕ} (opening : Opening server base db family token issued) :
    FamilyDead familyId (afterOpening db family token issued) :=
  forall_concat h fun heq => absurd heq (opening.family_new.ne hdrawn)

/-- No change brings a dead family back: a new family has a new identifier, and an
update of a status ends it. -/
theorem FamilyDead.change (h : FamilyDead familyId db) (hdrawn : Drawn server 0 base familyId)
    (change : Change server permit base db db') : FamilyDead familyId db' := by
  cases change with
  | removed => exact fun family hfamily => h family (mem_families_withoutUsers.mp hfamily).1
  | deviceRevoked | reuseMarked => exact forall_updateWhere h fun _ _ _ => by simp
  | approved approved =>
    obtain ⟨admitted, opening, -⟩ := approved
    refine FamilyDead.afterOpening ?_ hdrawn opening
    exact h
  | sessionOpened _ opening => exact h.afterOpening hdrawn opening
  | rotated => exact forall_updateWhere h fun _ hrow => hrow
  | _ => exact h

theorem familyDead_kept (hdrawn : Drawn server 0 base familyId) :
    Kept server base (FamilyDead familyId) where
  change := fun h change => h.change hdrawn change
  attempts := fun h => h
  admitted := fun h _ => h
  opened := fun h opening => h.afterOpening hdrawn opening
  consumed := fun h => h
  pruned := by
    intro s t h pruned
    obtain ⟨keepRefresh, keepAccess, rfl⟩ := pruned
    exact h
  removed := fun h family hfamily => h family (mem_families_withoutUsers.mp hfamily).1

/-- No call gives out a session of the family. -/
structure Refused (server : AuthServer) (db : AuthDatabase) (familyId : Id) : Prop where
  rotate : ∀ input clock accessToken result db',
    rotateRefresh server input clock accessToken db = .ok result db' → result.familyId ≠ familyId
  access : ∀ token clock session, lookupAccess db server token clock = .ok (some session) →
    session.familyId ≠ familyId
  context : ∀ token clock context, lookupRefreshContext db server token clock = .ok (some context) →
    context.familyId ≠ familyId

section
variable {clock : Option Timestamp} {input : RotateRefreshInput} {accessToken : Token}
  {result : RotateRefreshResult}

theorem rotateRefresh_eq_ok (h : rotateRefresh server input clock accessToken db = .ok result db') :
    ∃ prepared now, prepareRotation server input = .ok prepared ∧ clock = some now ∧
      rotateInTransaction server prepared now accessToken db = .ok (.success result) db' := by
  unfold rotateRefresh at h
  obtain ⟨prepared, hprepared, h⟩ := check_bind_eq_ok.mp h
  obtain ⟨now, hnow, h⟩ := check_bind_eq_ok.mp h
  obtain ⟨outcome, mid, hbody, h⟩ := bind_eq_ok.mp h
  cases outcome with
  | reuse => cases h
  | success result =>
    cases h
    exact ⟨prepared, now, hprepared, readClock_eq_ok.mp hnow, transaction_eq_ok.mp hbody⟩

/-- A rotation that returns is of an active family on an approved device. -/
theorem rotateRefresh_family
    (h : rotateRefresh server input clock accessToken db = .ok result db') :
    ∃ family ∈ db.families, family.id = result.familyId ∧ family.status = .active ∧
      ∃ device ∈ db.devices, device.id = family.deviceId ∧ device.status = .approved := by
  obtain ⟨prepared, now, -, -, hbody⟩ := rotateRefresh_eq_ok h
  obtain ⟨row, hrow, -, husable, hend⟩ := rotateInTransaction_eq_ok hbody
  obtain ⟨-, -, hfamily, -, -, -, hdevice, hdeviceId⟩ := loadRefreshRow_eq_some hrow
  obtain ⟨hactive, -, happroved⟩ := of_decide_eq_true husable
  rcases hend with ⟨-, -, access, -, hresult⟩ | ⟨-, -, -, hrotate⟩ | ⟨hresult, -⟩
  · cases hresult
    exact ⟨row.family, hfamily, rfl, hactive, row.device, hdevice, hdeviceId, happroved⟩
  · obtain ⟨successor, access, -, -, -, -, -, hresult, -⟩ := rotateCurrent_eq_ok hrotate
    cases hresult
    exact ⟨row.family, hfamily, rfl, hactive, row.device, hdevice, hdeviceId, happroved⟩
  · cases hresult

theorem lookupRefreshContext_family {token : Option Token} {context : RefreshContext}
    (h : lookupRefreshContext db server token clock = .ok (some context)) :
    ∃ family ∈ db.families, family.id = context.familyId ∧ family.deviceId = context.deviceId ∧
      family.status = .active ∧
      ∃ device ∈ db.devices, device.id = family.deviceId ∧ device.status = .approved := by
  unfold lookupRefreshContext at h
  cases token with
  | none => cases h
  | some token =>
    obtain ⟨now, hnow, h⟩ := except_bind_eq_ok.mp h
    cases hload : loadRefreshRow db (server.hashToken token) with
    | none =>
      rw [hload] at h
      cases h
    | some row =>
      rw [hload] at h
      dsimp only at h
      obtain ⟨-, -, hfamily, -, -, -, hdevice, hdeviceId⟩ := loadRefreshRow_eq_some hload
      split at h
      · cases h
      split at h
      · cases h
      rename_i hlive
      obtain ⟨generation, -, h⟩ := except_bind_eq_ok.mp h
      obtain ⟨current, -, h⟩ := except_bind_eq_ok.mp h
      split at h
      · cases h
      cases h
      simp only [not_or, Bool.not_eq_false] at hlive
      obtain ⟨hactive, -, happroved⟩ := of_decide_eq_true hlive.2.2
      exact ⟨row.family, hfamily, rfl, rfl, hactive, row.device, hdevice, hdeviceId, happroved⟩

theorem FamilyDead.refused (h : FamilyDead familyId db) : Refused server db familyId := by
  constructor
  · intro input clock accessToken result db' hrotate heq
    obtain ⟨family, hfamily, hid, hactive, -⟩ := rotateRefresh_family hrotate
    exact h family hfamily (hid.trans heq) hactive
  · intro token clock session hlookup heq
    obtain ⟨row, now, -, hrow⟩ := lookupAccess_eq_some hlookup
    rw [hrow.session_eq] at heq
    exact h row.family hrow.family_mem (hrow.family_id.trans heq) hrow.family_active
  · intro token clock context hlookup heq
    obtain ⟨family, hfamily, hid, -, hactive, -⟩ := lookupRefreshContext_family hlookup
    exact h family hfamily (hid.trans heq) hactive

end

section
variable {prepared : PreparedRotation} {now : Timestamp} {accessToken : Token} {row : RefreshRow}

theorem requireGeneration_of_le {value : ℕ} (h : value ≤ maxSafeInteger) :
    requireGeneration value = .ok value := if_pos h

/-- A consumed token of a family in use: the exact retry, or the end of the family. -/
theorem rotateInTransaction_consumed (generations : Generations db)
    (hrow : loadRefreshRow db prepared.currentTokenHash = some row)
    (hconsumed : row.token.consumedAt ≠ none) (hunexpired : now < row.family.expiresAt)
    (husable : row.usable = true) (hretry : exactRetry db row prepared = false) :
    rotateInTransaction server prepared now accessToken db =
      .ok .reuse (afterReuse db row.family.id now) := by
  obtain ⟨htoken, -, hfamily, -⟩ := loadRefreshRow_eq_some hrow
  unfold rotateInTransaction
  rw [get_bind, hrow]
  dsimp only
  rw [if_neg (by simp [hconsumed, hunexpired]), if_neg (by simp [husable]),
    requireGeneration_of_le (generations.tokens _ htoken),
    requireGeneration_of_le (generations.families _ hfamily)]
  show (if row.token.consumedAt ≠ none then _ else _ : Auth RotationTransactionResult) db = _
  rw [if_pos hconsumed, if_pos hretry]
  rfl

/-- The exact retry issues an access token and writes no family. -/
theorem rotateRefresh_retry {input : RotateRefreshInput} {clock : Option Timestamp}
    (hprepared : prepareRotation server input = .ok prepared)
    (hrow : loadRefreshRow db prepared.currentTokenHash = some row)
    (hconsumed : row.token.consumedAt ≠ none) (hretry : exactRetry db row prepared = true) :
    (storeAfter (rotateRefresh server input clock accessToken) db).families = db.families ∧
      (storeAfter (rotateRefresh server input clock accessToken) db).refreshTokens =
        db.refreshTokens := by
  refine rotateRefresh_storeAfter (P := fun next => next.families = db.families ∧
    next.refreshTokens = db.refreshTokens) ⟨rfl, rfl⟩ fun other now result db' hother _ hbody => ?_
  cases hprepared.symm.trans hother
  obtain ⟨found, hfound, -, -, hend⟩ := rotateInTransaction_eq_ok hbody
  cases hrow.symm.trans hfound
  rcases hend with ⟨-, -, access, haccess, -⟩ | ⟨hnone, -⟩ | ⟨-, -, ⟨-, hnot⟩ | ⟨hnone, -⟩⟩
  · obtain ⟨-, -, -, rfl⟩ := issueAccess_eq_ok haccess
    exact ⟨rfl, rfl⟩
  · exact absurd hnone hconsumed
  · rw [hretry] at hnot
    cases hnot
  · exact absurd hnone hconsumed

end

variable {guard : World → AuthAction → Prop} {start w w' t : World} {input : RotateRefreshInput}
  {clock : Option Timestamp} {accessToken : Token} {prepared : PreparedRotation} {now : Timestamp}
  {row : RefreshRow}

/-- A family that is dead gives out no session in any later state. -/
theorem FamilyDead.reached (sound : Sound server w.db)
    (hdrawn : Drawn server 0 w.db.issued familyId) (h : FamilyDead familyId w.db)
    (reached : Reached (authStep server) guard w t) : Refused server t.db familyId := by
  refine FamilyDead.refused (reached_kept (fun base hbase => ?_) sound h reached)
  exact familyDead_kept (hdrawn.mono (Nat.le_refl _) hbase)

/-- In every reachable database, a well-formed request that presents a consumed
token of a family in use ends the family for ever, unless it repeats the last
rotation exactly; and an exact repetition changes no family and no refresh token. -/
theorem refreshReuse_final (hstart : Sound server start.db)
    (reached : Reached (authStep server) guard start w)
    (hprepared : prepareRotation server input = .ok prepared)
    (hrow : loadRefreshRow w.db prepared.currentTokenHash = some row)
    (hconsumed : row.token.consumedAt ≠ none)
    (hstep : authStep server w (.rotateRefresh input clock accessToken) = some w') :
    (exactRetry w.db row prepared = false → clock = some now → now < row.family.expiresAt →
      row.usable = true →
        rotateRefresh server input clock accessToken w.db = .error .refreshReuseDetected w'.db ∧
        (∀ family ∈ w'.db.families, family.id = row.family.id → family.status = .reuseDetected) ∧
        ∀ t, Reached (authStep server) anyCall w' t → Refused server t.db row.family.id) ∧
    (exactRetry w.db row prepared = true →
      w'.db.families = w.db.families ∧ w'.db.refreshTokens = w.db.refreshTokens) := by
  have hsound : Sound server w.db := reached_sound hstart reached
  cases hstep
  constructor
  · intro hretry hclock hunexpired husable
    obtain ⟨-, -, hfamily, -⟩ := loadRefreshRow_eq_some hrow
    have hrun : rotateRefresh server input clock accessToken w.db =
        .error .refreshReuseDetected (afterReuse w.db row.family.id now) := by
      unfold rotateRefresh
      rw [hprepared, hclock]
      show (transaction (rotateInTransaction server prepared now accessToken) >>= _) w.db = _
      rw [bind_of_ok (transaction_eq_ok.mpr (rotateInTransaction_consumed hsound.generations hrow
        hconsumed hunexpired husable hretry))]
      rfl
    have hafter : afterAction server w.db (.rotateRefresh input clock accessToken) =
        afterReuse w.db row.family.id now := storeAfter_of_error hrun
    have hmarked : ∀ family ∈ (afterReuse w.db row.family.id now).families,
        family.id = row.family.id → family.status = .reuseDetected := by
      intro family hmem hid
      rcases mem_updateWhere.mp hmem with ⟨-, hmiss⟩ | ⟨stored, -, -, rfl⟩
      · exact absurd hid (of_decide_eq_false hmiss)
      · rfl
    rw [hafter]
    refine ⟨hrun, hmarked, fun t ht => ?_⟩
    have hdead : FamilyDead row.family.id (afterReuse w.db row.family.id now) := by
      intro family hmem hid
      rw [hmarked family hmem hid]
      simp
    have hmarkedChange : Change server ⟨False, fun _ => False⟩ 0 w.db
        (afterReuse w.db row.family.id now) := .reuseMarked
    refine FamilyDead.reached ?_ ?_ hdead ht
    · exact hsound.change hmarkedChange
    · exact hsound.issuance.families row.family hfamily
  · intro hretry
    exact rotateRefresh_retry hprepared hrow hconsumed hretry

/-- The first refresh token of the owner's device is rotated. -/
def rotatedWorld : World :=
  calls plainServer World.empty
    (ownerActions ++ [.rotateRefresh ⟨some 7, some 1, some 8⟩ (some 2000) 51])

theorem rotatedWorld_reached :
    Reached (authStep plainServer) anyCall World.empty rotatedWorld :=
  calls_reached World.empty _

/-- The consumed token with its family, user and device. -/
def consumedRow : RefreshRow :=
  { token := ⟨8, 7, 0, 7, 1000, some 2000, some 1, some 8, 2592001000⟩
    family := ⟨7, 2, 6, .active, 1, 2592002000, none⟩
    user := ⟨2, [0x41], true, .active⟩
    device := ⟨6, 2, .approved, some 1000, none, none, some 3⟩ }

theorem consumedRow_loaded : loadRefreshRow rotatedWorld.db 7 = some consumedRow := by
  decide +kernel

def replayedWorld : World :=
  (authStep plainServer rotatedWorld (.rotateRefresh ⟨some 7, some 2, some 9⟩ (some 3000) 52)).getD
    World.empty

theorem refreshReuse_final_replay :
    rotateRefresh plainServer ⟨some 7, some 2, some 9⟩ (some 3000) 52 rotatedWorld.db =
        .error .refreshReuseDetected replayedWorld.db ∧
      (∀ family ∈ replayedWorld.db.families, family.id = 7 → family.status = .reuseDetected) ∧
      ∀ t, Reached (authStep plainServer) anyCall replayedWorld t → Refused plainServer t.db 7 := by
  have hprepared : prepareRotation plainServer ⟨some 7, some 2, some 9⟩ = .ok ⟨7, 2, 9⟩ := rfl
  have hstep : authStep plainServer rotatedWorld
      (.rotateRefresh ⟨some 7, some 2, some 9⟩ (some 3000) 52) = some replayedWorld := rfl
  have hretry : exactRetry rotatedWorld.db consumedRow ⟨7, 2, 9⟩ = false := rfl
  have hunexpired : 3000 < consumedRow.family.expiresAt := by decide
  exact (refreshReuse_final (sound_empty plainServer) rotatedWorld_reached hprepared
    consumedRow_loaded (by decide) hstep).1 hretry rfl hunexpired rfl

/-- Past the family's deadline the replay is refused, and the family left unmarked. -/
theorem refreshReuse_unmarked_expired :
    ∃ w, Reached (authStep plainServer) anyCall World.empty w ∧
      loadRefreshRow w.db 7 = some consumedRow ∧ consumedRow.token.consumedAt ≠ none ∧
      exactRetry w.db consumedRow ⟨7, 2, 9⟩ = false ∧
      rotateRefresh plainServer ⟨some 7, some 2, some 9⟩ (some 2592002000) 52 w.db =
        .error .invalidRefresh w.db ∧
      ∀ family ∈ w.db.families, family.status = .active :=
  ⟨rotatedWorld, rotatedWorld_reached, consumedRow_loaded, by decide, by decide +kernel, rfl,
    by decide +kernel⟩

end Havemind.ReuseFinality
