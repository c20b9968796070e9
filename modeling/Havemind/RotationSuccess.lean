import Havemind.ReuseFinality
import Havemind.RefreshFamily

/-!
When a rotation does succeed. A serviceable family is one in use on an approved
device, with its chain of tokens whole and its deadline in its current token. In
time, its current token rotates to any unknown successor and its last consumed
token repeats the recorded rotation; both give out an access token that the
lookup accepts, and leave the family serviceable.
-/
namespace Havemind.RotationSuccess

open RevisionSchema Transaction KeyedTable AuthTables AuthChanges AuthSoundness List
  SessionRepository SessionChanges RefreshFamily ReuseFinality

structure Serviceable (server : AuthServer) (db : AuthDatabase) (family : FamilyRow) : Prop where
  chains : Chains db
  hashes : Keyed RefreshTokenRow.tokenHash db.refreshTokens
  generations : Generations db
  tokens_drawn : ∀ token ∈ db.refreshTokens, Drawn server 0 db.issued token.id
  access_drawn : ∀ access ∈ db.accessTokens, Drawn server 0 db.issued access.id
  family_mem : family ∈ db.families
  active : family.status = .active
  user : ∃ user, db.users.find? (fun row => row.id = family.userId) = some user ∧
    user.status = .active
  device : ∃ device, db.devices.find? (fun row => row.id = family.deviceId) = some device ∧
    device.status = .approved
  deadline : ∀ token ∈ db.refreshTokens, token.familyId = family.id → token.consumedAt = none →
    token.expiresAt = family.expiresAt
  window : ∀ token ∈ db.refreshTokens, token.familyId = family.id → token.generation = 0 →
    1000 ≤ token.expiresAt - token.createdAt

/-- A full window from now on can still be written as a date. -/
def Roomy (now : Timestamp) : Prop :=
  now + refreshTokenMaxTtlSeconds * 1000 ≤ maxDateMilliseconds

def AccessFree (server : AuthServer) (db : AuthDatabase) (accessToken : Token) : Prop :=
  ∀ stored ∈ db.accessTokens, stored.tokenHash ≠ server.hashToken accessToken

def SuccessorFree (server : AuthServer) (db : AuthDatabase) (token : Token) : Prop :=
  ∀ stored ∈ db.refreshTokens, stored.tokenHash ≠ server.hashToken token

/-- The access token is one of the family's, and the lookup accepts it. -/
def Accepted (server : AuthServer) (db : AuthDatabase) (now : Timestamp) (familyId : Id)
    (accessToken : Token) : Prop :=
  ∃ session, lookupAccess db server (some accessToken) (some now) = .ok (some session) ∧
    session.familyId = familyId

section
variable {server : AuthServer} {db db' : AuthDatabase} {family : FamilyRow} {now : Timestamp}
  {accessToken : Token} {access : IssuedAccess}

theorem Serviceable.loaded (h : Serviceable server db family) {token : RefreshTokenRow}
    (htoken : token ∈ db.refreshTokens) (hid : token.familyId = family.id) :
    ∃ user device, loadRefreshRow db token.tokenHash = some ⟨token, family, user, device⟩ ∧
      (⟨token, family, user, device⟩ : RefreshRow).usable = true := by
  obtain ⟨user, huser, huserActive⟩ := h.user
  obtain ⟨device, hdevice, happroved⟩ := h.device
  refine ⟨user, device, ?_, ?_⟩
  · unfold loadRefreshRow
    rw [h.hashes.find? htoken rfl, Option.bind_eq_bind, Option.bind_some,
      h.chains.families_keyed.find? h.family_mem hid.symm, Option.bind_eq_bind, Option.bind_some,
      huser, Option.bind_eq_bind, Option.bind_some, hdevice]
    rfl
  · exact decide_eq_true ⟨h.active, huserActive, happroved⟩

theorem accessTtl_le : server.accessTokenTtlSeconds ≤ refreshTokenMaxTtlSeconds :=
  Nat.le_trans server.accessTtl_valid.2 (by decide)

theorem accessTtl_pos : 0 < server.accessTokenTtlSeconds :=
  Nat.lt_of_lt_of_le (by decide) server.accessTtl_valid.1

theorem Roomy.addSeconds (h : Roomy now) {seconds : ℕ} (hle : seconds ≤ refreshTokenMaxTtlSeconds)
    (e : AuthError) : addSeconds now seconds e = .ok (now + seconds * 1000) := by
  refine addSeconds_eq_ok.mpr ⟨rfl, ?_⟩
  exact Nat.le_trans (Nat.add_le_add_left (Nat.mul_le_mul_right _ hle) _) h

/-- In time, an access token can be issued to the family. -/
theorem Serviceable.issueAccess_ok (h : Serviceable server db family)
    (hroom : Roomy now) (hunexpired : now < family.expiresAt)
    (hfree : AccessFree server db accessToken) :
    ∃ access db', issueAccess server family.id family.userId family.deviceId now family.expiresAt
      accessToken db = .ok access db' := by
  obtain ⟨user, huser, -⟩ := h.user
  obtain ⟨device, hdevice, -⟩ := h.device
  obtain ⟨huser, huserId⟩ := find?_key huser
  obtain ⟨hdevice, hdeviceId⟩ := find?_key hdevice
  have hlater : now < if family.expiresAt < now + server.accessTokenTtlSeconds * 1000 then
      family.expiresAt else now + server.accessTokenTtlSeconds * 1000 := by
    split
    · exact hunexpired
    · exact Nat.lt_add_of_pos_right (Nat.mul_pos accessTtl_pos (by decide))
  have hids : ∀ stored ∈ db.accessTokens, stored.id ≠ server.randomUuid db.issued ∧
      stored.tokenHash ≠ server.hashToken accessToken := by
    intro stored hstored
    obtain ⟨k, -, hlt, hk⟩ := h.access_drawn stored hstored
    refine ⟨fun heq => Nat.ne_of_lt hlt (server.randomUuid_injective (hk.trans heq)), ?_⟩
    exact hfree stored hstored
  unfold issueAccess insertAccessToken
  rw [check_bind_of_ok (hroom.addSeconds accessTtl_le _), check_bind_of_ok (require_of hlater),
    newUuid_bind]
  refine ⟨_, _, (bind_of_ok (a := ()) (guardedWrite_eq_ok.mpr ⟨⟨hids, ?_, ?_, ?_⟩, rfl⟩)).trans rfl⟩
  · exact ⟨family, h.family_mem, rfl⟩
  · exact ⟨user, huser, huserId⟩
  · exact ⟨device, hdevice, hdeviceId⟩

theorem lookupAccess_of_loaded {row : AccessRow}
    (hrow : loadAccessRow db (server.hashToken accessToken) = some row)
    (hunrevoked : row.token.revokedAt = none) (husable : row.usable = true)
    (htoken : now < row.token.expiresAt) (hfamily : now < row.family.expiresAt) :
    lookupAccess db server (some accessToken) (some now) =
      .ok (some ⟨row.token.deviceId, row.token.expiresAt, row.token.familyId, row.token.userId⟩) := by
  unfold lookupAccess
  simp only [hrow]
  exact if_neg (by simp [hunrevoked, husable, htoken, hfamily])

/-- What is issued is accepted. -/
theorem Serviceable.accepted (h : Serviceable server db family)
    (hunexpired : now < family.expiresAt) (hfree : AccessFree server db accessToken)
    (hissued : issueAccess server family.id family.userId family.deviceId now family.expiresAt
      accessToken db = .ok access db') : Accepted server db' now family.id accessToken := by
  obtain ⟨user, huser, huserActive⟩ := h.user
  obtain ⟨device, hdevice, happroved⟩ := h.device
  obtain ⟨-, -, hlater, rfl⟩ := issueAccess_eq_ok hissued
  have hnone : db.accessTokens.find? (fun row => row.tokenHash = server.hashToken accessToken) =
      none := List.find?_eq_none.mpr fun stored hstored => by simpa using hfree stored hstored
  have hfamily := h.chains.families_keyed.find? h.family_mem rfl
  let issued : AccessTokenRow :=
    ⟨server.randomUuid db.issued, family.id, family.userId, family.deviceId,
      server.hashToken accessToken, access.accessExpiresAt, none⟩
  have hloaded : loadAccessRow
      { db with accessTokens := db.accessTokens ++ [issued], issued := db.issued + 1 }
      (server.hashToken accessToken) = some ⟨issued, family, user, device⟩ := by
    unfold loadAccessRow
    simp only [List.find?_append, hnone, List.find?_singleton, decide_true, if_true, issued,
      Option.none_or, Option.bind_eq_bind, Option.bind_some, hfamily, huser, hdevice]
    rfl
  have husable : (⟨issued, family, user, device⟩ : AccessRow).usable = true :=
    decide_eq_true ⟨h.active, huserActive, happroved⟩
  exact ⟨_, lookupAccess_of_loaded hloaded rfl husable hlater hunexpired, rfl⟩

theorem Serviceable.issued (h : Serviceable server db family)
    (hissued : issueAccess server family.id family.userId family.deviceId now family.expiresAt
      accessToken db = .ok access db') : Serviceable server db' family := by
  obtain ⟨-, hle, -, rfl⟩ := issueAccess_eq_ok hissued
  exact
    { h with
      chains := h.chains.accessIssued ⟨family, h.family_mem, rfl, hle⟩
      generations := ⟨h.generations.families, h.generations.tokens⟩
      tokens_drawn := fun token htoken => (h.tokens_drawn token htoken).mono (Nat.le_refl _) (Nat.le_succ _)
      access_drawn := forall_concat
        (fun row hrow => (h.access_drawn row hrow).mono (Nat.le_refl _) (Nat.le_succ _))
        ⟨db.issued, Nat.zero_le _, Nat.lt_succ_self _, rfl⟩ }

end

section
variable {server : AuthServer} {db db' : AuthDatabase} {family : FamilyRow} {now : Timestamp}
  {accessToken : Token} {token : RefreshTokenRow} {prepared : PreparedRotation}
  {tokenHash : TokenHash} {expiresAt : Timestamp} {user : UserRow} {device : DeviceRow}

/-- The family after a rotation of the token. -/
def advanced (token : RefreshTokenRow) (family : FamilyRow) (expiresAt : Timestamp) : FamilyRow :=
  { family with
    currentGeneration := token.generation + 1
    expiresAt }

theorem countP_eq_one {α : Type} {rows : List α} {hit : α → Bool} {target : α}
    (hnodup : rows.Nodup) (htarget : target ∈ rows)
    (hhit : ∀ stored ∈ rows, hit stored = true ↔ stored = target) : rows.countP hit = 1 := by
  have hfilter : rows.filter hit = [target] := by
    refine perm_singleton.mp ?_
    refine (perm_ext_iff_of_nodup (hnodup.filter _) (nodup_singleton _)).mpr fun row => ?_
    rw [mem_filter, mem_singleton]
    exact ⟨fun h => (hhit row h.1).mp h.2, fun h => h ▸ ⟨htarget, (hhit target htarget).mpr rfl⟩⟩
  rw [countP_eq_length_filter, hfilter, length_singleton]

theorem familyWindowSeconds_ok {familyId : Id}
    (hfirst : ∃ row ∈ db.refreshTokens, row.familyId = familyId ∧ row.generation = 0)
    (hspan : ∀ row ∈ db.refreshTokens, row.familyId = familyId → row.generation = 0 →
      1000 ≤ row.expiresAt - row.createdAt) :
    ∃ seconds, familyWindowSeconds db familyId = .ok seconds ∧
      seconds ≤ refreshTokenMaxTtlSeconds := by
  unfold familyWindowSeconds
  cases hfound : db.refreshTokens.find?
      fun row => decide (row.familyId = familyId ∧ row.generation = 0) with
  | none =>
    obtain ⟨first, hmem, hfirst⟩ := hfirst
    exact absurd (decide_eq_true hfirst) (List.find?_eq_none.mp hfound first hmem)
  | some row =>
    have hrow : row.familyId = familyId ∧ row.generation = 0 := by
      simpa using List.find?_some hfound
    have hspan := hspan row (mem_of_find?_eq_some hfound) hrow.1 hrow.2
    have hpos : (row.expiresAt - row.createdAt) / 1000 ≠ 0 :=
      Nat.ne_of_gt (Nat.div_pos hspan (by decide))
    exact ⟨_, if_neg hpos, Nat.min_le_right _ _⟩

variable (h : Serviceable server db family)
include h

variable (htoken : token ∈ db.refreshTokens)
include htoken

theorem Serviceable.generation_eq (hid : token.familyId = family.id)
    (hunconsumed : token.consumedAt = none) : token.generation = family.currentGeneration :=
  (h.chains.consumed_iff family h.family_mem token htoken hid).mp hunconsumed

/-- The successor of the token, under the next identifier. -/
def successorOf (server : AuthServer) (db : AuthDatabase) (token : RefreshTokenRow)
    (family : FamilyRow) (tokenHash : TokenHash) (now expiresAt : Timestamp) : RefreshTokenRow :=
  newToken (server.randomUuid db.issued) family.id (token.generation + 1) tokenHash now expiresAt

/-- The database between the rotation of the current token and the access token. -/
def rotatedDatabase (server : AuthServer) (db : AuthDatabase) (token : RefreshTokenRow)
    (family : FamilyRow) (prepared : PreparedRotation) (now expiresAt : Timestamp) : AuthDatabase :=
  afterRotation db token family
    (successorOf server db token family prepared.successorTokenHash now expiresAt) prepared.rotationId now
    (db.issued + 1)

omit htoken in
theorem Serviceable.successor_free (hgeneration : token.generation = family.currentGeneration)
    (hfree : ∀ stored ∈ db.refreshTokens, stored.tokenHash ≠ tokenHash) :
    TokenFree db (successorOf server db token family tokenHash now expiresAt) := by
  intro stored hstored
  refine ⟨fun heq => ?_, hfree stored hstored, fun heq => ?_⟩
  · obtain ⟨k, -, hlt, hk⟩ := h.tokens_drawn stored hstored
    exact Nat.ne_of_lt hlt (server.randomUuid_injective (hk.trans heq))
  · have hle := h.chains.generation_le family h.family_mem stored hstored heq.1
    rw [heq.2, ← hgeneration] at hle
    exact absurd hle (Nat.not_succ_le_self _)

theorem Serviceable.rotated (hid : token.familyId = family.id)
    (hunconsumed : token.consumedAt = none) (hsafe : family.currentGeneration < maxSafeInteger)
    (hlater : family.expiresAt ≤ expiresAt)
    (hfree : ∀ stored ∈ db.refreshTokens, stored.tokenHash ≠ prepared.successorTokenHash) :
    Serviceable server (rotatedDatabase server db token family prepared now expiresAt)
      (advanced token family expiresAt) := by
  have hgeneration := h.generation_eq htoken hid hunconsumed
  have hnew : TokenFree db (successorOf server db token family prepared.successorTokenHash now expiresAt) :=
    h.successor_free hgeneration hfree
  have htokens := fun row => @mem_tokens_afterRotation db now (db.issued + 1) token
    (successorOf server db token family prepared.successorTokenHash now expiresAt) family
    prepared.rotationId h.chains htoken hunconsumed row
  have hfamilies := fun row => @mem_families_afterRotation db now (db.issued + 1) token
    (successorOf server db token family prepared.successorTokenHash now expiresAt) family
    prepared.rotationId h.chains h.family_mem h.active hgeneration.symm row
  constructor
  · exact h.chains.rotated htoken hunconsumed h.family_mem hid.symm h.active hgeneration.symm hlater
      rfl hnew
  · refine Keyed.concat (h.hashes.updateWhere fun _ => rfl) ?_
    exact forall_updateWhere hfree fun _ hstored => hstored
  · constructor
    · intro row hrow
      rcases (hfamilies row).mp hrow with ⟨hrow, -⟩ | rfl
      · exact h.generations.families row hrow
      · exact hgeneration ▸ hsafe
    · refine forall_concat (forall_updateWhere h.generations.tokens fun _ hrow => hrow) ?_
      show token.generation + 1 ≤ maxSafeInteger
      exact hgeneration ▸ hsafe
  · refine forall_concat (forall_updateWhere (fun row hrow => ?_) fun _ hrow => hrow) ?_
    · exact (h.tokens_drawn row hrow).mono (Nat.le_refl _) (Nat.le_succ _)
    · exact ⟨db.issued, Nat.zero_le _, Nat.lt_succ_self _, rfl⟩
  · exact fun row hrow => (h.access_drawn row hrow).mono (Nat.le_refl _) (Nat.le_succ _)
  · exact (hfamilies _).mpr (.inr rfl)
  · exact h.active
  · exact h.user
  · exact h.device
  · intro row hrow hfamily hnone
    rcases (htokens row).mp hrow with ⟨hrow, hne⟩ | rfl | rfl
    · refine absurd ?_ hne
      exact h.chains.generations_distinct row hrow token htoken (hfamily.trans hid.symm)
        ((h.generation_eq hrow hfamily hnone).trans hgeneration.symm)
    · cases hnone
    · rfl
  · refine forall_concat (forall_updateWhere h.window fun _ hrow => hrow) fun _ hzero => ?_
    exact absurd hzero (Nat.succ_ne_zero _)

def consumedDatabase (db : AuthDatabase) (token : RefreshTokenRow) (prepared : PreparedRotation)
    (now : Timestamp) : AuthDatabase :=
  { db with
    refreshTokens := updateWhere (fun row => row.id = token.id ∧ row.consumedAt = none)
      (fun row =>
        { row with
          consumedAt := some now
          rotationId := some prepared.rotationId
          successorTokenHash := some prepared.successorTokenHash })
      db.refreshTokens }

theorem Serviceable.consume_ok (hunconsumed : token.consumedAt = none) :
    consumeRefreshToken token.id now prepared db =
      .ok () (consumedDatabase db token prepared now) := by
  have hcount : db.refreshTokens.countP
      (fun row => row.id = token.id ∧ row.consumedAt = none) = 1 := by
    refine countP_eq_one h.chains.tokens_keyed.nodup htoken fun stored hstored => ?_
    rw [decide_eq_true_iff]
    constructor
    · exact fun hhit => h.chains.tokens_keyed.eq hstored htoken hhit.1
    · intro heq
      subst heq
      exact ⟨rfl, hunconsumed⟩
  exact updateOne_eq_ok.mpr ⟨hcount, rfl⟩

/-- A current token rotates in time, as long as the generations can be counted. -/
theorem Serviceable.rotateCurrent_ok (hid : token.familyId = family.id)
    (hunconsumed : token.consumedAt = none) (hsafe : family.currentGeneration < maxSafeInteger)
    (hroom : Roomy now) (hunexpired : now < family.expiresAt)
    (haccess : AccessFree server db accessToken)
    (hfree : ∀ stored ∈ db.refreshTokens, stored.tokenHash ≠ prepared.successorTokenHash) :
    ∃ expiresAt access db', family.expiresAt ≤ expiresAt ∧
      issueAccess server family.id family.userId family.deviceId now expiresAt accessToken
        (rotatedDatabase server db token family prepared now expiresAt) = .ok access db' ∧
      rotateCurrent server ⟨token, family, user, device⟩ prepared now accessToken db =
        .ok (.success ⟨access.accessExpiresAt, access.accessToken, family.id,
          token.generation + 1, false⟩) db' := by
  have hgeneration := h.generation_eq htoken hid hunconsumed
  have hadvance : db.families.countP (fun row => row.id = family.id ∧ row.status = .active ∧
      row.currentGeneration = token.generation) = 1 := by
    refine countP_eq_one h.chains.families_keyed.nodup h.family_mem fun stored hstored => ?_
    rw [decide_eq_true_iff]
    constructor
    · exact fun hhit => h.chains.families_keyed.eq hstored h.family_mem hhit.1
    · intro heq
      subst heq
      exact ⟨rfl, h.active, hgeneration.symm⟩
  let consumed := consumedDatabase db token prepared now
  obtain ⟨seconds, hwindow, hseconds⟩ : ∃ seconds,
      familyWindowSeconds consumed family.id = .ok seconds ∧
        seconds ≤ refreshTokenMaxTtlSeconds := by
    refine familyWindowSeconds_ok ?_ ?_
    · exact exists_updateWhere (h.chains.generation_exists family h.family_mem 0 (Nat.zero_le _))
        fun _ hrow => hrow
    · exact forall_updateWhere h.window fun _ hrow => hrow
  let expiresAt := if now + seconds * 1000 > family.expiresAt then now + seconds * 1000
    else family.expiresAt
  have hlater : family.expiresAt ≤ expiresAt := by
    show _ ≤ if _ then _ else _
    split
    · rename_i hslid
      exact Nat.le_of_lt hslid
    · exact Nat.le_refl _
  have hrotated : Serviceable server
      (rotatedDatabase server db token family prepared now expiresAt) (advanced token family expiresAt) :=
    h.rotated htoken hid hunconsumed hsafe hlater hfree
  obtain ⟨access, db', hissue⟩ := hrotated.issueAccess_ok hroom
    (Nat.lt_of_lt_of_le hunexpired hlater) haccess
  refine ⟨expiresAt, access, db', hlater, hissue, ?_⟩
  let successor := successorOf server db token family prepared.successorTokenHash now expiresAt
  have hnew : TokenFree db successor := h.successor_free hgeneration hfree
  let inserted : AuthDatabase :=
    { consumed with
      refreshTokens := consumed.refreshTokens ++ [successor]
      issued := db.issued + 1 }
  have hinserted : insertRefreshToken successor { consumed with issued := db.issued + 1 } =
      .ok () inserted := by
    refine guardedWrite_eq_ok.mpr ⟨⟨?_, family, h.family_mem, rfl⟩, rfl⟩
    exact forall_updateWhere hnew fun _ hstored => hstored
  have hadvanced : advanceFamily family.id token.generation expiresAt inserted =
      .ok () (rotatedDatabase server db token family prepared now expiresAt) :=
    updateOne_eq_ok.mpr ⟨hadvance, rfl⟩
  unfold rotateCurrent
  rw [bind_of_ok (h.consume_ok htoken hunconsumed), check_bind_of_ok (require_of (hgeneration ▸ hsafe)), get_bind,
    check_bind_of_ok hwindow, check_bind_of_ok (hroom.addSeconds hseconds _), newUuid_bind]
  refine (bind_of_ok hinserted).trans ?_
  refine (bind_of_ok hadvanced).trans ?_
  exact (bind_of_ok hissue).trans rfl

/-- At the last generation that can be counted the rotation fails. -/
theorem Serviceable.rotateCurrent_exhausted (hid : token.familyId = family.id)
    (hunconsumed : token.consumedAt = none) (hlast : maxSafeInteger ≤ family.currentGeneration) :
    rotateCurrent server ⟨token, family, user, device⟩ prepared now accessToken db =
      .error .repositoryIntegrity (consumedDatabase db token prepared now) := by
  have hgeneration := h.generation_eq htoken hid hunconsumed
  have hnot : ¬ token.generation + 1 ≤ maxSafeInteger :=
    Nat.not_le.mpr (hgeneration ▸ Nat.lt_succ_of_le hlast)
  unfold rotateCurrent
  rw [bind_of_ok (h.consume_ok htoken hunconsumed), require_of_not hnot]
  rfl

omit h in
omit htoken in
/-- A family is serviceable from its creation on. -/
theorem serviceable_created {userId deviceId : Id} {refreshTtl : ℕ} {result : InitialFamilyResult}
    (chains : Chains db) (hashes : Keyed RefreshTokenRow.tokenHash db.refreshTokens)
    (generations : Generations db)
    (htokens : ∀ token ∈ db.refreshTokens, Drawn server 0 db.issued token.id)
    (haccess : ∀ access ∈ db.accessTokens, Drawn server 0 db.issued access.id)
    (huser : ∃ user, db.users.find? (fun row => row.id = userId) = some user ∧
      user.status = .active)
    (hdevice : ∃ device, db.devices.find? (fun row => row.id = deviceId) = some device ∧
      device.status = .approved) (hpositive : 1 ≤ refreshTtl)
    (h : createFamily server userId deviceId tokenHash refreshTtl now db = .ok result db') :
    Serviceable server db'
      (newFamily result.familyId userId deviceId result.refreshExpiresAt) := by
  obtain ⟨hchains, -, hmem⟩ := createFamily_keeps chains h
  obtain ⟨-, hexpires, hnew, -, hfree, rfl⟩ := createFamily_eq_ok h
  have hother : ∀ token ∈ db.refreshTokens, token.familyId ≠ result.familyId := by
    intro token htoken heq
    obtain ⟨family, hfamily, hid⟩ := chains.token_family token htoken
    exact hnew family hfamily (hid.trans heq)
  constructor
  · exact hchains
  · exact hashes.concat fun stored hstored => (hfree stored hstored).2.1
  · exact ⟨forall_concat generations.families (Nat.zero_le _),
      forall_concat generations.tokens (Nat.zero_le _)⟩
  · refine forall_concat (fun token htoken => ?_) ⟨db.issued + 1, Nat.zero_le _, ?_, rfl⟩
    · exact (htokens token htoken).mono (Nat.le_refl _) (Nat.le_add_right _ _)
    · exact Nat.lt_succ_self _
  · exact fun access hmem => (haccess access hmem).mono (Nat.le_refl _) (Nat.le_add_right _ _)
  · exact hmem
  · rfl
  · exact huser
  · exact hdevice
  · exact forall_concat (fun token htoken heq => absurd heq (hother token htoken)) fun _ _ => rfl
  · refine forall_concat (fun token htoken heq => absurd heq (hother token htoken)) fun _ _ => ?_
    show 1000 ≤ result.refreshExpiresAt - now
    rw [hexpires, Nat.add_sub_cancel_left]
    exact Nat.le_mul_of_pos_left _ hpositive

end

variable {server : AuthServer} {db db' : AuthDatabase} {now : Timestamp} {accessToken : Token}
  {prepared : PreparedRotation} {row : RefreshRow}

theorem rotateInTransaction_current (generations : Generations db)
    (hrow : loadRefreshRow db prepared.currentTokenHash = some row)
    (hunconsumed : row.token.consumedAt = none) (hlive : now < row.token.expiresAt)
    (hunexpired : now < row.family.expiresAt) (husable : row.usable = true)
    (hcurrent : row.token.generation = row.family.currentGeneration)
    (hfree : ∀ stored ∈ db.refreshTokens, stored.tokenHash ≠ prepared.successorTokenHash) :
    rotateInTransaction server prepared now accessToken db =
      rotateCurrent server row prepared now accessToken db := by
  obtain ⟨htoken, -, hfamily, -⟩ := loadRefreshRow_eq_some hrow
  unfold rotateInTransaction
  rw [get_bind, hrow]
  dsimp only
  rw [if_neg (by simp [hlive, hunexpired]), if_neg (by simp [husable]),
    requireGeneration_of_le (generations.tokens _ htoken),
    requireGeneration_of_le (generations.families _ hfamily)]
  show (if row.token.consumedAt ≠ none then _ else if _ ≠ _ then _ else
    if (db.refreshTokens.any fun stored => stored.tokenHash = prepared.successorTokenHash) then _
    else _ : Auth RotationTransactionResult) db = _
  rw [if_neg (by simp [hunconsumed]), if_neg (not_not.mpr hcurrent), if_neg (by simpa using hfree)]

theorem rotateInTransaction_retry (generations : Generations db)
    (hrow : loadRefreshRow db prepared.currentTokenHash = some row)
    (hconsumed : row.token.consumedAt ≠ none) (hunexpired : now < row.family.expiresAt)
    (husable : row.usable = true) (hretry : exactRetry db row prepared = true)
    {access : IssuedAccess}
    (hissue : issueAccess server row.family.id row.family.userId row.family.deviceId now
      row.family.expiresAt accessToken db = .ok access db') :
    rotateInTransaction server prepared now accessToken db =
      .ok (.success ⟨access.accessExpiresAt, access.accessToken, row.family.id,
        row.token.generation + 1, true⟩) db' := by
  obtain ⟨htoken, -, hfamily, -⟩ := loadRefreshRow_eq_some hrow
  unfold rotateInTransaction
  rw [get_bind, hrow]
  dsimp only
  rw [if_neg (by simp [hconsumed, hunexpired]), if_neg (by simp [husable]),
    requireGeneration_of_le (generations.tokens _ htoken),
    requireGeneration_of_le (generations.families _ hfamily)]
  show (if row.token.consumedAt ≠ none then if exactRetry db row prepared = false then _ else _
    else _ : Auth RotationTransactionResult) db = _
  rw [if_pos hconsumed, if_neg (by simp [hretry])]
  exact (bind_of_ok hissue).trans rfl

theorem rotateInTransaction_expired
    (h : ∀ row, loadRefreshRow db prepared.currentTokenHash = some row →
      row.family.expiresAt ≤ now) :
    rotateInTransaction server prepared now accessToken db = .error .invalidRefresh db := by
  unfold rotateInTransaction
  rw [get_bind]
  cases hrow : loadRefreshRow db prepared.currentTokenHash with
  | none => rfl
  | some row =>
    dsimp only
    rw [if_pos (.inr (h row hrow))]
    rfl

end Havemind.RotationSuccess
