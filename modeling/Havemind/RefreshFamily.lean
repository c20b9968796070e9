import Havemind.Runs
import Havemind.SessionChanges

/-!
The chain of refresh tokens in every family: one token a generation, consumed
exactly when it is not the current one, each naming the hash of the next. Every
session operation keeps the chain, whatever token is presented and whatever
successor is proposed, and no family's deadline moves back.
-/
namespace Havemind.RefreshFamily

open RevisionSchema Transaction Endings Runs KeyedTable AuthTables AuthChanges SessionRepository
  SessionChanges List

structure Chains (db : AuthDatabase) : Prop where
  families_keyed : Keyed FamilyRow.id db.families
  tokens_keyed : Keyed RefreshTokenRow.id db.refreshTokens
  generations_distinct : ∀ a ∈ db.refreshTokens, ∀ b ∈ db.refreshTokens,
    a.familyId = b.familyId → a.generation = b.generation → a = b
  token_family : ∀ token ∈ db.refreshTokens, ∃ family ∈ db.families, family.id = token.familyId
  access_family : ∀ access ∈ db.accessTokens, ∃ family ∈ db.families, family.id = access.familyId
  generation_le : ∀ family ∈ db.families, ∀ token ∈ db.refreshTokens,
    token.familyId = family.id → token.generation ≤ family.currentGeneration
  generation_exists : ∀ family ∈ db.families, ∀ g ≤ family.currentGeneration,
    ∃ token ∈ db.refreshTokens, token.familyId = family.id ∧ token.generation = g
  consumed_iff : ∀ family ∈ db.families, ∀ token ∈ db.refreshTokens,
    token.familyId = family.id →
      (token.consumedAt = none ↔ token.generation = family.currentGeneration)
  successor : ∀ a ∈ db.refreshTokens, ∀ b ∈ db.refreshTokens, a.familyId = b.familyId →
    b.generation = a.generation + 1 → a.successorTokenHash = some b.tokenHash
  access_bound : ∀ access ∈ db.accessTokens, ∀ family ∈ db.families,
    family.id = access.familyId → access.expiresAt ≤ family.expiresAt

section
variable {db : AuthDatabase} {now : Timestamp} {issued : ℕ} {token successor : RefreshTokenRow}
  {family : FamilyRow} {rotationId : Token}

variable (h : Chains db)
include h

/-- Only the three session tables matter. -/
theorem Chains.congr {db' : AuthDatabase} (hfamilies : db'.families = db.families)
    (htokens : db'.refreshTokens = db.refreshTokens)
    (haccess : db'.accessTokens = db.accessTokens) : Chains db' := by
  constructor
  all_goals simp only [hfamilies, htokens, haccess]
  · exact h.families_keyed
  · exact h.tokens_keyed
  · exact h.generations_distinct
  · exact h.token_family
  · exact h.access_family
  · exact h.generation_le
  · exact h.generation_exists
  · exact h.consumed_iff
  · exact h.successor
  · exact h.access_bound

theorem Chains.opened {familyId userId deviceId tokenId : Id} {tokenHash : TokenHash}
    {expiresAt : Timestamp} (hfamily : ∀ stored ∈ db.families, stored.id ≠ familyId)
    (htoken : TokenFree db (newToken tokenId familyId 0 tokenHash now expiresAt)) :
    Chains
      { db with
        families := db.families ++ [newFamily familyId userId deviceId expiresAt]
        refreshTokens := db.refreshTokens ++ [newToken tokenId familyId 0 tokenHash now expiresAt]
        issued } := by
  have hnoToken : ∀ token ∈ db.refreshTokens, token.familyId ≠ familyId := by
    intro token hmem heq
    obtain ⟨family, hmemFamily, hid⟩ := h.token_family token hmem
    exact hfamily family hmemFamily (hid.trans heq)
  have hnoAccess : ∀ access ∈ db.accessTokens, access.familyId ≠ familyId := by
    intro access hmem heq
    obtain ⟨family, hmemFamily, hid⟩ := h.access_family access hmem
    exact hfamily family hmemFamily (hid.trans heq)
  constructor
  · exact h.families_keyed.concat hfamily
  · exact h.tokens_keyed.concat fun stored hstored => (htoken stored hstored).1
  · refine forall_concat (fun a ha => forall_concat (h.generations_distinct a ha) ?_) ?_
    · exact fun heq => absurd heq (hnoToken a ha)
    · exact forall_concat (fun b hb heq => absurd heq.symm (hnoToken b hb)) fun _ _ => rfl
  · refine forall_concat (fun token hmem => exists_concat (h.token_family token hmem)) ?_
    exact ⟨_, mem_append_right _ (mem_singleton_self _), rfl⟩
  · exact fun access hmem => exists_concat (h.access_family access hmem)
  · refine forall_concat (fun family hmem => forall_concat (h.generation_le family hmem) ?_) ?_
    · exact fun heq => absurd heq.symm (hfamily family hmem)
    · exact forall_concat (fun token hmem heq => absurd heq (hnoToken token hmem)) fun _ => Nat.le_refl _
  · refine forall_concat (fun family hmem g hg => ?_) fun g hg => ?_
    · exact exists_concat (h.generation_exists family hmem g hg)
    · refine ⟨_, mem_append_right _ (mem_singleton_self _), rfl, ?_⟩
      exact (Nat.le_zero.mp hg).symm
  · refine forall_concat (fun family hmem => forall_concat (h.consumed_iff family hmem) ?_) ?_
    · exact fun heq => absurd heq.symm (hfamily family hmem)
    · refine forall_concat (fun token hmem heq => absurd heq (hnoToken token hmem)) fun _ => ?_
      exact ⟨fun _ => rfl, fun _ => rfl⟩
  · refine forall_concat (fun a ha => forall_concat (h.successor a ha) ?_) ?_
    · exact fun heq => absurd heq (hnoToken a ha)
    · refine forall_concat (fun b hb heq => absurd heq.symm (hnoToken b hb)) fun _ hgeneration => ?_
      cases hgeneration
  · refine fun access hmem => forall_concat (h.access_bound access hmem) ?_
    exact fun heq => absurd heq.symm (hnoAccess access hmem)

theorem Chains.accessIssued {row : AccessTokenRow}
    (hfamily : ∃ family ∈ db.families, family.id = row.familyId ∧
      row.expiresAt ≤ family.expiresAt) :
    Chains { db with accessTokens := db.accessTokens ++ [row], issued } := by
  obtain ⟨family, hmem, hid, hbound⟩ := hfamily
  refine
    { h with
      access_family := forall_concat h.access_family ⟨family, hmem, hid⟩
      access_bound := forall_concat h.access_bound ?_ }
  intro other hother hotherId
  rw [h.families_keyed.eq hother hmem (hotherId.trans hid.symm)]
  exact hbound

/-- Statuses and revocation dates are no part of the chain. -/
theorem Chains.restamped {devices : List DeviceRow} {hitFamily : FamilyRow → Bool}
    {hitAccess : AccessTokenRow → Bool} {status : FamilyStatus} :
    Chains
      { db with
        devices
        families := updateWhere hitFamily
          (fun row => { row with status, revokedAt := row.revokedAt <|> some now }) db.families
        accessTokens := updateWhere hitAccess
          (fun row => { row with revokedAt := row.revokedAt <|> some now }) db.accessTokens } where
  families_keyed := h.families_keyed.updateWhere fun _ => rfl
  tokens_keyed := h.tokens_keyed
  generations_distinct := h.generations_distinct
  token_family := fun token hmem => exists_updateWhere (h.token_family token hmem) fun _ hP => hP
  access_family := by
    refine forall_updateWhere (fun access hmem => ?_) fun _ hP => hP
    exact exists_updateWhere (h.access_family access hmem) fun _ hP => hP
  generation_le := forall_updateWhere h.generation_le fun _ hP => hP
  generation_exists := forall_updateWhere h.generation_exists fun _ hP => hP
  consumed_iff := forall_updateWhere h.consumed_iff fun _ hP => hP
  successor := h.successor
  access_bound := by
    refine forall_updateWhere (fun access hmem => ?_) fun _ hP => hP
    exact forall_updateWhere (h.access_bound access hmem) fun _ hP => hP

/-- The tokens after a rotation: the others as they were, the rotated one
consumed, and its successor. -/
theorem mem_tokens_afterRotation (htoken : token ∈ db.refreshTokens)
    (hunconsumed : token.consumedAt = none) {row : RefreshTokenRow} :
    row ∈ (afterRotation db token family successor rotationId now issued).refreshTokens ↔
      (row ∈ db.refreshTokens ∧ row ≠ token) ∨
        row = { token with
          consumedAt := some now
          rotationId := some rotationId
          successorTokenHash := some successor.tokenHash } ∨
        row = successor := by
  show row ∈ updateWhere _ _ _ ++ [successor] ↔ _
  rw [mem_append, mem_singleton, mem_updateWhere_one htoken, or_assoc]
  intro stored hstored
  constructor
  · exact fun hhit => h.tokens_keyed.eq hstored htoken (of_decide_eq_true hhit).1
  · intro heq
    subst heq
    exact decide_eq_true ⟨rfl, hunconsumed⟩

theorem mem_families_afterRotation (hfamily : family ∈ db.families)
    (hactive : family.status = .active) (hcurrent : family.currentGeneration = token.generation)
    {row : FamilyRow} :
    row ∈ (afterRotation db token family successor rotationId now issued).families ↔
      (row ∈ db.families ∧ row ≠ family) ∨
        row = { family with
          currentGeneration := token.generation + 1
          expiresAt := successor.expiresAt } := by
  refine mem_updateWhere_one hfamily fun stored hstored => ⟨fun hhit => ?_, fun heq => ?_⟩
  · exact h.families_keyed.eq hstored hfamily (of_decide_eq_true hhit).1
  · subst heq
    exact decide_eq_true ⟨rfl, hactive, hcurrent⟩

theorem Chains.rotated (htoken : token ∈ db.refreshTokens) (hunconsumed : token.consumedAt = none)
    (hfamily : family ∈ db.families) (hfamilyId : family.id = token.familyId)
    (hactive : family.status = .active) (hcurrent : family.currentGeneration = token.generation)
    (hlater : family.expiresAt ≤ successor.expiresAt)
    (hsuccessor : successor = newToken successor.id family.id (token.generation + 1)
      successor.tokenHash now successor.expiresAt) (hfree : TokenFree db successor) :
    Chains (afterRotation db token family successor rotationId now issued) := by
  have hsuccessorFamily : successor.familyId = token.familyId := by rw [hsuccessor, ← hfamilyId]; rfl
  have hsuccessorGeneration : successor.generation = token.generation + 1 := by rw [hsuccessor]; rfl
  have hsuccessorConsumed : successor.consumedAt = none := by rw [hsuccessor]; rfl
  have htokens := fun row => @mem_tokens_afterRotation db now issued token successor family
    rotationId h htoken hunconsumed row
  have hfamilies := fun row => @mem_families_afterRotation db now issued token successor family
    rotationId h hfamily hactive hcurrent row
  have hother : ∀ row ∈ db.families, row ≠ family → row.id ≠ token.familyId := by
    intro row hrow hne heq
    exact hne (h.families_keyed.eq hrow hfamily (heq.trans hfamilyId.symm))
  have hbound : ∀ row ∈ db.refreshTokens, row.familyId = token.familyId →
      row.generation ≤ token.generation := by
    intro row hrow heq
    exact hcurrent ▸ h.generation_le family hfamily row hrow (heq.trans hfamilyId.symm)
  have hbelow : ∀ row ∈ db.refreshTokens, row ≠ token → row.familyId = token.familyId →
      row.generation < token.generation := by
    intro row hrow hne heq
    refine Nat.lt_of_le_of_ne (hbound row hrow heq) fun hgeneration => ?_
    exact hne (h.generations_distinct row hrow token htoken heq hgeneration)
  constructor
  · exact h.families_keyed.updateWhere fun _ => rfl
  · refine Keyed.concat (h.tokens_keyed.updateWhere fun _ => rfl) ?_
    exact forall_updateWhere (fun stored hstored => (hfree stored hstored).1) fun _ hP => hP
  · intro a hinA b hinB hfam hgen
    rcases (htokens a).mp hinA with ⟨ha, hna⟩ | rfl | rfl <;>
      rcases (htokens b).mp hinB with ⟨hb, hnb⟩ | rfl | rfl
    · exact h.generations_distinct a ha b hb hfam hgen
    · exact absurd (h.generations_distinct a ha token htoken hfam hgen) hna
    · exact absurd ⟨hfam, hgen⟩ (hfree a ha).2.2
    · exact absurd (h.generations_distinct b hb token htoken hfam.symm hgen.symm) hnb
    · rfl
    · exact absurd ⟨hfam, hgen⟩ (hfree token htoken).2.2
    · exact absurd ⟨hfam.symm, hgen.symm⟩ (hfree b hb).2.2
    · exact absurd ⟨hfam.symm, hgen.symm⟩ (hfree token htoken).2.2
    · rfl
  · refine forall_concat ?_ ?_
    · refine forall_updateWhere (fun row hrow => ?_) fun _ hP => hP
      exact exists_updateWhere (h.token_family row hrow) fun _ hP => hP
    · exact exists_updateWhere ⟨family, hfamily, hfamilyId.trans hsuccessorFamily.symm⟩ fun _ hP => hP
  · exact fun access hmem => exists_updateWhere (h.access_family access hmem) fun _ hP => hP
  · intro row hinRow other hotherMem heq
    rcases (hfamilies row).mp hinRow with ⟨hrow, hne⟩ | rfl
    · rcases (htokens other).mp hotherMem with ⟨hmem, -⟩ | rfl | rfl
      · exact h.generation_le row hrow other hmem heq
      · exact absurd heq.symm (hother row hrow hne)
      · exact absurd (heq.symm.trans hsuccessorFamily) (hother row hrow hne)
    · rcases (htokens other).mp hotherMem with ⟨hmem, -⟩ | rfl | rfl
      · exact Nat.le_succ_of_le (hbound other hmem (heq.trans hfamilyId))
      · exact Nat.le_succ _
      · exact Nat.le_of_eq hsuccessorGeneration
  · intro row hinRow g hg
    rcases (hfamilies row).mp hinRow with ⟨hrow, hne⟩ | rfl
    · obtain ⟨other, hmem, hfam, hgen⟩ := h.generation_exists row hrow g hg
      refine ⟨other, (htokens other).mpr (.inl ⟨hmem, fun heq => ?_⟩), hfam, hgen⟩
      exact hother row hrow hne (heq ▸ hfam.symm)
    · rcases Nat.le_succ_iff.mp hg with hg | rfl
      · obtain ⟨other, hmem, hfam, hgen⟩ := h.generation_exists family hfamily g (hcurrent ▸ hg)
        by_cases heq : other = token
        · exact ⟨_, (htokens _).mpr (.inr (.inl rfl)), heq ▸ hfam, heq ▸ hgen⟩
        · exact ⟨other, (htokens other).mpr (.inl ⟨hmem, heq⟩), hfam, hgen⟩
      · refine ⟨successor, (htokens _).mpr (.inr (.inr rfl)), ?_, hsuccessorGeneration⟩
        exact hsuccessorFamily.trans hfamilyId.symm
  · intro row hinRow other hotherMem heq
    rcases (hfamilies row).mp hinRow with ⟨hrow, hne⟩ | rfl
    · rcases (htokens other).mp hotherMem with ⟨hmem, -⟩ | rfl | rfl
      · exact h.consumed_iff row hrow other hmem heq
      · exact absurd heq.symm (hother row hrow hne)
      · exact absurd (heq.symm.trans hsuccessorFamily) (hother row hrow hne)
    · rcases (htokens other).mp hotherMem with ⟨hmem, hnot⟩ | rfl | rfl
      · have hlt := hbelow other hmem hnot (heq.trans hfamilyId)
        have hiff := h.consumed_iff family hfamily other hmem heq
        rw [hcurrent] at hiff
        exact ⟨fun hnone => absurd (hiff.mp hnone) (Nat.ne_of_lt hlt),
          fun hgen => absurd hgen (Nat.ne_of_lt (Nat.lt_succ_of_lt hlt))⟩
      · exact ⟨fun hnone => (nomatch hnone), fun hgen => absurd hgen (Nat.ne_of_lt (Nat.lt_succ_self _))⟩
      · exact ⟨fun _ => hsuccessorGeneration, fun _ => hsuccessorConsumed⟩
  · intro a hinA b hinB hfam hgen
    rcases (htokens a).mp hinA with ⟨ha, hna⟩ | rfl | rfl <;>
      rcases (htokens b).mp hinB with ⟨hb, hnb⟩ | rfl | rfl
    · exact h.successor a ha b hb hfam hgen
    · exact h.successor a ha token htoken hfam hgen
    · have hlt := hbelow a ha hna (hfam.trans hsuccessorFamily)
      omega
    · have hle := hbound b hb hfam.symm
      dsimp only at hgen
      omega
    · dsimp only at hgen
      omega
    · rfl
    · have hle := hbound b hb (hfam.symm.trans hsuccessorFamily)
      omega
    · dsimp only at hgen
      omega
    · omega
  · intro access haccess row hinRow heq
    rcases (hfamilies row).mp hinRow with ⟨hrow, -⟩ | rfl
    · exact h.access_bound access haccess row hrow heq
    · exact Nat.le_trans (h.access_bound access haccess family hfamily heq) hlater

end

section
variable {server : AuthServer} {db db' : AuthDatabase} {now : Timestamp} {userId deviceId : Id}
  {accessToken : Token}

/-- Every family is still there, with no earlier deadline. -/
def Later (db db' : AuthDatabase) : Prop :=
  ∀ family ∈ db.families, ∃ later ∈ db'.families,
    later.id = family.id ∧ family.expiresAt ≤ later.expiresAt

theorem Later.refl (db : AuthDatabase) : Later db db :=
  fun family hfamily => ⟨family, hfamily, rfl, Nat.le_refl _⟩

theorem Later.trans {db'' : AuthDatabase} (h : Later db db') (h' : Later db' db'') :
    Later db db'' := by
  intro family hfamily
  obtain ⟨next, hnext, hid, hle⟩ := h family hfamily
  obtain ⟨last, hlast, hid', hle'⟩ := h' next hnext
  exact ⟨last, hlast, hid'.trans hid, Nat.le_trans hle hle'⟩

theorem createFamily_keeps {tokenHash : TokenHash} {refreshTtl : ℕ} {result : InitialFamilyResult}
    (chains : Chains db)
    (h : createFamily server userId deviceId tokenHash refreshTtl now db = .ok result db') :
    Chains db' ∧ Later db db' ∧
      newFamily result.familyId userId deviceId result.refreshExpiresAt ∈ db'.families := by
  obtain ⟨-, -, hfamily, -, htoken, rfl⟩ := createFamily_eq_ok h
  refine ⟨chains.opened hfamily htoken, fun family hmem => ?_, ?_⟩
  · exact ⟨family, mem_append_left _ hmem, rfl, Nat.le_refl _⟩
  · exact mem_append_right _ (mem_singleton_self _)

theorem issueAccess_keeps {family : FamilyRow} {access : IssuedAccess} (chains : Chains db)
    (hfamily : family ∈ db.families)
    (h : issueAccess server family.id userId deviceId now family.expiresAt accessToken db =
      .ok access db') : Chains db' ∧ Later db db' := by
  obtain ⟨-, hle, -, rfl⟩ := issueAccess_eq_ok h
  exact ⟨chains.accessIssued ⟨family, hfamily, rfl, hle⟩, Later.refl db⟩

theorem rotateInTransaction_keeps {prepared : PreparedRotation}
    {result : RotationTransactionResult} (chains : Chains db)
    (h : rotateInTransaction server prepared now accessToken db = .ok result db') :
    Chains db' ∧ Later db db' := by
  obtain ⟨row, hrow, -, husable, hend⟩ := rotateInTransaction_eq_ok h
  obtain ⟨htoken, -, hfamily, hid, -⟩ := loadRefreshRow_eq_some hrow
  rcases hend with ⟨-, -, access, haccess, -⟩ | ⟨hunconsumed, hcurrent, -, hrotate⟩ | ⟨-, rfl, -⟩
  · exact issueAccess_keeps chains hfamily haccess
  · obtain ⟨successor, access, hsuccessor, hlater, -, hfree, haccess, -⟩ :=
      rotateCurrent_eq_ok hrotate
    have hactive : row.family.status = .active := (of_decide_eq_true husable).1
    have hhash : successor.tokenHash = prepared.successorTokenHash := by rw [hsuccessor]; rfl
    have hrotated : Chains (afterRotation db row.token row.family successor prepared.rotationId now
        (db.issued + 1)) :=
      chains.rotated htoken hunconsumed hfamily hid hactive hcurrent.symm hlater
        (hhash ▸ hsuccessor) hfree
    have hfamilies : ∀ other, other ∈ (afterRotation db row.token row.family successor
        prepared.rotationId now (db.issued + 1)).families ↔ _ := fun other =>
      mem_families_afterRotation chains hfamily hactive hcurrent.symm
    have hadvanced := (hfamilies _).mpr (.inr rfl)
    obtain ⟨hchains, -⟩ := issueAccess_keeps hrotated hadvanced haccess
    obtain ⟨-, -, -, rfl⟩ := issueAccess_eq_ok haccess
    refine ⟨hchains, fun family hmem => ?_⟩
    by_cases heq : family = row.family
    · exact ⟨_, hadvanced, heq ▸ rfl, heq ▸ hlater⟩
    · exact ⟨family, (hfamilies family).mpr (.inl ⟨hmem, heq⟩), rfl, Nat.le_refl _⟩
  · refine ⟨chains.restamped, fun family hmem => ?_⟩
    exact exists_updateWhere ⟨family, hmem, rfl, Nat.le_refl _⟩ fun _ hP => hP

end

/-- One call on the session repository, with everything it is given; or any change
to the accounts it joins with. -/
inductive SessionAction
  | createInitialSession (userId deviceId : Id) (initialRefreshToken : Option Token)
      (refreshTtl : ℕ) (now : Option Timestamp) (accessToken : Token)
  | createInitialFamilyFromHash (userId deviceId : Id) (refreshTokenHash : Option TokenHash)
      (refreshTtl : ℕ) (now : Option Timestamp)
  | rotateRefresh (input : RotateRefreshInput) (now : Option Timestamp) (accessToken : Token)
  | revokeDevice (deviceId : Id) (now : Option Timestamp)
  | setAccounts (users : List UserRow) (devices : List DeviceRow)

/-- Session creation runs inside a transaction of its caller. -/
def sessionStep (server : AuthServer) (db : AuthDatabase) : SessionAction → Option AuthDatabase
  | .createInitialSession userId deviceId initialRefreshToken refreshTtl now accessToken =>
    some (storeAfter (transaction (createInitialSessionInCurrentTransaction server userId deviceId
      initialRefreshToken refreshTtl now accessToken)) db)
  | .createInitialFamilyFromHash userId deviceId refreshTokenHash refreshTtl now =>
    some (storeAfter (transaction (createInitialFamilyFromHashInCurrentTransaction server userId
      deviceId refreshTokenHash refreshTtl now)) db)
  | .rotateRefresh input now accessToken =>
    some (storeAfter (rotateRefresh server input now accessToken) db)
  | .revokeDevice deviceId now =>
    some (storeAfter (transaction (revokeDeviceInCurrentTransaction deviceId now)) db)
  | .setAccounts users devices => some { db with users, devices }

variable {server : AuthServer} {db db' start s t : AuthDatabase}

theorem transaction_storeAfter {α : Type} {P : AuthDatabase → Prop} {x : Auth α} (h : P db)
    (hok : ∀ a db', x db = .ok a db' → P db') : P (storeAfter (transaction x) db) :=
  Ends.storeAfter (ends_transaction hok fun _ => h)

theorem sessionStep_keeps {action : SessionAction} (chains : Chains db)
    (h : sessionStep server db action = some db') : Chains db' ∧ Later db db' := by
  have hstay : Chains db ∧ Later db db := ⟨chains, Later.refl db⟩
  cases action with
  | createInitialSession =>
    cases h
    refine transaction_storeAfter (P := fun next => Chains next ∧ Later db next) hstay
      fun result db' hresult => ?_
    obtain ⟨_, _, family, access, mid, -, -, hfamily, haccess⟩ := createInitialSession_eq_ok hresult
    obtain ⟨hchains, hlater, hmem⟩ := createFamily_keeps chains hfamily
    obtain ⟨hchains', hlater'⟩ := issueAccess_keeps hchains hmem haccess
    exact ⟨hchains', hlater.trans hlater'⟩
  | createInitialFamilyFromHash =>
    cases h
    refine transaction_storeAfter (P := fun next => Chains next ∧ Later db next) hstay
      fun result db' hresult => ?_
    obtain ⟨_, _, -, -, hfamily⟩ := createInitialFamilyFromHash_eq_ok hresult
    obtain ⟨hchains, hlater, -⟩ := createFamily_keeps chains hfamily
    exact ⟨hchains, hlater⟩
  | rotateRefresh =>
    cases h
    exact rotateRefresh_storeAfter (P := fun next => Chains next ∧ Later db next) hstay
      fun _ _ _ _ _ _ hresult => rotateInTransaction_keeps chains hresult
  | revokeDevice deviceId clock =>
    cases h
    refine transaction_storeAfter (P := fun next => Chains next ∧ Later db next) hstay
      fun result db' hresult => ?_
    unfold revokeDeviceInCurrentTransaction at hresult
    obtain ⟨now, -, hresult⟩ := check_bind_eq_ok.mp hresult
    cases hresult
    refine ⟨chains.restamped, fun family hmem => ?_⟩
    exact exists_updateWhere ⟨family, hmem, rfl, Nat.le_refl _⟩ fun _ hP => hP
  | setAccounts =>
    cases h
    exact ⟨chains.congr rfl rfl rfl, hstay.2⟩

theorem chains_of_no_session (hfamilies : db.families = []) (htokens : db.refreshTokens = [])
    (haccess : db.accessTokens = []) : Chains db := by
  constructor
  all_goals simp [hfamilies, htokens, haccess, Keyed]

theorem Chains.reached (chains : Chains s)
    (h : Reached (sessionStep server) (fun _ _ => True) s t) : Chains t ∧ Later s t := by
  refine h.invariant (P := fun next => Chains next ∧ Later s next) ⟨chains, Later.refl s⟩ ?_
  intro mid action next hmid _ hstep
  obtain ⟨hchains, hlater⟩ := sessionStep_keeps hmid.1 hstep
  exact ⟨hchains, hmid.2.trans hlater⟩

def tokensOf (db : AuthDatabase) (familyId : Id) : List RefreshTokenRow :=
  db.refreshTokens.filter fun row => row.familyId = familyId

/-- The law of one family. -/
structure FamilyLaw (db : AuthDatabase) (family : FamilyRow) : Prop where
  /-- The tokens carry exactly the generations up to the current one. -/
  generations : ((tokensOf db family.id).map RefreshTokenRow.generation).Perm
    (List.range (family.currentGeneration + 1))
  /-- One token is not consumed, the current one. -/
  current : ∃ token, ((tokensOf db family.id).filter fun row => row.consumedAt = none) = [token] ∧
    token.generation = family.currentGeneration
  successors : ∀ a ∈ tokensOf db family.id, ∀ b ∈ tokensOf db family.id,
    b.generation = a.generation + 1 → a.successorTokenHash = some b.tokenHash
  access : ∀ access ∈ db.accessTokens, access.familyId = family.id →
    access.expiresAt ≤ family.expiresAt

theorem mem_tokensOf {familyId : Id} {row : RefreshTokenRow} :
    row ∈ tokensOf db familyId ↔ row ∈ db.refreshTokens ∧ row.familyId = familyId := by
  simp [tokensOf]

theorem Chains.familyLaw (h : Chains db) {family : FamilyRow} (hfamily : family ∈ db.families) :
    FamilyLaw db family := by
  have hnodup : (tokensOf db family.id).Nodup :=
    (List.Nodup.of_map _ h.tokens_keyed).filter _
  have hgenerations : ((tokensOf db family.id).map RefreshTokenRow.generation).Nodup := by
    refine hnodup.map_on fun a ha b hb heq => ?_
    obtain ⟨ha, hfamA⟩ := mem_tokensOf.mp ha
    obtain ⟨hb, hfamB⟩ := mem_tokensOf.mp hb
    exact h.generations_distinct a ha b hb (hfamA.trans hfamB.symm) heq
  refine ⟨?_, ?_, ?_, ?_⟩
  · refine (perm_ext_iff_of_nodup hgenerations nodup_range).mpr fun g => ?_
    rw [mem_map, mem_range, Nat.lt_succ_iff]
    constructor
    · intro hmem
      obtain ⟨token, htoken, rfl⟩ := hmem
      obtain ⟨hstored, hid⟩ := mem_tokensOf.mp htoken
      exact h.generation_le family hfamily token hstored hid
    · intro hle
      obtain ⟨token, htoken, hid, hg⟩ := h.generation_exists family hfamily g hle
      exact ⟨token, mem_tokensOf.mpr ⟨htoken, hid⟩, hg⟩
  · obtain ⟨token, htoken, hid, hg⟩ :=
      h.generation_exists family hfamily family.currentGeneration (Nat.le_refl _)
    refine ⟨token, perm_singleton.mp ?_, hg⟩
    refine (perm_ext_iff_of_nodup (hnodup.filter _) (nodup_singleton _)).mpr fun row => ?_
    rw [mem_filter, mem_singleton, mem_tokensOf, decide_eq_true_iff]
    constructor
    · intro hrow
      obtain ⟨⟨hstored, hrowId⟩, hnone⟩ := hrow
      have hrowG := (h.consumed_iff family hfamily row hstored hrowId).mp hnone
      exact h.generations_distinct row hstored token htoken (hrowId.trans hid.symm)
        (hrowG.trans hg.symm)
    · intro heq
      subst heq
      exact ⟨⟨htoken, hid⟩, (h.consumed_iff family hfamily row htoken hid).mpr hg⟩
  · intro a ha b hb
    obtain ⟨ha, hfamA⟩ := mem_tokensOf.mp ha
    obtain ⟨hb, hfamB⟩ := mem_tokensOf.mp hb
    exact h.successor a ha b hb (hfamA.trans hfamB.symm)
  · exact fun access haccess hid => h.access_bound access haccess family hfamily hid.symm

/-- However sessions are created and rotated from a database without any, every
family obeys its law at every moment, and between two moments it neither
disappears nor loses lifetime. -/
theorem refreshFamily_law
    (hstart : start.families = [] ∧ start.refreshTokens = [] ∧ start.accessTokens = [])
    (hs : Reached (sessionStep server) (fun _ _ => True) start s)
    (ht : Reached (sessionStep server) (fun _ _ => True) s t) :
    (∀ family ∈ t.families, FamilyLaw t family) ∧
      ∀ family ∈ s.families, ∃ later ∈ t.families,
        later.id = family.id ∧ family.expiresAt ≤ later.expiresAt := by
  have hchains := (chains_of_no_session hstart.1 hstart.2.1 hstart.2.2).reached hs
  obtain ⟨hchains', hlater⟩ := hchains.1.reached ht
  exact ⟨fun family hfamily => hchains'.familyLaw hfamily, hlater⟩

/-- One approved device of one active user. -/
def oneDevice : AuthDatabase :=
  { AuthDatabase.empty with
    users := [⟨0, [], false, .active⟩]
    devices := [⟨1, 0, .approved, some 0, none, none, none⟩]
    issued := 2 }

def oneSession : AuthDatabase :=
  storeAfter (transaction (createInitialFamilyFromHashInCurrentTransaction plainServer 0 1 (some 7)
    3600 (some 0))) oneDevice

def oneRotation : AuthDatabase :=
  storeAfter (rotateRefresh plainServer ⟨some 7, some 1, some 8⟩ (some 1000) 50) oneSession

theorem refreshFamily_law_oneRotation :
    (oneRotation.families.map FamilyRow.currentGeneration = [1] ∧
      oneRotation.families.map FamilyRow.expiresAt = [3601000]) ∧
    (∀ family ∈ oneRotation.families, FamilyLaw oneRotation family) ∧
      ∀ family ∈ oneSession.families, ∃ later ∈ oneRotation.families,
        later.id = family.id ∧ family.expiresAt ≤ later.expiresAt :=
  have hcreated : sessionStep plainServer oneDevice
      (.createInitialFamilyFromHash 0 1 (some 7) 3600 (some 0)) = some oneSession := rfl
  have hrotated : sessionStep plainServer oneSession
      (.rotateRefresh ⟨some 7, some 1, some 8⟩ (some 1000) 50) = some oneRotation := rfl
  ⟨by decide, refreshFamily_law ⟨rfl, rfl, rfl⟩
    (.step .start trivial hcreated) (.step .start trivial hrotated)⟩

end Havemind.RefreshFamily
