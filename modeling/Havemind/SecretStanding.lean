import Havemind.RotationAnswers

/-!
Where an honest client stands. The stored refresh token is the family's current
one, or it is consumed and the stored record repeats that rotation exactly, and
the phase of the rotation agrees with it. Neither a step of the client nor a
request the server processes leaves these cases before the deadline, and none
brings a token of another family into the client's hands.
-/
namespace Havemind.SecretStanding

open RevisionSchema Endings KeyedTable AuthTables AuthChanges Option SessionRepository RefreshFamily
  RotationSuccess AccessToken RotationAnswers

/-- No two draws coincide and no two tokens share a digest. -/
structure Distinct (server : AuthServer) (generators : Generators) : Prop where
  hashes : Function.Injective server.hashToken
  successors : Function.Injective generators.successorToken
  accesses : Function.Injective generators.accessToken

section
variable (server : AuthServer) (generators : Generators) (familyId : Id) (w : World)

def Phase.token : Phase → Option Token
  | .loadingPending refreshToken => some refreshToken
  | _ => none

def Phase.record : Phase → Option PendingRotation
  | .savingPending record | .sending record | .requesting record | .savingToken record _ =>
    some record
  | _ => none

structure OwnRecord (db : AuthDatabase) (minted : ℕ) (record : PendingRotation) : Prop where
  current : Own server db familyId record.refreshToken
  successor : Own server db familyId record.successorRefreshToken
  minted : ∃ k < minted, generators.successorToken k = record.successorRefreshToken

/-- Everything the client can still present. -/
structure Holdings : Prop where
  stored : ∀ token ∈ w.refreshToken, Own server w.db familyId token
  loading : ∀ token ∈ Phase.token w.phase, Own server w.db familyId token
  pending : ∀ record ∈ w.pendingRotation,
    OwnRecord server generators familyId w.db w.minted record
  request : ∀ record ∈ w.request, OwnRecord server generators familyId w.db w.minted record
  inFlight : ∀ record ∈ Phase.record w.phase,
    OwnRecord server generators familyId w.db w.minted record

/-- How far a rotation of the current token can be. -/
def CurrentPhase (token : Token) : Phase → Prop
  | .idle | .readingToken => True
  | .loadingPending loaded => loaded = token
  | .savingPending record =>
    record.refreshToken = token ∧ SuccessorFree server w.db record.successorRefreshToken ∧
      w.request = none
  | .sending record => w.pendingRotation = some record ∧ record.refreshToken = token
  | .requesting record =>
    w.pendingRotation = some record ∧ record.refreshToken = token ∧
      (w.answer = none ∨ w.answer = some .unauthenticated ∧ w.request = none)
  | .savingToken _ _ => False
  | .clearingPending _ => w.request = none

/-- The stored token is not consumed, and only the stored record is on its way. -/
structure Current (token : Token) (row : RefreshTokenRow) : Prop where
  stored : w.refreshToken = some token
  row_mem : row ∈ w.db.refreshTokens
  hash : row.tokenHash = server.hashToken token
  family : row.familyId = familyId
  unconsumed : row.consumedAt = none
  pending : ∀ record ∈ w.pendingRotation, record.refreshToken = token →
    SuccessorFree server w.db record.successorRefreshToken
  request : ∀ record ∈ w.request, w.pendingRotation = some record ∧ record.refreshToken = token
  phase : CurrentPhase server w token w.phase

/-- How far a repetition of the recorded rotation can be. -/
def RotatedPhase (record : PendingRotation) : Phase → Prop
  | .idle | .readingToken => True
  | .loadingPending token => token = record.refreshToken
  | .savingPending _ => False
  | .sending sent => sent = record
  | .requesting sent =>
    sent = record ∧
      (w.answer = none ∨ ∃ access, w.answer = some (.ok access) ∧ w.request = none)
  | .savingToken sent _ => sent = record ∧ w.request = none
  | .clearingPending _ => False

/-- The stored token is consumed, by the rotation the stored record repeats. -/
structure Rotated (record : PendingRotation) (row successor : RefreshTokenRow) : Prop where
  stored : w.refreshToken = some record.refreshToken
  pending : w.pendingRotation = some record
  row_mem : row ∈ w.db.refreshTokens
  hash : row.tokenHash = server.hashToken record.refreshToken
  family : row.familyId = familyId
  consumed : row.consumedAt ≠ none
  rotation : row.rotationId = some record.rotationId
  successorHash : row.successorTokenHash = some (server.hashToken record.successorRefreshToken)
  successor_mem : successor ∈ w.db.refreshTokens
  successor_hash : successor.tokenHash = server.hashToken record.successorRefreshToken
  successor_family : successor.familyId = familyId
  next : successor.generation = row.generation + 1
  successor_unconsumed : successor.consumedAt = none
  request : ∀ sent ∈ w.request, sent = record
  phase : RotatedPhase w record w.phase

/-- The server has not consumed the token. -/
def Fresh (db : AuthDatabase) (token : Token) : Prop :=
  ∀ row ∈ db.refreshTokens, row.tokenHash = server.hashToken token → row.consumedAt = none

instance (db : AuthDatabase) (token : Token) : Decidable (Fresh server db token) :=
  inferInstanceAs (Decidable (∀ row ∈ db.refreshTokens, _ → _))

inductive Standing (family : FamilyRow) : Prop
  | expired (deadline : family.expiresAt ≤ w.now)
  | current {token : Token} {row : RefreshTokenRow}
      (current : Current server familyId w token row)
  | rotated {record : PendingRotation} {row successor : RefreshTokenRow}
      (rotated : Rotated server familyId w record row successor)

/-- Where an unexpired session stands. -/
inductive Anchored : Prop
  | current {token : Token} {row : RefreshTokenRow}
      (current : Current server familyId w token row)
  | rotated {record : PendingRotation} {row successor : RefreshTokenRow}
      (rotated : Rotated server familyId w record row successor)

structure Survives (family : FamilyRow) : Prop where
  room : Roomy w.now
  serviceable : Serviceable server w.db family
  standing : Standing server family.id w family
  holdings : Holdings server generators family.id w
  successors_free : ∀ k, w.minted ≤ k → SuccessorFree server w.db (generators.successorToken k)
  access_free : ∀ k, w.served ≤ k → AccessFree server w.db (generators.accessToken k)

end

section
variable {server : AuthServer} {generators : Generators} {familyId : Id} {w w' : World}
  {token : Token} {row successor : RefreshTokenRow} {record : PendingRotation} {written : Bool}

theorem Current.proceed (h : Current server familyId w token row)
    (hfree : SuccessorFree server w.db (generators.successorToken w.minted))
    (hstep : proceed generators w = some w') : Current server familyId w' token row := by
  have hphase := h.phase
  unfold AccessToken.proceed at hstep
  cases hat : w.phase with
  | idle =>
    rw [hat] at hstep
    cases hstep
  | readingToken =>
    rw [hat, h.stored] at hstep
    cases hstep
    exact { h with stored := rfl, phase := rfl }
  | loadingPending loaded =>
    rw [hat] at hstep hphase
    cases hstep
    obtain rfl : loaded = token := hphase
    unfold resolvePendingRotation
    cases hmatch : w.pendingRotation.filter fun record => record.refreshToken = loaded with
    | some record =>
      obtain ⟨hpending, hrecord⟩ := filter_eq_some_iff.mp hmatch
      exact { h with phase := ⟨hpending, of_decide_eq_true hrecord⟩ }
    | none =>
      have hnone : w.request = none := by
        refine Option.eq_none_iff_forall_ne_some.mpr fun sent hsent => ?_
        obtain ⟨hpending, hrecord⟩ := h.request sent hsent
        rw [hpending, Option.filter_some, if_pos (decide_eq_true hrecord)] at hmatch
        cases hmatch
      exact { h with phase := ⟨rfl, hfree, hnone⟩ }
  | savingPending record =>
    rw [hat] at hstep hphase
    cases hstep
    obtain ⟨hrecord, hunknown, hnone⟩ := hphase
    refine { h with pending := ?_, request := ?_, phase := ⟨rfl, hrecord⟩ }
    · intro saved hsaved _
      cases hsaved
      exact hunknown
    · intro sent hsent
      rw [hnone] at hsent
      cases hsent
  | sending record =>
    rw [hat] at hstep hphase
    cases hstep
    refine { h with request := ?_, phase := ⟨hphase.1, hphase.2, .inl rfl⟩ }
    intro sent hsent
    cases hsent
    exact hphase
  | requesting record =>
    rw [hat] at hstep hphase
    obtain ⟨answer, hanswer, rfl⟩ := map_eq_some_iff.mp hstep
    rcases hphase.2.2 with hnone | ⟨hdenied, hrequest⟩
    · rw [hnone] at hanswer
      cases hanswer
    · rw [hdenied] at hanswer
      cases hanswer
      exact { h with phase := hrequest }
  | savingToken record access =>
    rw [hat] at hphase
    exact hphase.elim
  | clearingPending granted =>
    rw [hat] at hstep hphase
    cases hstep
    refine { h with pending := fun _ hsaved => (nomatch hsaved), request := ?_, phase := trivial }
    intro sent hsent
    rw [show w.request = none from hphase] at hsent
    cases hsent

theorem Current.reject (h : Current server familyId w token row)
    (hstep : reject written w = some w') : Current server familyId w' token row := by
  have hphase := h.phase
  unfold AccessToken.reject at hstep
  cases hat : w.phase with
  | idle =>
    rw [hat] at hstep
    cases hstep
  | readingToken | loadingPending _ | sending _ | requesting _ =>
    rw [hat] at hstep
    cases hstep
    exact { h with phase := trivial }
  | savingPending record =>
    rw [hat] at hstep hphase
    cases hstep
    obtain ⟨hrecord, hunknown, hnone⟩ := hphase
    refine { h with pending := ?_, request := ?_, phase := trivial }
    · intro saved hsaved hsame
      cases written with
      | false => exact h.pending saved hsaved hsame
      | true =>
        cases hsaved
        exact hunknown
    · intro sent hsent
      rw [hnone] at hsent
      cases hsent
  | savingToken record access =>
    rw [hat] at hphase
    exact hphase.elim
  | clearingPending granted =>
    rw [hat] at hstep hphase
    cases hstep
    refine { h with pending := ?_, request := ?_, phase := trivial }
    · intro saved hsaved hsame
      cases written with
      | false => exact h.pending saved hsaved hsame
      | true => cases hsaved
    · intro sent hsent
      rw [show w.request = none from hphase] at hsent
      cases hsent

theorem Current.getAccessToken (h : Current server familyId w token row) (clock : Timestamp) :
    Current server familyId (getAccessToken clock w) token row := by
  unfold AccessToken.getAccessToken
  split
  · exact h
  split
  · exact { h with phase := trivial }
  · exact h

theorem Current.restart (h : Current server familyId w token row) :
    Current server familyId (restart w) token row := { h with phase := trivial }

/-- Once the successor is stored, it is the current token. -/
theorem Rotated.advance (h : Rotated server familyId w record row successor)
    (hashes : Keyed RefreshTokenRow.tokenHash w.db.refreshTokens) (hnone : w.request = none)
    (phase : Phase) (hphase : CurrentPhase server w record.successorRefreshToken phase) :
    Current server familyId
      { w with refreshToken := some record.successorRefreshToken, phase }
      record.successorRefreshToken successor where
  stored := rfl
  row_mem := h.successor_mem
  hash := h.successor_hash
  family := h.successor_family
  unconsumed := h.successor_unconsumed
  pending := by
    intro saved hsaved hsame
    cases h.pending.symm.trans hsaved
    have hrow := hashes.eq h.row_mem h.successor_mem
      (h.hash.trans (hsame ▸ h.successor_hash.symm))
    exact absurd (hrow ▸ h.successor_unconsumed) h.consumed
  request := by
    intro sent hsent
    cases hnone.symm.trans hsent
  phase := by
    cases phase <;> exact hphase

theorem Rotated.proceed (h : Rotated server familyId w record row successor)
    (hashes : Keyed RefreshTokenRow.tokenHash w.db.refreshTokens)
    (hstep : proceed generators w = some w') :
    Rotated server familyId w' record row successor ∨
      Current server familyId w' record.successorRefreshToken successor := by
  have hphase := h.phase
  unfold AccessToken.proceed at hstep
  cases hat : w.phase with
  | idle =>
    rw [hat] at hstep
    cases hstep
  | readingToken =>
    rw [hat, h.stored] at hstep
    cases hstep
    exact .inl { h with stored := rfl, phase := rfl }
  | loadingPending loaded =>
    rw [hat] at hstep hphase
    cases hstep
    obtain rfl : loaded = record.refreshToken := hphase
    unfold resolvePendingRotation
    rw [h.pending, Option.filter_some, if_pos (decide_eq_true rfl)]
    exact .inl { h with pending := rfl, phase := rfl }
  | savingPending saving =>
    rw [hat] at hphase
    exact hphase.elim
  | sending sent =>
    rw [hat] at hstep hphase
    cases hstep
    obtain rfl : sent = record := hphase
    refine .inl { h with request := fun other hother => ?_, phase := ⟨rfl, .inl rfl⟩ }
    cases hother
    rfl
  | requesting sent =>
    rw [hat] at hstep hphase
    obtain ⟨answer, hanswer, rfl⟩ := map_eq_some_iff.mp hstep
    rcases hphase.2 with hnone | ⟨access, hgranted, hrequest⟩
    · rw [hnone] at hanswer
      cases hanswer
    · rw [hgranted] at hanswer
      cases hanswer
      exact .inl { h with phase := ⟨hphase.1, hrequest⟩ }
  | savingToken sent access =>
    rw [hat] at hstep hphase
    cases hstep
    obtain ⟨rfl, hnone⟩ := hphase
    exact .inr (h.advance hashes hnone _ hnone)
  | clearingPending granted =>
    rw [hat] at hphase
    exact hphase.elim

theorem Rotated.reject (h : Rotated server familyId w record row successor)
    (hashes : Keyed RefreshTokenRow.tokenHash w.db.refreshTokens)
    (hstep : reject written w = some w') :
    Rotated server familyId w' record row successor ∨
      Current server familyId w' record.successorRefreshToken successor := by
  have hphase := h.phase
  unfold AccessToken.reject at hstep
  cases hat : w.phase with
  | idle =>
    rw [hat] at hstep
    cases hstep
  | readingToken | loadingPending _ | sending _ | requesting _ =>
    rw [hat] at hstep
    cases hstep
    exact .inl { h with phase := trivial }
  | savingPending _ | clearingPending _ =>
    rw [hat] at hphase
    exact hphase.elim
  | savingToken sent access =>
    rw [hat] at hstep hphase
    cases hstep
    obtain ⟨rfl, hnone⟩ := hphase
    cases written with
    | false => exact .inl { h with phase := trivial }
    | true => exact .inr (h.advance hashes hnone .idle trivial)

theorem Rotated.getAccessToken (h : Rotated server familyId w record row successor)
    (clock : Timestamp) : Rotated server familyId (getAccessToken clock w) record row successor := by
  unfold AccessToken.getAccessToken
  split
  · exact h
  split
  · exact { h with phase := trivial }
  · exact h

theorem Rotated.restart (h : Rotated server familyId w record row successor) :
    Rotated server familyId (restart w) record row successor := { h with phase := trivial }

theorem Anchored.proceed (h : Anchored server familyId w)
    (hashes : Keyed RefreshTokenRow.tokenHash w.db.refreshTokens)
    (hfree : SuccessorFree server w.db (generators.successorToken w.minted))
    (hstep : proceed generators w = some w') : Anchored server familyId w' := by
  cases h with
  | current current => exact .current (current.proceed hfree hstep)
  | rotated rotated =>
    rcases rotated.proceed hashes hstep with rotated | current
    · exact .rotated rotated
    · exact .current current

theorem Anchored.reject (h : Anchored server familyId w)
    (hashes : Keyed RefreshTokenRow.tokenHash w.db.refreshTokens)
    (hstep : reject written w = some w') : Anchored server familyId w' := by
  cases h with
  | current current => exact .current (current.reject hstep)
  | rotated rotated =>
    rcases rotated.reject hashes hstep with rotated | current
    · exact .rotated rotated
    · exact .current current

theorem Anchored.getAccessToken (h : Anchored server familyId w) (clock : Timestamp) :
    Anchored server familyId (getAccessToken clock w) := by
  cases h with
  | current current => exact .current (current.getAccessToken clock)
  | rotated rotated => exact .rotated (rotated.getAccessToken clock)

theorem Anchored.restart (h : Anchored server familyId w) :
    Anchored server familyId (restart w) := by
  cases h with
  | current current => exact .current current.restart
  | rotated rotated => exact .rotated rotated.restart

theorem Anchored.tick (h : Anchored server familyId w) (now : Timestamp) :
    Anchored server familyId { w with now } := by
  cases h with
  | current current => exact .current { current with phase := current.phase }
  | rotated rotated => exact .rotated { rotated with phase := rotated.phase }

theorem Anchored.standing (h : Anchored server familyId w) (family : FamilyRow) :
    Standing server familyId w family := by
  cases h with
  | current current => exact .current current
  | rotated rotated => exact .rotated rotated

/-- A deadline that has passed stays passed. -/
theorem Standing.follow {family : FamilyRow} (h : Standing server familyId w family)
    (hlater : w.now ≤ w'.now)
    (hnext : Anchored server familyId w → Anchored server familyId w') :
    Standing server familyId w' family := by
  cases h with
  | expired hexpired => exact .expired (Nat.le_trans hexpired hlater)
  | current current => exact (hnext (.current current)).standing family
  | rotated rotated => exact (hnext (.rotated rotated)).standing family

theorem Holdings.proceed (h : Holdings server generators familyId w)
    (hfree : SuccessorFree server w.db (generators.successorToken w.minted))
    (hstep : proceed generators w = some w') : Holdings server generators familyId w' := by
  have hinFlight := h.inFlight
  have hloading := h.loading
  unfold AccessToken.proceed at hstep
  cases hat : w.phase with
  | idle =>
    rw [hat] at hstep
    cases hstep
  | readingToken =>
    rw [hat] at hstep
    cases hstored : w.refreshToken with
    | none =>
      rw [hstored] at hstep
      cases hstep
      refine { h with stored := ?_, loading := ?_, inFlight := ?_ } <;>
        exact fun _ hsome => nomatch hsome
    | some token =>
      have htoken := h.stored token hstored
      rw [hstored] at hstep
      cases hstep
      refine { h with stored := ?_, loading := ?_, inFlight := fun _ hsome => (nomatch hsome) }
      · exact fun _ hsome => some.inj hsome ▸ htoken
      · exact fun _ hsome => some.inj hsome ▸ htoken
  | loadingPending loaded =>
    rw [hat] at hstep hloading
    cases hstep
    unfold resolvePendingRotation
    cases hmatch : w.pendingRotation.filter fun record => record.refreshToken = loaded with
    | some record =>
      obtain ⟨hpending, -⟩ := filter_eq_some_iff.mp hmatch
      refine { h with loading := fun _ hsome => (nomatch hsome), inFlight := fun _ hsome => ?_ }
      exact some.inj hsome ▸ h.pending record hpending
    | none =>
      have hmore : ∀ record, OwnRecord server generators familyId w.db w.minted record →
          OwnRecord server generators familyId w.db (w.minted + 1) record := by
        intro record hrecord
        obtain ⟨k, hlt, hk⟩ := hrecord.minted
        exact { hrecord with minted := ⟨k, Nat.lt_succ_of_lt hlt, hk⟩ }
      refine
        { h with
          loading := fun _ hsome => (nomatch hsome)
          pending := fun record hrecord => hmore record (h.pending record hrecord)
          request := fun record hrecord => hmore record (h.request record hrecord)
          inFlight := fun record hrecord => ?_ }
      · cases hrecord
        refine ⟨hloading loaded rfl, fun row hrow hhash => absurd hhash (hfree row hrow), ?_⟩
        exact ⟨w.minted, Nat.lt_succ_self _, rfl⟩
  | savingPending record =>
    rw [hat] at hstep hinFlight
    cases hstep
    refine { h with loading := fun _ hsome => (nomatch hsome), pending := ?_, inFlight := ?_ }
    · exact fun _ hsome => some.inj hsome ▸ hinFlight record rfl
    · exact fun _ hsome => some.inj hsome ▸ hinFlight record rfl
  | sending record =>
    rw [hat] at hstep hinFlight
    cases hstep
    refine { h with loading := fun _ hsome => (nomatch hsome), request := ?_, inFlight := ?_ }
    · exact fun _ hsome => some.inj hsome ▸ hinFlight record rfl
    · exact fun _ hsome => some.inj hsome ▸ hinFlight record rfl
  | requesting record =>
    rw [hat] at hstep hinFlight
    obtain ⟨answer, -, rfl⟩ := map_eq_some_iff.mp hstep
    cases answer with
    | ok access =>
      exact { h with loading := fun _ hsome => (nomatch hsome), inFlight := hinFlight }
    | unauthenticated =>
      refine { h with loading := ?_, inFlight := ?_ } <;> exact fun _ hsome => nomatch hsome
  | savingToken record access =>
    rw [hat] at hstep hinFlight
    cases hstep
    have hown := hinFlight record rfl
    refine
      { h with
        stored := fun _ hsome => some.inj hsome ▸ hown.successor
        loading := fun _ hsome => (nomatch hsome)
        inFlight := fun _ hsome => (nomatch hsome) }
  | clearingPending granted =>
    rw [hat] at hstep
    cases hstep
    refine { h with loading := ?_, pending := ?_, inFlight := ?_ } <;>
      exact fun _ hsome => nomatch hsome

theorem Holdings.reject (h : Holdings server generators familyId w)
    (hstep : reject written w = some w') : Holdings server generators familyId w' := by
  have hinFlight := h.inFlight
  unfold AccessToken.reject at hstep
  cases hat : w.phase with
  | idle =>
    rw [hat] at hstep
    cases hstep
  | readingToken | loadingPending _ | sending _ | requesting _ =>
    rw [hat] at hstep
    cases hstep
    refine { h with loading := ?_, inFlight := ?_ } <;> exact fun _ hsome => nomatch hsome
  | savingPending record =>
    rw [hat] at hstep hinFlight
    cases hstep
    refine
      { h with
        loading := fun _ hsome => (nomatch hsome)
        pending := fun saved hsaved => ?_
        inFlight := fun _ hsome => (nomatch hsome) }
    cases written with
    | false => exact h.pending saved hsaved
    | true => exact some.inj hsaved ▸ hinFlight record rfl
  | savingToken record access =>
    rw [hat] at hstep hinFlight
    cases hstep
    refine
      { h with
        stored := fun token htoken => ?_
        loading := fun _ hsome => (nomatch hsome)
        inFlight := fun _ hsome => (nomatch hsome) }
    cases written with
    | false => exact h.stored token htoken
    | true => exact some.inj htoken ▸ (hinFlight record rfl).successor
  | clearingPending granted =>
    rw [hat] at hstep
    cases hstep
    refine
      { h with
        loading := fun _ hsome => (nomatch hsome)
        pending := fun saved hsaved => ?_
        inFlight := fun _ hsome => (nomatch hsome) }
    cases written with
    | false => exact h.pending saved hsaved
    | true => cases hsaved

theorem Holdings.idle (h : Holdings server generators familyId w) {phase : Phase}
    {cached : Option IssuedAccess} {answer : Option Answer}
    (hphase : phase = .idle ∨ phase = .readingToken) :
    Holdings server generators familyId { w with phase, cached, answer } := by
  rcases hphase with rfl | rfl
  · refine { h with loading := ?_, inFlight := ?_ } <;> exact fun _ hsome => nomatch hsome
  · refine { h with loading := ?_, inFlight := ?_ } <;> exact fun _ hsome => nomatch hsome

end

section
variable {server : AuthServer} {generators : Generators} {familyId : Id} {w : World}
  {family : FamilyRow} {token : Token} {row successor : RefreshTokenRow} {record : PendingRotation}
  {db' : AuthDatabase}

/-- The world once the request is processed. -/
def served (w : World) (record : PendingRotation) (db' : AuthDatabase) (answer : Answer) : World :=
  { w with
    db := db'
    request := none
    answer := if w.phase = .requesting record then some answer else none
    served := w.served + 1 }

theorem refresh_of_ok {result : RotateRefreshResult}
    (h : rotation server generators record w w.db = .ok result db') :
    refresh server generators record w =
      served w record db' (.ok ⟨result.accessExpiresAt, result.accessToken⟩) := by
  unfold refresh
  rw [storeAfter_of_ok h, h]
  rfl

theorem refresh_of_error {e : AuthError}
    (h : rotation server generators record w w.db = .error e w.db) :
    refresh server generators record w = served w record w.db .unauthenticated := by
  unfold refresh
  rw [storeAfter_of_error h, h]
  rfl

theorem Holdings.served (h : Holdings server generators familyId w) {answer : Answer}
    (hown : ∀ row ∈ db'.refreshTokens, row.familyId = familyId ∨
      ∃ old ∈ w.db.refreshTokens, old.tokenHash = row.tokenHash ∧ old.familyId = row.familyId) :
    Holdings server generators familyId (served w record db' answer) := by
  have htoken : ∀ token, Own server w.db familyId token → Own server db' familyId token := by
    intro token h row hrow hhash
    rcases hown row hrow with hfamily | ⟨old, hold, hsame, hfamily⟩
    · exact hfamily
    · exact hfamily ▸ h old hold (hsame.trans hhash)
  have hrecord : ∀ record, OwnRecord server generators familyId w.db w.minted record →
      OwnRecord server generators familyId db' w.minted record := by
    intro record h
    exact ⟨htoken _ h.current, htoken _ h.successor, h.minted⟩
  exact
    { stored := fun token hsome => htoken token (h.stored token hsome)
      loading := fun token hsome => htoken token (h.loading token hsome)
      pending := fun record hsome => hrecord record (h.pending record hsome)
      request := fun _ hsome => (nomatch hsome)
      inFlight := fun record hsome => hrecord record (h.inFlight record hsome) }

theorem AccessFree.served (distinct : Distinct server generators)
    (h : ∀ k, w.served ≤ k → AccessFree server w.db (generators.accessToken k))
    (haccess : ∀ row ∈ db'.accessTokens, row ∈ w.db.accessTokens ∨
      row.tokenHash = server.hashToken (generators.accessToken w.served)) :
    ∀ k, w.served + 1 ≤ k → AccessFree server db' (generators.accessToken k) := by
  intro k hk stored hstored heq
  rcases haccess stored hstored with hold | hnew
  · exact h k (Nat.le_of_succ_le hk) stored hold heq
  · have hsame := distinct.accesses (distinct.hashes (hnew.symm.trans heq))
    exact absurd hk (hsame ▸ Nat.not_succ_le_self _)

/-- A request that changed nothing but the answer. -/
theorem Survives.refused (h : Survives server generators w family)
    (hstanding : Standing server family.id (served w record w.db .unauthenticated) family) :
    Survives server generators (served w record w.db .unauthenticated) family where
  room := h.room
  serviceable := h.serviceable
  standing := hstanding
  holdings := h.holdings.served fun row hrow => .inr ⟨row, hrow, rfl, rfl⟩
  successors_free := h.successors_free
  access_free := fun k hk => h.access_free k (Nat.le_of_succ_le hk)

theorem Survives.serve_expired (h : Survives server generators w family)
    (hrequest : w.request = some record) (hexpired : family.expiresAt ≤ w.now) :
    Survives server generators (refresh server generators record w) family := by
  obtain ⟨e, hrun⟩ := rotateRefresh_expired h.serviceable hexpired
    (h.holdings.request record hrequest).current
  rw [refresh_of_error hrun]
  exact h.refused (.expired hexpired)

theorem CurrentPhase.granted {access : IssuedAccess} (hpending : w.pendingRotation = some record)
    (hrequest : w.request = some record) (h : CurrentPhase server w record.refreshToken w.phase) :
    RotatedPhase (served w record db' (.ok access)) record w.phase := by
  cases hat : w.phase with
  | idle | readingToken => trivial
  | loadingPending loaded =>
    rw [hat] at h
    exact h
  | savingPending saving =>
    rw [hat] at h
    cases hrequest.symm.trans h.2.2
  | sending sent =>
    rw [hat] at h
    exact some.inj (h.1.symm.trans hpending)
  | requesting sent =>
    rw [hat] at h
    cases hpending.symm.trans h.1
    exact ⟨rfl, .inr ⟨access, if_pos hat, rfl⟩⟩
  | savingToken sent access =>
    rw [hat] at h
    exact h.elim
  | clearingPending granted =>
    rw [hat] at h
    cases hrequest.symm.trans h

theorem CurrentPhase.refused (hpending : w.pendingRotation = some record)
    (h : CurrentPhase server w record.refreshToken w.phase) :
    CurrentPhase server (served w record w.db .unauthenticated) record.refreshToken w.phase := by
  cases hat : w.phase with
  | savingPending saving =>
    rw [hat] at h
    exact ⟨h.1, h.2.1, rfl⟩
  | requesting sent =>
    rw [hat] at h
    cases hpending.symm.trans h.1
    exact ⟨h.1, h.2.1, .inr ⟨if_pos hat, rfl⟩⟩
  | clearingPending granted => rfl
  | _ =>
    rw [hat] at h
    exact h

/-- A refused request leaves the token current. -/
theorem Current.refused (h : Current server familyId w token row) (hrequest : w.request = some record) :
    Current server familyId (served w record w.db .unauthenticated) token row := by
  obtain ⟨hpending, rfl⟩ := h.request record hrequest
  exact
    { h with
      request := fun _ hsome => (nomatch hsome)
      phase := CurrentPhase.refused hpending h.phase }

theorem rotated_consumed {recorded : PendingRotation}
    (h : Rotated server familyId w recorded row successor) :
    ¬ Fresh server w.db recorded.refreshToken :=
  fun hfresh => h.consumed (hfresh row h.row_mem h.hash)

/-- The rotation of the current token, or its refusal at the last generation. -/
theorem Survives.serve_current (distinct : Distinct server generators)
    (h : Survives server generators w family) (hrequest : w.request = some record)
    (hunexpired : w.now < family.expiresAt) (current : Current server family.id w token row) :
    ∃ family', family'.id = family.id ∧
      Survives server generators (refresh server generators record w) family' ∧
      Anchored server family.id (refresh server generators record w) := by
  obtain ⟨hpending, rfl⟩ := current.request record hrequest
  have hfree := current.pending record hpending rfl
  have haccess := h.access_free w.served (Nat.le_refl _)
  rcases Nat.lt_or_ge family.currentGeneration maxSafeInteger with hsafe | hlast
  · obtain ⟨expiresAt, result, db', hlater, hrun, htext, hgrants, htokens⟩ :=
      rotateRefresh_current h.serviceable h.room hunexpired current.row_mem current.family
        current.unconsumed current.hash hfree haccess hsafe
    let consumed : RefreshTokenRow :=
      { row with
        consumedAt := some w.now
        rotationId := some record.rotationId
        successorTokenHash := some (server.hashToken record.successorRefreshToken) }
    let successor := successorOf server w.db row family
      (server.hashToken record.successorRefreshToken) w.now expiresAt
    have hmem : ∀ other, other ∈ db'.refreshTokens ↔
        (other ∈ w.db.refreshTokens ∧ other ≠ row) ∨ other = consumed ∨ other = successor := by
      intro other
      rw [htokens]
      exact mem_tokens_afterRotation h.serviceable.chains current.row_mem current.unconsumed
    have hrotated : Rotated server family.id
        (served w record db' (.ok ⟨result.accessExpiresAt, result.accessToken⟩)) record consumed
        successor :=
      { stored := current.stored
        pending := hpending
        row_mem := (hmem consumed).mpr (.inr (.inl rfl))
        hash := current.hash
        family := current.family
        consumed := fun hnone => (nomatch (hnone : some w.now = none))
        rotation := rfl
        successorHash := rfl
        successor_mem := (hmem successor).mpr (.inr (.inr rfl))
        successor_hash := rfl
        successor_family := rfl
        next := rfl
        successor_unconsumed := rfl
        request := fun _ hsome => (nomatch hsome)
        phase := CurrentPhase.granted hpending hrequest current.phase }
    rw [refresh_of_ok hrun]
    refine ⟨advanced row family expiresAt, rfl,
      ⟨h.room, hgrants.serviceable, .rotated hrotated, ?_, ?_, ?_⟩, .rotated hrotated⟩
    · refine h.holdings.served fun other hother => ?_
      rcases (hmem other).mp hother with ⟨hold, -⟩ | rfl | rfl
      · exact .inr ⟨other, hold, rfl, rfl⟩
      · exact .inl current.family
      · exact .inl rfl
    · intro k hk other hother heq
      rcases (hmem other).mp hother with ⟨hold, -⟩ | rfl | rfl
      · exact h.successors_free k hk other hold heq
      · exact h.successors_free k hk row current.row_mem heq
      · obtain ⟨j, hlt, hj⟩ := (h.holdings.request record hrequest).minted
        have hsame := distinct.successors (hj.trans (distinct.hashes heq))
        exact absurd hk (Nat.not_le.mpr (hsame ▸ hlt))
    · exact AccessFree.served distinct h.access_free hgrants.access
  · have hrun : rotation server generators record w w.db = .error .repositoryIntegrity w.db :=
      rotateRefresh_exhausted h.serviceable hunexpired current.row_mem current.family
        current.unconsumed current.hash hfree hlast
    have hcurrent := current.refused hrequest
    rw [refresh_of_error hrun]
    exact ⟨family, rfl, h.refused (.current hcurrent), .current hcurrent⟩

/-- The repetition of the recorded rotation. -/
theorem Survives.serve_rotated (distinct : Distinct server generators)
    (h : Survives server generators w family) (hrequest : w.request = some record)
    (hunexpired : w.now < family.expiresAt) {recorded : PendingRotation}
    (rotated : Rotated server family.id w recorded row successor) :
    Survives server generators (refresh server generators record w) family ∧
      Anchored server family.id (refresh server generators record w) := by
  obtain rfl := rotated.request record hrequest
  have haccess := h.access_free w.served (Nat.le_refl _)
  have hphase := rotated.phase
  obtain ⟨result, db', hrun, htext, hgrants, htokens⟩ :=
    rotateRefresh_repeated h.serviceable h.room hunexpired rotated.row_mem rotated.family
      rotated.consumed rotated.hash rotated.rotation rotated.successorHash rotated.successor_mem
      rotated.successor_family rotated.successor_hash rotated.next rotated.successor_unconsumed
      haccess
  rw [refresh_of_ok hrun]
  have hrotated : RotatedPhase (served w record db' (.ok ⟨result.accessExpiresAt, result.accessToken⟩))
      record w.phase := by
    cases hat : w.phase with
    | requesting sent =>
      rw [hat] at hphase
      obtain ⟨rfl, -⟩ := hphase
      exact ⟨rfl, .inr ⟨_, if_pos hat, rfl⟩⟩
    | savingToken sent access =>
      rw [hat] at hphase
      exact ⟨hphase.1, rfl⟩
    | _ =>
      rw [hat] at hphase
      exact hphase
  have anchored : Rotated server family.id
      (served w record db' (.ok ⟨result.accessExpiresAt, result.accessToken⟩)) record row successor :=
    { rotated with
      row_mem := htokens ▸ rotated.row_mem
      successor_mem := htokens ▸ rotated.successor_mem
      request := fun _ hsome => (nomatch hsome)
      phase := hrotated }
  refine ⟨⟨h.room, hgrants.serviceable, .rotated anchored, ?_, ?_, ?_⟩, .rotated anchored⟩
  · refine h.holdings.served fun other hother => ?_
    exact .inr ⟨other, htokens ▸ hother, rfl, rfl⟩
  · intro k hk other hother
    exact h.successors_free k hk other (htokens ▸ hother)
  · exact AccessFree.served distinct h.access_free hgrants.access

theorem Survives.serve (distinct : Distinct server generators)
    (h : Survives server generators w family) (hrequest : w.request = some record) :
    ∃ family', family'.id = family.id ∧
      Survives server generators (refresh server generators record w) family' := by
  rcases Nat.lt_or_ge w.now family.expiresAt with hunexpired | hexpired
  · cases h.standing with
    | expired hexpired => exact absurd hexpired (Nat.not_le.mpr hunexpired)
    | current current =>
      obtain ⟨family', hid, hsurvives, -⟩ := h.serve_current distinct hrequest hunexpired current
      exact ⟨family', hid, hsurvives⟩
    | rotated rotated =>
      exact ⟨family, rfl, (h.serve_rotated distinct hrequest hunexpired rotated).1⟩
  · exact ⟨family, rfl, h.serve_expired hrequest hexpired⟩

end

variable {server : AuthServer} {generators : Generators} {w w' : World} {family : FamilyRow}

/-- What no step of the client touches. -/
structure Frame (w w' : World) : Prop where
  db : w'.db = w.db
  now : w'.now = w.now
  served : w'.served = w.served
  minted : w.minted ≤ w'.minted

theorem proceed_frame (h : proceed generators w = some w') : Frame w w' := by
  unfold AccessToken.proceed at h
  cases hat : w.phase with
  | idle =>
    rw [hat] at h
    cases h
  | readingToken =>
    rw [hat] at h
    cases hstored : w.refreshToken with
    | none | some token =>
      rw [hstored] at h
      cases h
      exact ⟨rfl, rfl, rfl, Nat.le_refl _⟩
  | loadingPending loaded =>
    rw [hat] at h
    cases h
    unfold resolvePendingRotation
    split
    · exact ⟨rfl, rfl, rfl, Nat.le_refl _⟩
    · exact ⟨rfl, rfl, rfl, Nat.le_succ _⟩
  | requesting record =>
    rw [hat] at h
    obtain ⟨answer, -, rfl⟩ := map_eq_some_iff.mp h
    cases answer <;> exact ⟨rfl, rfl, rfl, Nat.le_refl _⟩
  | savingPending _ | sending _ | savingToken _ _ | clearingPending _ =>
    rw [hat] at h
    cases h
    exact ⟨rfl, rfl, rfl, Nat.le_refl _⟩

theorem reject_frame {written : Bool} (h : reject written w = some w') : Frame w w' := by
  unfold AccessToken.reject at h
  cases hat : w.phase with
  | idle =>
    rw [hat] at h
    cases h
  | _ =>
    rw [hat] at h
    cases h
    exact ⟨rfl, rfl, rfl, Nat.le_refl _⟩

theorem getAccessToken_frame (clock : Timestamp) : Frame w (getAccessToken clock w) := by
  unfold AccessToken.getAccessToken
  split
  · exact ⟨rfl, rfl, rfl, Nat.le_refl _⟩
  split <;> exact ⟨rfl, rfl, rfl, Nat.le_refl _⟩

variable (h : Survives server generators w family)
include h

theorem Survives.framed (frame : Frame w w') (standing : Standing server family.id w' family)
    (holdings : Holdings server generators family.id w') :
    Survives server generators w' family where
  room := frame.now ▸ h.room
  serviceable := frame.db ▸ h.serviceable
  standing := standing
  holdings := holdings
  successors_free := by
    rw [frame.db]
    exact fun k hk => h.successors_free k (Nat.le_trans frame.minted hk)
  access_free := by
    rw [frame.db, frame.served]
    exact h.access_free

theorem Survives.proceed (hstep : proceed generators w = some w') :
    Survives server generators w' family := by
  have frame := proceed_frame hstep
  have hfree := h.successors_free w.minted (Nat.le_refl _)
  refine h.framed frame ?_ (h.holdings.proceed hfree hstep)
  exact h.standing.follow (Nat.le_of_eq frame.now.symm)
    fun anchored => anchored.proceed h.serviceable.hashes hfree hstep

theorem Survives.reject {written : Bool} (hstep : reject written w = some w') :
    Survives server generators w' family := by
  have frame := reject_frame hstep
  refine h.framed frame ?_ (h.holdings.reject hstep)
  exact h.standing.follow (Nat.le_of_eq frame.now.symm)
    fun anchored => anchored.reject h.serviceable.hashes hstep

theorem Survives.getAccessToken (clock : Timestamp) :
    Survives server generators (getAccessToken clock w) family := by
  have frame := getAccessToken_frame (w := w) clock
  refine h.framed frame ?_ ?_
  · exact h.standing.follow (Nat.le_of_eq frame.now.symm)
      fun anchored => anchored.getAccessToken clock
  · unfold AccessToken.getAccessToken
    split
    · exact h.holdings
    split
    · exact h.holdings.idle (.inr rfl)
    · exact h.holdings

theorem Survives.restart : Survives server generators (restart w) family := by
  have frame : Frame w (AccessToken.restart w) := ⟨rfl, rfl, rfl, Nat.le_refl _⟩
  refine h.framed frame ?_ (h.holdings.idle (.inl rfl))
  exact h.standing.follow (Nat.le_refl _) Anchored.restart

theorem Survives.tick {now : Timestamp} (hroom : Roomy now) (hlater : w.now ≤ now) :
    Survives server generators { w with now } family := by
  refine { h with room := hroom, standing := ?_, holdings := { h.holdings with } }
  exact h.standing.follow hlater fun anchored => anchored.tick now

/-- A request that the storage lost leaves a token current that was. -/
theorem Survives.serveThrows {record : PendingRotation} (hrequest : w.request = some record)
    (hfresh : Fresh server w.db record.refreshToken) :
    Survives server generators (refreshThrows record w) family := by
  have hlost : refreshThrows record w = served w record w.db .unauthenticated := rfl
  rw [hlost]
  cases h.standing with
  | expired hexpired => exact h.refused (.expired hexpired)
  | current current => exact h.refused (.current (current.refused hrequest))
  | rotated rotated =>
    obtain rfl := rotated.request record hrequest
    exact absurd hfresh (rotated_consumed rotated)

/-- The clock stays where a refresh window can still be written as a date, and the
storage does not throw at the repetition of a rotation. -/
def Spared (server : AuthServer) (w : World) : Action → Prop
  | .tick now => Roomy now
  | .serveThrows => ∀ record ∈ w.request, Fresh server w.db record.refreshToken
  | _ => True

instance decidableSpared (server : AuthServer) (w : World) :
    ∀ action, Decidable (Spared server w action)
  | .tick now => inferInstanceAs (Decidable (now + refreshTokenMaxTtlSeconds * 1000 ≤ _))
  | .serveThrows => inferInstanceAs (Decidable (∀ record ∈ w.request, Fresh server w.db _))
  | .getAccessToken _ | .proceed | .reject _ | .crash | .serve => isTrue trivial

omit h in
theorem Survives.step (distinct : Distinct server generators)
    (h : Survives server generators w family) {action : Action} (hspared : Spared server w action)
    (hstep : step server generators w action = some w') :
    ∃ family', family'.id = family.id ∧ Survives server generators w' family' := by
  cases action with
  | getAccessToken clock =>
    cases hstep
    exact ⟨family, rfl, h.getAccessToken clock⟩
  | proceed => exact ⟨family, rfl, h.proceed hstep⟩
  | reject written => exact ⟨family, rfl, h.reject hstep⟩
  | crash =>
    cases hstep
    exact ⟨family, rfl, h.restart⟩
  | serve =>
    obtain ⟨record, hrequest, rfl⟩ := map_eq_some_iff.mp hstep
    exact h.serve distinct hrequest
  | serveThrows =>
    obtain ⟨record, hrequest, rfl⟩ := map_eq_some_iff.mp hstep
    exact ⟨family, rfl, h.serveThrows hrequest (hspared record hrequest)⟩
  | tick later =>
    unfold AccessToken.step at hstep
    dsimp only at hstep
    split at hstep
    · rename_i hlater
      cases hstep
      exact ⟨family, rfl, h.tick hspared hlater⟩
    · cases hstep

end Havemind.SecretStanding
