import Havemind.AgentChanges
import Havemind.Runs

/-!
The auth services as one machine: every call with all it is given, in any order.
A run keeps two lists beside the database, which no call reads: the invitations
a wrong code was presented for, and the grants whose redemption opened a session.
-/
namespace Havemind.AuthRuns

open JsText RevisionSchema Transaction Endings Runs AuthTables AuthChanges AuthSoundness
  SessionRepository SessionChanges Invitations InvitationChanges MembershipRevocation RejoinGrants
  OwnerSetup AgentEnrollment PruneExpired AccountChanges AgentChanges
open ServerDatabase (AccountStatus DeviceStatus)

structure World where
  db : AuthDatabase
  wrongCodes : List Id
  minted : List Id
  deriving DecidableEq

def World.empty : World := ⟨AuthDatabase.empty, [], []⟩

/-- What a route that needs a session is called with. -/
structure Bearer where
  accessToken : Option Token
  now : Option Timestamp
  vaultId : Id
  deriving DecidableEq

/-- A pairing names no device; the route draws its identifier. -/
inductive AuthAction
  | initializeOwner (localContext : Bool) (names : OwnerNames) (pairingToken : Token)
      (now : Option Timestamp)
  | createVault (names : OwnerNames) (pairingToken : Token) (now : Option Timestamp)
  | rotateOwnerPairing (localContext : Bool) (pairingToken : Token) (now : Option Timestamp)
  | rotateVaultOwnerPairing (localContext : Bool) (vaultId : Id) (pairingToken : Token)
      (now : Option Timestamp)
  | pairOwnerDevice (input : PairOwnerDeviceInput) (initialRefreshToken : Option Token)
      (accessToken : Token) (now sessionNow : Option Timestamp)
  | pairOwnerDeviceFromHash (input : PairOwnerDeviceInput) (refreshTokenHash : Option TokenHash)
      (now sessionNow : Option Timestamp)
  | createInvitation (input : CreateInvitationInput) (secrets : InvitationSecrets)
      (now : Option Timestamp)
  | redeemInvitation (input : RedeemForOnboardingInput) (pendingCredential : Token)
      (now : Option Timestamp)
  | approveRedeemedDevice (input : ApproveRedeemedDeviceInput) (now sessionNow : Option Timestamp)
  | rejectPendingDevice (input : RejectPendingDeviceInput)
  | revokeMembership (membershipId : Id) (now : Option Timestamp)
      (deviceNow : Id → Option Timestamp)
  | createGrant (input : CreateRejoinGrantInput) (now : Option Timestamp)
  | redeemGrant (input : RedeemRejoinGrantInput) (now sessionNow : Option Timestamp)
  | rotateRefresh (input : RotateRefreshInput) (now : Option Timestamp) (accessToken : Token)
  | enroll (bearer : Bearer) (name : JsString) (now : Option Timestamp)
  | claim (input : ClaimInput) (attempts : ℕ → ClaimAttempt)
  | pushRevision (bearer : Bearer)
  | pruneExpired (now : Timestamp)

/-- The session of the token and its active membership in the vault. -/
def authorise (server : AuthServer) (db : AuthDatabase) (bearer : Bearer) :
    Option (AccessSession × MembershipRow) :=
  match lookupAccess db server bearer.accessToken bearer.now with
  | .ok (some session) =>
    (loadActiveMembership db session.userId bearer.vaultId).map fun membership =>
      (session, membership)
  | _ => none

/-- Any call, at any time. -/
def anyCall (_ : World) (_ : AuthAction) : Prop := True

section
variable (server : AuthServer) (db : AuthDatabase)

def enrolled (bearer : Bearer) (name : JsString) (now : Option Timestamp) : AuthDatabase :=
  match authorise server db bearer with
  | some (session, membership) =>
    if membership.role = .owner then
      storeAfter (enroll server
        { vaultId := bearer.vaultId
          ownerMembershipId := membership.id
          ownerDeviceId := session.deviceId
          name }
        now) db
    else db
  | none => db

def pushed (bearer : Bearer) : AuthDatabase :=
  match authorise server db bearer with
  | some (session, membership) =>
    storeAfter (insertRevision { membershipId := membership.id, deviceId := session.deviceId }) db
  | none => db

/-- The device identifier of a pairing is the next one drawn. -/
def pairingDraw : AuthDatabase := { db with issued := db.issued + 1 }

def afterAction : AuthAction → AuthDatabase
  | .initializeOwner localContext names pairingToken now =>
    storeAfter (initializeOwner server localContext names pairingToken now) db
  | .createVault names pairingToken now => storeAfter (createVault server names pairingToken now) db
  | .rotateOwnerPairing localContext pairingToken now =>
    storeAfter (rotateOwnerPairing server localContext pairingToken now) db
  | .rotateVaultOwnerPairing localContext vaultId pairingToken now =>
    storeAfter (rotateVaultOwnerPairing server localContext vaultId pairingToken now) db
  | .pairOwnerDevice input initialRefreshToken accessToken now sessionNow =>
    storeAfter (pairOwnerDevice server { input with deviceId := server.randomUuid db.issued }
      initialRefreshToken accessToken now sessionNow) (pairingDraw db)
  | .pairOwnerDeviceFromHash input refreshTokenHash now sessionNow =>
    storeAfter (pairOwnerDeviceFromHash server { input with deviceId := server.randomUuid db.issued }
      refreshTokenHash now sessionNow) (pairingDraw db)
  | .createInvitation input secrets now => storeAfter (createInvitation server input secrets now) db
  | .redeemInvitation input pendingCredential now =>
    storeAfter (redeemInvitationForOnboarding server input pendingCredential now) db
  | .approveRedeemedDevice input now sessionNow =>
    storeAfter (approveRedeemedDevice server input now sessionNow) db
  | .rejectPendingDevice input => storeAfter (rejectPendingDevice input) db
  | .revokeMembership membershipId now deviceNow =>
    storeAfter (revokeMembership membershipId now deviceNow) db
  | .createGrant input now => storeAfter (createGrant server input now) db
  | .redeemGrant input now sessionNow => storeAfter (redeemGrant server input now sessionNow) db
  | .rotateRefresh input now accessToken =>
    storeAfter (rotateRefresh server input now accessToken) db
  | .enroll bearer name now => enrolled server db bearer name now
  | .claim input attempts => storeAfter (claim server input attempts) db
  | .pushRevision bearer => pushed server db bearer
  | .pruneExpired now => storeAfter (pruneExpiredRecords now) db

/-- The invitation an active owner presents a well-formed code for that is not its
own, while its device can be approved. -/
def wrongCode : AuthAction → List Id
  | .approveRedeemedDevice input (some now) _ =>
    match input.verificationPhrase, loadInvitationById db input.invitationId with
    | some phrase, .ok invitation =>
      if (Invitations.requireOwnerMembership db input.approverMembershipId invitation.vaultId).isOk ∧
          (requirePendingDevice db invitation now).isOk ∧
          phrase ≠ invitation.verificationSecret then [invitation.id]
      else []
    | _, _ => []
  | _ => []

/-- The grant whose redemption succeeds. -/
def mintedGrant : AuthAction → List Id
  | .redeemGrant input now sessionNow =>
    match redeemGrant server input now sessionNow db, now with
    | .ok _ _, some now =>
      match loadLiveGrant db input.membershipId now with
      | .ok grant => [grant.id]
      | .error _ => []
    | _, _ => []
  | _ => []

end

def authStep (server : AuthServer) (w : World) (action : AuthAction) : Option World :=
  some
    { db := afterAction server w.db action
      wrongCodes := w.wrongCodes ++ wrongCode w.db action
      minted := w.minted ++ mintedGrant server w.db action }

section
variable {server : AuthServer} {db : AuthDatabase} {clock : Option Timestamp}
  {session : AccessSession} {bearer : Bearer} {base : ℕ} {w : World} {membership : MembershipRow}
  {localContext : Bool} {pairingToken : Token} {action : AuthAction}
  {guard : World → AuthAction → Prop}

/-- The row an access token is looked up by, with every status it needs. -/
structure Authenticated (server : AuthServer) (db : AuthDatabase) (session : AccessSession)
    (row : AccessRow) (now : Timestamp) : Prop where
  token_mem : row.token ∈ db.accessTokens
  family_mem : row.family ∈ db.families
  family_id : row.family.id = row.token.familyId
  device_mem : row.device ∈ db.devices
  device_id : row.device.id = row.token.deviceId
  unrevoked : row.token.revokedAt = none
  family_active : row.family.status = .active
  device_approved : row.device.status = .approved
  token_unexpired : now < row.token.expiresAt
  family_unexpired : now < row.family.expiresAt
  session_eq : session = ⟨row.token.deviceId, row.token.expiresAt, row.token.familyId, row.token.userId⟩

theorem lookupAccess_eq_some {token : Option Token}
    (h : lookupAccess db server token clock = .ok (some session)) :
    ∃ row now, clock = some now ∧ Authenticated server db session row now := by
  unfold lookupAccess at h
  cases token with
  | none => cases h
  | some token =>
    obtain ⟨now, hnow, h⟩ := except_bind_eq_ok.mp h
    cases hload : loadAccessRow db (server.hashToken token) with
    | none =>
      rw [hload] at h
      cases h
    | some row =>
      rw [hload] at h
      dsimp only at h
      split at h
      · cases h
      rename_i hlive
      cases h
      obtain ⟨htoken, -, hfamily, hfamilyId, -, -, hdevice, hdeviceId⟩ := loadAccessRow_eq_some hload
      simp only [not_or, not_not, Nat.not_le, Bool.not_eq_false] at hlive
      obtain ⟨hunrevoked, husable, htokenTime, hfamilyTime⟩ := hlive
      obtain ⟨hactive, -, happroved⟩ := of_decide_eq_true husable
      exact ⟨row, now, readClock_eq_ok.mp hnow, htoken, hfamily, hfamilyId, hdevice, hdeviceId,
        hunrevoked, hactive, happroved, htokenTime, hfamilyTime, rfl⟩

theorem authorise_eq_some (h : authorise server db bearer = some (session, membership)) :
    (∃ row now, bearer.now = some now ∧ Authenticated server db session row now) ∧
      loadActiveMembership db session.userId bearer.vaultId = some membership := by
  unfold authorise at h
  split at h
  · rename_i found hlookup
    obtain ⟨loaded, hloaded, heq⟩ := Option.map_eq_some_iff.mp h
    cases heq
    exact ⟨lookupAccess_eq_some hlookup, hloaded⟩
  · cases h

/-- Whoever holds a session has a device past its approval. -/
theorem authorise_settled (h : authorise server db bearer = some (session, membership)) :
    Settled db session.deviceId := by
  obtain ⟨⟨row, now, -, hrow⟩, -⟩ := authorise_eq_some h
  rw [hrow.session_eq]
  exact ⟨row.device, hrow.device_mem, hrow.device_id, by simp [hrow.device_approved]⟩

theorem rotateOwnerPairing_changes :
    Changes server permit base db
      (storeAfter (rotateOwnerPairing server localContext pairingToken clock) db) := by
  apply Ends.storeAfter
  refine .check (fun _ _ => ?_) fun _ => .refl
  exact Ends.everywhere (rotatePairing_changes fun _ => resolveOwnerRow_mem)

theorem rotateVaultOwnerPairing_changes {vaultId : Id} :
    Changes server permit base db
      (storeAfter (rotateVaultOwnerPairing server localContext vaultId pairingToken clock) db) := by
  apply Ends.storeAfter
  refine .check (fun _ _ => ?_) fun _ => .refl
  exact Ends.everywhere (rotatePairing_changes fun _ => resolveOwnerRow_mem)

theorem enrolled_changes {name : JsString} :
    Changes server permit base db (enrolled server db bearer name clock) := by
  unfold enrolled
  cases hauthorised : authorise server db bearer with
  | none => exact .refl
  | some found =>
    obtain ⟨session, membership⟩ := found
    dsimp only
    split
    · exact enroll_changes (authorise_settled hauthorised)
    · exact .refl

theorem pushed_changes : Changes server permit base db (pushed server db bearer) := by
  unfold pushed
  cases hauthorised : authorise server db bearer with
  | none => exact .refl
  | some found =>
    obtain ⟨session, membership⟩ := found
    apply Ends.storeAfter
    refine ends_guardedWrite (fun _ => .single (.revisionAdded ?_)) .refl
    exact authorise_settled hauthorised

/-- Every rejection that its own checks let through finds a device still pending. -/
def rejectsPending (w : World) (action : AuthAction) : Prop :=
  match action with
  | .rejectPendingDevice input => ∀ invitation ∈ w.db.invitations,
      invitation.id = input.invitationId → Rejectable w.db input invitation →
        AwaitsApproval w.db invitation
  | _ => True

/-- What a call may do beyond the ordinary changes. -/
def permitted (db : AuthDatabase) : AuthAction → Permit
  | .pairOwnerDevice .. | .pairOwnerDeviceFromHash .. | .redeemGrant .. => ⟨True, fun _ => False⟩
  | .approveRedeemedDevice input now _ => ⟨False, Presented db input now⟩
  | _ => ⟨False, fun _ => False⟩

theorem afterAction_outcome (h : Sound server w.db) (hguard : rejectsPending w action) :
    Outcome server (permitted w.db action) w.db (afterAction server w.db action) := by
  have hle : w.db.issued ≤ w.db.issued := Nat.le_refl _
  have hdraw : Change server ⟨True, fun _ => False⟩ w.db.issued w.db (pairingDraw w.db) :=
    .drawn (Nat.le_succ _)
  have hbase : w.db.issued ≤ (pairingDraw w.db).issued := Nat.le_succ _
  have hnew : Drawn server w.db.issued (pairingDraw w.db).issued (server.randomUuid w.db.issued) :=
    ⟨w.db.issued, hle, Nat.lt_succ_self _, rfl⟩
  cases action with
  | initializeOwner => exact .changed (initializeOwner_changes hle)
  | createVault => exact .changed (createVault_changes hle)
  | rotateOwnerPairing => exact .changed rotateOwnerPairing_changes
  | rotateVaultOwnerPairing => exact .changed rotateVaultOwnerPairing_changes
  | pairOwnerDevice =>
    exact .changed (.head hdraw (pairOwnerDevice_changes trivial h.owned hbase hnew))
  | pairOwnerDeviceFromHash =>
    exact .changed (.head hdraw (pairOwnerDeviceFromHash_changes trivial h.owned hbase hnew))
  | createInvitation => exact .changed (createInvitation_changes hle)
  | redeemInvitation => exact .changed (redeem_changes hle)
  | approveRedeemedDevice => exact approve_outcome
  | rejectPendingDevice => exact .changed (reject_changes hguard)
  | revokeMembership => exact .changed revokeMembership_changes
  | createGrant => exact .changed (createGrant_changes hle)
  | redeemGrant => exact redeemGrant_outcome trivial
  | rotateRefresh => exact .changed rotateRefresh_changes
  | enroll => exact .changed enrolled_changes
  | claim => exact .changed (claim_changes hle)
  | pushRevision => exact .changed pushed_changes
  | pruneExpired => exact pruneExpiredRecords_outcome

theorem afterAction_committed (h : Sound server w.db) (action : AuthAction) :
    Committed server (permitted w.db action) w.db (afterAction server w.db action) := by
  cases action with
  | rejectPendingDevice => exact reject_committed
  | _ => exact .inl (afterAction_outcome h trivial)

theorem authStep_sound {w' : World} (h : Sound server w.db)
    (hstep : authStep server w action = some w') : Sound server w'.db := by
  cases hstep
  exact h.committed (afterAction_committed h action)

/-- Every state of a run from a sound database is sound. -/
theorem reached_sound {start : World} (h : Sound server start.db)
    (reached : Reached (authStep server) guard start w) : Sound server w.db :=
  reached.invariant h fun _ _ _ hsound _ hstep => authStep_sound hsound hstep

/-- What every step keeps, once the identifiers it speaks of are drawn, holds in
every later state. -/
theorem reached_kept {t : World} {P : AuthDatabase → Prop}
    (kept : ∀ base, w.db.issued ≤ base → Kept server base P) (sound : Sound server w.db)
    (h : P w.db) (reached : Reached (authStep server) guard w t) : P t.db := by
  have hall : Sound server t.db ∧ w.db.issued ≤ t.db.issued ∧ P t.db := by
    refine Reached.invariant (P := fun s => Sound server s.db ∧ w.db.issued ≤ s.db.issued ∧ P s.db)
      reached ⟨sound, Nat.le_refl _, h⟩ fun s action s' hs _ hstep => ?_
    obtain ⟨hsound, hle, hP⟩ := hs
    cases hstep
    have hcommitted := afterAction_committed hsound action
    exact ⟨hsound.committed hcommitted, (issued_kept _).committed hle hcommitted,
      (kept s.db.issued hle).committed hP hcommitted⟩
  exact hall.2.2

end

variable {server : AuthServer}

/-- The world after the calls; none of them is ever refused by the machine. -/
def calls (server : AuthServer) (w : World) (actions : List AuthAction) : World :=
  (run (authStep server) w actions).getD w

theorem run_calls (w : World) (actions : List AuthAction) :
    run (authStep server) w actions = some (calls server w actions) := by
  have hsome : ∃ last, run (authStep server) w actions = some last := by
    induction actions generalizing w with
    | nil => exact ⟨w, rfl⟩
    | cons action rest ih => exact ih _
  obtain ⟨last, hlast⟩ := hsome
  unfold calls
  rw [hlast, Option.getD_some]

theorem calls_reached (w : World) (actions : List AuthAction) :
    Reached (authStep server) anyCall w (calls server w actions) :=
  Reached.start.run (allowed_of_forall (fun _ _ => trivial) w actions) (run_calls w actions)

/-- Whatever is called in whatever order, what is stored is sound. -/
theorem calls_sound (server : AuthServer) (actions : List AuthAction) :
    Sound server (calls server .empty actions).db :=
  reached_sound (sound_empty server) (calls_reached .empty actions)

/-- The instance owner with one paired device. -/
def ownerActions : List AuthAction :=
  [.initializeOwner true ⟨[0x41], [0x42]⟩ 900 (some 0),
    .pairOwnerDevice ⟨[0x43], 0, some 900, true⟩ (some 7) 50 (some 1000) (some 1000)]

/-- The owner invites a member, whose device is redeemed with a rejoin secret. -/
def pendingActions : List AuthAction :=
  ownerActions ++
    [.createInvitation { vaultId := 3, createdByMembershipId := 4, inviterDeviceId := 6 }
        ⟨901, 123456, by decide⟩ (some 2000),
      .redeemInvitation ⟨some 901, [0x44], some 20, some (some 77)⟩ 60 (some 3000)]

/-- The owner approves the member's device with its code. -/
def memberActions : List AuthAction :=
  pendingActions ++ [.approveRedeemedDevice ⟨11, 4, some 123456⟩ (some 4000) (some 4000)]

def memberWorld : World := calls plainServer World.empty memberActions

end Havemind.AuthRuns
