import Havemind.OnboardingController
import Havemind.Runs

/-!
Runs of the onboarding: controllers that begin, review, confirm and resume, each
call with failures and a stop at any await, one after another over the same stored
data. A stored state is accompanied by the secrets it needs at every await, as long
as no confirmation writes a refresh token over a state that is stored and no
rejection clears the credential of a pending state that is.
-/
namespace Havemind.OnboardingRuns

open AwaitCode InviteFormat JsText JsonText OnboardingController OnboardingValues Runs List Option

section
variable {S : Type}

/-- What a confirmation of an invitation has generated and put together. -/
structure Attempt where
  redemptionId : JsString
  refreshToken : JsString
  rejoinSecret : JsString
  envelope : JsString
  deriving DecidableEq

/-- The server answered this redemption with this pending device. -/
def Redeemed (exchanges : List Exchange) (request : InvitationRedemptionRequest)
    (pending : PendingRedemption) : Prop :=
  ∃ answer, { call := .redeemInvitation request, answer := some answer } ∈ exchanges ∧
    parsePendingRedemptionResponse answer request.url = .ok pending

/-- The server answered a poll of this device with its approval. -/
def Approved (exchanges : List Exchange) (pending : PendingRedemption) (deviceId : JsString) :
    Prop :=
  ∃ url answer membershipId,
    { call := .pollApproval pending.pendingCredential url, answer := some answer } ∈ exchanges ∧
      parseApprovalResponse answer url = .ok (.approved deviceId membershipId)

/-- What a resume of the state reads is stored and well formed. -/
def Usable (formats : Formats) (w : Platform S) : DurableOnboardingState → Prop
  | .redeeming state =>
      (∃ token, storedToken refreshPrefix w.refreshToken = some token) ∧
        (∃ secret, storedToken rejoinPrefix w.rejoinSecret = some secret) ∧
        ∃ envelope invitation, w.invitationEnvelope = some envelope ∧
          parseInviteEnvelope formats envelope = some invitation ∧
          invitation.serverOrigin = state.serverOrigin
  | .pendingApproval _ =>
      (∃ token, storedToken refreshPrefix w.refreshToken = some token) ∧
        ∃ credential, storedToken pendingPrefix w.pendingCredential = some credential
  | .connected _ => ∃ token, storedToken refreshPrefix w.refreshToken = some token

/-- The stored secrets are the state's own: those of its attempt, the credential and
refresh token of its pending device, the refresh token of its connection. -/
def Own (attempts : List Attempt) (w : Platform S) : DurableOnboardingState → Prop
  | .redeeming state => ∃ attempt ∈ attempts, attempt.redemptionId = state.redemptionId ∧
      w.refreshToken = some attempt.refreshToken ∧ w.rejoinSecret = some attempt.rejoinSecret ∧
      w.invitationEnvelope = some attempt.envelope
  | .pendingApproval state => ∃ request pending, Redeemed w.exchanges request pending ∧
      pending.pendingDeviceId = state.pendingDeviceId ∧
      w.pendingCredential = some pending.pendingCredential ∧
      w.refreshToken = some request.initialRefreshToken
  | .connected state => ∃ request pending, Redeemed w.exchanges request pending ∧
      Approved w.exchanges pending state.deviceId ∧
      w.refreshToken = some request.initialRefreshToken

/-- A redeeming state that only the cache has may be of an earlier try. -/
def Remembered (w : Platform S) : DurableOnboardingState → Prop
  | .redeeming state =>
      w.stored = none ∨ w.stored = some (DurableOnboardingState.redeeming state).toValue
  | state => Own [] w state

/-- What holds at every await and at the end of every call. -/
structure Good (formats : Formats) (attempts : List Attempt) (m : Memory) (w : Platform S) :
    Prop where
  stored : ∀ value, w.stored = some value → ∃ state : DurableOnboardingState,
    value = state.toValue ∧ ValidState formats state ∧ Usable formats w state ∧
      Own attempts w state
  cached : ∀ value, m.cache = some (some value) → ∃ state : DurableOnboardingState,
    value = state.toValue ∧ ValidState formats state ∧ Usable formats w state ∧
      Remembered w state
  active : ∀ invitation, m.activeInvitation = some invitation →
    parseInviteEnvelope formats invitation.canonicalEnvelope = some invitation.parsed
  reviewed : ∀ metadata, m.currentState = .invitationReview metadata →
    ValidMetadata formats metadata ∧ ∀ invitation, m.activeInvitation = some invitation →
      invitation.parsed.serverOrigin = metadata.serverOrigin

/-- Nothing is stored, and what the cache has is at most a redeeming state of an
earlier try with the same server. -/
def Unattended (m : Memory) (w : Platform S) : Prop :=
  w.stored = none ∧ ∀ value ∈ m.cache.join, isText redeemingPhase (value.get .phase) = true ∧
    ∀ invitation ∈ m.activeInvitation,
      isText invitation.parsed.serverOrigin (value.get .serverOrigin) = true

instance (m : Memory) (w : Platform S) : Decidable (Unattended m w) :=
  inferInstanceAs (Decidable (_ ∧ _))

def writesRefreshToken : OnboardingCall → Bool
  | .saveRefreshToken _ => true
  | _ => false

def clearsCredential : OnboardingCall → Bool
  | .clearPendingCredential => true
  | _ => false

/-- A refresh token is written only while no state needs another one, the credential
of a stored pending state is not cleared, and no port throws one of the two errors
that speak of what is stored. -/
def Careful (m : Memory) (w : Platform S) (call : OnboardingCall) (choice : Choice Failure) : Prop :=
  (choice = .done ∧ writesRefreshToken call = true → Unattended m w) ∧
    (choice = .done ∧ clearsCredential call = true → ∀ value ∈ w.stored,
      isText pendingApprovalPhase (value.get .phase) = false) ∧
    choice ≠ .thrown (.onboarding .missingCredential) ∧
    choice ≠ .thrown (.onboarding .invalidState)

instance decidableAwait (m : Memory) (w : Platform S) (call : OnboardingCall)
    (choice : Choice Failure) : Decidable (Careful m w call choice) :=
  inferInstanceAs (Decidable (_ ∧ _))

/-- How a call ends: well, and not because of what the controller wrote before. -/
def Finished (formats : Formats) (attempts : List Attempt)
    (result : Except Failure OnboardingViewState) (m : Memory) (w : Platform S) : Prop :=
  Good formats attempts m w ∧ result ≠ .error (.onboarding .missingCredential) ∧
    result ≠ .error (.onboarding .invalidState)

end

section
variable {S : Type} {serve : RemoteCall → S → Option RemoteResponse × S}
  {ok : Memory → Platform S → OnboardingCall → Choice Failure → Prop} {α : Type}
  {P : Memory → Platform S → Prop} {Q : Except Failure α → Memory → Platform S → Prop}
  {m : Memory} {w : Platform S} {c : OnboardingCall} {code : OnboardingErrorCode}
  {f : Unit → Onboarding α}

theorem visits_callOr {f : c.Answer → Onboarding α} :
    VisitsTaking (respond serve) ok P Q (callOr c code >>= f) m w ↔
      P m w ∧
        (ok m w c .done → VisitsTaking (respond serve) ok P Q (f (respond serve c w).1) m
          (respond serve c w).2) ∧
        ∀ error, ok m w c (.thrown error) → Q (.error (.onboarding code)) m w := Iff.rfl

theorem visits_clear :
    VisitsTaking (respond serve) ok P Q (clearSecretBestEffort c >>= f) m w ↔
      P m w ∧
        (ok m w c .done → VisitsTaking (respond serve) ok P Q (f ()) m (respond serve c w).2) ∧
        ∀ error, ok m w c (.thrown error) → VisitsTaking (respond serve) ok P Q (f ()) m w :=
  Iff.rfl

theorem visits_saveState {state : DurableOnboardingState} :
    VisitsTaking (respond serve) ok P Q (saveState state >>= f) m w ↔
      VisitsTaking (respond serve) ok P Q
        (callOr .persistLoad .storageFailed >>= fun _ =>
          callOr (.persistSave (some state.toValue)) .storageFailed >>= f)
        { m with cache := some (some state.toValue) } w := Iff.rfl

theorem visits_readMemory {f : Memory → Onboarding α} :
    VisitsTaking (respond serve) ok P Q (readMemory >>= f) m w ↔
      VisitsTaking (respond serve) ok P Q (f m) m w := Iff.rfl

theorem visits_orFail {β : Type} {result : Except OnboardingErrorCode β} {f : β → Onboarding α}
    (hok : ∀ value, result = .ok value → VisitsTaking (respond serve) ok P Q (f value) m w)
    (herror : ∀ code, result = .error code → Q (.error (.onboarding code)) m w) :
    VisitsTaking (respond serve) ok P Q (orFail result >>= f) m w := by
  cases result with
  | ok value => exact hok value rfl
  | error code => exact herror code rfl

end

section
variable {S : Type} {formats : Formats} {attempts : List Attempt} {m : Memory} {w : Platform S}
  {state : DurableOnboardingState} {start token : JsString} {call : RemoteCall}
  {answer : Option RemoteResponse} {server : S} {exchanges later : List Exchange}
  {pending : PendingRedemption}

theorem storedToken_eq_some {stored : Option JsString} (h : storedToken start stored = some token) :
    stored = some token ∧ isCanonicalToken token start = true :=
  filter_eq_some_iff.mp h

theorem storedToken_of (h : isCanonicalToken token start = true) :
    storedToken start (some token) = some token :=
  filter_eq_some_iff.mpr ⟨rfl, h⟩

theorem secretOf_token (h : isCanonicalToken token start = true) : secretOf token = some token := by
  have hlength : (token.drop start.length).length = 43 :=
    (of_decide_eq_true (of_decide_eq_true h).2).1
  refine if_neg fun hempty => ?_
  rw [hempty, drop_nil, length_nil] at hlength
  omega

theorem Redeemed.append {request : InvitationRedemptionRequest}
    (h : Redeemed exchanges request pending) : Redeemed (exchanges ++ later) request pending := by
  obtain ⟨answer, hmem, hparsed⟩ := h
  exact ⟨answer, mem_append_left _ hmem, hparsed⟩

theorem Approved.append {deviceId : JsString} (h : Approved exchanges pending deviceId) :
    Approved (exchanges ++ later) pending deviceId := by
  obtain ⟨url, answer, membershipId, hmem, hparsed⟩ := h
  exact ⟨url, answer, membershipId, mem_append_left _ hmem, hparsed⟩

theorem Own.exchanged (h : Own attempts w state) :
    Own attempts (w.exchanged call answer server) state := by
  cases state with
  | redeeming state => exact h
  | pendingApproval state =>
    obtain ⟨request, pending, hredeemed, hrest⟩ := h
    exact ⟨request, pending, hredeemed.append, hrest⟩
  | connected state =>
    obtain ⟨request, pending, hredeemed, happroved, hrest⟩ := h
    exact ⟨request, pending, hredeemed.append, happroved.append, hrest⟩

theorem Own.more {later : List Attempt} (h : Own attempts w state) :
    Own (attempts ++ later) w state := by
  cases state with
  | redeeming state =>
    obtain ⟨attempt, hmem, hrest⟩ := h
    exact ⟨attempt, mem_append_left _ hmem, hrest⟩
  | pendingApproval state => exact h
  | connected state => exact h

theorem Remembered.exchanged (h : Remembered w state) :
    Remembered (w.exchanged call answer server) state := by
  cases state with
  | redeeming state => exact h
  | pendingApproval state =>
    have hown : Own [] w (.pendingApproval state) := h
    exact hown.exchanged
  | connected state =>
    have hown : Own [] w (.connected state) := h
    exact hown.exchanged

theorem usable_exchanged (h : Usable formats w state) :
    Usable formats (w.exchanged call answer server) state := by
  cases state with
  | redeeming state => exact h
  | pendingApproval state => exact h
  | connected state => exact h

/-- A state that is stored is remembered as it is stored. -/
theorem remembered_of_stored (h : Own attempts w state)
    (hstored : w.stored = some state.toValue) : Remembered w state := by
  cases state with
  | redeeming state => exact Or.inr hstored
  | pendingApproval state => exact h
  | connected state => exact h

theorem Good.exchanged (h : Good formats attempts m w) :
    Good formats attempts m (w.exchanged call answer server) where
  stored value hvalue := by
    obtain ⟨state, hstate, hvalid, husable, hown⟩ := h.stored value hvalue
    exact ⟨state, hstate, hvalid, usable_exchanged husable, hown.exchanged⟩
  cached value hvalue := by
    obtain ⟨state, hstate, hvalid, husable, hremembered⟩ := h.cached value hvalue
    exact ⟨state, hstate, hvalid, usable_exchanged husable, hremembered.exchanged⟩
  active := h.active
  reviewed := h.reviewed

/-- A controller that starts anew. -/
theorem Good.restarted (h : Good formats attempts m w) : Good formats attempts {} w where
  stored := h.stored
  cached value hvalue := by cases hvalue
  active invitation hactive := by cases hactive
  reviewed metadata hreviewed := by cases hreviewed

theorem Good.more {later : List Attempt} (h : Good formats attempts m w) :
    Good formats (attempts ++ later) m w where
  stored value hvalue := by
    obtain ⟨state, hstate, hvalid, husable, hown⟩ := h.stored value hvalue
    exact ⟨state, hstate, hvalid, husable, hown.more⟩
  cached := h.cached
  active := h.active
  reviewed := h.reviewed

end

section
variable {S : Type} {serve : RemoteCall → S → Option RemoteResponse × S} {formats : Formats}
  {attempts : List Attempt} {m : Memory} {w : Platform S} {α : Type} {code : OnboardingErrorCode}
  {c : OnboardingCall} {f : JsString → Onboarding OnboardingViewState}

/-- Every careful run of the code from here is good at its awaits and at its end. -/
abbrev Safe (serve : RemoteCall → S → Option RemoteResponse × S) (formats : Formats)
    (attempts : List Attempt) (code : Onboarding OnboardingViewState) (m : Memory)
    (w : Platform S) : Prop :=
  VisitsTaking (respond serve) Careful (Good formats attempts) (Finished formats attempts) code m w

variable (h : Good formats attempts m w)
include h

theorem Good.failed (hmissing : code ≠ .missingCredential) (hinvalid : code ≠ .invalidState) :
    Finished formats attempts (.error (.onboarding code)) m w := by
  refine ⟨h, fun heq => hmissing ?_, fun heq => hinvalid ?_⟩
  · cases heq
    rfl
  · cases heq
    rfl

theorem Good.refused (hcode : code ∈ answerErrors) :
    Finished formats attempts (.error (.onboarding code)) m w := by
  refine h.failed (fun heq => ?_) fun heq => ?_
  · rw [heq] at hcode
    exact absurd hcode (by decide)
  · rw [heq] at hcode
    exact absurd hcode (by decide)

omit h in
theorem Good.returned {value : OnboardingViewState} (h : Good formats attempts m w) :
    Finished formats attempts (.ok value) m w := by
  refine ⟨h, fun heq => ?_, fun heq => ?_⟩
  · cases heq
  · cases heq

/-- A call that only reads. -/
theorem safe_read {f : c.Answer → Onboarding OnboardingViewState}
    (hnext : Safe serve formats attempts (f (respond serve c w).1) m (respond serve c w).2) :
    Safe serve formats attempts (readSecret c >>= f) m w :=
  visits_callOr.mpr ⟨h, fun _ => hnext, fun _ _ => h.failed (by decide) (by decide)⟩

theorem safe_write {f : c.Answer → Onboarding OnboardingViewState}
    (hnext : Careful m w c .done →
      Safe serve formats attempts (f (respond serve c w).1) m (respond serve c w).2) :
    Safe serve formats attempts (writeSecret c >>= f) m w :=
  visits_callOr.mpr ⟨h, hnext, fun _ _ => h.failed (by decide) (by decide)⟩

theorem safe_orFail {result : Except OnboardingErrorCode α}
    {f : α → Onboarding OnboardingViewState}
    (herror : ∀ code, result = .error code → code ∈ answerErrors)
    (hok : ∀ value, result = .ok value → Safe serve formats attempts (f value) m w) :
    Safe serve formats attempts (orFail result >>= f) m w :=
  visits_orFail hok fun code hcode => h.refused (herror code hcode)

/-- An answer is lost, or comes with the server after the call. -/
theorem safe_callRemote {call : RemoteCall} {f : RemoteResponse → Onboarding OnboardingViewState}
    (hnext : ∀ response server,
      Good formats attempts m (w.exchanged call (some response) server) →
      Safe serve formats attempts (f response) m (w.exchanged call (some response) server)) :
    Safe serve formats attempts (callRemote call >>= f) m w := by
  refine ⟨h, fun _ => ?_, fun error hcareful => ?_⟩
  · obtain ⟨⟨answer, server⟩, hserve⟩ : ∃ pair, serve call w.server = pair := ⟨_, rfl⟩
    have hrespond : respond serve (.remote call) w = (answer, w.exchanged call answer server) := by
      simp only [respond, hserve]
      rfl
    rw [hrespond]
    cases answer with
    | none => exact h.exchanged.failed (by decide) (by decide)
    | some response => exact hnext response server h.exchanged
  · cases error with
    | onboarding code =>
      refine h.failed (fun heq => hcareful.2.2.1 ?_) fun heq => hcareful.2.2.2 ?_
      · rw [heq]
        rfl
      · rw [heq]
        rfl
    | inviteFormat => exact h.failed (by decide) (by decide)
    | other => exact h.failed (by decide) (by decide)

/-- The cache is what is stored, where it is filled from it. -/
theorem Good.loaded :
    Good formats attempts { m with cache := some (Option.filter JsValue.isRecord w.stored) } w where
  stored := h.stored
  cached value hvalue := by
    have hloaded : Option.filter JsValue.isRecord w.stored = some value := some.inj hvalue
    have hstored := (filter_eq_some_iff.mp hloaded).1
    obtain ⟨state, hstate, hvalid, husable, hown⟩ := h.stored value hstored
    rw [hstate] at hstored
    exact ⟨state, hstate, hvalid, husable, remembered_of_stored hown hstored⟩
  active := h.active
  reviewed := h.reviewed

theorem safe_loadState {f : Option JsValue → Onboarding OnboardingViewState}
    (hnext : ∀ state m', m'.cache = some state → Good formats attempts m' w →
      Safe serve formats attempts (f state) m' w) :
    Safe serve formats attempts (loadState >>= f) m w := by
  obtain ⟨cache, hcache⟩ : ∃ cache, m.cache = cache := ⟨_, rfl⟩
  unfold loadState
  refine visitsTaking_bind.mpr (visits_readMemory.mpr ?_)
  rw [hcache]
  cases cache with
  | some state => exact hnext state m hcache h
  | none =>
    refine visits_callOr.mpr ⟨h, fun _ => ?_, fun _ _ => h.failed (by decide) (by decide)⟩
    exact hnext _ _ rfl h.loaded

/-- The cache has the state first, then it is stored. -/
theorem safe_saveState {state : DurableOnboardingState}
    {f : Unit → Onboarding OnboardingViewState} (hvalid : ValidState formats state)
    (husable : Usable formats w state) (hown : Own attempts w state)
    (hremembered : Remembered w state)
    (hnext : Good formats attempts { m with cache := some (some state.toValue) }
        { w with stored := some state.toValue } →
      Safe serve formats attempts (f ()) { m with cache := some (some state.toValue) }
        { w with stored := some state.toValue }) :
    Safe serve formats attempts (saveState state >>= f) m w := by
  have hcached : Good formats attempts { m with cache := some (some state.toValue) } w := by
    refine { h with cached := fun value hvalue => ?_ }
    exact ⟨state, (some.inj (some.inj hvalue)).symm, hvalid, husable, hremembered⟩
  have hfailed : Finished formats attempts (.error (.onboarding .storageFailed))
      { m with cache := some (some state.toValue) } w := hcached.failed (by decide) (by decide)
  refine visits_saveState.mpr (visits_callOr.mpr ⟨hcached, fun _ => ?_, fun _ _ => hfailed⟩)
  refine visits_callOr.mpr ⟨hcached, fun _ => hnext ?_, fun _ _ => hfailed⟩
  have husable' : Usable formats { w with stored := some state.toValue } state := by
    cases state with
    | redeeming state => exact husable
    | pendingApproval state => exact husable
    | connected state => exact husable
  have hown' : Own attempts { w with stored := some state.toValue } state := by
    cases state with
    | redeeming state => exact hown
    | pendingApproval state => exact hown
    | connected state => exact hown
  refine { h with stored := fun value hvalue => ?_, cached := fun value hvalue => ?_ }
  · exact ⟨state, (some.inj hvalue).symm, hvalid, husable', hown'⟩
  · exact ⟨state, (some.inj (some.inj hvalue)).symm, hvalid, husable',
      remembered_of_stored hown' rfl⟩

theorem safe_requireRefreshToken {token : JsString}
    (htoken : storedToken refreshPrefix w.refreshToken = some token)
    (hnext : Safe serve formats attempts (f token) m w) :
    Safe serve formats attempts (requireRefreshToken >>= f) m w := by
  refine visitsTaking_bind.mpr (visits_callOr.mpr ⟨h, fun _ => ?_, fun _ _ => ?_⟩)
  · dsimp only [respond]
    rw [htoken]
    exact hnext
  · exact h.failed (by decide) (by decide)

theorem safe_requireRejoinSecret {options : OnboardingOptions} {secret : JsString}
    (hsecret : storedToken rejoinPrefix w.rejoinSecret = some secret)
    (hnext : Safe serve formats attempts (f secret) m w) :
    Safe serve formats attempts (requireRejoinSecret options >>= f) m w := by
  obtain ⟨hstored, hcanonical⟩ := storedToken_eq_some hsecret
  refine visitsTaking_bind.mpr (visits_callOr.mpr ⟨h, fun _ => ?_, fun _ _ => ?_⟩)
  · dsimp only [respond]
    rw [hstored]
    dsimp only
    rw [if_pos hcanonical]
    exact hnext
  · exact h.failed (by decide) (by decide)

end

section
variable {S : Type} {serve : RemoteCall → S → Option RemoteResponse × S} {options : OnboardingOptions}
  {attempts : List Attempt} {m : Memory} {w : Platform S} {invitation : InviteEnvelope}
  {state : RedeemingState}

variable (h : Good options.formats attempts m w)
include h

theorem Good.shown (state : DurableOnboardingState) :
    Good options.formats attempts { m with currentState := .durable state } w :=
  { h with reviewed := fun metadata hreviewed => by cases hreviewed }

omit h in
theorem isText_phase (state : DurableOnboardingState) (phase : JsString) :
    isText phase (state.toValue.get .phase) = decide (state.phase = phase) := by
  cases state with
  | redeeming state => rfl
  | pendingApproval state => rfl
  | connected state => rfl

omit h in
theorem redeeming_notPending (state : RedeemingState) :
    isText pendingApprovalPhase ((DurableOnboardingState.redeeming state).toValue.get .phase) =
      false := by
  have hphase : redeemingPhase ≠ pendingApprovalPhase := by decide
  rw [isText_phase]
  exact decide_eq_false hphase

omit h in
theorem pending_isPending (state : PendingApprovalState) :
    isText pendingApprovalPhase
      ((DurableOnboardingState.pendingApproval state).toValue.get .phase) = true := by
  rw [isText_phase]
  exact decide_eq_true rfl

omit h in
theorem redeeming_isRedeeming (state : RedeemingState) :
    isText redeemingPhase ((DurableOnboardingState.redeeming state).toValue.get .phase) = true := by
  rw [isText_phase]
  exact decide_eq_true rfl

omit h in
theorem pending_notRedeeming (state : PendingApprovalState) :
    isText redeemingPhase ((DurableOnboardingState.pendingApproval state).toValue.get .phase) =
      false := by
  have hphase : pendingApprovalPhase ≠ redeemingPhase := by decide
  rw [isText_phase]
  exact decide_eq_false hphase

/-- Secrets may change that no stored or cached state reads. -/
theorem Good.secretsChanged {w' : Platform S} (hsame : w'.stored = w.stored)
    (hkept : ∀ state : DurableOnboardingState,
      w.stored = some state.toValue ∨ m.cache = some (some state.toValue) →
      (Usable options.formats w state → Usable options.formats w' state) ∧
        (Own attempts w state → Own attempts w' state) ∧ (Remembered w state → Remembered w' state)) :
    Good options.formats attempts m w' := by
  refine { h with stored := fun value hvalue => ?_, cached := fun value hvalue => ?_ }
  · rw [hsame] at hvalue
    obtain ⟨state, rfl, hvalid, husable, hown⟩ := h.stored value hvalue
    obtain ⟨husable', hown', -⟩ := hkept state (.inl hvalue)
    exact ⟨state, rfl, hvalid, husable' husable, hown' hown⟩
  · obtain ⟨state, rfl, hvalid, husable, hremembered⟩ := h.cached value hvalue
    obtain ⟨husable', -, hremembered'⟩ := hkept state (.inr hvalue)
    exact ⟨state, rfl, hvalid, husable' husable, hremembered' hremembered⟩

/-- The credential is of no concern to a state that is not pending. -/
theorem Good.credentialChanged (credential : Option JsString)
    (hstored : ∀ value, w.stored = some value →
      isText pendingApprovalPhase (value.get .phase) = false)
    (hcached : ∀ value, m.cache = some (some value) →
      isText pendingApprovalPhase (value.get .phase) = false) :
    Good options.formats attempts m { w with pendingCredential := credential } := by
  refine h.secretsChanged rfl fun state hat => ?_
  cases state with
  | redeeming state => exact ⟨id, id, id⟩
  | pendingApproval state =>
    have hphase := hat.elim (hstored _) (hcached _)
    exact absurd hphase (ne_false_of_eq_true (pending_isPending state))
  | connected state => exact ⟨id, id, id⟩

/-- The envelope is of no concern to a state that is not redeeming. -/
theorem Good.envelopeChanged (envelope : Option JsString)
    (hstored : ∀ value, w.stored = some value → isText redeemingPhase (value.get .phase) = false)
    (hcached : ∀ value, m.cache = some (some value) →
      isText redeemingPhase (value.get .phase) = false) :
    Good options.formats attempts m { w with invitationEnvelope := envelope } := by
  refine h.secretsChanged rfl fun state hat => ?_
  cases state with
  | redeeming state =>
    have hphase := hat.elim (hstored _) (hcached _)
    exact absurd hphase (ne_false_of_eq_true (redeeming_isRedeeming state))
  | pendingApproval state => exact ⟨id, id, id⟩
  | connected state => exact ⟨id, id, id⟩

theorem Good.withoutInvitation :
    Good options.formats attempts { m with activeInvitation := none } w :=
  { h with
    active := fun invitation hactive => by cases hactive
    reviewed := fun metadata hreviewed =>
      ⟨(h.reviewed metadata hreviewed).1, fun invitation hactive => by cases hactive⟩ }

/-- A redemption ends with its state, or with the pending state the answer makes of
it; the credential of that state is stored before it is. -/
theorem safe_redeem (hvalid : ValidState options.formats (.redeeming state))
    (husable : Usable options.formats w (.redeeming state))
    (hstored : w.stored = none ∨ w.stored = some (DurableOnboardingState.redeeming state).toValue)
    (hcached : m.cache = some (some (DurableOnboardingState.redeeming state).toValue)) :
    Safe serve options.formats attempts (redeem options state invitation) m w := by
  obtain ⟨⟨token, htoken⟩, ⟨secret, hsecret⟩, -⟩ := husable
  have hrefresh := (storedToken_eq_some htoken).1
  refine safe_requireRefreshToken h htoken (safe_requireRejoinSecret h hsecret ?_)
  refine safe_callRemote h fun response server hgood => ?_
  refine safe_orFail hgood (fun _ => parsePendingRedemptionResponse_eq_error) ?_
  intro pending hpending
  refine safe_write hgood fun _ => ?_
  obtain ⟨hdevice, hcredential, hphrase⟩ := parsePendingRedemptionResponse_eq_ok hpending
  dsimp only [respond]
  rw [secretOf_token hcredential]
  have hstoredPhase : ∀ value, w.stored = some value →
      isText pendingApprovalPhase (value.get .phase) = false := by
    intro value hvalue
    rcases hstored with hnone | hsome
    · rw [hnone] at hvalue
      cases hvalue
    · rw [hsome] at hvalue
      cases hvalue
      exact redeeming_notPending state
  have hcachedPhase : ∀ value, m.cache = some (some value) →
      isText pendingApprovalPhase (value.get .phase) = false := by
    intro value hvalue
    rw [hcached] at hvalue
    cases hvalue
    exact redeeming_notPending state
  have hsaved := hgood.credentialChanged (some pending.pendingCredential) hstoredPhase hcachedPhase
  have hvalidPending : ValidState options.formats (.pendingApproval
      { state with
        pendingDeviceId := pending.pendingDeviceId
        verificationPhrase := pending.verificationPhrase }) :=
    ⟨hvalid.metadata, decide_eq_true ⟨hdevice, hphrase⟩⟩
  refine safe_saveState hsaved hvalidPending ?_ ?_ ?_ fun hkept => ?_
  · exact ⟨⟨token, htoken⟩, pending.pendingCredential, storedToken_of hcredential⟩
  · exact ⟨_, pending, ⟨response, mem_append_right _ mem_cons_self, hpending⟩, rfl, rfl,
      hrefresh⟩
  · exact ⟨_, pending, ⟨response, mem_append_right _ mem_cons_self, hpending⟩, rfl, rfl,
      hrefresh⟩
  refine ⟨hkept.shown _, fun _ => ?_, fun _ _ => ?_⟩
  · refine ((hkept.shown (.pendingApproval _)).envelopeChanged none (fun value hvalue => ?_)
      fun value hvalue => ?_).withoutInvitation.returned
    · rw [← some.inj hvalue]
      exact pending_notRedeeming _
    · rw [← some.inj (some.inj hvalue)]
      exact pending_notRedeeming _
  · exact (hkept.shown (.pendingApproval _)).withoutInvitation.returned

theorem safe_connect {state : ConnectedState}
    (hvalid : ValidState options.formats (.connected state))
    (husable : Usable options.formats w (.connected state))
    (hown : Own attempts w (.connected state)) :
    Safe serve options.formats attempts (connect state) m w := by
  obtain ⟨token, htoken⟩ := husable
  refine safe_requireRefreshToken h htoken ?_
  refine safe_saveState h hvalid ⟨token, htoken⟩ hown hown fun hkept => ?_
  refine ⟨hkept.shown _, fun hcareful => ?_, fun _ _ => (hkept.shown (.connected _)).returned⟩
  have hphase := hcareful.2.1 ⟨rfl, rfl⟩ _ rfl
  refine ((hkept.shown (.connected _)).credentialChanged none (fun value hvalue => ?_)
    fun value hvalue => ?_).returned
  · rw [← some.inj hvalue]
    exact hphase
  · rw [← some.inj (some.inj hvalue)]
    exact hphase

/-- Nothing is remembered once the cache is empty. -/
theorem Good.forgotten : Good options.formats attempts { m with cache := some none } w :=
  { h with cached := fun value hvalue => by cases hvalue }

theorem Good.removed (hcache : m.cache = some none) :
    Good options.formats attempts m { w with stored := none } := by
  refine { h with stored := fun value hvalue => ?_, cached := fun value hvalue => ?_ }
  · cases hvalue
  · rw [hcache] at hvalue
    cases hvalue

theorem Good.rejected : Good options.formats attempts { m with currentState := .rejected } w :=
  { h with reviewed := fun metadata hreviewed => by cases hreviewed }

omit h in
theorem safe_clearState {f : Unit → Onboarding OnboardingViewState}
    (h : Good options.formats attempts { m with cache := some none } w)
    (hnext : Good options.formats attempts { m with cache := some none } { w with stored := none } →
      Safe serve options.formats attempts (f ()) { m with cache := some none }
        { w with stored := none }) :
    Safe serve options.formats attempts (clearState >>= f) m w := by
  have hfailed : Finished options.formats attempts (.error (.onboarding .storageFailed))
      { m with cache := some none } w := h.failed (by decide) (by decide)
  exact ⟨h, fun _ => ⟨h, fun _ => hnext (h.removed rfl), fun _ _ => hfailed⟩, fun _ _ => hfailed⟩

/-- The credential that is cleared is of no stored state, and the cache forgets the
state that needed it before the next await. -/
theorem safe_leaveRejected : Safe serve options.formats attempts leaveRejected m w := by
  refine visits_clear.mpr ⟨h, fun hcareful => ?_, fun _ _ => ?_⟩
  · refine safe_clearState (h.forgotten.credentialChanged none (hcareful.2.1 ⟨rfl, rfl⟩) ?_) fun hkept => ?_
    · intro value hvalue
      cases hvalue
    · exact hkept.rejected.returned
  · exact safe_clearState h.forgotten fun hkept => hkept.rejected.returned

theorem safe_pollApproval {state : PendingApprovalState}
    (hvalid : ValidState options.formats (.pendingApproval state))
    (husable : Usable options.formats w (.pendingApproval state))
    (hown : Own attempts w (.pendingApproval state)) :
    Safe serve options.formats attempts (pollApproval state) m w := by
  obtain ⟨⟨token, htoken⟩, credential, hcredential⟩ := husable
  obtain ⟨request, pending, hredeemed, -, hstored, hrefresh⟩ := hown
  refine safe_requireRefreshToken h htoken (safe_read h ?_)
  dsimp only [respond]
  rw [hcredential]
  refine safe_callRemote h fun response server hgood => ?_
  refine safe_orFail hgood (fun _ => parseApprovalResponse_eq_error) ?_
  intro approval happroval
  cases approval with
  | pending => exact hgood.returned
  | rejected => exact safe_leaveRejected hgood
  | approved deviceId membershipId =>
    obtain ⟨hdevice, hmembership⟩ := parseApprovalResponse_eq_ok happroval
    have hmetadata := hvalid.metadata
    have hsame : credential = pending.pendingCredential :=
      some.inj ((storedToken_eq_some hcredential).1.symm.trans hstored)
    subst hsame
    refine safe_connect hgood ⟨{ hmetadata with memberId := hmembership }, ?_⟩ ⟨token, htoken⟩ ?_
    · exact decide_eq_true ⟨hdevice, Nat.zero_le _⟩
    · refine ⟨request, pending, hredeemed.append, ?_, hrefresh⟩
      exact ⟨_, response, membershipId, mem_append_right _ mem_cons_self, happroval⟩

/-- The envelope of the state is the one that is taken up again. -/
theorem Good.takenUp {canonicalEnvelope : JsString} {state : DurableOnboardingState}
    (hparsed : parseInviteEnvelope options.formats canonicalEnvelope = some invitation)
    (hshown : m.currentState = .durable state) :
    Good options.formats attempts
      { m with activeInvitation := some { canonicalEnvelope, parsed := invitation } } w := by
  refine { h with active := fun active hactive => ?_, reviewed := fun metadata hreviewed => ?_ }
  · rw [← some.inj hactive]
    exact hparsed
  · have hreview : m.currentState = .invitationReview metadata := hreviewed
    rw [hshown] at hreview
    cases hreview

theorem safe_resumeRedemption (hvalid : ValidState options.formats (.redeeming state))
    (husable : Usable options.formats w (.redeeming state))
    (hstored : w.stored = none ∨ w.stored = some (DurableOnboardingState.redeeming state).toValue)
    (hcached : m.cache = some (some (DurableOnboardingState.redeeming state).toValue))
    (hshown : m.currentState = .durable (.redeeming state)) :
    Safe serve options.formats attempts (resumeRedemption options state) m w := by
  obtain ⟨envelope, invitation, henvelope, hparsed, horigin⟩ := husable.2.2
  refine safe_read h ?_
  dsimp only [respond]
  rw [henvelope]
  dsimp only
  rw [hparsed]
  dsimp only
  rw [if_neg (not_not.mpr horigin)]
  exact safe_redeem (h.takenUp hparsed hshown) hvalid husable hstored hcached

theorem Good.idle : Good options.formats attempts { m with currentState := .idle } w :=
  { h with reviewed := fun metadata hreviewed => by cases hreviewed }

theorem safe_begin (canonicalEnvelope : JsString) :
    Safe serve options.formats attempts (beginFromPastedEnvelope options canonicalEnvelope) m w := by
  unfold beginFromPastedEnvelope
  split
  · refine ⟨h, fun heq => ?_, fun heq => ?_⟩
    · cases heq
    · cases heq
  · rename_i parsed hparsed
    have hgood : Good options.formats attempts
        { m with
          activeInvitation := some { canonicalEnvelope, parsed }
          currentState := .originReview parsed.serverOrigin } w := by
      refine { h with active := fun active hactive => ?_, reviewed := fun metadata hreviewed => ?_ }
      · rw [← some.inj hactive]
        exact hparsed
      · cases hreviewed
    exact hgood.returned

theorem safe_resumeStored {state : DurableOnboardingState}
    (hvalid : ValidState options.formats state) (husable : Usable options.formats w state)
    (hremembered : Remembered w state) (hcached : m.cache = some (some state.toValue)) :
    Safe serve options.formats attempts (resumeStored options state.toValue) m w := by
  unfold resumeStored
  rw [parseDurableState_toValue hvalid]
  cases state with
  | redeeming state =>
    exact safe_resumeRedemption (h.shown _) hvalid husable hremembered hcached rfl
  | pendingApproval state =>
    have hown : Own attempts w (.pendingApproval state) := hremembered
    exact safe_pollApproval (h.shown _) hvalid husable hown
  | connected state =>
    have hphase : isText connectedPhase
        ((DurableOnboardingState.connected state).toValue.get .phase) = true := by
      rw [isText_phase]
      exact decide_eq_true rfl
    obtain ⟨token, htoken⟩ := husable
    dsimp only
    rw [if_pos hphase]
    exact safe_requireRefreshToken (h.shown _) htoken (h.shown (.connected state)).returned

theorem safe_resume : Safe serve options.formats attempts (resume options) m w := by
  refine safe_loadState h fun loaded m' hcache hgood => ?_
  cases loaded with
  | none =>
    refine safe_read hgood ?_
    obtain ⟨envelope, henvelope⟩ : ∃ envelope, w.invitationEnvelope = envelope := ⟨_, rfl⟩
    dsimp only [respond]
    rw [henvelope]
    cases envelope with
    | none => exact hgood.idle.returned
    | some envelope => exact safe_begin hgood envelope
  | some value =>
    obtain ⟨state, hstate, hvalid, husable, hremembered⟩ := hgood.cached value hcache
    subst hstate
    exact safe_resumeStored hgood hvalid husable hremembered hcache

omit h in
theorem underReview_eq_some (h : underReview m = some invitation) :
    ∃ active, m.activeInvitation = some active ∧ active.parsed = invitation := by
  unfold underReview at h
  split at h
  · obtain ⟨hfound, -⟩ := filter_eq_some_iff.mp h
    exact map_eq_some_iff.mp hfound
  · cases h

theorem safe_loadInvitationReview :
    Safe serve options.formats attempts (loadInvitationReview options) m w := by
  refine visits_readMemory.mpr ?_
  obtain ⟨found, hfound⟩ : ∃ found, underReview m = found := ⟨_, rfl⟩
  rw [hfound]
  cases found with
  | none => exact h.failed (by decide) (by decide)
  | some invitation =>
    obtain ⟨active, hactive, hparsed⟩ := underReview_eq_some hfound
    have horigin := (parseInviteEnvelope_eq_some (h.active active hactive)).1
    rw [hparsed] at horigin
    refine safe_callRemote h fun answer server hgood => ?_
    refine safe_orFail hgood (fun _ => parseDiscoveryResponse_eq_error) ?_
    intro discovery hdiscovery
    refine safe_callRemote hgood fun reviewAnswer reviewServer hreviewed => ?_
    refine safe_orFail hreviewed (fun _ => parseInvitationReviewResponse_eq_error) ?_
    intro review hreview
    obtain ⟨hbase, hname, hversion⟩ := parseDiscoveryResponse_eq_ok hdiscovery
    have hvalid := parseInvitationReviewResponse_eq_ok hreview
    dsimp only
    split
    · exact hreviewed.failed (by decide) (by decide)
    · refine Good.returned { hreviewed with reviewed := fun metadata hmetadata => ?_ }
      cases hmetadata
      refine ⟨?_, fun other hother => ?_⟩
      · exact
          { serverOrigin := horigin
            apiBaseUrl := hbase
            serverName := hname
            vaultName := hvalid.vaultName
            inviterDisplayName := hvalid.inviterDisplayName
            intendedMemberDisplayName := hvalid.intendedMemberDisplayName
            vaultId := hvalid.vaultId
            memberId := hvalid.memberId
            expiresAt := hvalid.expiresAt
            protocolVersion := hversion }
      · have hsame : m.activeInvitation = some other := hother
        rw [hactive] at hsame
        rw [← some.inj hsame, hparsed]

/-- The secrets of a new attempt are written while nothing is stored; a redeeming
state that is remembered can do with them. -/
theorem Good.overwritten (w' : Platform S) (hunattended : Unattended m w)
    (hstored : w'.stored = none)
    (husable : ∀ state : RedeemingState,
      Usable options.formats w (.redeeming state) →
      (∀ invitation, m.activeInvitation = some invitation →
        invitation.parsed.serverOrigin = state.serverOrigin) →
      Usable options.formats w' (.redeeming state)) : Good options.formats attempts m w' := by
  refine { h with stored := fun value hvalue => ?_, cached := fun value hvalue => ?_ }
  · rw [hstored] at hvalue
    cases hvalue
  · obtain ⟨state, hstate, hvalid, hwas, -⟩ := h.cached value hvalue
    have hjoin : value ∈ m.cache.join := by
      rw [hvalue]
      rfl
    obtain ⟨hphase, horigin⟩ := hunattended.2 value hjoin
    subst hstate
    rw [isText_phase] at hphase
    have hphase := of_decide_eq_true hphase
    cases state with
    | redeeming state =>
      refine ⟨.redeeming state, rfl, hvalid, husable state hwas ?_, Or.inl hstored⟩
      exact fun invitation hactive => (of_decide_eq_true (horigin invitation hactive)).symm
    | pendingApproval state =>
      have hother : pendingApprovalPhase ≠ redeemingPhase := by decide
      exact absurd hphase hother
    | connected state =>
      have hother : connectedPhase ≠ redeemingPhase := by decide
      exact absurd hphase hother

/-- What a confirmation of the invitation sets out with. -/
def Attempt.of (options : OnboardingOptions) (invitation : ActiveInvitation) : Attempt :=
  { redemptionId := options.redemptionId
    refreshToken := options.initialRefreshToken
    rejoinSecret := options.rejoinSecret
    envelope := invitation.canonicalEnvelope }

theorem safe_confirmInvitation {deviceLabel : JsString}
    (hattempts : ∀ invitation, m.activeInvitation = some invitation →
      Attempt.of options invitation ∈ attempts) :
    Safe serve options.formats attempts (confirmInvitation options deviceLabel) m w := by
  refine visits_readMemory.mpr ?_
  dsimp only
  split
  · rename_i metadata invitation hreview hactive
    obtain ⟨hmetadata, horigin⟩ := h.reviewed metadata hreview
    have hparsed := h.active invitation hactive
    split
    · exact h.failed (by decide) (by decide)
    rename_i hlabel
    split
    · exact h.failed (by decide) (by decide)
    split
    · exact h.failed (by decide) (by decide)
    rename_i hgenerated
    push Not at hgenerated
    obtain ⟨hredemption, htoken, hsecret⟩ := hgenerated
    rw [Bool.not_eq_false] at hlabel
    rw [ne_eq, Bool.not_eq_false] at hredemption htoken hsecret
    refine safe_write h fun hcareful => ?_
    have hunattended := hcareful.1 ⟨rfl, rfl⟩
    dsimp only [respond]
    rw [secretOf_token htoken]
    have hrefresh := h.overwritten
      { w with refreshToken := some options.initialRefreshToken } hunattended hunattended.1
      fun state hwas _ => ⟨⟨_, storedToken_of htoken⟩, hwas.2⟩
    refine safe_write hrefresh fun _ => ?_
    dsimp only [respond]
    rw [secretOf_token hsecret]
    have hrejoin := hrefresh.overwritten
      { w with
        refreshToken := some options.initialRefreshToken
        rejoinSecret := some options.rejoinSecret } hunattended hunattended.1
      fun state hwas _ => ⟨hwas.1, ⟨_, storedToken_of hsecret⟩, hwas.2.2⟩
    refine safe_write hrejoin fun _ => ?_
    dsimp only [respond]
    have henvelope : secretOf invitation.canonicalEnvelope = some invitation.canonicalEnvelope :=
      if_neg (parseInviteEnvelope_eq_some hparsed).2
    rw [henvelope]
    have hwritten := hrejoin.overwritten
      { w with
        refreshToken := some options.initialRefreshToken
        rejoinSecret := some options.rejoinSecret
        invitationEnvelope := some invitation.canonicalEnvelope } hunattended hunattended.1
      fun state hwas horigin => ⟨hwas.1, hwas.2.1, _, _, rfl, hparsed, horigin invitation hactive⟩
    have husable : Usable options.formats
        { w with
          refreshToken := some options.initialRefreshToken
          rejoinSecret := some options.rejoinSecret
          invitationEnvelope := some invitation.canonicalEnvelope }
        (.redeeming { metadata with deviceLabel, redemptionId := options.redemptionId }) :=
      ⟨⟨_, storedToken_of htoken⟩, ⟨_, storedToken_of hsecret⟩, _, _, rfl, hparsed,
        horigin invitation hactive⟩
    have hvalid : ValidState options.formats
        (.redeeming { metadata with deviceLabel, redemptionId := options.redemptionId }) :=
      ⟨hmetadata, decide_eq_true ⟨hlabel, hredemption⟩⟩
    refine safe_saveState hwritten hvalid husable ?_ (Or.inl hunattended.1) fun hkept => ?_
    · exact ⟨Attempt.of options invitation, hattempts invitation hactive, rfl, rfl, rfl, rfl⟩
    · exact safe_redeem (hkept.shown _) hvalid husable (Or.inr rfl) rfl
  · exact h.failed (by decide) (by decide)

end

section
variable {S : Type}

structure Client (S : Type) where
  memory : Memory
  platform : Platform S
  attempts : List Attempt

/-- What the user or the start of the plugin calls. -/
inductive Call
  | begin (canonicalEnvelope : JsString)
  | review
  | confirm (deviceLabel : JsString)
  | resume

def Call.code (options : OnboardingOptions) : Call → Onboarding OnboardingViewState
  | .begin canonicalEnvelope => beginFromPastedEnvelope options canonicalEnvelope
  | .review => loadInvitationReview options
  | .confirm deviceLabel => confirmInvitation options deviceLabel
  | .resume => OnboardingController.resume options

/-- `options` without its readers, which are the platform's. -/
inductive ClientAction (S : Type)
  | called (call : Call) (options : OnboardingOptions) (choices : List (Choice Failure))
  | elsewhere (server : S)

/-- A stop ends the controller; the next one starts with nothing in memory. -/
def Client.ended {α : Type} (s : Client S) (attempts : List Attempt) :
    Ending onboarding α × Platform S → Client S
  | (.returned _ memory, platform) => { memory, platform, attempts := s.attempts ++ attempts }
  | (.threw _ memory, platform) => { memory, platform, attempts := s.attempts ++ attempts }
  | (.stopped, platform) => { memory := {}, platform, attempts := s.attempts ++ attempts }

def attemptsOf (options : OnboardingOptions) (memory : Memory) : List Attempt :=
  memory.activeInvitation.toList.map (Attempt.of options)

variable (formats : Formats) (serve : RemoteCall → S → Option RemoteResponse × S)

def clientStep (s : Client S) : ClientAction S → Option (Client S)
  | .called call options choices =>
      some (s.ended (attemptsOf options s.memory)
        (exec (respond serve) (call.code { options with formats }) s.memory s.platform choices))
  | .elsewhere server => some { s with platform := { s.platform with server } }

/-- Every await of the call is as `Careful` asks. -/
def careful (s : Client S) : ClientAction S → Prop
  | .called call options choices =>
      Takes (respond serve) Careful (call.code { options with formats }) s.memory s.platform choices
  | .elsewhere _ => True

instance decidableCareful (s : Client S) :
    ∀ action, Decidable (careful formats serve s action)
  | .called call options choices =>
      @decidableTakes onboarding _ _ (respond serve) Careful decidableAwait
        (call.code { options with formats }) s.memory s.platform choices
  | .elsewhere _ => isTrue trivial

/-- A device on which no state is stored, with secrets from elsewhere. -/
def firstStart (envelope credential refreshToken rejoinSecret : Option JsString) (server : S) :
    Client S :=
  { memory := {}
    platform :=
      { stored := none
        invitationEnvelope := envelope
        pendingCredential := credential
        refreshToken
        rejoinSecret
        server
        exchanges := [] }
    attempts := [] }

variable {formats serve}

theorem good_firstStart {envelope credential refreshToken rejoinSecret : Option JsString}
    {server : S} :
    Good formats [] {} (firstStart envelope credential refreshToken rejoinSecret server).platform where
  stored value hvalue := by cases hvalue
  cached value hvalue := by cases hvalue
  active invitation hactive := by cases hactive
  reviewed metadata hreviewed := by cases hreviewed

theorem safe_code (options : OnboardingOptions) {attempts : List Attempt} {m : Memory}
    {w : Platform S} (h : Good options.formats attempts m w) (call : Call) :
    Safe serve options.formats (attempts ++ attemptsOf options m) (call.code options) m w := by
  have hmore : Good options.formats (attempts ++ attemptsOf options m) m w := h.more
  cases call with
  | begin canonicalEnvelope => exact safe_begin hmore canonicalEnvelope
  | review => exact safe_loadInvitationReview hmore
  | confirm deviceLabel =>
    refine safe_confirmInvitation hmore fun invitation hactive => mem_append_right _ ?_
    refine mem_map.mpr ⟨invitation, ?_, rfl⟩
    exact Option.mem_toList.mpr hactive
  | resume => exact safe_resume hmore

theorem good_step {s s' : Client S} {action : ClientAction S}
    (h : Good formats s.attempts s.memory s.platform) (hcareful : careful formats serve s action)
    (hstep : clientStep formats serve s action = some s') :
    Good formats s'.attempts s'.memory s'.platform := by
  cases action with
  | called call options choices =>
    have hsafe : Safe serve formats (s.attempts ++ attemptsOf options s.memory)
        (call.code { options with formats }) s.memory s.platform :=
      safe_code { options with formats } h call
    have hends := hsafe.exec hcareful
    obtain ⟨result, hresult⟩ : ∃ result, exec (respond serve) (call.code { options with formats })
        s.memory s.platform choices = result := ⟨_, rfl⟩
    rw [hresult] at hends
    have hs' : s.ended (attemptsOf options s.memory) result = s' :=
      hresult ▸ some.inj hstep
    obtain ⟨ending, platform⟩ := result
    subst hs'
    cases ending with
    | returned value memory => exact hends.1
    | threw error memory => exact hends.1
    | stopped =>
      obtain ⟨memory, hgood⟩ := hends
      exact hgood.restarted
  | elsewhere server =>
    cases hstep
    exact ⟨h.stored, h.cached, h.active, h.reviewed⟩

/-- While no refresh token is written over that of a state and the credential of a
stored pending state is not cleared, the stored state reads back and has the secrets
it needs, which are its own, at every await of every call; and a resume does not fail
for want of them. -/
theorem onboarding_accompanied {envelope credential refreshToken rejoinSecret : Option JsString}
    {server : S} {s : Client S}
    (h : Reached (clientStep formats serve) (careful formats serve)
      (firstStart envelope credential refreshToken rejoinSecret server) s) :
    (∀ value, s.platform.stored = some value → ∃ state : DurableOnboardingState,
      value = state.toValue ∧ parseDurableState formats value = some state ∧
        Usable formats s.platform state ∧ Own s.attempts s.platform state) ∧
      ∀ options choices, careful formats serve s (.called .resume options choices) →
        ∀ code m w, exec (respond serve) (resume { options with formats }) s.memory s.platform
            choices = (.threw (.onboarding code) m, w) →
          code ≠ .missingCredential ∧ code ≠ .invalidState := by
  have hgood : Good formats s.attempts s.memory s.platform :=
    h.invariant (P := fun s => Good formats s.attempts s.memory s.platform) good_firstStart
      fun _ _ _ hgood hcareful hstep => good_step hgood hcareful hstep
  refine ⟨fun value hvalue => ?_, fun options choices hcareful code m w hexec => ?_⟩
  · obtain ⟨state, hstate, hvalid, husable, hown⟩ := hgood.stored value hvalue
    refine ⟨state, hstate, ?_, husable, hown⟩
    rw [hstate]
    exact parseDurableState_toValue hvalid
  · have hsafe : Safe serve formats (s.attempts ++ attemptsOf { options with formats } s.memory)
        (Call.code { options with formats } .resume) s.memory s.platform :=
      safe_code { options with formats } hgood .resume
    have hends := hsafe.exec hcareful
    have hfinished : Finished formats (s.attempts ++ attemptsOf { options with formats } s.memory)
        (.error (.onboarding code)) m w := by
      have hexec' : exec (respond serve) (Call.code { options with formats } .resume) s.memory
          s.platform choices = (.threw (.onboarding code) m, w) := hexec
      rw [hexec'] at hends
      exact hends
    refine ⟨fun hcode => hfinished.2.1 ?_, fun hcode => hfinished.2.2 ?_⟩
    · rw [hcode]
    · rw [hcode]

end

section
variable {s : Client JsString}

/-- Readers that are right on an origin and on one date. -/
def sampleFormats : Formats where
  parseUrl value := some
    { protocol := https
      username := []
      password := []
      pathname := slash
      search := []
      hash := []
      origin := value
      href := value ++ slash }
  parseDate _ := some 1893456000000
  toIsoString _ := ascii "2030-01-01T00:00:00.000Z"

/-- A token of one unit throughout, and of one that leaves no bits over. -/
def tokenOf (start : JsString) (unit : CodeUnit) : JsString :=
  start ++ List.replicate 42 unit ++ ascii "A"

def uuidOf (unit : CodeUnit) : JsString :=
  List.replicate 8 unit ++ ascii "-0000-4000-8000-000000000000"

def sampleEnvelope : JsString :=
  encodeEnvelope
    { serverOrigin := ascii "https://vault.example"
      invitationToken := tokenOf invitationPrefix 65 }

def answered (members : List (Key × JsValue)) (finalUrl : JsString) : Option RemoteResponse :=
  some { body := .object members, finalUrl, status := 200 }

def discoveryMembers (origin : JsString) : List (Key × JsValue) :=
  [(.service, .string (ascii "havemind")), (.name, .string (ascii "Vault")),
    (.apiBaseUrl, .string origin), (.authMethods, .array [.string (ascii "opaque-token")]),
    (.capabilities, .array []),
    (.protocol, .object [(.major, .number 1), (.minMinor, .number 0), (.maxMinor, .number 0)])]

def reviewMembers : List (Key × JsValue) :=
  [(.version, .number 1), (.vaultId, .string (uuidOf 49)), (.memberId, .string (uuidOf 50)),
    (.vaultName, .string (ascii "Notes")), (.inviterDisplayName, .string (ascii "Owner")),
    (.intendedMemberDisplayName, .string (ascii "Guest")),
    (.expiresAt, .string (ascii "2030-01-01T00:00:00.000Z"))]

def redemptionMembers : List (Key × JsValue) :=
  [(.status, .string (ascii "pending")), (.pendingDeviceId, .string (uuidOf 51)),
    (.pendingCredential, .string (tokenOf pendingPrefix 65)),
    (.verificationPhrase, .string (ascii "012345"))]

def approvalMembers (status : JsString) : List (Key × JsValue) :=
  [(.status, .string status), (.deviceId, .string (uuidOf 51)),
    (.membershipId, .string (uuidOf 52))]

/-- A server that answers a poll with the status it has. -/
def sampleServe : RemoteCall → JsString → Option RemoteResponse × JsString
  | .discover url, status =>
      (answered (discoveryMembers (ascii "https://vault.example")) url, status)
  | .reviewInvitation _ url, status => (answered reviewMembers url, status)
  | .redeemInvitation request, status => (answered redemptionMembers request.url, status)
  | .pollApproval _ url, status => (answered (approvalMembers status) url, status)

/-- What a call is given whose identifier and tokens are of this digit. -/
def sampleOptions (unit : CodeUnit) : OnboardingOptions where
  formats := sampleFormats
  now := 0
  redemptionId := uuidOf unit
  initialRefreshToken := tokenOf refreshPrefix unit
  rejoinSecret := tokenOf rejoinPrefix unit
  mintedRejoinSecret := tokenOf rejoinPrefix unit

def calledAs (unit : CodeUnit) (call : Call) (choices : List (Choice Failure)) :
    ClientAction JsString :=
  .called call (sampleOptions unit) choices

/-- An invitation is pasted, reviewed and confirmed. -/
def joining (unit : CodeUnit) (choices : List (Choice Failure)) : List (ClientAction JsString) :=
  [calledAs unit (.begin sampleEnvelope) [], calledAs unit .review [],
    calledAs unit (.confirm (ascii "Laptop")) choices]

def sampleStart (status : JsString) : Client JsString := firstStart none none none none status

def sampleRun (status : JsString) (actions : List (ClientAction JsString)) :
    Option (Client JsString) :=
  run (clientStep sampleFormats sampleServe) (sampleStart status) actions

def storedState (s : Client JsString) : Option DurableOnboardingState :=
  s.platform.stored.bind (parseDurableState sampleFormats)

def resumeError (s : Client JsString) : Option OnboardingErrorCode :=
  match exec (respond sampleServe) (resume (sampleOptions 48)) s.memory s.platform [] with
  | (.threw (.onboarding code) _, _) => some code
  | _ => none

theorem resumeError_eq_some {code : OnboardingErrorCode} (h : resumeError s = some code) :
    ∃ m w, exec (respond sampleServe) (resume (sampleOptions 48)) s.memory s.platform [] =
      (.threw (.onboarding code) m, w) := by
  unfold resumeError at h
  split at h
  · rename_i other m w hexec
    cases h
    exact ⟨m, w, hexec⟩
  · cases h

/-- The stored redeeming state is of an attempt whose refresh token is not stored. -/
def isForeign (s : Client JsString) : Bool :=
  match storedState s with
  | some (.redeeming state) => s.attempts.all fun attempt =>
      attempt.redemptionId = state.redemptionId → s.platform.refreshToken ≠ some attempt.refreshToken
  | _ => false

theorem not_own_of_isForeign (h : isForeign s = true) :
    ∃ value state, s.platform.stored = some value ∧
      parseDurableState sampleFormats value = some state ∧ ¬ Own s.attempts s.platform state := by
  unfold isForeign at h
  split at h
  · rename_i state hstate
    obtain ⟨value, hvalue, hparsed⟩ := bind_eq_some_iff.mp hstate
    refine ⟨value, _, hvalue, hparsed, ?_⟩
    rintro ⟨attempt, hmem, hredemption, hrefresh, -⟩
    exact of_decide_eq_true (all_eq_true.mp h attempt hmem) hredemption hrefresh
  · cases h

end

/-- A device joins and is approved: its connection is stored with its refresh token. -/
theorem onboarding_accompanied_connected : ∃ s value state,
    sampleRun (ascii "approved") (joining 48 [] ++ [calledAs 48 .resume []]) = some s ∧
      s.platform.stored = some value ∧ parseDurableState sampleFormats value = some state ∧
      state.phase = connectedPhase ∧ Usable sampleFormats s.platform state ∧
      Own s.attempts s.platform state := by
  have hphase : (sampleRun (ascii "approved") (joining 48 [] ++ [calledAs 48 .resume []])).bind
      (fun s => (storedState s).map DurableOnboardingState.phase) = some connectedPhase := by
    decide +kernel
  have hallowed : Allowed (clientStep sampleFormats sampleServe)
      (careful sampleFormats sampleServe) (sampleStart (ascii "approved"))
      (joining 48 [] ++ [calledAs 48 .resume []]) := by
    decide +kernel
  obtain ⟨s, hrun, hstored⟩ := bind_eq_some_iff.mp hphase
  obtain ⟨state, hstate, hconnected⟩ := map_eq_some_iff.mp hstored
  obtain ⟨value, hvalue, hparsed⟩ := bind_eq_some_iff.mp hstate
  have hreached : Reached (clientStep sampleFormats sampleServe)
      (careful sampleFormats sampleServe) (firstStart none none none none (ascii "approved")) s :=
    Reached.start.run hallowed hrun
  obtain ⟨other, -, hother, husable, hown⟩ := (onboarding_accompanied hreached).1 value hvalue
  have hsame : other = state := some.inj (hother.symm.trans hparsed)
  rw [hsame] at husable hown
  exact ⟨s, value, state, hrun, hvalue, hparsed, hconnected, husable, hown⟩

/-- A redemption whose request did not go out is stored, a second confirmation stops
after it has written its refresh token, and the stored state has another attempt's;
a rejection stops after it has cleared the credential, and the pending state it left
fails every later resume. -/
theorem onboarding_unaccompanied :
    (∃ actions s value state, sampleRun (ascii "pending") actions = some s ∧
        s.platform.stored = some value ∧ parseDurableState sampleFormats value = some state ∧
        ¬ Own s.attempts s.platform state) ∧
      ∃ actions s m w, sampleRun (ascii "rejected") actions = some s ∧
        exec (respond sampleServe) (resume (sampleOptions 48)) s.memory s.platform [] =
          (.threw (.onboarding .missingCredential) m, w) := by
  have hforeign : (sampleRun (ascii "pending")
      (joining 48 [.done, .done, .done, .done, .done, .done, .done, .thrown .other] ++
        joining 49 [.done, .stop])).any isForeign = true := by
    decide +kernel
  have hmissing : (sampleRun (ascii "rejected")
      (joining 48 [] ++ [calledAs 48 .resume [.done, .done, .done, .done, .stop]])).bind
        resumeError = some .missingCredential := by
    decide +kernel
  obtain ⟨first, hfirst, hcheck⟩ := Option.any_eq_true _ _ |>.mp hforeign
  obtain ⟨value, state, hstored, hparsed, hnot⟩ := not_own_of_isForeign hcheck
  obtain ⟨second, hsecond, herror⟩ := bind_eq_some_iff.mp hmissing
  obtain ⟨m, w, hexec⟩ := resumeError_eq_some herror
  exact ⟨⟨_, first, value, state, hfirst, hstored, hparsed, hnot⟩, _, second, m, w, hsecond, hexec⟩

end Havemind.OnboardingRuns
