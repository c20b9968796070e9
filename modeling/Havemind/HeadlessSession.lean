import Havemind.SessionSurvival

/-!
The headless agent as a client of `/auth/refresh`. It builds its provider without
a store for the rotation in flight, so that record is in the memory of the
process and a new process starts without it. The stored refresh token is also
presented to the member roster, which only looks it up.
-/
namespace Havemind.HeadlessSession

open RevisionSchema Runs KeyedTable AuthTables RefreshFamily RotationSuccess AccessToken
  RotationAnswers SecretStanding SessionSurvival

/-- The phases that wait for the record in memory, which no failure can reach. -/
def inMemory : Phase → Bool
  | .loadingPending _ | .savingPending _ | .clearingPending _ => true
  | _ => false

inductive AgentAction
  | provider (action : Action)
  | requestLost
  | roster
  deriving DecidableEq

/-- `HeadlessAgent.open`: a new provider over the stored refresh token. -/
def openAgent (w : World) : World := { restart w with pendingRotation := none }

/-- A refresh token at the server, with what is asked for it. -/
inductive Presentation
  | rotation (record : PendingRotation)
  | roster (refreshToken : Token)
  deriving DecidableEq

def presented (w : World) : AgentAction → Option Presentation
  | .provider .serve | .provider .serveThrows => w.request.map .rotation
  | .roster => w.refreshToken.map .roster
  | _ => none

section
variable (server : AuthServer) (generators : Generators)

def agentStep (w : World) : AgentAction → Option World
  | .provider .crash => some (openAgent w)
  | .provider (.reject written) => if inMemory w.phase then none else reject written w
  | .provider action => step server generators w action
  | .requestLost => some { w with request := none }
  | .roster => w.refreshToken.map fun _ => w

/-- The rotation that made the token in use of the family. -/
def LastRotation (db : AuthDatabase) (familyId : Id) (record : PendingRotation) : Prop :=
  ∃ row ∈ db.refreshTokens, ∃ successor ∈ db.refreshTokens,
    row.tokenHash = server.hashToken record.refreshToken ∧ row.familyId = familyId ∧
      row.rotationId = some record.rotationId ∧
      row.successorTokenHash = some (server.hashToken record.successorRefreshToken) ∧
      successor.tokenHash = server.hashToken record.successorRefreshToken ∧
      successor.familyId = familyId ∧ successor.generation = row.generation + 1 ∧
      successor.consumedAt = none

instance (db : AuthDatabase) (familyId : Id) (record : PendingRotation) :
    Decidable (LastRotation server db familyId record) :=
  inferInstanceAs (Decidable (∃ row ∈ db.refreshTokens, ∃ successor ∈ db.refreshTokens, _))

/-- A consumed token is presented to repeat the family's last rotation only. -/
def Proper (db : AuthDatabase) (familyId : Id) : Presentation → Prop
  | .rotation record =>
    Fresh server db record.refreshToken ∨ LastRotation server db familyId record
  | .roster refreshToken => Fresh server db refreshToken

instance (db : AuthDatabase) (familyId : Id) :
    ∀ presentation, Decidable (Proper server db familyId presentation)
  | .rotation record => inferInstanceAs (Decidable (Fresh server db record.refreshToken ∨
      LastRotation server db familyId record))
  | .roster refreshToken => inferInstanceAs (Decidable (Fresh server db refreshToken))

/-- The stored token is not consumed: no answer that stores its successor is due. -/
def StoredFresh (w : World) : Prop := ∀ token ∈ w.refreshToken, Fresh server w.db token

instance (w : World) : Decidable (StoredFresh server w) :=
  inferInstanceAs (Decidable (∀ token ∈ w.refreshToken, Fresh server w.db token))

def InTime (familyId : Id) (w : World) : Prop :=
  ∀ family ∈ w.db.families, family.id = familyId → w.now < family.expiresAt

instance (familyId : Id) (w : World) : Decidable (InTime familyId w) :=
  inferInstanceAs (Decidable (∀ family ∈ w.db.families, _ → _))

/-- The process ends, asks for the roster and finds the server's storage failing only
while the stored token is not consumed, and does not end under a request that may
still be processed. A lost rotation is repeated before the deadline, and the clock
stays where a refresh window can be written as a date. -/
def Unbroken (familyId : Id) (w : World) : AgentAction → Prop
  | .provider .crash => w.request = none ∧ StoredFresh server w
  | .provider .serve => StoredFresh server w ∨ InTime familyId w
  | .provider (.tick now) => Roomy now
  | .provider .serveThrows | .roster => StoredFresh server w
  | _ => True

instance decidableUnbroken (familyId : Id) (w : World) :
    ∀ action, Decidable (Unbroken server familyId w action)
  | .provider .crash => inferInstanceAs (Decidable (_ ∧ StoredFresh server w))
  | .provider .serve => inferInstanceAs (Decidable (StoredFresh server w ∨ InTime familyId w))
  | .provider (.tick now) =>
    inferInstanceAs (Decidable (now + refreshTokenMaxTtlSeconds * 1000 ≤ _))
  | .provider .serveThrows | .roster => inferInstanceAs (Decidable (StoredFresh server w))
  | .provider (.getAccessToken _) | .provider .proceed | .provider (.reject _) | .requestLost =>
    isTrue trivial

end

variable {server : AuthServer} {generators : Generators} {familyId : Id} {w w' : World}
  {family : FamilyRow} {token : Token} {record : PendingRotation} {row successor : RefreshTokenRow}
  {db : AuthDatabase} {now : Timestamp} {action : AgentAction}

theorem current_fresh (h : Current server familyId w token row)
    (hashes : Keyed RefreshTokenRow.tokenHash w.db.refreshTokens) : Fresh server w.db token := by
  intro other hother hsame
  have hrow := hashes.eq hother h.row_mem (hsame.trans h.hash.symm)
  exact hrow ▸ h.unconsumed

theorem rotated_lastRotation (h : Rotated server familyId w record row successor) :
    LastRotation server w.db familyId record :=
  ⟨row, h.row_mem, successor, h.successor_mem, h.hash, h.family, h.rotation, h.successorHash,
    h.successor_hash, h.successor_family, h.next, h.successor_unconsumed⟩

/-- A consumed stored token is the token of the recorded rotation. -/
theorem current_of_fresh (h : Anchored server familyId w)
    (hfresh : StoredFresh server w) : ∃ token row, Current server familyId w token row := by
  cases h with
  | current current => exact ⟨_, _, current⟩
  | rotated rotated => exact absurd (hfresh _ rotated.stored) (rotated_consumed rotated)

theorem current_requestLost (h : Current server familyId w token row) :
    Current server familyId { w with request := none } token row := by
  have hphase := h.phase
  refine { h with request := fun _ hsome => (nomatch hsome), phase := ?_ }
  cases hat : w.phase with
  | savingPending saving =>
    rw [hat] at hphase
    exact ⟨hphase.1, hphase.2.1, rfl⟩
  | requesting sent =>
    rw [hat] at hphase
    obtain ⟨hpending, hsent, hanswer⟩ := hphase
    refine ⟨hpending, hsent, hanswer.imp_right ?_⟩
    exact fun hdenied => ⟨hdenied.1, rfl⟩
  | clearingPending granted => rfl
  | _ =>
    rw [hat] at hphase
    exact hphase

theorem rotated_requestLost (h : Rotated server familyId w record row successor) :
    Rotated server familyId { w with request := none } record row successor := by
  have hphase := h.phase
  refine { h with request := fun _ hsome => (nomatch hsome), phase := ?_ }
  cases hat : w.phase with
  | requesting sent =>
    rw [hat] at hphase
    refine ⟨hphase.1, hphase.2.imp_right ?_⟩
    exact fun ⟨access, hgranted, _⟩ => ⟨access, hgranted, rfl⟩
  | savingToken sent access =>
    rw [hat] at hphase
    exact ⟨hphase.1, rfl⟩
  | _ =>
    rw [hat] at hphase
    exact hphase

theorem anchored_requestLost (h : Anchored server familyId w) :
    Anchored server familyId { w with request := none } := by
  cases h with
  | current current => exact .current (current_requestLost current)
  | rotated rotated => exact .rotated (rotated_requestLost rotated)

/-- A new process misses nothing as long as the stored token is current. -/
theorem current_openAgent (h : Current server familyId w token row) (hnone : w.request = none) :
    Current server familyId (openAgent w) token row where
  stored := h.stored
  row_mem := h.row_mem
  hash := h.hash
  family := h.family
  unconsumed := h.unconsumed
  pending := fun _ hsome => (nomatch hsome)
  request := by
    intro sent hsent
    cases hnone.symm.trans hsent
  phase := trivial

/-- An honest session whose credentials are never out of step with the server. -/
structure Steadfast (server : AuthServer) (generators : Generators) (family : FamilyRow)
    (w : World) : Prop where
  survives : Survives server generators w family
  anchored : Anchored server family.id w

theorem Steadfast.requestLost (h : Steadfast server generators family w) :
    Steadfast server generators family { w with request := none } := by
  have hanchored := anchored_requestLost h.anchored
  refine ⟨{ h.survives with standing := ?_, holdings := ?_ }, hanchored⟩
  · exact hanchored.standing family
  · exact { h.survives.holdings with request := fun _ hsome => (nomatch hsome) }

theorem Steadfast.openAgent (h : Steadfast server generators family w)
    (hnone : w.request = none) (hfresh : StoredFresh server w) :
    Steadfast server generators family (openAgent w) := by
  obtain ⟨token, row, current⟩ := current_of_fresh h.anchored hfresh
  have hopened := current_openAgent current hnone
  have hholdings := h.survives.restart.holdings
  refine ⟨{ h.survives with standing := .current hopened, holdings := ?_ }, .current hopened⟩
  exact { hholdings with pending := fun _ hsome => (nomatch hsome) }

/-- A request is refused for good, or it is processed in time. -/
theorem Steadfast.serve (distinct : Distinct server generators)
    (h : Steadfast server generators family w) (hrequest : w.request = some record)
    (htime : StoredFresh server w ∨ InTime family.id w) :
    ∃ family', family'.id = family.id ∧
      Steadfast server generators family' (refresh server generators record w) := by
  rcases Nat.lt_or_ge w.now family.expiresAt with hunexpired | hexpired
  · cases h.anchored with
    | current current =>
      obtain ⟨family', hid, hsurvives, hanchored⟩ :=
        h.survives.serve_current distinct hrequest hunexpired current
      exact ⟨family', hid, hsurvives, hid ▸ hanchored⟩
    | rotated rotated =>
      obtain ⟨hsurvives, hanchored⟩ :=
        h.survives.serve_rotated distinct hrequest hunexpired rotated
      exact ⟨family, rfl, hsurvives, hanchored⟩
  · have hfresh : StoredFresh server w := by
      refine htime.resolve_right fun hintime => ?_
      exact Nat.not_lt.mpr hexpired (hintime family h.survives.serviceable.family_mem rfl)
    obtain ⟨token, row, current⟩ := current_of_fresh h.anchored hfresh
    obtain ⟨e, hrun⟩ := rotateRefresh_expired h.survives.serviceable hexpired
      (h.survives.holdings.request record hrequest).current
    rw [refresh_of_error hrun]
    have hrefused := current.refused hrequest
    exact ⟨family, rfl, h.survives.refused (.current hrefused), .current hrefused⟩

/-- What the storage lost the next attempt rotates anew. -/
theorem Steadfast.serveThrows (h : Steadfast server generators family w)
    (hrequest : w.request = some record) (hfresh : StoredFresh server w) :
    Steadfast server generators family (refreshThrows record w) := by
  obtain ⟨token, row, current⟩ := current_of_fresh h.anchored hfresh
  have hrefused := current.refused hrequest
  exact ⟨h.survives.refused (.current hrefused), .current hrefused⟩

theorem Steadfast.step (distinct : Distinct server generators)
    (h : Steadfast server generators family w) (hunbroken : Unbroken server family.id w action)
    (hstep : agentStep server generators w action = some w') :
    ∃ family', family'.id = family.id ∧ Steadfast server generators family' w' := by
  have hashes := h.survives.serviceable.hashes
  cases action with
  | provider action =>
    cases action with
    | getAccessToken clock =>
      cases hstep
      exact ⟨family, rfl, h.survives.getAccessToken clock, h.anchored.getAccessToken clock⟩
    | proceed =>
      have hfree := h.survives.successors_free w.minted (Nat.le_refl _)
      exact ⟨family, rfl, h.survives.proceed hstep, h.anchored.proceed hashes hfree hstep⟩
    | reject written =>
      unfold agentStep at hstep
      dsimp only at hstep
      split at hstep
      · cases hstep
      · exact ⟨family, rfl, h.survives.reject hstep, h.anchored.reject hashes hstep⟩
    | crash =>
      cases hstep
      exact ⟨family, rfl, h.openAgent hunbroken.1 hunbroken.2⟩
    | serve =>
      obtain ⟨record, hrequest, rfl⟩ := Option.map_eq_some_iff.mp hstep
      exact h.serve distinct hrequest hunbroken
    | serveThrows =>
      obtain ⟨record, hrequest, rfl⟩ := Option.map_eq_some_iff.mp hstep
      exact ⟨family, rfl, h.serveThrows hrequest hunbroken⟩
    | tick later =>
      unfold agentStep AccessToken.step at hstep
      dsimp only at hstep
      split at hstep
      · rename_i hlater
        cases hstep
        exact ⟨family, rfl, h.survives.tick hunbroken hlater, h.anchored.tick later⟩
      · cases hstep
  | requestLost =>
    cases hstep
    exact ⟨family, rfl, h.requestLost⟩
  | roster =>
    obtain ⟨token, -, rfl⟩ := Option.map_eq_some_iff.mp hstep
    exact ⟨family, rfl, h⟩

theorem paired_steadfast (distinct : Distinct server generators)
    (paired : Paired server generators familyId db now token)
    (reached : Reached (agentStep server generators) (Unbroken server familyId)
      (World.paired db now token) w) :
    ∃ family, family.id = familyId ∧ Steadfast server generators family w := by
  refine reached.invariant (P := fun w => ∃ family, family.id = familyId ∧
    Steadfast server generators family w) ?_ ?_
  · obtain ⟨row, hcurrent⟩ := paired.current
    obtain ⟨family, rfl, hsurvives⟩ := paired.survives
    exact ⟨family, rfl, hsurvives, .current hcurrent⟩
  · intro w action w' hw hunbroken hstep
    obtain ⟨family, rfl, hsteadfast⟩ := hw
    exact hsteadfast.step distinct hunbroken hstep

/-- What a steadfast agent presents. -/
theorem Steadfast.presents (h : Steadfast server generators family w)
    (hunbroken : Unbroken server family.id w action) :
    ∀ presentation ∈ presented w action, Proper server w.db family.id presentation := by
  intro presentation hpresented
  cases action with
  | provider action =>
    cases action with
    | serve | serveThrows =>
      obtain ⟨record, hrequest, rfl⟩ := Option.map_eq_some_iff.mp hpresented
      cases h.anchored with
      | current current =>
        obtain ⟨-, rfl⟩ := current.request record hrequest
        exact .inl (current_fresh current h.survives.serviceable.hashes)
      | rotated rotated =>
        obtain rfl := rotated.request record hrequest
        exact .inr (rotated_lastRotation rotated)
    | _ => cases hpresented
  | requestLost => cases hpresented
  | roster =>
    obtain ⟨token, hstored, rfl⟩ := Option.map_eq_some_iff.mp hpresented
    exact hunbroken token hstored

/-- In every run of agent processes whose steps meet the condition, the family
stays in use, and a consumed token is presented only to repeat the family's last
rotation exactly. -/
theorem headless_session_survives (distinct : Distinct server generators)
    (paired : Paired server generators familyId db now token)
    (reached : Reached (agentStep server generators) (Unbroken server familyId)
      (World.paired db now token) w) :
    (∃ family ∈ w.db.families, family.id = familyId) ∧
      (∀ family ∈ w.db.families, family.id = familyId → family.status = .active) ∧
      ∀ action, Unbroken server familyId w action →
        ∀ presentation ∈ presented w action, Proper server w.db familyId presentation := by
  obtain ⟨current, rfl, h⟩ := paired_steadfast distinct paired reached
  have hserviceable := h.survives.serviceable
  refine ⟨⟨current, hserviceable.family_mem, rfl⟩, ?_, fun _ => h.presents⟩
  intro family hfamily hid
  rw [hserviceable.chains.families_keyed.eq hfamily hserviceable.family_mem hid]
  exact hserviceable.active

/-- The first answer is lost and its request repeated; once the successor is
stored the process ends, and the next one is about to rotate it. -/
def reopened : List AgentAction :=
  [.provider (.getAccessToken 0), .provider .proceed, .provider .proceed, .provider .proceed,
    .provider .proceed, .provider .serve, .provider (.reject false), .provider (.tick 5000),
    .provider (.getAccessToken 5000), .provider .proceed, .provider .proceed, .provider .proceed,
    .provider .serve, .provider .proceed, .provider .proceed, .provider .proceed, .roster,
    .provider .crash, .provider (.getAccessToken 5000), .provider .proceed, .provider .proceed,
    .provider .proceed, .provider .proceed]

def reopenedWorld : World :=
  (run (agentStep plainServer plainGenerators) (World.paired oneSession 0 7) reopened).getD
    (World.paired oneSession 0 7)

theorem reopened_reached : Reached (agentStep plainServer plainGenerators)
    (Unbroken plainServer 2) (World.paired oneSession 0 7) reopenedWorld := by
  have hrun : run (agentStep plainServer plainGenerators) (World.paired oneSession 0 7) reopened =
      some reopenedWorld := rfl
  exact Reached.run .start (by decide +kernel) hrun

theorem headless_session_survives_reopened :
    reopenedWorld.request = some ⟨100, 1, 101⟩ ∧
      (∀ family ∈ reopenedWorld.db.families, family.id = 2 → family.status = .active) ∧
      Proper plainServer reopenedWorld.db 2 (.rotation ⟨100, 1, 101⟩) := by
  obtain ⟨-, hactive, hproper⟩ :=
    headless_session_survives plain_distinct oneSession_paired reopened_reached
  have hunbroken : Unbroken plainServer 2 reopenedWorld (.provider .serve) := by decide +kernel
  have hpresented : presented reopenedWorld (.provider .serve) =
      some (.rotation ⟨100, 1, 101⟩) := by decide +kernel
  exact ⟨by decide +kernel, hactive, hproper _ hunbroken _ hpresented⟩

/-- The process ends between the server's commit and the save of the successor. -/
def orphaned : List AgentAction :=
  [.provider (.getAccessToken 0), .provider .proceed, .provider .proceed, .provider .proceed,
    .provider .proceed, .provider .serve, .provider .crash, .provider (.getAccessToken 0),
    .provider .proceed, .provider .proceed, .provider .proceed, .provider .proceed]

def orphanedWorld : World :=
  (run (agentStep plainServer plainGenerators) (World.paired oneSession 0 7) orphaned).getD
    (World.paired oneSession 0 7)

/-- The next process presents the consumed token with a pair of its own, and the
server marks the family. -/
theorem headless_session_burned :
    Reached (agentStep plainServer plainGenerators) (fun _ _ => True)
        (World.paired oneSession 0 7) orphanedWorld ∧
      presented orphanedWorld (.provider .serve) = some (.rotation ⟨7, 1, 101⟩) ∧
      ¬ Proper plainServer orphanedWorld.db 2 (.rotation ⟨7, 1, 101⟩) ∧
      ∃ w, agentStep plainServer plainGenerators orphanedWorld (.provider .serve) = some w ∧
        ∃ family ∈ w.db.families, family.id = 2 ∧ w.now < family.expiresAt ∧
          family.status = .reuseDetected := by
  have hrun : run (agentStep plainServer plainGenerators) (World.paired oneSession 0 7) orphaned =
      some orphanedWorld := rfl
  refine ⟨Reached.run .start (allowed_of_forall (fun _ _ => trivial) _ _) hrun, ?_, ?_, _, rfl, ?_⟩
  · decide +kernel
  · decide +kernel
  · decide +kernel

end Havemind.HeadlessSession
