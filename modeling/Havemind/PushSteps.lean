import Havemind.PushHandler

/-!
One step of the push requests: what a request may do and what it may write. The
other requests see it only through the database, so what holds of every request is
kept when its own steps keep it and the writes of others do not disturb it.
-/
namespace Havemind.PushSteps

open RevisionSchema Transaction ServerDatabase RevisionRepository RevisionCommit PushRoute PullRoute
  RevisionReplay PushHandler Option List

variable {options : RevisionRepositoryOptions} {wired : Bool}

/-- What one step may do to the database when every revision pushed meets `Q`. -/
inductive Written (options : RevisionRepositoryOptions) (Q : HashedRevisionInput → Prop) :
    Database → Database → Prop
  | nothing {db : Database} : Written options Q db db
  | commit {db db' : Database} (actor : AuthenticatedRevisionActor) (revision : HashedRevisionInput)
      (now : Option Timestamp) (result : CommitRevisionResult) (meets : Q revision)
      (ran : commitPrepared options now (pushedCommit options actor revision) db = .ok result db') :
      Written options Q db db'
  | prune {db : Database} (cutoff : Timestamp) :
      Written options Q db { db with
        idempotencyRecords := db.idempotencyRecords.filter fun row => ¬ row.expiresAt < cutoff }
  | administer {db : Database} (users : List UserRow) (devices : List DeviceRow)
      (memberships : List MembershipRow) :
      Written options Q db { db with users, devices, memberships }

/-- Why a turn of the loop ended in an error. -/
inductive Refusal (options : RevisionRepositoryOptions) (db : Database) (request : PushRequest)
    (revision : HashedRevisionInput) (error : RepositoryError) : Prop
  | check (answer : assertCommittable options db (revision.commitInput request.actor)
      revision.byteLength = .error error)
  | prepare (answer : prepareCommit options db (fun _ => .notFound)
      (revision.commitInput request.actor) = .error error)
  | commit (prepared : PreparedCommit) (now : Option Timestamp) (db' : Database)
      (phase : request.phase = .committing prepared)
      (answer : commitPrepared options now prepared db = .error error db')
  | fault (unexpected : isRepositoryError error = false)

def Active (request : PushRequest) : Prop := request.phase ≠ .ending ∧ request.phase ≠ .done

/-- The steps of a request. -/
inductive Advanced (options : RevisionRepositoryOptions) (wired : Bool) (db : Database)
    (request : PushRequest) : PushRequest → Database → Prop
  | moved (phase : Phase) (active : Active request)
      (next : phase = .storing ∨ phase = .preparing) :
      Advanced options wired db request { request with phase := phase } db
  | prepared (prepared : PreparedCommit) (revision : HashedRevisionInput)
      (rest : List HashedRevisionInput) (active : Active request)
      (head : request.remaining = revision :: rest)
      (ran : prepareCommit options db (fun _ => .notFound)
        (revision.commitInput request.actor) = .ok prepared) :
      Advanced options wired db request { request with phase := .committing prepared } db
  | failed (revision : HashedRevisionInput) (rest : List HashedRevisionInput)
      (error : RepositoryError) (active : Active request)
      (head : request.remaining = revision :: rest)
      (why : Refusal options db request revision error) :
      Advanced options wired db request (request.conclude revision rest db (.error error)) db
  | committed (prepared : PreparedCommit) (revision : HashedRevisionInput)
      (rest : List HashedRevisionInput) (now : Option Timestamp) (result : CommitRevisionResult)
      (db' : Database) (phase : request.phase = .committing prepared)
      (head : request.remaining = revision :: rest)
      (ran : commitPrepared options now prepared db = .ok result db') :
      Advanced options wired db request (request.conclude revision rest db (.ok result)) db'
  | finished (ending : request.phase = .ending) :
      Advanced options wired db request { request with
        phase := .done
        notified :=
          if wired && request.wakes then (getCursor db request.vaultId).toOption else none
        reply := some (match request.failure with
          | none => .results request.results
          | some error => .error error) } db

variable {db db' : Database} {request request' : PushRequest} {event : RequestEvent}

theorem advanced_id {vaultId : Id} (sequence : ℕ) (row : VaultRow) :
    (advanced vaultId sequence row).id = row.id ∧
      (advanced vaultId sequence row).deletedAt = row.deletedAt ∧
      (advanced vaultId sequence row).quotaBytes = row.quotaBytes ∧
      row.nextServerSequence ≤ (advanced vaultId sequence row).nextServerSequence := by
  by_cases hrow : row.id = vaultId ∧ row.nextServerSequence = sequence
  · simp [advanced, hrow]
  · simp [advanced, hrow]

theorem getVault_advanced {other : Id} (vaultId : Id) {sequence : ℕ}
    (hvaults : db'.vaults = db.vaults.map (advanced other sequence)) :
    getVault db' vaultId = (getVault db vaultId).map (advanced other sequence) := by
  have hsame : (fun row : VaultRow => decide ((advanced other sequence row).id = vaultId ∧
      (advanced other sequence row).deletedAt = none)) =
      fun row => decide (row.id = vaultId ∧ row.deletedAt = none) := by
    funext row
    rw [(advanced_id sequence row).1, (advanced_id sequence row).2.1]
  unfold getVault
  rw [hvaults, List.find?_map]
  simp only [Function.comp_def, hsame]
  cases db.vaults.find? (fun row => row.id = vaultId ∧ row.deletedAt = none) with
  | none => rfl
  | some row => rfl

theorem getVault_advanced_of_ok {other vaultId : Id} {vault : VaultRow} (sequence : ℕ)
    (h : getVault db vaultId = .ok vault)
    (hvaults : db'.vaults = db.vaults.map (advanced other sequence)) :
    getVault db' vaultId = .ok (advanced other sequence vault) := by
  rw [getVault_advanced vaultId hvaults, h]
  rfl

theorem active_of_phase {phase : Phase} (h : request.phase = phase) (hending : phase ≠ .ending)
    (hdone : phase ≠ .done) : Active request := by
  constructor
  · rw [h]
    exact hending
  · rw [h]
    exact hdone

theorem advance_check (h : advance options wired db request .check = some (request', db')) :
    Advanced options wired db request request' db' := by
  cases hphase : request.phase with
  | checking =>
    have hactive := active_of_phase hphase (by simp) (by simp)
    cases hhead : request.remaining with
    | nil => simp [advance, hphase, hhead] at h
    | cons revision rest =>
      cases hcheck : assertCommittable options db (revision.commitInput request.actor)
          revision.byteLength with
      | ok _ =>
        simp only [advance, hphase, hhead, hcheck, some.injEq, Prod.mk.injEq] at h
        obtain ⟨rfl, rfl⟩ := h
        rw [← hhead]
        exact .moved .storing hactive (Or.inl rfl)
      | error error =>
        simp only [advance, hphase, hhead, hcheck, some.injEq, Prod.mk.injEq] at h
        obtain ⟨rfl, rfl⟩ := h
        exact .failed revision rest error hactive hhead (.check hcheck)
  | _ => simp [advance, hphase] at h

theorem advance_store (h : advance options wired db request .store = some (request', db')) :
    Advanced options wired db request request' db' := by
  cases hphase : request.phase with
  | storing =>
    simp only [advance, hphase, some.injEq, Prod.mk.injEq] at h
    obtain ⟨rfl, rfl⟩ := h
    exact .moved .preparing (active_of_phase hphase (by simp) (by simp)) (Or.inr rfl)
  | _ => simp [advance, hphase] at h

theorem advance_prepare (h : advance options wired db request .prepare = some (request', db')) :
    Advanced options wired db request request' db' := by
  cases hphase : request.phase with
  | preparing =>
    have hactive := active_of_phase hphase (by simp) (by simp)
    cases hhead : request.remaining with
    | nil => simp [advance, hphase, hhead] at h
    | cons revision rest =>
      cases hprepare : prepareCommit options db (fun _ => .notFound)
          (revision.commitInput request.actor) with
      | ok prepared =>
        simp only [advance, hphase, hhead, hprepare, some.injEq, Prod.mk.injEq] at h
        obtain ⟨rfl, rfl⟩ := h
        rw [← hhead]
        exact .prepared prepared revision rest hactive hhead hprepare
      | error error =>
        simp only [advance, hphase, hhead, hprepare, some.injEq, Prod.mk.injEq] at h
        obtain ⟨rfl, rfl⟩ := h
        exact .failed revision rest error hactive hhead (.prepare hprepare)
  | _ => simp [advance, hphase] at h

theorem advance_commit {now : Option Timestamp}
    (h : advance options wired db request (.commit now) = some (request', db')) :
    Advanced options wired db request request' db' := by
  cases hphase : request.phase with
  | committing prepared =>
    cases hhead : request.remaining with
    | nil => simp [advance, hphase, hhead] at h
    | cons revision rest =>
      cases hcommit : transaction (commitPrepared options now prepared) db with
      | ok result next =>
        simp only [advance, hphase, hhead, hcommit, some.injEq, Prod.mk.injEq] at h
        obtain ⟨rfl, rfl⟩ := h
        exact .committed prepared revision rest now result _ hphase hhead
          (transaction_eq_ok.mp hcommit)
      | error error next =>
        simp only [advance, hphase, hhead, hcommit, some.injEq, Prod.mk.injEq] at h
        obtain ⟨rfl, rfl⟩ := h
        obtain ⟨rfl, left, hfailed⟩ := transaction_eq_error.mp hcommit
        exact .failed revision rest error (active_of_phase hphase (by simp) (by simp)) hhead
          (.commit prepared now left hphase hfailed)
  | _ => simp [advance, hphase] at h

theorem advance_fault {error : RepositoryError}
    (h : advance options wired db request (.fault error) = some (request', db')) :
    Advanced options wired db request request' db' := by
  by_cases hrefused : isRepositoryError error = true ∨ request.phase = .ending ∨
      request.phase = .done
  · simp [advance, hrefused] at h
  · cases hhead : request.remaining with
    | nil => simp [advance, hhead] at h
    | cons revision rest =>
      simp only [advance, hrefused, if_false, hhead, some.injEq, Prod.mk.injEq] at h
      obtain ⟨rfl, rfl⟩ := h
      simp only [not_or] at hrefused
      exact .failed revision rest error ⟨hrefused.2.1, hrefused.2.2⟩ hhead
        (.fault (by simpa using hrefused.1))

theorem advance_finish (h : advance options wired db request .finish = some (request', db')) :
    Advanced options wired db request request' db' := by
  cases hphase : request.phase with
  | ending =>
    simp only [advance, hphase, some.injEq, Prod.mk.injEq] at h
    obtain ⟨rfl, rfl⟩ := h
    exact .finished hphase
  | _ => simp [advance, hphase] at h

theorem advance_cases (h : advance options wired db request event = some (request', db')) :
    Advanced options wired db request request' db' := by
  cases event with
  | check => exact advance_check h
  | store => exact advance_store h
  | prepare => exact advance_prepare h
  | commit now => exact advance_commit h
  | fault error => exact advance_fault h
  | finish => exact advance_finish h

def PreparedHead (options : RevisionRepositoryOptions) (request : PushRequest) : Prop :=
  ∀ prepared, request.phase = .committing prepared →
    ∃ revision rest, request.remaining = revision :: rest ∧
      prepared = pushedCommit options request.actor revision

theorem conclude_actor (request : PushRequest) (revision : HashedRevisionInput)
    (rest : List HashedRevisionInput) (before : Database)
    (outcome : Except RepositoryError CommitRevisionResult) :
    (request.conclude revision rest before outcome).actor = request.actor ∧
      (request.conclude revision rest before outcome).vaultId = request.vaultId ∧
      (request.conclude revision rest before outcome).remaining = rest ∧
      (request.conclude revision rest before outcome).attempts =
        request.attempts ++ [⟨request.actor, revision, before, outcome⟩] ∧
      (request.conclude revision rest before outcome).notified = request.notified := by
  cases outcome with
  | ok result => exact ⟨rfl, rfl, rfl, rfl, rfl⟩
  | error error =>
    by_cases hends : endsRequest error = true <;> simp [PushRequest.conclude, hends]

/-- Behind a turn the loop is over or checks the next revision. -/
theorem conclude_phase (request : PushRequest) (revision : HashedRevisionInput)
    (rest : List HashedRevisionInput) (before : Database)
    (outcome : Except RepositoryError CommitRevisionResult) :
    (request.conclude revision rest before outcome).phase = .ending ∨
      (request.conclude revision rest before outcome).phase = .checking := by
  by_cases hrest : rest = []
  · cases outcome with
    | ok result => simp [PushRequest.conclude, hrest]
    | error error =>
      by_cases hends : endsRequest error = true <;> simp [PushRequest.conclude, hrest, hends]
  · cases outcome with
    | ok result => simp [PushRequest.conclude, hrest]
    | error error =>
      by_cases hends : endsRequest error = true <;> simp [PushRequest.conclude, hrest, hends]

theorem preparedHead_conclude {revision : HashedRevisionInput} {rest : List HashedRevisionInput}
    {before : Database} {outcome : Except RepositoryError CommitRevisionResult} :
    PreparedHead options (request.conclude revision rest before outcome) := by
  intro prepared hphase
  rcases conclude_phase request revision rest before outcome with hending | hchecking
  · rw [hending] at hphase
    cases hphase
  · rw [hchecking] at hphase
    cases hphase

theorem preparedHead_advanced (h : Advanced options wired db request request' db') :
    PreparedHead options request' := by
  cases h with
  | moved phase active next =>
    intro prepared hphase
    rcases next with rfl | rfl <;> cases hphase
  | prepared prepared revision rest active head ran =>
    intro other hphase
    cases hphase
    exact ⟨revision, rest, head, (prepareCommit_push ran).2⟩
  | failed revision rest error active head why => exact preparedHead_conclude
  | committed prepared revision rest now result db' phase head ran => exact preparedHead_conclude
  | finished ending =>
    intro prepared hphase
    cases hphase

theorem written_of_advanced {Q : HashedRevisionInput → Prop}
    (hprepared : PreparedHead options request) (hmeets : ∀ revision ∈ request.remaining, Q revision)
    (h : Advanced options wired db request request' db') : Written options Q db db' := by
  cases h with
  | committed prepared revision rest now result db' phase head ran =>
    obtain ⟨other, tail, hhead, rfl⟩ := hprepared prepared phase
    exact .commit request.actor other now result (hmeets other (hhead ▸ mem_cons_self)) ran
  | _ => exact .nothing

/-- `P` survives every write; `R` holds of a received batch whose revisions meet `Q` and
survives the request's own steps and every write. -/
structure Kept (options : RevisionRepositoryOptions) (wired : Bool)
    (Q : HashedRevisionInput → Prop) (P : Database → Prop)
    (R : Database → PushRequest → Prop) : Prop where
  received : ∀ db actor vaultId ordered, P db → (∀ revision ∈ ordered, Q revision) →
    R db (receive options db actor vaultId ordered)
  meets : ∀ db request, R db request → ∀ revision ∈ request.remaining, Q revision
  advanced : ∀ db request request' db', P db → R db request → PreparedHead options request →
    Advanced options wired db request request' db' → R db' request'
  written : ∀ db db', P db → Written options Q db db' → P db'
  disturbed : ∀ db db' request, P db → R db request → Written options Q db db' → R db' request

def Holds (options : RevisionRepositoryOptions) (P : Database → Prop)
    (R : Database → PushRequest → Prop) (world : World) : Prop :=
  P world.database ∧
    ∀ request ∈ world.requests, PreparedHead options request ∧ R world.database request

/-- A batch is refused before the loop, or the loop begins with one of its vault that the
pre-check lets pass. -/
theorem receive_cases (options : RevisionRepositoryOptions) (db : Database)
    (actor : AuthenticatedRevisionActor) (vaultId : Id) (ordered : List HashedRevisionInput) :
    (∃ error, receive options db actor vaultId ordered = refused actor vaultId error) ∨
      (receive options db actor vaultId ordered = begun actor vaultId ordered ∧
        (∀ revision ∈ ordered, revision.header.vaultId = vaultId) ∧
        precheckVaultQuota options db vaultId ordered = false) := by
  by_cases hforbidden : ∃ revision ∈ ordered, revision.header.vaultId ≠ vaultId ∨
      revision.header.expectedMemberId ≠ actor.memberId ∨
      revision.header.expectedDeviceId ≠ actor.deviceId
  · exact Or.inl ⟨.forbidden, if_pos hforbidden⟩
  · by_cases hquota : precheckVaultQuota options db vaultId ordered = true
    · left
      refine ⟨.quotaExceeded, ?_⟩
      unfold receive
      rw [if_neg hforbidden, if_pos hquota]
    · right
      refine ⟨?_, ?_, by simpa using hquota⟩
      · unfold receive
        rw [if_neg hforbidden, if_neg hquota]
      · intro revision hmem
        by_contra hother
        exact hforbidden ⟨revision, hmem, Or.inl hother⟩

theorem preparedHead_receive (db : Database) (actor : AuthenticatedRevisionActor) (vaultId : Id)
    (ordered : List HashedRevisionInput) :
    PreparedHead options (receive options db actor vaultId ordered) := by
  intro prepared hphase
  have hcases := receive_cases options db actor vaultId ordered
  rcases hcases with ⟨error, hrefused⟩ | ⟨hbegun, -⟩
  · rw [hrefused] at hphase
    cases hphase
  · rw [hbegun] at hphase
    by_cases hempty : ordered = []
    · simp only [begun, hempty, if_true] at hphase
      cases hphase
    · simp only [begun, hempty, if_false] at hphase
      cases hphase

variable {Q : HashedRevisionInput → Prop} {P : Database → Prop}
  {R : Database → PushRequest → Prop} {world world' : World}

theorem Kept.disturb (K : Kept options wired Q P R) (h : Holds options P R world)
    (hwritten : Written options Q world.database db') :
    Holds options P R { world with database := db' } := by
  refine ⟨K.written _ _ h.1 hwritten, ?_⟩
  intro request hmem
  obtain ⟨hprepared, hrequest⟩ := h.2 request hmem
  exact ⟨hprepared, K.disturbed _ _ _ h.1 hrequest hwritten⟩

theorem Kept.step (K : Kept options wired Q P R) (h : Holds options P R world) {event : Event}
    (hmeets : ∀ actor vaultId ordered, event = .push actor vaultId ordered →
      ∀ revision ∈ ordered, Q revision)
    (htaken : PushHandler.step options wired world event = some world') :
    Holds options P R world' := by
  cases event with
  | push actor vaultId ordered =>
    cases htaken
    refine ⟨h.1, ?_⟩
    intro request hmem
    rcases mem_append.mp hmem with hold | hnew
    · exact h.2 request hold
    · rw [mem_singleton.mp hnew]
      exact ⟨preparedHead_receive _ _ _ _, K.received _ _ _ _ h.1 (hmeets _ _ _ rfl)⟩
  | request id event =>
    obtain ⟨request, hget, htaken⟩ := bind_eq_some_iff.mp htaken
    obtain ⟨⟨request', db'⟩, hadvance, rfl⟩ := map_eq_some_iff.mp htaken
    obtain ⟨hprepared, hrequest⟩ := h.2 request (mem_of_getElem? hget)
    have hadvanced := advance_cases hadvance
    have hall := K.disturb h
      (written_of_advanced hprepared (K.meets _ _ hrequest) hadvanced)
    refine ⟨hall.1, ?_⟩
    intro other hmem
    rcases mem_or_eq_of_mem_set hmem with hold | hnew
    · exact hall.2 other hold
    · rw [hnew]
      exact ⟨preparedHead_advanced hadvanced, K.advanced _ _ _ _ h.1 hrequest hprepared hadvanced⟩
  | prune cutoff =>
    cases htaken
    exact K.disturb h (.prune cutoff)
  | administer users devices memberships =>
    cases htaken
    exact K.disturb h (.administer users devices memberships)

end Havemind.PushSteps
