import Havemind.PushSteps

/-!
The notice of a push request. What the handler notices is a status `accepted` among
its results: a new revision has it, and so has a replay whose stored answer says so.
An error that is not the repository's own ends the request without a notice.
-/
namespace Havemind.PushWake

open RevisionSchema Transaction ServerDatabase RevisionRepository RevisionCommit PushRoute PullRoute
  RevisionReplay Runs PushHandler PushSteps List

variable (options : RevisionRepositoryOptions)

/-- The attempt committed a revision the database did not know. -/
def IsNew (tried : Attempt) : Prop :=
  (∃ result, tried.outcome = .ok result) ∧
    getExistingRevision tried.before tried.revision.header.revisionId = none

/-- The attempt was answered for a revision the database knew. -/
def IsReplay (tried : Attempt) : Prop :=
  (∃ result, tried.outcome = .ok result) ∧
    getExistingRevision tried.before tried.revision.header.revisionId ≠ none

/-- The answer stored under the attempt's key has the status `accepted`. -/
def RecordedAccepted (tried : Attempt) : Prop :=
  ∃ record receipt, getIdempotencyRecord tried.before
      (preparedHeader options (tried.revision.commitInput tried.actor)) = some record ∧
    record.responseBody = some ⟨receipt, .accepted⟩

/-- Every new revision was noticed with a cursor that covers it, and replays alone
were not. -/
structure Wakes (request : PushRequest) : Prop where
  new : ∀ tried ∈ request.attempts, IsNew tried → ∀ result, tried.outcome = .ok result →
    ∃ cursor, request.notified = some cursor ∧ result.receipt.serverSequence ≤ cursor
  replays : (∀ tried ∈ request.attempts, IsReplay tried) → request.notified = none

/-- No unexpected error in a batch with a new revision, and no stored `accepted` in a
batch of replays. -/
structure Waking (request : PushRequest) : Prop where
  uncut : (∃ tried ∈ request.attempts, IsNew tried) →
    ∀ tried ∈ request.attempts, ∀ error, tried.outcome = .error error →
      isRepositoryError error = true
  unrecorded : (∀ tried ∈ request.attempts, IsReplay tried) →
    ∀ tried ∈ request.attempts, ¬ RecordedAccepted options tried

def SafeSequences (db : Database) : Prop :=
  ∀ vault ∈ db.vaults, 0 < vault.nextServerSequence ∧ vault.nextServerSequence ≤ maxSafeInteger

variable {options} {db db' : Database} {vaultId : Id} {vault : VaultRow}
  {Q : HashedRevisionInput → Prop}

theorem commitPrepared_live {now : Option Timestamp} {prepared : PreparedCommit}
    {result : CommitRevisionResult} (h : commitPrepared options now prepared db = .ok result db') :
    ∃ vault, getVault db prepared.header.vaultId = .ok vault := by
  unfold commitPrepared at h
  rw [get_bind] at h
  obtain ⟨_, _, h⟩ := check_bind_eq_ok.mp h
  obtain ⟨vault, hvault, _⟩ := check_bind_eq_ok.mp h
  exact ⟨vault, hvault⟩

/-- A commit advances the allocator of its vault or no allocator at all. -/
theorem vaults_commit {now : Option Timestamp} {prepared : PreparedCommit}
    {result : CommitRevisionResult} (h : commitPrepared options now prepared db = .ok result db') :
    db'.vaults = db.vaults ∨ ∃ sequence < maxSafeInteger,
      db'.vaults = db.vaults.map (advanced prepared.header.vaultId sequence) := by
  rcases commitPrepared_cases options h with ⟨existing, hreplayed⟩ | haccepted
  · left
    obtain ⟨_, _, ⟨_, _, _, _, rfl⟩ | ⟨_, _, _, _, rfl⟩⟩ := hreplayed.answer <;> rfl
  · right
    obtain ⟨vault, _, _, _, hnew⟩ := haccepted.new
    rw [hnew.effect]
    exact ⟨vault.nextServerSequence, hnew.sequence_lt, rfl⟩

theorem getVault_written (h : Written options Q db db') (hvault : getVault db vaultId = .ok vault) :
    ∃ vault', getVault db' vaultId = .ok vault' ∧
      vault.nextServerSequence ≤ vault'.nextServerSequence := by
  have hkept : db'.vaults = db.vaults → ∃ vault', getVault db' vaultId = .ok vault' ∧
      vault.nextServerSequence ≤ vault'.nextServerSequence := by
    intro hsame
    refine ⟨vault, ?_, Nat.le_refl _⟩
    unfold getVault at hvault ⊢
    rwa [hsame]
  cases h with
  | commit actor revision now result meets ran =>
    rcases vaults_commit ran with hsame | ⟨sequence, -, hmap⟩
    · exact hkept hsame
    · exact ⟨_, getVault_advanced_of_ok sequence hvault hmap, (advanced_id sequence vault).2.2.2⟩
  | _ => exact hkept rfl

theorem safeSequences_written (hsafe : SafeSequences db) (h : Written options Q db db') :
    SafeSequences db' := by
  cases h with
  | commit actor revision now result meets ran =>
    rcases vaults_commit ran with hsame | ⟨sequence, hlast, hmap⟩
    · unfold SafeSequences
      rwa [hsame]
    · intro row hrow
      rw [hmap] at hrow
      obtain ⟨before, hbefore, rfl⟩ := mem_map.mp hrow
      obtain ⟨hpos, hle⟩ := hsafe before hbefore
      by_cases hhit : before.id = (pushedCommit options actor revision).header.vaultId ∧
          before.nextServerSequence = sequence
      · simp only [advanced, hhit, if_true, and_self]
        omega
      · simp only [advanced, hhit, if_false]
        exact ⟨hpos, hle⟩
  | _ => exact hsafe

/-- The status of an answer: `accepted` for a new revision, the stored one for a
replay. -/
structure Answered (options : RevisionRepositoryOptions) (tried : Attempt)
    (result : CommitRevisionResult) : Prop where
  new : IsNew tried → result.status = .accepted
  replay : IsReplay tried → (result.status = .accepted ↔ RecordedAccepted options tried)

theorem parseStoredResult_eq_ok {body : Option CommitRevisionResult} {receipt : OpaqueBlobReceipt}
    {result : CommitRevisionResult} (h : parseStoredResult body receipt = .ok result) :
    body = some result := by
  cases body with
  | none => cases h
  | some stored =>
    by_cases hsame : stored.receipt.schemaValid ∧ sameReceipt stored.receipt receipt
    · simp only [parseStoredResult, hsame, and_self, if_true, Except.ok.injEq] at h
      rw [h]
    · simp [parseStoredResult, hsame] at h

theorem answered_of_commit {now : Option Timestamp} {actor : AuthenticatedRevisionActor}
    {revision : HashedRevisionInput} {result : CommitRevisionResult}
    (h : commitPrepared options now (pushedCommit options actor revision) db = .ok result db') :
    Answered options ⟨actor, revision, db, .ok result⟩ result := by
  rcases commitPrepared_cases options h with ⟨existing, hreplayed⟩ | haccepted
  · constructor
    · intro hnew
      exact absurd (hreplayed.found.symm.trans hnew.2) (by simp)
    · intro _
      obtain ⟨receipt, -, ⟨record, hrecord, -, hparse, -⟩ | ⟨time, hnone, -, rfl, -⟩⟩ :=
        hreplayed.answer
      · have hbody := parseStoredResult_eq_ok hparse
        constructor
        · intro haccepted
          refine ⟨record, result.receipt, hrecord, ?_⟩
          rw [hbody, ← haccepted]
        · rintro ⟨other, receipt', hother, hstored⟩
          cases hrecord.symm.trans hother
          rw [hbody] at hstored
          cases hstored
          rfl
      · constructor
        · intro haccepted
          cases haccepted
        · rintro ⟨other, receipt', hother, -⟩
          exact absurd (hnone.symm.trans hother) (by simp)
  · obtain ⟨vault, isRoot, time, -, hnew⟩ := haccepted.new
    constructor
    · intro _
      rw [hnew.result_eq]
    · intro hreplay
      exact absurd (getExistingRevision_eq_none.mpr haccepted.id_free) hreplay.2

/-- A new revision's sequence is behind the cursor at once. -/
theorem sequence_of_commit {now : Option Timestamp} {actor : AuthenticatedRevisionActor}
    {revision : HashedRevisionInput} {result : CommitRevisionResult}
    (h : commitPrepared options now (pushedCommit options actor revision) db = .ok result db') :
    ∃ vault, getVault db' revision.header.vaultId = .ok vault ∧
      (getExistingRevision db revision.header.revisionId = none →
        result.receipt.serverSequence < vault.nextServerSequence) := by
  rcases commitPrepared_cases options h with ⟨existing, hreplayed⟩ | haccepted
  · obtain ⟨vault, hvault⟩ := commitPrepared_live h
    have hwritten : Written options (fun _ => True) db db' :=
      .commit actor revision now result trivial h
    obtain ⟨vault', hvault', -⟩ := getVault_written hwritten hvault
    refine ⟨vault', hvault', ?_⟩
    intro hnone
    exact absurd (hreplayed.found.symm.trans hnone) (by simp)
  · obtain ⟨vault, isRoot, time, hvault, hnew⟩ := haccepted.new
    have hvaults : db'.vaults = db.vaults.map
        (advanced revision.header.vaultId vault.nextServerSequence) := by
      rw [hnew.effect]
      rfl
    refine ⟨_, getVault_advanced_of_ok vault.nextServerSequence hvault hvaults, ?_⟩
    intro _
    have hid : vault.id = revision.header.vaultId := (getVault_eq_ok hvault).2.1
    rw [hnew.result_eq]
    simp [advanced, hid, commitReceipt]

def Attempt.item (tried : Attempt) : Option ItemResult :=
  match tried.outcome with
  | .ok result => some (.answered tried.revision.header.revisionId result)
  | .error error =>
    if endsRequest error then none
    else some (.rejected tried.revision.header.revisionId error)

structure Ledger (options : RevisionRepositoryOptions) (db : Database) (request : PushRequest) :
    Prop where
  remaining : ∀ revision ∈ request.remaining, revision.header.vaultId = request.vaultId
  results : request.results = request.attempts.filterMap Attempt.item
  answered : ∀ tried ∈ request.attempts, ∀ result, tried.outcome = .ok result →
    Answered options tried result
  live : ∀ tried ∈ request.attempts, ∀ result, tried.outcome = .ok result →
    ∃ vault, getVault db request.vaultId = .ok vault ∧
      (IsNew tried → result.receipt.serverSequence < vault.nextServerSequence)
  stopped : ∀ tried ∈ request.attempts, ∀ error, tried.outcome = .error error →
    endsRequest error = true → request.failure = some error
  failed : ∀ error, request.failure = some error → request.attempts = [] ∨
    (endsRequest error = true ∧ ∃ tried ∈ request.attempts, tried.outcome = .error error)
  running : Active request → request.failure = none
  awake : request.phase = .done → request.wakes = true →
    ∃ cursor, request.notified = some cursor ∧ ∀ tried ∈ request.attempts, IsNew tried →
      ∀ result, tried.outcome = .ok result → result.receipt.serverSequence ≤ cursor
  asleep : request.phase ≠ .done ∨ request.wakes = false → request.notified = none

variable {request request' : PushRequest} {revision : HashedRevisionInput}
  {rest : List HashedRevisionInput}

theorem Ledger.written (h : Ledger options db request) (hwritten : Written options Q db db') :
    Ledger options db' request :=
  { h with
    live := by
      intro tried hmem result hok
      obtain ⟨vault, hvault, hbehind⟩ := h.live tried hmem result hok
      obtain ⟨vault', hvault', hgrows⟩ := getVault_written hwritten hvault
      exact ⟨vault', hvault', fun hnew => Nat.lt_of_lt_of_le (hbehind hnew) hgrows⟩ }

theorem ledger_refused (actor : AuthenticatedRevisionActor) (vaultId : Id)
    (error : RepositoryError) : Ledger options db (refused actor vaultId error) where
  remaining := by simp [refused]
  results := rfl
  answered := by simp [refused]
  live := by simp [refused]
  stopped := by simp [refused]
  failed := fun _ _ => Or.inl rfl
  running := fun hactive => absurd rfl hactive.2
  awake := by
    intro _ hwakes
    simp [PushRequest.wakes, PushRequest.anyAccepted, refused] at hwakes
  asleep := fun _ => rfl

theorem ledger_begun (actor : AuthenticatedRevisionActor) {ordered : List HashedRevisionInput}
    (hvault : ∀ revision ∈ ordered, revision.header.vaultId = vaultId) :
    Ledger options db (begun actor vaultId ordered) where
  remaining := hvault
  results := rfl
  answered := by simp [begun]
  live := by simp [begun]
  stopped := by simp [begun]
  failed := by simp [begun]
  running := fun _ => rfl
  awake := by
    intro _ hwakes
    simp [PushRequest.wakes, PushRequest.anyAccepted, begun] at hwakes
  asleep := fun _ => rfl

theorem attempts_stop_nothing (h : Ledger options db request) (hactive : Active request)
    {tried : Attempt} (hmem : tried ∈ request.attempts) {error : RepositoryError}
    (houtcome : tried.outcome = .error error) : endsRequest error = false := by
  by_contra hends
  have hfailure := h.stopped tried hmem error houtcome (by simpa using hends)
  rw [h.running hactive] at hfailure
  cases hfailure

theorem conclude_not_done (request : PushRequest) (revision : HashedRevisionInput)
    (rest : List HashedRevisionInput) (before : Database)
    (outcome : Except RepositoryError CommitRevisionResult) :
    (request.conclude revision rest before outcome).phase ≠ .done := by
  rcases conclude_phase request revision rest before outcome with hphase | hphase
  · rw [hphase]
    simp
  · rw [hphase]
    simp

/-- A turn that was answered. -/
theorem ledger_answered (h : Ledger options db request) (hactive : Active request)
    (hhead : request.remaining = revision :: rest) (hwritten : Written options Q db db')
    {result : CommitRevisionResult}
    (hanswered : Answered options ⟨request.actor, revision, db, .ok result⟩ result)
    (hlive : ∃ vault, getVault db' revision.header.vaultId = .ok vault ∧
      (getExistingRevision db revision.header.revisionId = none →
        result.receipt.serverSequence < vault.nextServerSequence)) :
    Ledger options db' (request.conclude revision rest db (.ok result)) where
  remaining := by
    intro other hmem
    exact h.remaining other (hhead ▸ mem_cons_of_mem _ hmem)
  results := by
    simp [PushRequest.conclude, h.results, Attempt.item]
  answered := by
    intro tried hmem other hok
    rcases mem_append.mp hmem with hold | hnew
    · exact h.answered tried hold other hok
    · cases mem_singleton.mp hnew
      cases hok
      exact hanswered
  live := by
    intro tried hmem other hok
    rcases mem_append.mp hmem with hold | hnew
    · exact (h.written hwritten).live tried hold other hok
    · cases mem_singleton.mp hnew
      cases hok
      obtain ⟨vault, hvault, hbehind⟩ := hlive
      have hsame : revision.header.vaultId = request.vaultId :=
        h.remaining revision (hhead ▸ mem_cons_self)
      exact ⟨vault, hsame ▸ hvault, fun hnew => hbehind hnew.2⟩
  stopped := by
    intro tried hmem error herror hends
    rcases mem_append.mp hmem with hold | hnew
    · exact h.stopped tried hold error herror hends
    · cases mem_singleton.mp hnew
      cases herror
  failed := by
    intro error hfailure
    have hnone := h.running hactive
    rw [PushRequest.conclude] at hfailure
    rw [hnone] at hfailure
    cases hfailure
  running := fun _ => h.running hactive
  awake := fun hdone => absurd hdone (conclude_not_done _ _ _ _ _)
  asleep := fun _ => h.asleep (Or.inl hactive.2)

/-- A turn that ended in an error. -/
theorem ledger_refusal (h : Ledger options db request) (hactive : Active request)
    (hhead : request.remaining = revision :: rest) (error : RepositoryError) :
    Ledger options db (request.conclude revision rest db (.error error)) := by
  obtain ⟨hactor, hvault, hrest, hattempts, hnotified⟩ :=
    conclude_actor request revision rest db (.error error)
  have hfailure : (request.conclude revision rest db (.error error)).failure =
      if endsRequest error then some error else none := by
    by_cases hends : endsRequest error = true <;>
      simp [PushRequest.conclude, hends, h.running hactive]
  constructor
  · intro other hmem
    rw [hrest] at hmem
    rw [hvault]
    exact h.remaining other (hhead ▸ mem_cons_of_mem _ hmem)
  · by_cases hends : endsRequest error = true <;>
      simp [PushRequest.conclude, hends, h.results, Attempt.item]
  · intro tried hmem other hok
    rw [hattempts] at hmem
    rcases mem_append.mp hmem with hold | hnew
    · exact h.answered tried hold other hok
    · cases mem_singleton.mp hnew
      cases hok
  · intro tried hmem other hok
    rw [hattempts] at hmem
    rw [hvault]
    rcases mem_append.mp hmem with hold | hnew
    · exact h.live tried hold other hok
    · cases mem_singleton.mp hnew
      cases hok
  · intro tried hmem other hother hends
    rw [hattempts] at hmem
    rcases mem_append.mp hmem with hold | hnew
    · rw [attempts_stop_nothing h hactive hold hother] at hends
      cases hends
    · cases mem_singleton.mp hnew
      cases hother
      rw [hfailure, if_pos hends]
  · intro other hother
    right
    rw [hfailure] at hother
    by_cases hends : endsRequest error = true
    · rw [if_pos hends] at hother
      cases hother
      exact ⟨hends, _, hattempts ▸ mem_append_right _ mem_cons_self, rfl⟩
    · rw [if_neg hends] at hother
      cases hother
  · intro hstill
    rw [hfailure]
    by_cases hends : endsRequest error = true
    · exact absurd (by simp [PushRequest.conclude, hends]) hstill.1
    · rw [if_neg hends]
  · exact fun hdone => absurd hdone (conclude_not_done _ _ _ _ _)
  · intro _
    rw [hnotified]
    exact h.asleep (Or.inl hactive.2)

theorem ledger_moved (h : Ledger options db request) (phase : Phase) (hactive : Active request)
    (hphase : phase ≠ .done) : Ledger options db { request with phase := phase } :=
  { h with
    running := fun _ => h.running hactive
    awake := fun hdone => absurd hdone hphase
    asleep := fun _ => h.asleep (Or.inl hactive.2) }

/-- A request with an answered attempt can read the cursor, and it covers them all. -/
theorem cursor_covers (h : Ledger options db request) (hsafe : SafeSequences db)
    (hanswer : ∃ tried ∈ request.attempts, ∃ result, tried.outcome = .ok result) :
    ∃ cursor, getCursor db request.vaultId = .ok cursor ∧ ∀ tried ∈ request.attempts,
      IsNew tried → ∀ result, tried.outcome = .ok result →
        result.receipt.serverSequence ≤ cursor := by
  obtain ⟨tried, hmem, result, hok⟩ := hanswer
  obtain ⟨vault, hvault, -⟩ := h.live tried hmem result hok
  obtain ⟨hpos, hle⟩ := hsafe vault (getVault_eq_ok hvault).1
  have hread : requireSafeSequence vault.nextServerSequence = .ok vault.nextServerSequence :=
    requireSafeSequence_eq_ok.mpr ⟨rfl, hpos, hle⟩
  refine ⟨vault.nextServerSequence - 1, ?_, ?_⟩
  · unfold getCursor
    refine except_bind_eq_ok.mpr ⟨vault, hvault, ?_⟩
    exact except_bind_eq_ok.mpr ⟨_, hread, rfl⟩
  · intro other hother hnew result' hok'
    obtain ⟨vault', hvault', hbehind⟩ := h.live other hother result' hok'
    cases hvault.symm.trans hvault'
    have := hbehind hnew
    omega

theorem anyAccepted_iff (h : Ledger options db request) : request.anyAccepted = true ↔
    ∃ tried ∈ request.attempts, ∃ result, tried.outcome = .ok result ∧
      result.status = .accepted := by
  simp only [PushRequest.anyAccepted, h.results, any_eq_true, mem_filterMap]
  constructor
  · rintro ⟨item, ⟨tried, hmem, hitem⟩, hstatus⟩
    cases houtcome : tried.outcome with
    | ok result =>
      simp only [Attempt.item, houtcome, Option.some.injEq] at hitem
      subst hitem
      exact ⟨tried, hmem, result, houtcome, by simpa using hstatus⟩
    | error error =>
      by_cases hends : endsRequest error = true
      · simp [Attempt.item, houtcome, hends] at hitem
      · rw [Attempt.item, houtcome] at hitem
        simp only [if_neg hends, Option.some.injEq] at hitem
        subst hitem
        simp at hstatus
  · rintro ⟨tried, hmem, result, houtcome, hstatus⟩
    exact ⟨_, ⟨tried, hmem, by simp [Attempt.item, houtcome]; rfl⟩, by simp [hstatus]⟩

theorem ledger_finished (h : Ledger options db request) (hsafe : SafeSequences db)
    (reply : Option Reply) : Ledger options db { request with
      phase := .done
      notified :=
        if true && request.wakes then (getCursor db request.vaultId).toOption else none
      reply := reply } :=
  { h with
    running := fun hactive => absurd rfl hactive.2
    awake := by
      intro _ hwakes
      have hwake : request.wakes = true := hwakes
      have haccepted : request.anyAccepted = true := by
        simp only [PushRequest.wakes, Bool.and_eq_true] at hwake
        exact hwake.1
      obtain ⟨tried, hmem, result, hok, -⟩ := (anyAccepted_iff h).mp haccepted
      obtain ⟨cursor, hread, hcovers⟩ := cursor_covers h hsafe ⟨tried, hmem, result, hok⟩
      refine ⟨cursor, ?_, hcovers⟩
      simp [hwake, hread, Except.toOption]
    asleep := by
      intro hnot
      rcases hnot with hphase | hwakes
      · exact absurd rfl hphase
      · have hsleep : request.wakes = false := hwakes
        simp [hsleep] }

theorem ledger_advanced (h : Ledger options db request) (hsafe : SafeSequences db)
    (hprepared : PreparedHead options request)
    (hadvanced : Advanced options true db request request' db') : Ledger options db' request' := by
  cases hadvanced with
  | moved phase active next =>
    refine ledger_moved h phase active ?_
    rcases next with rfl | rfl <;> simp
  | prepared prepared revision rest active head ran => exact ledger_moved h _ active (by simp)
  | failed revision rest error active head why => exact ledger_refusal h active head error
  | committed prepared revision rest now result db' phase head ran =>
    obtain ⟨other, tail, hhead, rfl⟩ := hprepared prepared phase
    cases head.symm.trans hhead
    exact ledger_answered (Q := fun _ => True) h (active_of_phase phase (by simp) (by simp)) head
      (.commit request.actor revision now result trivial ran) (answered_of_commit ran)
      (sequence_of_commit ran)
  | finished ending => exact ledger_finished h hsafe _

theorem ledger_kept : Kept options true (fun _ => True) SafeSequences (Ledger options) where
  meets := fun _ _ _ _ _ => trivial
  received := by
    intro db actor vaultId ordered _ _
    have hcases := receive_cases options db actor vaultId ordered
    rcases hcases with ⟨error, hrefused⟩ | ⟨hbegun, hvault, -⟩
    · rw [hrefused]
      exact ledger_refused actor vaultId error
    · rw [hbegun]
      exact ledger_begun actor hvault
  advanced := fun _ _ _ _ hsafe h hprepared hadvanced =>
    ledger_advanced h hsafe hprepared hadvanced
  written := fun _ _ hsafe hwritten => safeSequences_written hsafe hwritten
  disturbed := fun _ _ _ _ h hwritten => h.written hwritten

variable {database : Database} {world : World}

theorem ledger_reached (hsafe : SafeSequences database)
    (h : Reached (step options true) Anything ⟨database, []⟩ world) :
    Holds options SafeSequences (Ledger options) world := by
  refine h.invariant (P := Holds options SafeSequences (Ledger options)) ⟨hsafe, by simp⟩ ?_
  intro before event next hbefore _ htaken
  exact ledger_kept.step hbefore (fun _ _ _ _ _ _ => trivial) htaken

theorem status_of_isNew (h : Ledger options db request) {tried : Attempt}
    (hmem : tried ∈ request.attempts) (hnew : IsNew tried) : request.anyAccepted = true := by
  obtain ⟨⟨result, hok⟩, -⟩ := id hnew
  have hstatus := (h.answered tried hmem result hok).new hnew
  exact (anyAccepted_iff h).mpr ⟨tried, hmem, result, hok, hstatus⟩

/-- The handler notices new revisions, and is silent over replays, exactly when no
unexpected error cuts a batch with a new revision short and no replay of a batch of
replays is answered with a stored `accepted`. -/
theorem push_wakes_iff (hsafe : SafeSequences database)
    (h : Reached (step options true) Anything ⟨database, []⟩ world)
    (hmem : request ∈ world.requests) (hdone : request.phase = .done) :
    Wakes request ↔ Waking options request := by
  have hledger := ((ledger_reached hsafe h).2 request hmem).2
  constructor
  · intro hwakes
    constructor
    · rintro ⟨tried, htried, hnew⟩ other hother error herror
      by_contra hunexpected
      have hends : endsRequest error = true := by
        simp only [endsRequest, decide_eq_true_eq]
        exact Or.inr (by simpa using hunexpected)
      have hfailure := hledger.stopped other hother error herror hends
      have hquota : error ≠ .quotaExceeded := by
        rintro rfl
        exact hunexpected rfl
      have hsilent : request.wakes = false := by simp [PushRequest.wakes, hfailure, hquota]
      obtain ⟨⟨result, hok⟩, -⟩ := id hnew
      obtain ⟨cursor, hnotified, -⟩ := hwakes.new tried htried hnew result hok
      rw [hledger.asleep (Or.inr hsilent)] at hnotified
      cases hnotified
    · intro hreplays tried htried hrecorded
      obtain ⟨⟨result, hok⟩, -⟩ := hreplays tried htried
      have hstatus := ((hledger.answered tried htried result hok).replay
        (hreplays tried htried)).mpr hrecorded
      have haccepted := (anyAccepted_iff hledger).mpr ⟨tried, htried, result, hok, hstatus⟩
      have hfailure : request.failure = none := by
        cases hfailed : request.failure with
        | none => rfl
        | some error =>
          rcases hledger.failed error hfailed with hnil | ⟨-, other, hother, herror⟩
          · rw [hnil] at htried
            cases htried
          · obtain ⟨⟨answer, hanswer⟩, -⟩ := hreplays other hother
            rw [herror] at hanswer
            cases hanswer
      obtain ⟨cursor, hnotified, -⟩ := hledger.awake hdone
        (by simp [PushRequest.wakes, haccepted, hfailure])
      rw [hwakes.replays hreplays] at hnotified
      cases hnotified
  · intro hwaking
    constructor
    · intro tried htried hnew result hok
      have hfailure : request.failure = none ∨ request.failure = some .quotaExceeded := by
        cases hfailed : request.failure with
        | none => exact Or.inl rfl
        | some error =>
          right
          rcases hledger.failed error hfailed with hnil | ⟨hends, other, hother, herror⟩
          · rw [hnil] at htried
            cases htried
          · have hexpected := hwaking.uncut ⟨tried, htried, hnew⟩ other hother error herror
            simp only [endsRequest, hexpected, decide_eq_true_eq] at hends
            rcases hends with rfl | hfalse
            · rfl
            · cases hfalse
      obtain ⟨cursor, hnotified, hcovers⟩ := hledger.awake hdone (by
        simpa [PushRequest.wakes, status_of_isNew hledger htried hnew] using hfailure)
      exact ⟨cursor, hnotified, hcovers tried htried hnew result hok⟩
    · intro hreplays
      refine hledger.asleep (Or.inr ?_)
      by_contra hwakes
      have haccepted : request.anyAccepted = true := by
        simp only [PushRequest.wakes, Bool.not_eq_false, Bool.and_eq_true] at hwakes
        exact hwakes.1
      obtain ⟨tried, htried, result, hok, hstatus⟩ := (anyAccepted_iff hledger).mp haccepted
      have hrecorded := ((hledger.answered tried htried result hok).replay
        (hreplays tried htried)).mp hstatus
      exact hwaking.unrecorded hreplays tried htried hrecorded

/-- The blob store fails behind the first revision of the batch. -/
def cutRun : List Event :=
  .push ⟨6, 7⟩ 1 exampleBatch :: commitTurn 0 ++
    [.request 0 .check, .request 0 (.fault .blobStoreFailure), .request 0 .finish]

/-- The batch is pushed again under the same keys. -/
def replayRun : List Event :=
  .push ⟨6, 7⟩ 1 exampleBatch :: commitTurn 0 ++ commitTurn 0 ++ [.request 0 .finish] ++
    .push ⟨6, 7⟩ 1 exampleBatch :: commitTurn 1 ++ commitTurn 1 ++ [.request 1 .finish]

def exampleRun (events : List Event) : Option World :=
  run (step exampleOptions true) ⟨exampleDatabase, []⟩ events

/-- What the counterexamples read off a request. -/
def outline (request : PushRequest) : Phase × Option ℕ × List (Bool × Bool) :=
  (request.phase, request.notified, request.attempts.map fun tried =>
    (tried.outcome.isOk,
      (getExistingRevision tried.before tried.revision.header.revisionId).isNone))

theorem reached_of_outline {events : List Event} {index : ℕ}
    {seen : Phase × Option ℕ × List (Bool × Bool)}
    (h : (exampleRun events).bind (fun world => (world.requests[index]?).map outline) = some seen) :
    ∃ world request, Reached (step exampleOptions true) Anything ⟨exampleDatabase, []⟩ world ∧
      request ∈ world.requests ∧ outline request = seen := by
  obtain ⟨world, hrun, hrest⟩ := Option.bind_eq_some_iff.mp h
  obtain ⟨request, hget, houtline⟩ := Option.map_eq_some_iff.mp hrest
  exact ⟨world, request, Reached.start.run (allowed_of_forall (fun _ _ => trivial) _ _) hrun,
    mem_of_getElem? hget, houtline⟩

theorem cutRun_outline : (exampleRun cutRun).bind
    (fun world => (world.requests[0]?).map outline) =
      some (.done, none, [(true, true), (false, true)]) := by decide +kernel

theorem replayRun_outline : (exampleRun replayRun).bind
    (fun world => (world.requests[1]?).map outline) =
      some (.done, some 2, [(true, false), (true, false)]) := by decide +kernel

/-- A committed revision goes unnoticed behind a failing blob store, and a batch of
replays is noticed. -/
theorem push_unnoticed_and_replay_noticed :
    (¬ ∀ world request, Reached (step exampleOptions true) Anything ⟨exampleDatabase, []⟩ world →
      request ∈ world.requests → request.phase = .done → ∀ tried ∈ request.attempts,
        IsNew tried → ∀ result, tried.outcome = .ok result →
          ∃ cursor, request.notified = some cursor ∧ result.receipt.serverSequence ≤ cursor) ∧
    ¬ ∀ world request, Reached (step exampleOptions true) Anything ⟨exampleDatabase, []⟩ world →
      request ∈ world.requests → request.phase = .done →
        (∀ tried ∈ request.attempts, IsReplay tried) → request.notified = none := by
  constructor
  · intro h
    obtain ⟨world, request, hreached, hmem, houtline⟩ := reached_of_outline cutRun_outline
    simp only [outline, Prod.mk.injEq] at houtline
    obtain ⟨hdone, hnotified, hattempts⟩ := houtline
    obtain ⟨tried, htried, hseen⟩ := mem_map.mp
      (hattempts ▸ mem_cons_self : (true, true) ∈ request.attempts.map _)
    obtain ⟨hok, hnone⟩ := Prod.mk.inj hseen
    obtain ⟨result, hresult⟩ := exists_of_isOk hok
    have hnew : IsNew tried := ⟨⟨result, hresult⟩, Option.isNone_iff_eq_none.mp hnone⟩
    obtain ⟨cursor, hcursor, -⟩ :=
      h world request hreached hmem hdone tried htried hnew result hresult
    rw [hnotified] at hcursor
    cases hcursor
  · intro h
    obtain ⟨world, request, hreached, hmem, houtline⟩ := reached_of_outline replayRun_outline
    simp only [outline, Prod.mk.injEq] at houtline
    obtain ⟨hdone, hnotified, hattempts⟩ := houtline
    have hsilent := h world request hreached hmem hdone ?_
    · rw [hnotified] at hsilent
      cases hsilent
    · intro tried htried
      have hseen := mem_map_of_mem (f := fun tried : Attempt => (tried.outcome.isOk,
        (getExistingRevision tried.before tried.revision.header.revisionId).isNone)) htried
      rw [hattempts] at hseen
      simp only [mem_cons, not_mem_nil, or_false, or_self, Prod.mk.injEq] at hseen
      obtain ⟨result, hresult⟩ := exists_of_isOk hseen.1
      refine ⟨⟨result, hresult⟩, ?_⟩
      intro hnone
      simp [hnone] at hseen

theorem push_wakes_iff_cut : ∃ world request,
    Reached (step exampleOptions true) Anything ⟨exampleDatabase, []⟩ world ∧
      request ∈ world.requests ∧ (Wakes request ↔ Waking exampleOptions request) := by
  obtain ⟨world, request, hreached, hmem, houtline⟩ := reached_of_outline cutRun_outline
  have hsafe : SafeSequences exampleDatabase := by
    simp [SafeSequences, exampleDatabase, maxSafeInteger]
  exact ⟨world, request, hreached, hmem,
    push_wakes_iff hsafe hreached hmem (congrArg Prod.fst houtline)⟩

end Havemind.PushWake
