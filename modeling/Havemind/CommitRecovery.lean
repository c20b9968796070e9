import Havemind.ChangeObserver
import Havemind.Runs

/-!
The commit attempts of settled modifications: the settling window of each path, the one
re-arm a failed attempt gets, and the durable row a second failure leaves. The user, other
programs and the other commits change the files and the mappings between two steps. A row
is to stay until its change is queued, its file is gone or the user discards it.
-/
namespace Havemind.CommitRecovery

open Runs JsText VaultPayload DurableState OutboxRepository ChangeObserver List Option

/-- How far an attempt is; `found` is what was on disk when it read its file. -/
inductive Progress
  | started
  | committing (found : Files) (commit : LocalChangeCommit)

structure Attempt where
  path : Path
  force : Bool
  progress : Progress

/-- A push producer. `pending` holds the paths whose settling window is open, `blocked` the
collision keys of the files held back from upload. -/
structure Producer where
  disposed : Bool := false
  blocked : List ℕ := []
  pending : List Path := []
  forcedRetries : List Path := []
  rearmed : List Path := []
  attempts : List Attempt := []

section
variable (producer : Producer) (path : Path)

def trigger : Producer × Bool :=
  if producer.disposed then (producer, false)
  else ({ producer with pending := producer.pending.insert path }, true)

def cancel : Producer :=
  { producer with pending := producer.pending.filter fun other => other ≠ path }

def dispose : Producer := { producer with disposed := true, pending := [] }

/-- The window of a path closes. -/
def observeSettledModify : Producer :=
  { producer with
    pending := producer.pending.filter fun other => other ≠ path
    forcedRetries := producer.forcedRetries.filter fun other => other ≠ path
    attempts := producer.attempts ++ [⟨path, producer.forcedRetries.contains path, .started⟩] }

end

section
variable (producer : Producer) (path : Path)

/-- The producer after a failure, and whether the path gets a row. -/
def onCommitFailure : Producer × Bool :=
  if producer.rearmed.contains path then
    ({ producer with rearmed := producer.rearmed.filter fun other => other ≠ path }, true)
  else ((trigger { producer with rearmed := path :: producer.rearmed } path).1, false)

def onCommitSuccess : Producer :=
  { producer with rearmed := producer.rearmed.filter fun other => other ≠ path }

inductive RetryFailedCommitOutcome
  | retriggered
  | fileMissing
  | unavailable
  deriving DecidableEq

def retryFailedCommit (files : Files) : Producer × RetryFailedCommitOutcome :=
  if existsAt files path = false then (producer, .fileMissing)
  else if (trigger producer path).2 then
    ({ (trigger producer path).1 with
        forcedRetries := (trigger producer path).1.forcedRetries.insert path }, .retriggered)
  else (producer, .unavailable)

/-- Whether the row of the retried send is discarded. -/
def planRetryFromDisk (discardOnRetrigger : Bool) : RetryFailedCommitOutcome → Bool
  | .fileMissing => true
  | .retriggered => discardOnRetrigger
  | .unavailable => false

end

/-- `failedToQueue` holds the paths with a row. `queued` is a history variable: the commits
that queued a revision. -/
structure World where
  files : Files := ∅
  mappings : List LocalFileMapping := []
  failedToQueue : List Path := []
  queued : List LocalChangeCommit := []
  producers : List Producer := []

section
variable (failedToQueue : List Path) (path : Path) (saved : Bool)

def recordFailedToQueue : List Path :=
  if saved then (failedToQueue.filter fun other => other ≠ path) ++ [path] else failedToQueue

def discardQuarantined : List Path :=
  if saved then failedToQueue.filter fun other => other ≠ path else failedToQueue

end

section
variable (options : ObserverOptions)

/-- A file held back from upload that has no mapping yet. -/
def heldBack (producer : Producer) (mappings : List LocalFileMapping) (path : Path) : Bool :=
  match options.rules.classifyVaultPath path with
  | none => false
  | some classified =>
    producer.blocked.contains classified.collisionKey &&
      (findMapping mappings classified.collisionKey).isNone

def lockedObserve (producer : Producer) (files : Files) (mappings : List LocalFileMapping)
    (ids : FreshIds) (attempt : Attempt) : Option LocalChangeCommit :=
  if producer.disposed then none
  else if heldBack options producer mappings attempt.path then none
  else handleModify options files mappings ids attempt.path attempt.force

end

/-- `producer` and `attempt` are places in their lists, `saved` says whether the write of a
row goes well. -/
inductive Action
  | changeFiles (files : Files)
  | changeMappings (mappings : List LocalFileMapping)
  | startPushProducer (blocked : List ℕ)
  | dispose (producer : ℕ)
  | modify (producer : ℕ) (path : Path)
  | vacate (producer : ℕ) (path : Path)
  | settle (producer : ℕ) (path : Path)
  | observe (producer attempt : ℕ) (ids : FreshIds) (saved : Bool)
  | observeThrows (producer attempt : ℕ) (saved : Bool)
  | commit (producer attempt : ℕ) (saved : Bool)
  | commitThrows (producer attempt : ℕ) (tooLarge saved : Bool)
  | retrySend (producer : ℕ) (path : Path) (saved : Bool)
  | retryFromDisk (producer : ℕ) (path : Path)
  | discardSend (path : Path) (saved : Bool)

section
variable (options : ObserverOptions) (world : World)

def World.setProducer (i : ℕ) (producer : Producer) : World :=
  { world with producers := world.producers.set i producer }

def onProducer (i : ℕ) (f : Producer → Producer) : Option World :=
  world.producers[i]?.map fun producer => world.setProducer i (f producer)

def onAttempt (i k : ℕ) (f : Producer → Attempt → Option World) : Option World :=
  world.producers[i]?.bind fun producer => producer.attempts[k]?.bind (f producer)

def finished (producer : Producer) (k : ℕ) : Producer :=
  { producer with attempts := producer.attempts.eraseIdx k }

def settled (i k : ℕ) (producer : Producer) (path : Path) (saved : Bool) : World :=
  { world.setProducer i (onCommitSuccess (finished producer k) path) with
    failedToQueue := discardQuarantined world.failedToQueue path saved }

def failed (i k : ℕ) (producer : Producer) (path : Path) (saved : Bool) : World :=
  let after := onCommitFailure (finished producer k) path
  { world.setProducer i after.1 with
    failedToQueue := recordFailedToQueue world.failedToQueue path (after.2 && saved) }

def observed (i k : ℕ) (ids : FreshIds) (saved : Bool) (producer : Producer) (attempt : Attempt) :
    Option World :=
  match attempt.progress with
  | .committing _ _ => none
  | .started =>
    match lockedObserve options producer world.files world.mappings ids attempt with
    | none => some (settled world i k producer attempt.path saved)
    | some commit =>
      some (world.setProducer i { producer with
        attempts := producer.attempts.set k
          { attempt with progress := .committing world.files commit } })

def committed (i k : ℕ) (saved : Bool) (producer : Producer) (attempt : Attempt) : Option World :=
  match attempt.progress with
  | .started => none
  | .committing _ commit =>
    some { settled world i k producer attempt.path saved with
      mappings := nextMappings world.mappings commit
      queued := world.queued ++ [commit] }

def commitThrew (i k : ℕ) (tooLarge saved : Bool) (producer : Producer) (attempt : Attempt) :
    Option World :=
  match attempt.progress with
  | .started => none
  | .committing _ _ =>
    if tooLarge then some (world.setProducer i (finished producer k))
    else some (failed world i k producer attempt.path saved)

def observeThrew (i k : ℕ) (saved : Bool) (producer : Producer) (attempt : Attempt) :
    Option World :=
  match attempt.progress with
  | .committing _ _ => none
  | .started => some (failed world i k producer attempt.path saved)

def retried (i : ℕ) (path : Path) (saved : Bool) (producer : Producer) : World :=
  let after := retryFailedCommit producer path world.files
  { world.setProducer i after.1 with
    failedToQueue :=
      discardQuarantined world.failedToQueue path (planRetryFromDisk false after.2 && saved) }

def recoveryStep : Action → Option World
  | .changeFiles files => some { world with files }
  | .changeMappings mappings => some { world with mappings }
  | .startPushProducer blocked =>
    some { world with producers := world.producers ++ [{ blocked }] }
  | .dispose i => onProducer world i dispose
  | .modify i path => onProducer world i fun producer => (trigger producer path).1
  | .vacate i path => onProducer world i fun producer => cancel producer path
  | .settle i path =>
    world.producers[i]?.bind fun producer =>
      if producer.pending.contains path then
        some (world.setProducer i (observeSettledModify producer path))
      else none
  | .observe i k ids saved => onAttempt world i k (observed options world i k ids saved)
  | .observeThrows i k saved => onAttempt world i k (observeThrew world i k saved)
  | .commit i k saved => onAttempt world i k (committed world i k saved)
  | .commitThrows i k tooLarge saved => onAttempt world i k (commitThrew world i k tooLarge saved)
  | .retrySend i path saved =>
    world.producers[i]?.map fun producer => retried world i path saved producer
  | .retryFromDisk i path =>
    onProducer world i fun producer => (retryFailedCommit producer path world.files).1
  | .discardSend path saved =>
    some { world with failedToQueue := discardQuarantined world.failedToQueue path saved }

end

section
variable (options : ObserverOptions)

def onDisk (files : Files) (path : Path) : Bool :=
  match options.rules.classifyVaultPath path with
  | none => existsAt files path
  | some classified => (resolveReadPath files classified.canonicalPath path).isSome

/-- The commit carries what the files held at the path. -/
def ContentOf (files : Files) (path : Path) (commit : LocalChangeCommit) : Prop :=
  ∃ classified read, options.rules.classifyVaultPath path = some classified ∧
    readContentForKind options files classified.canonicalPath path classified.kind = some read ∧
    commit.operation.content = some read.content

/-- What makes an attempt at a file on disk end without a commit. -/
inductive PassedOver (producer : Producer) (files : Files) (mappings : List LocalFileMapping)
    (attempt : Attempt) : Prop
  | disposed (h : producer.disposed = true)
  | held (h : heldBack options producer mappings attempt.path = true)
  | ineligible (h : options.rules.classifyVaultPath attempt.path = none)
  | oversized {classified : ClassifiedPath} {readPath : Path}
      (hclassified : options.rules.classifyVaultPath attempt.path = some classified)
      (hkind : classified.kind = .binary)
      (hpath : resolveReadPath files classified.canonicalPath attempt.path = some readPath)
      (hsize : maxBinaryFileBytes < (readBinary options files readPath).length)
  | unchanged {classified : ClassifiedPath} {mapping : LocalFileMapping} {read : ReadContent}
      (hforce : attempt.force = false)
      (hclassified : options.rules.classifyVaultPath attempt.path = some classified)
      (hmapping : findMapping mappings classified.collisionKey = some mapping)
      (hread : readContentForKind options files classified.canonicalPath attempt.path
        classified.kind = some read)
      (hsame : read.contentHash = mapping.contentHash)

/-- No attempt at a file with a row passes the file over while it is on disk. -/
def Attempted (world : World) : Action → Prop
  | .observe i k _ _ => ∀ producer attempt, world.producers[i]? = some producer →
      producer.attempts[k]? = some attempt → attempt.path ∈ world.failedToQueue →
      onDisk options world.files attempt.path = true →
      ¬ PassedOver options producer world.files world.mappings attempt
  | _ => True

/-- A row is gone because its change was queued, its file is gone, or the user said so. -/
def ClearedRightly (world world' : World) (path : Path) : Action → Prop
  | .commit i k _ => ∃ producer force found commit, world.producers[i]? = some producer ∧
      producer.attempts[k]? = some ⟨path, force, .committing found commit⟩ ∧
      world'.queued = world.queued ++ [commit] ∧ ContentOf options found path commit
  | .observe _ _ _ _ => onDisk options world.files path = false
  | .retrySend _ _ _ => existsAt world.files path = false
  | .discardSend other _ => other = path
  | _ => False

end

section
variable {options : ObserverOptions} {producer : Producer} {files : Files}
  {mappings : List LocalFileMapping} {attempt : Attempt} {ids : FreshIds} {path : Path}
  {canonicalPath readPath : Path} {kind : SyncContentKind}

/-- What stands in the way of reading a file that is on disk. -/
theorem oversized_of_unread (hpath : resolveReadPath files canonicalPath path = some readPath)
    (h : readContentForKind options files canonicalPath path kind = none) :
    kind = .binary ∧ maxBinaryFileBytes < (readBinary options files readPath).length := by
  unfold readContentForKind at h
  rw [hpath] at h
  cases kind with
  | markdown => cases h
  | binary =>
    by_contra hsize
    have hwithin : ¬ (readBinary options files readPath).length > maxBinaryFileBytes := by
      intro hlarge
      exact hsize ⟨rfl, hlarge⟩
    dsimp only at h
    rw [if_neg hwithin] at h
    cases h

theorem unread_of_oversized (hkind : kind = .binary)
    (hpath : resolveReadPath files canonicalPath path = some readPath)
    (hsize : maxBinaryFileBytes < (readBinary options files readPath).length) :
    readContentForKind options files canonicalPath path kind = none := by
  unfold readContentForKind
  rw [hpath, hkind]
  exact if_pos hsize

theorem handleModify_unread {force : Bool} {classified : ClassifiedPath}
    (hclassified : options.rules.classifyVaultPath path = some classified)
    (hread : readContentForKind options files classified.canonicalPath path
      classified.kind = none) :
    handleModify options files mappings ids path force = none := by
  cases hcommit : handleModify options files mappings ids path force with
  | none => rfl
  | some commit =>
    obtain ⟨found, read, hfound, hsome, -⟩ := handleModify_some hcommit
    rw [hclassified] at hfound
    cases hfound
    rw [hread] at hsome
    cases hsome

theorem handleModify_none (hondisk : onDisk options files attempt.path = true)
    (h : handleModify options files mappings ids attempt.path attempt.force = none) :
    PassedOver options producer files mappings attempt := by
  cases hclassified : options.rules.classifyVaultPath attempt.path with
  | none => exact .ineligible hclassified
  | some classified =>
    unfold onDisk at hondisk
    rw [hclassified] at hondisk
    obtain ⟨readPath, hpath⟩ := isSome_iff_exists.mp hondisk
    cases hread : readContentForKind options files classified.canonicalPath attempt.path
        classified.kind with
    | none =>
      obtain ⟨hkind, hsize⟩ := oversized_of_unread hpath hread
      exact .oversized hclassified hkind hpath hsize
    | some read =>
      unfold handleModify at h
      rw [hclassified] at h
      dsimp only at h
      cases hmapping : findMapping mappings classified.collisionKey with
      | none =>
        rw [hmapping] at h
        simp only [commitCreate, hread, map_some] at h
        cases h
      | some mapping =>
        rw [hmapping] at h
        simp only [commitModify, hread] at h
        by_cases hsame : attempt.force = false ∧ read.contentHash = mapping.contentHash
        · exact .unchanged hsame.1 hclassified hmapping hread hsame.2
        · rw [if_neg hsame] at h
          cases h

/-- An attempt at a file on disk ends without a commit exactly when it is passed over. -/
theorem lockedObserve_eq_none (hondisk : onDisk options files attempt.path = true) :
    lockedObserve options producer files mappings ids attempt = none ↔
      PassedOver options producer files mappings attempt := by
  unfold lockedObserve
  constructor
  · intro h
    split_ifs at h with hdisposed hheld
    · exact .disposed hdisposed
    · exact .held hheld
    · exact handleModify_none hondisk h
  · intro h
    cases h with
    | disposed h => rw [if_pos h]
    | held h => rw [if_pos h, ite_self]
    | ineligible h =>
      have hnone : handleModify options files mappings ids attempt.path attempt.force = none := by
        unfold handleModify
        rw [h]
      rw [hnone, ite_self, ite_self]
    | oversized hclassified hkind hpath hsize =>
      have hread := unread_of_oversized hkind hpath hsize
      rw [handleModify_unread hclassified hread, ite_self, ite_self]
    | unchanged hforce hclassified hmapping hread hsame =>
      have hnone : handleModify options files mappings ids attempt.path attempt.force = none := by
        unfold handleModify commitModify
        rw [hclassified]
        dsimp only
        rw [hmapping]
        dsimp only
        rw [hread]
        exact if_pos ⟨hforce, hsame⟩
      rw [hnone, ite_self, ite_self]

end

section
variable {options : ObserverOptions} {world world' : World} {i k : ℕ} {producer : Producer}
  {attempt : Attempt} {saved : Bool} {commit : LocalChangeCommit} {ids : FreshIds}

/-- Every attempt about to commit read its file's content from the disk it found. -/
def Reading (options : ObserverOptions) (attempts : List Attempt) : Prop :=
  ∀ attempt ∈ attempts, ∀ found commit, attempt.progress = .committing found commit →
    ContentOf options found attempt.path commit

def AllReading (options : ObserverOptions) (world : World) : Prop :=
  ∀ producer ∈ world.producers, Reading options producer.attempts

theorem reading_finished (h : Reading options producer.attempts) (k : ℕ) :
    Reading options (finished producer k).attempts :=
  fun attempt hmem => h attempt (mem_of_mem_eraseIdx hmem)

theorem reading_started (h : Reading options producer.attempts) (path : Path) :
    Reading options (observeSettledModify producer path).attempts := by
  intro attempt hmem found commit hprogress
  rcases mem_append.mp hmem with hold | hnew
  · exact h attempt hold found commit hprogress
  · rw [mem_singleton.mp hnew] at hprogress
    cases hprogress

theorem reading_committing (h : Reading options producer.attempts) {found : Files}
    (hcontent : ContentOf options found attempt.path commit) :
    Reading options
      (producer.attempts.set k { attempt with progress := .committing found commit }) := by
  intro other hmem other_found other_commit hprogress
  rcases mem_or_eq_of_mem_set hmem with hold | hnew
  · exact h other hold other_found other_commit hprogress
  · rw [hnew] at hprogress ⊢
    cases hprogress
    exact hcontent

theorem trigger_attempts (path : Path) : (trigger producer path).1.attempts = producer.attempts := by
  unfold trigger
  split_ifs
  · rfl
  · rfl

theorem onCommitFailure_attempts (path : Path) :
    (onCommitFailure producer path).1.attempts = producer.attempts := by
  unfold onCommitFailure
  split_ifs
  · rfl
  · exact trigger_attempts path

theorem retryFailedCommit_attempts (path : Path) (files : Files) :
    (retryFailedCommit producer path files).1.attempts = producer.attempts := by
  unfold retryFailedCommit
  split_ifs
  · rfl
  · exact trigger_attempts path
  · rfl

theorem allReading_set (h : AllReading options world) (i : ℕ)
    (hproducer : Reading options producer.attempts) :
    AllReading options (world.setProducer i producer) := by
  intro other hmem
  rcases mem_or_eq_of_mem_set hmem with hold | hnew
  · exact h other hold
  · rw [hnew]
    exact hproducer

theorem allReading_get (h : AllReading options world) (hproducer : world.producers[i]? = some producer) :
    Reading options producer.attempts := h producer (mem_of_getElem? hproducer)

theorem onProducer_some {f : Producer → Producer} (h : onProducer world i f = some world') :
    ∃ producer, world.producers[i]? = some producer ∧
      world' = world.setProducer i (f producer) := by
  obtain ⟨producer, hproducer, hafter⟩ := map_eq_some_iff.mp h
  exact ⟨producer, hproducer, hafter.symm⟩

theorem onAttempt_some {f : Producer → Attempt → Option World}
    (h : onAttempt world i k f = some world') :
    ∃ producer attempt, world.producers[i]? = some producer ∧
      producer.attempts[k]? = some attempt ∧ f producer attempt = some world' := by
  obtain ⟨producer, hproducer, hrest⟩ := bind_eq_some_iff.mp h
  obtain ⟨attempt, hattempt, hafter⟩ := bind_eq_some_iff.mp hrest
  exact ⟨producer, attempt, hproducer, hattempt, hafter⟩

theorem lockedObserve_some {files : Files} {mappings : List LocalFileMapping}
    (h : lockedObserve options producer files mappings ids attempt = some commit) :
    ContentOf options files attempt.path commit := by
  unfold lockedObserve at h
  split_ifs at h
  obtain ⟨classified, read, hclassified, hread, hcontent, -⟩ := handleModify_some h
  exact ⟨classified, read, hclassified, hread, hcontent⟩

/-- An attempt's checks: nothing to commit, or a commit of what is on disk. -/
theorem observed_cases (h : observed options world i k ids saved producer attempt = some world') :
    attempt.progress = .started ∧
      ((lockedObserve options producer world.files world.mappings ids attempt = none ∧
          world' = settled world i k producer attempt.path saved) ∨
        ∃ commit,
          lockedObserve options producer world.files world.mappings ids attempt = some commit ∧
          world' = world.setProducer i { producer with
            attempts := producer.attempts.set k
              { attempt with progress := .committing world.files commit } }) := by
  unfold observed at h
  cases hprogress : attempt.progress with
  | committing found commit =>
    rw [hprogress] at h
    cases h
  | started =>
    rw [hprogress] at h
    dsimp only at h
    refine ⟨rfl, ?_⟩
    cases hcommit : lockedObserve options producer world.files world.mappings ids attempt with
    | none =>
      rw [hcommit] at h
      cases h
      exact .inl ⟨rfl, rfl⟩
    | some commit =>
      rw [hcommit] at h
      cases h
      exact .inr ⟨commit, rfl, rfl⟩

theorem committed_cases (h : committed world i k saved producer attempt = some world') :
    ∃ found commit, attempt.progress = .committing found commit ∧
      world' = { settled world i k producer attempt.path saved with
        mappings := nextMappings world.mappings commit
        queued := world.queued ++ [commit] } := by
  unfold committed at h
  cases hprogress : attempt.progress with
  | started =>
    rw [hprogress] at h
    cases h
  | committing found commit =>
    rw [hprogress] at h
    cases h
    exact ⟨found, commit, rfl, rfl⟩

theorem commitThrew_cases {tooLarge : Bool}
    (h : commitThrew world i k tooLarge saved producer attempt = some world') :
    (tooLarge = true ∧ world' = world.setProducer i (finished producer k)) ∨
      (tooLarge = false ∧ world' = failed world i k producer attempt.path saved) := by
  unfold commitThrew at h
  cases hprogress : attempt.progress with
  | started =>
    rw [hprogress] at h
    cases h
  | committing found commit =>
    rw [hprogress] at h
    dsimp only at h
    split_ifs at h with hlarge
    · cases h
      exact .inl ⟨hlarge, rfl⟩
    · cases h
      exact .inr ⟨Bool.eq_false_iff.mpr hlarge, rfl⟩

theorem observeThrew_eq (h : observeThrew world i k saved producer attempt = some world') :
    world' = failed world i k producer attempt.path saved := by
  unfold observeThrew at h
  cases hprogress : attempt.progress with
  | committing found commit =>
    rw [hprogress] at h
    cases h
  | started =>
    rw [hprogress] at h
    cases h
    rfl

theorem allReading_failed (h : AllReading options world)
    (hproducer : world.producers[i]? = some producer) (path : Path) (saved : Bool) :
    AllReading options (failed world i k producer path saved) := by
  have hreading : Reading options (onCommitFailure (finished producer k) path).1.attempts := by
    rw [onCommitFailure_attempts]
    exact reading_finished (allReading_get h hproducer) k
  exact allReading_set h i hreading

theorem allReading_settled (h : AllReading options world)
    (hproducer : world.producers[i]? = some producer) (path : Path) (saved : Bool) :
    AllReading options (settled world i k producer path saved) := by
  have hreading : Reading options (onCommitSuccess (finished producer k) path).attempts :=
    reading_finished (allReading_get h hproducer) k
  exact allReading_set h i hreading

theorem allReading_step {action : Action} (h : AllReading options world)
    (hstep : recoveryStep options world action = some world') : AllReading options world' := by
  cases action with
  | changeFiles files =>
    cases hstep
    exact h
  | changeMappings mappings =>
    cases hstep
    exact h
  | startPushProducer blocked =>
    cases hstep
    intro producer hmem
    rcases mem_append.mp hmem with hold | hnew
    · exact h producer hold
    · rw [mem_singleton.mp hnew]
      intro attempt hnone
      cases hnone
  | dispose i =>
    obtain ⟨producer, hproducer, rfl⟩ := onProducer_some hstep
    have hreading : Reading options producer.attempts := allReading_get h hproducer
    exact allReading_set h i (show Reading options (dispose producer).attempts from hreading)
  | modify i path =>
    obtain ⟨producer, hproducer, rfl⟩ := onProducer_some hstep
    have hreading : Reading options (trigger producer path).1.attempts := by
      rw [trigger_attempts]
      exact allReading_get h hproducer
    exact allReading_set h i hreading
  | vacate i path =>
    obtain ⟨producer, hproducer, rfl⟩ := onProducer_some hstep
    have hreading : Reading options producer.attempts := allReading_get h hproducer
    exact allReading_set h i (show Reading options (cancel producer path).attempts from hreading)
  | settle i path =>
    obtain ⟨producer, hproducer, hafter⟩ := bind_eq_some_iff.mp hstep
    split_ifs at hafter
    cases hafter
    exact allReading_set h i (reading_started (allReading_get h hproducer) path)
  | observe i k ids saved =>
    obtain ⟨producer, attempt, hproducer, -, hafter⟩ := onAttempt_some hstep
    obtain ⟨-, ⟨-, rfl⟩ | ⟨commit, hcommit, rfl⟩⟩ := observed_cases hafter
    · exact allReading_settled h hproducer attempt.path saved
    · have hreading := reading_committing (k := k) (allReading_get h hproducer)
        (lockedObserve_some hcommit)
      intro other hmem
      rcases mem_or_eq_of_mem_set hmem with hold | hnew
      · exact h other hold
      · rw [hnew]
        exact hreading
  | observeThrows i k saved =>
    obtain ⟨producer, attempt, hproducer, -, hafter⟩ := onAttempt_some hstep
    rw [observeThrew_eq hafter]
    exact allReading_failed h hproducer attempt.path saved
  | commit i k saved =>
    obtain ⟨producer, attempt, hproducer, -, hafter⟩ := onAttempt_some hstep
    obtain ⟨found, commit, -, rfl⟩ := committed_cases hafter
    exact allReading_settled h hproducer attempt.path saved
  | commitThrows i k tooLarge saved =>
    obtain ⟨producer, attempt, hproducer, -, hafter⟩ := onAttempt_some hstep
    obtain ⟨-, rfl⟩ | ⟨-, rfl⟩ := commitThrew_cases hafter
    · exact allReading_set h i (reading_finished (allReading_get h hproducer) k)
    · exact allReading_failed h hproducer attempt.path saved
  | retrySend i path saved =>
    obtain ⟨producer, hproducer, rfl⟩ := map_eq_some_iff.mp hstep
    have hreading : Reading options (retryFailedCommit producer path world.files).1.attempts := by
      rw [retryFailedCommit_attempts]
      exact allReading_get h hproducer
    exact allReading_set h i hreading
  | retryFromDisk i path =>
    obtain ⟨producer, hproducer, rfl⟩ := onProducer_some hstep
    have hreading : Reading options (retryFailedCommit producer path world.files).1.attempts := by
      rw [retryFailedCommit_attempts]
      exact allReading_get h hproducer
    exact allReading_set h i hreading
  | discardSend path saved =>
    cases hstep
    exact h

end

variable {options : ObserverOptions} {start world world' : World} {action : Action} {path : Path}

theorem mem_recordFailedToQueue {rows : List Path} (h : path ∈ rows) (other : Path) (saved : Bool) :
    path ∈ recordFailedToQueue rows other saved := by
  unfold recordFailedToQueue
  split_ifs
  · by_cases hsame : path = other
    · exact mem_append_right _ (mem_singleton.mpr hsame)
    · exact mem_append_left _ (mem_filter.mpr ⟨h, decide_eq_true hsame⟩)
  · exact h

/-- Only a discard of the path's own row that is saved takes a row away. -/
theorem of_not_mem_discardQuarantined {rows : List Path} {other : Path} {saved : Bool}
    (h : path ∈ rows) (hgone : path ∉ discardQuarantined rows other saved) :
    other = path ∧ saved = true := by
  unfold discardQuarantined at hgone
  split_ifs at hgone with hsaved
  · by_contra hother
    have hdifferent : path ≠ other := by
      intro hsame
      exact hother ⟨hsame.symm, hsaved⟩
    exact hgone (mem_filter.mpr ⟨h, decide_eq_true hdifferent⟩)
  · exact absurd h hgone

theorem fileMissing_of_discarded {producer : Producer} {other : Path} {files : Files}
    (h : planRetryFromDisk false (retryFailedCommit producer other files).2 = true) :
    existsAt files other = false := by
  unfold retryFailedCommit at h
  split_ifs at h with hmissing hscheduled
  · exact hmissing
  · cases h
  · cases h

theorem cleared_rightly (hreading : AllReading options world)
    (hallowed : Attempted options world action)
    (hstep : recoveryStep options world action = some world') (hrow : path ∈ world.failedToQueue)
    (hgone : path ∉ world'.failedToQueue) : ClearedRightly options world world' path action := by
  cases action with
  | changeFiles files =>
    cases hstep
    exact hgone hrow
  | changeMappings mappings =>
    cases hstep
    exact hgone hrow
  | startPushProducer blocked =>
    cases hstep
    exact hgone hrow
  | dispose i =>
    obtain ⟨producer, -, rfl⟩ := onProducer_some hstep
    exact hgone hrow
  | modify i other =>
    obtain ⟨producer, -, rfl⟩ := onProducer_some hstep
    exact hgone hrow
  | vacate i other =>
    obtain ⟨producer, -, rfl⟩ := onProducer_some hstep
    exact hgone hrow
  | settle i other =>
    obtain ⟨producer, -, hafter⟩ := bind_eq_some_iff.mp hstep
    split_ifs at hafter
    cases hafter
    exact hgone hrow
  | observe i k ids saved =>
    obtain ⟨producer, attempt, hproducer, hattempt, hafter⟩ := onAttempt_some hstep
    obtain ⟨-, ⟨hnone, rfl⟩ | ⟨commit, -, rfl⟩⟩ := observed_cases hafter
    · obtain ⟨rfl, -⟩ := of_not_mem_discardQuarantined hrow hgone
      by_contra hondisk
      have hthere : onDisk options world.files attempt.path = true := Bool.eq_true_of_not_eq_false hondisk
      exact hallowed producer attempt hproducer hattempt hrow hthere
        ((lockedObserve_eq_none hthere).mp hnone)
    · exact absurd hrow hgone
  | observeThrows i k saved =>
    obtain ⟨producer, attempt, -, -, hafter⟩ := onAttempt_some hstep
    rw [observeThrew_eq hafter] at hgone
    exact hgone (mem_recordFailedToQueue hrow _ _)
  | commit i k saved =>
    obtain ⟨producer, ⟨other, force, progress⟩, hproducer, hattempt, hafter⟩ := onAttempt_some hstep
    obtain ⟨found, commit, rfl, rfl⟩ := committed_cases hafter
    obtain ⟨rfl, -⟩ := of_not_mem_discardQuarantined hrow hgone
    have hcontent := allReading_get hreading hproducer _ (mem_of_getElem? hattempt) found
      commit rfl
    exact ⟨producer, force, found, commit, hproducer, hattempt, rfl, hcontent⟩
  | commitThrows i k tooLarge saved =>
    obtain ⟨producer, attempt, -, -, hafter⟩ := onAttempt_some hstep
    obtain ⟨-, rfl⟩ | ⟨-, rfl⟩ := commitThrew_cases hafter
    · exact absurd hrow hgone
    · exact hgone (mem_recordFailedToQueue hrow _ _)
  | retrySend i other saved =>
    obtain ⟨producer, -, rfl⟩ := map_eq_some_iff.mp hstep
    obtain ⟨rfl, hdiscard⟩ := of_not_mem_discardQuarantined hrow hgone
    exact fileMissing_of_discarded (Bool.and_eq_true_iff.mp hdiscard).1
  | retryFromDisk i other =>
    obtain ⟨producer, -, rfl⟩ := onProducer_some hstep
    exact hgone hrow
  | discardSend other saved =>
    cases hstep
    exact (of_not_mem_discardQuarantined hrow hgone).1

theorem allReading_reached (hstart : start.producers = [])
    (reached : Reached (recoveryStep options) (Attempted options) start world) :
    AllReading options world := by
  refine reached.invariant (fun producer hmem => ?_)
    fun _ _ _ hbefore _ hstep => allReading_step hbefore hstep
  rw [hstart] at hmem
  cases hmem

/-- The action is a failure of an attempt that is not about the size of the file. -/
def Throws (i k : ℕ) : Action → Prop
  | .observeThrows j l _ => j = i ∧ l = k
  | .commitThrows j l tooLarge _ => j = i ∧ l = k ∧ tooLarge = false
  | _ => False

variable {i k : ℕ} {producer : Producer} {attempt : Attempt}

theorem getElem?_setProducer {after : Producer} (hproducer : world.producers[i]? = some producer) :
    (world.setProducer i after).producers[i]? = some after := by
  have hbound : i < world.producers.length := (List.getElem?_eq_some_iff.mp hproducer).1
  exact List.getElem?_set_self hbound

theorem rearmed_failed {saved : Bool} (hproducer : world.producers[i]? = some producer)
    (hlive : producer.disposed = false) (hfirst : producer.rearmed.contains path = false) :
    ∃ after, (failed world i k producer path saved).producers[i]? = some after ∧
      path ∈ after.pending := by
  refine ⟨_, getElem?_setProducer hproducer, ?_⟩
  have hnot : ¬ (finished producer k).rearmed.contains path = true := by
    intro hcontains
    have hsame : producer.rearmed.contains path = true := hcontains
    rw [hfirst] at hsame
    cases hsame
  have hopen : ¬ ({ finished producer k with rearmed := path :: (finished producer k).rearmed } :
      Producer).disposed = true := by
    intro hdisposed
    have hsame : producer.disposed = true := hdisposed
    rw [hlive] at hsame
    cases hsame
  unfold onCommitFailure
  rw [if_neg hnot]
  unfold trigger
  rw [if_neg hopen]
  exact mem_insert_self

/-- A first failure opens the settling window of the path again. -/
theorem rearmed_step (hstep : recoveryStep options world action = some world')
    (hproducer : world.producers[i]? = some producer) (hattempt : producer.attempts[k]? = some attempt)
    (hthrows : Throws i k action) (hlive : producer.disposed = false)
    (hfirst : producer.rearmed.contains attempt.path = false) :
    ∃ after, world'.producers[i]? = some after ∧ attempt.path ∈ after.pending := by
  cases action with
  | observeThrows j l saved =>
    obtain ⟨rfl, rfl⟩ := hthrows
    obtain ⟨found, tried, hfound, htried, hafter⟩ := onAttempt_some hstep
    rw [hproducer] at hfound
    cases hfound
    rw [hattempt] at htried
    cases htried
    rw [observeThrew_eq hafter]
    exact rearmed_failed hproducer hlive hfirst
  | commitThrows j l tooLarge saved =>
    obtain ⟨rfl, rfl, rfl⟩ := hthrows
    obtain ⟨found, tried, hfound, htried, hafter⟩ := onAttempt_some hstep
    rw [hproducer] at hfound
    cases hfound
    rw [hattempt] at htried
    cases htried
    obtain ⟨hlarge, -⟩ | ⟨-, rfl⟩ := commitThrew_cases hafter
    · cases hlarge
    · exact rearmed_failed hproducer hlive hfirst
  | _ => exact hthrows.elim

theorem committing_step {ids : FreshIds} {saved : Bool}
    (hallowed : Attempted options world (.observe i k ids saved))
    (hstep : recoveryStep options world (.observe i k ids saved) = some world')
    (hproducer : world.producers[i]? = some producer) (hattempt : producer.attempts[k]? = some attempt)
    (hrow : attempt.path ∈ world.failedToQueue)
    (hondisk : onDisk options world.files attempt.path = true) :
    ∃ after commit, world'.producers[i]? = some after ∧
      after.attempts[k]? =
        some { attempt with progress := .committing world.files commit } ∧
      ContentOf options world.files attempt.path commit := by
  obtain ⟨found, tried, hfound, htried, hafter⟩ := onAttempt_some hstep
  rw [hproducer] at hfound
  cases hfound
  rw [hattempt] at htried
  cases htried
  obtain ⟨-, ⟨hnone, rfl⟩ | ⟨commit, hcommit, rfl⟩⟩ := observed_cases hafter
  · have hpassed := (lockedObserve_eq_none hondisk).mp hnone
    exact absurd hpassed (hallowed producer attempt hproducer hattempt hrow hondisk)
  · have hbound : k < producer.attempts.length := (List.getElem?_eq_some_iff.mp hattempt).1
    exact ⟨_, commit, getElem?_setProducer hproducer, List.getElem?_set_self hbound,
      lockedObserve_some hcommit⟩

/-- In every run that passes over no file on disk with a row, a row is only cleared
rightly; an attempt's first failure is followed by another attempt, and one at a file with
a row goes on to commit what is on disk, whether it is forced or not. -/
theorem failed_row_kept (hstart : start.producers = [])
    (reached : Reached (recoveryStep options) (Attempted options) start world)
    (hallowed : Attempted options world action)
    (hstep : recoveryStep options world action = some world')
    (hrow : path ∈ world.failedToQueue) :
    (path ∉ world'.failedToQueue → ClearedRightly options world world' path action) ∧
      ∀ i k producer attempt, world.producers[i]? = some producer →
        producer.attempts[k]? = some attempt → attempt.path = path →
        (Throws i k action → producer.disposed = false →
          producer.rearmed.contains path = false →
          ∃ after, world'.producers[i]? = some after ∧ path ∈ after.pending) ∧
        ∀ ids saved, action = .observe i k ids saved →
          onDisk options world.files path = true →
          ∃ after commit, world'.producers[i]? = some after ∧
            after.attempts[k]? =
              some { attempt with progress := .committing world.files commit } ∧
            ContentOf options world.files path commit := by
  refine ⟨cleared_rightly (allReading_reached hstart reached) hallowed hstep hrow, ?_⟩
  intro i k producer attempt hproducer hattempt hpath
  subst hpath
  refine ⟨rearmed_step hstep hproducer hattempt, ?_⟩
  intro ids saved haction hondisk
  subst haction
  exact committing_step hallowed hstep hproducer hattempt hrow hondisk

/-- A vault whose one note is as its mapping says. -/
def mappedWorld : World where
  files := JsObject.empty.set 1 (.text [97, lineFeed])
  mappings := [{ collisionKey := 1, contentHash := .text [97, lineFeed], fileId := 7, path := 1 }]

/-- Both attempts at the settled note fail, and it gets a row. -/
def failTwice : List Action :=
  [.startPushProducer [], .modify 0 1, .settle 0 1, .observeThrows 0 0 true, .settle 0 1,
    .observeThrows 0 0 true]

def worldAfter (actions : List Action) : World :=
  (run (recoveryStep noteObserver) mappedWorld actions).getD mappedWorld

/-- The user's retry of the note with the row, which is forced. -/
def retryForced : List Action := failTwice ++ [.retrySend 0 1 true, .settle 0 1]

theorem retryForced_reached : Reached (recoveryStep noteObserver) (Attempted noteObserver)
    mappedWorld (worldAfter retryForced) := by
  have hrun : run (recoveryStep noteObserver) mappedWorld retryForced =
      some (worldAfter retryForced) := rfl
  refine Reached.run .start (allowed_of_mem ?_ mappedWorld) hrun
  intro action hmem s
  simp only [retryForced, failTwice, cons_append, nil_append, mem_cons,
    not_mem_nil, or_false] at hmem
  rcases hmem with rfl | rfl | rfl | rfl | rfl | rfl | rfl | rfl <;> trivial

theorem retryForced_attempted :
    Attempted noteObserver (worldAfter retryForced) (.observe 0 0 ⟨8, 9⟩ true) := by
  intro producer attempt hproducer hattempt _ hondisk hpassed
  cases some.inj hproducer
  cases some.inj hattempt
  have hnone : lockedObserve noteObserver _ (worldAfter retryForced).files
      (worldAfter retryForced).mappings ⟨8, 9⟩ _ = none := (lockedObserve_eq_none hondisk).mpr hpassed
  cases hnone

def retryActions : List Action := retryForced ++ [.observe 0 0 ⟨8, 9⟩ true]

/-- The retry is carried out, and its commit clears the row. -/
theorem failed_row_kept_retried : ClearedRightly noteObserver (worldAfter retryActions)
    (worldAfter (retryActions ++ [.commit 0 0 true])) 1 (.commit 0 0 true) := by
  have hobserved : recoveryStep noteObserver (worldAfter retryForced) (.observe 0 0 ⟨8, 9⟩ true) =
      some (worldAfter retryActions) := rfl
  have hcommitted : recoveryStep noteObserver (worldAfter retryActions) (.commit 0 0 true) =
      some (worldAfter (retryActions ++ [.commit 0 0 true])) := rfl
  have hallowed : Attempted noteObserver (worldAfter retryActions) (.commit 0 0 true) := trivial
  have hreached := retryForced_reached.step retryForced_attempted hobserved
  have hrow : 1 ∈ (worldAfter retryActions).failedToQueue := mem_singleton.mpr rfl
  exact (failed_row_kept rfl hreached hallowed hcommitted hrow).1 not_mem_nil

/-- The user's retry of the note with the row fails once, and its window opens again. -/
def retryOnce : List Action :=
  failTwice ++ [.retrySend 0 1 true, .settle 0 1, .observeThrows 0 0 true, .settle 0 1]

/-- The attempt that follows finds nothing to do and takes the row away: the retry is lost. -/
theorem retry_lost :
    run (recoveryStep noteObserver) mappedWorld retryOnce = some (worldAfter retryOnce) ∧
      (worldAfter retryOnce).failedToQueue = [1] ∧
      onDisk noteObserver (worldAfter retryOnce).files 1 = true ∧
      ∃ world', recoveryStep noteObserver (worldAfter retryOnce) (.observe 0 0 ⟨8, 9⟩ true) =
          some world' ∧
        world'.failedToQueue = [] ∧ world'.queued = [] ∧
        world'.producers.map Producer.pending = [[]] ∧
        world'.producers.map Producer.attempts = [[]] :=
  ⟨rfl, rfl, rfl, _, rfl, rfl, rfl, rfl, rfl⟩

end Havemind.CommitRecovery
