import Havemind.BackupServer
import Mathlib.Data.Nat.Digits.Defs
import Mathlib.Tactic.IntervalCases

/-!
A finished backup holds the blob of every revision of its snapshot. A revision is
committed behind the write of its blob, no blob a revision refers to is ever removed,
and the snapshot is taken before the blobs are listed.
-/
namespace Havemind.BackupConsistency

open JsText RevisionSchema ServerDatabase RevisionRepository RevisionCommit PushRoute RevisionReplay
  Runs PushHandler PushSteps VaultQuota BlobStore CreateBackup BackupServer List Option

variable {options : RevisionRepositoryOptions} {wired : Bool} {address : BlobAddress}
  {directory : JsString}

section
variable {db db' : Database} {request request' : PushRequest} {event : RequestEvent}

/-- A step leaves the batch where it is, or ends the turn of its first revision. -/
theorem remaining_advanced (h : Advanced options wired db request request' db') :
    (request'.remaining = request.remaining ∧ request'.attempts = request.attempts) ∨
      ∃ revision rest, request.remaining = revision :: rest ∧ request'.remaining = rest ∧
        request'.attempts.length = request.attempts.length + 1 := by
  cases h with
  | moved phase active next => exact Or.inl ⟨rfl, rfl⟩
  | prepared prepared revision rest active head ran => exact Or.inl ⟨rfl, rfl⟩
  | failed revision rest error active head why =>
    obtain ⟨_, _, hrest, hattempts, _⟩ :=
      conclude_actor request revision rest db (.error error)
    exact Or.inr ⟨revision, rest, head, hrest, by simp [hattempts]⟩
  | committed prepared revision rest now result db' phase head ran =>
    obtain ⟨_, _, hrest, hattempts, _⟩ := conclude_actor request revision rest db (.ok result)
    exact Or.inr ⟨revision, rest, head, hrest, by simp [hattempts]⟩
  | finished ending => exact Or.inl ⟨rfl, rfl⟩

theorem conclude_ne_preparing (revision : HashedRevisionInput) (rest : List HashedRevisionInput)
    (outcome : Except RepositoryError CommitRevisionResult) :
    (request.conclude revision rest db outcome).phase ≠ .preparing ∧
      (request.conclude revision rest db outcome).phase ≠ .storing ∧
      ∀ prepared, (request.conclude revision rest db outcome).phase ≠ .committing prepared := by
  rcases conclude_phase request revision rest db outcome with hphase | hphase <;>
    simp [hphase]

/-- A request comes to its preparation from the write of its blob, and to its transaction
from its preparation. -/
theorem phase_advanced (h : advance options wired db request event = some (request', db')) :
    (request'.phase = .preparing → event = .store) ∧
      ∀ prepared, request'.phase = .committing prepared →
        request.phase = .preparing ∧ request'.remaining = request.remaining := by
  have hconclude : ∀ revision rest outcome,
      (request.conclude revision rest db outcome).phase ≠ .preparing ∧
        (request.conclude revision rest db outcome).phase ≠ .storing ∧
        ∀ prepared, (request.conclude revision rest db outcome).phase ≠ .committing prepared :=
    conclude_ne_preparing
  cases event with
  | store =>
    refine ⟨fun _ => rfl, ?_⟩
    grind [advance]
  | fault error => grind [advance]
  | _ => grind [advance]

/-- A step adds at most the row of the revision whose transaction it runs. -/
theorem revisions_advanced (hprepared : PreparedHead options request)
    (h : Advanced options wired db request request' db') :
    db'.revisions = db.revisions ∨
      ∃ prepared revision rest row, request.phase = .committing prepared ∧
        request.remaining = revision :: rest ∧ db'.revisions = db.revisions ++ [row] ∧
        row.blobHash = revision.blobHash := by
  cases h with
  | committed prepared revision rest now result db' phase head ran =>
    obtain ⟨other, tail, hhead, rfl⟩ := hprepared prepared phase
    rcases revisions_commit ran with ⟨hsame, _⟩ | ⟨_, row, _, _, hrows, _, hhash, _, _⟩
    · exact Or.inl hsame
    · exact Or.inr ⟨_, other, tail, row, phase, hhead, hrows, hhash⟩
  | _ => exact Or.inl rfl

end

section
variable {db db' : Database} {tree tree' : BlobTree} {upload upload' : Upload}
  {others : List Upload}

def temporary (upload : Upload) : Option BlobPath := upload.put.bind Put.temporary

/-- The blob of the revision a push is about to commit is under its address. -/
structure UploadInv (options : RevisionRepositoryOptions) (address : BlobAddress)
    (tree : BlobTree) (upload : Upload) : Prop where
  prepared : PreparedHead options upload.request
  batch : upload.request.remaining = [] ∨ upload.request.remaining =
    (upload.batch.drop upload.request.attempts.length).map (PushedRevision.hashed address)
  stored : ∀ revision rest, upload.request.remaining = revision :: rest →
    (upload.request.phase = .preparing ∨ ∃ prepared, upload.request.phase = .committing prepared) →
    Settled address tree revision.blobHash
  putting : ∀ put ∈ upload.put, upload.request.phase = .storing ∧
    address.hashBlob put.bytes = put.hash ∧ PutHolds address tree put ∧
    ∀ revision rest, upload.request.remaining = revision :: rest → revision.blobHash = put.hash

variable (I : UploadInv options address tree upload)
include I

theorem UploadInv.undisturbed {own : Option BlobPath} (hkept : Undisturbed address own tree tree')
    (hother : ∀ path, temporary upload = some path → some path ≠ own) :
    UploadInv options address tree' upload := by
  refine ⟨I.prepared, I.batch, ?_, ?_⟩
  · intro revision rest hhead hphase
    exact hkept.settled _ (I.stored revision rest hhead hphase)
  · intro put hput
    obtain ⟨hphase, hdigest, hholds, hhash⟩ := I.putting put hput
    refine ⟨hphase, hdigest, hholds.undisturbed hkept ?_, hhash⟩
    intro path hpath
    apply hother path
    rw [temporary, Option.mem_def.mp hput]
    exact hpath

omit I in
theorem batch_advanced {request' : PushRequest} {batch : List PushedRevision}
    {request : PushRequest}
    (hbatch : request.remaining = [] ∨ request.remaining =
      (batch.drop request.attempts.length).map (PushedRevision.hashed address))
    (h : Advanced options wired db request request' db') :
    request'.remaining = [] ∨ request'.remaining =
      (batch.drop request'.attempts.length).map (PushedRevision.hashed address) := by
  rcases remaining_advanced h with ⟨hremaining, hattempts⟩ | ⟨revision, rest, hhead, hrest, hlength⟩
  · rw [hremaining, hattempts]
    exact hbatch
  · rcases hbatch with hnil | hmap
    · rw [hnil] at hhead
      cases hhead
    · right
      rw [hrest, hlength, ← drop_drop, drop_one, map_tail, ← hmap, hhead]
      rfl

/-- What one step of a push keeps, and what it does to the database and the files. -/
structure UploadStepped (options : RevisionRepositoryOptions) (address : BlobAddress)
    (db db' : Database) (tree tree' : BlobTree) (upload upload' : Upload) : Prop where
  inv : UploadInv options address tree' upload'
  undisturbed : Undisturbed address (temporary upload) tree tree'
  temporary : ∀ path, BackupConsistency.temporary upload' = some path →
    BackupConsistency.temporary upload = some path ∨ tree.lookup path = none
  revisions : db'.revisions = db.revisions ∨
    ∃ row, db'.revisions = db.revisions ++ [row] ∧ Settled address tree row.blobHash

omit I in
theorem temporary_of_none (h : upload.put = none) : BackupConsistency.temporary upload = none := by
  rw [BackupConsistency.temporary, h]
  rfl

/-- A step of the request itself, while it awaits no write. -/
theorem uploadStep_request {event : RequestEvent}
    (h : uploadStep options wired address db tree others upload (.request event) =
      some (upload', db', tree')) :
    UploadStepped options address db db' tree tree' upload upload' := by
  simp only [uploadStep] at h
  split_ifs at h with hbusy
  obtain ⟨hput, hstore⟩ := not_or.mp hbusy
  have hnone : upload.put = none := by simpa using hput
  obtain ⟨⟨request', next⟩, hadvance, heq⟩ := map_eq_some_iff.mp h
  simp only [Prod.mk.injEq] at heq
  obtain ⟨rfl, rfl, rfl⟩ := heq
  have hadvanced := advance_cases hadvance
  obtain ⟨hpreparing, hcommitting⟩ := phase_advanced hadvance
  refine ⟨⟨preparedHead_advanced hadvanced, batch_advanced I.batch hadvanced, ?_, ?_⟩,
    undisturbed_refl _, ?_, ?_⟩
  · intro revision rest hhead hphase
    rcases hphase with hprepare | ⟨prepared, hcommit⟩
    · exact absurd (hpreparing hprepare) hstore
    · obtain ⟨hbefore, hremaining⟩ := hcommitting prepared hcommit
      exact I.stored revision rest (hremaining ▸ hhead) (Or.inl hbefore)
  · intro put hmem
    simp [hnone] at hmem
  · intro path hpath
    have hidle : BackupConsistency.temporary { upload with request := request' } = none :=
      temporary_of_none hnone
    rw [hidle] at hpath
    cases hpath
  · rcases revisions_advanced I.prepared hadvanced with
      hsame | ⟨prepared, revision, rest, row, hphase, hhead, hrows, hhash⟩
    · exact Or.inl hsame
    · refine Or.inr ⟨row, hrows, ?_⟩
      rw [hhash]
      exact I.stored revision rest hhead (Or.inr ⟨prepared, hphase⟩)

/-- The write of a blob begins with the bytes its revision's address was computed from. -/
theorem uploadStep_beginPut
    (h : uploadStep options wired address db tree others upload .beginPut =
      some (upload', db', tree')) :
    UploadStepped options address db db' tree tree' upload upload' := by
  cases hput : upload.put with
  | some put => simp [uploadStep, hput] at h
  | none =>
    cases hbatch : upload.batch[upload.request.attempts.length]? with
    | none => simp [uploadStep, hput, hbatch] at h
    | some pushed =>
      simp only [uploadStep, hput, hbatch] at h
      split_ifs at h with hphase
      simp only [some.injEq, Prod.mk.injEq] at h
      obtain ⟨rfl, rfl, rfl⟩ := h
      refine ⟨⟨I.prepared, I.batch, I.stored, ?_⟩, undisturbed_refl _, ?_, Or.inl rfl⟩
      · intro put hmem
        cases hmem
        refine ⟨hphase, rfl, trivial, ?_⟩
        intro revision rest hhead
        rcases I.batch with hnil | hmap
        · rw [hnil] at hhead
          cases hhead
        · have hfirst : upload.request.remaining[0]? = some (pushed.hashed address) := by
            rw [hmap]
            simp [hbatch]
          rw [hhead] at hfirst
          have hsame : revision = pushed.hashed address := by simpa using hfirst
          rw [hsame]
          rfl
      · intro path hpath
        cases hpath

theorem uploadStep_put {event : PutEvent}
    (h : uploadStep options wired address db tree others upload (.put event) =
      some (upload', db', tree')) :
    UploadStepped options address db db' tree tree' upload upload' := by
  obtain ⟨put, hput, h⟩ := bind_eq_some_iff.mp h
  split_ifs at h with hoccupied
  obtain ⟨⟨put', next⟩, hstep, heq⟩ := map_eq_some_iff.mp h
  simp only [Prod.mk.injEq] at heq
  obtain ⟨rfl, rfl, rfl⟩ := heq
  obtain ⟨hphase, hdigest, hholds, hhash⟩ := I.putting put hput
  have hstepped := putStep_spec hdigest hholds hstep
  have hown : BackupConsistency.temporary upload = put.temporary := by
    rw [BackupConsistency.temporary, hput]
    rfl
  refine ⟨⟨I.prepared, I.batch, ?_, ?_⟩, hown ▸ hstepped.undisturbed, ?_, Or.inl rfl⟩
  · intro revision rest hhead hlater
    rw [hphase] at hlater
    simp at hlater
  · intro other hmem
    cases hmem
    refine ⟨hphase, ?_, hstepped.holds, ?_⟩
    · rw [hstepped.bytes, hstepped.hash]
      exact hdigest
    · intro revision rest hhead
      rw [hstepped.hash]
      exact hhash revision rest hhead
  · intro path hpath
    rw [hown]
    exact hstepped.temporary path hpath

/-- The write has published its blob, and the request goes on to its commit. -/
theorem uploadStep_publish
    (h : uploadStep options wired address db tree others upload .publish =
      some (upload', db', tree')) :
    UploadStepped options address db db' tree tree' upload upload' := by
  obtain ⟨put, hput, h⟩ := bind_eq_some_iff.mp h
  split_ifs at h with hstage
  obtain ⟨⟨request', next⟩, hadvance, heq⟩ := map_eq_some_iff.mp h
  simp only [Prod.mk.injEq] at heq
  obtain ⟨rfl, rfl, rfl⟩ := heq
  obtain ⟨hphase, hdigest, hholds, hhash⟩ := I.putting put hput
  have hsettled : Settled address tree put.hash := by
    rw [PutHolds, hstage] at hholds
    exact hholds
  simp only [advance, hphase, some.injEq, Prod.mk.injEq] at hadvance
  obtain ⟨rfl, rfl⟩ := hadvance
  refine ⟨⟨?_, I.batch, ?_, ?_⟩, undisturbed_refl _, ?_, Or.inl rfl⟩
  · intro prepared hcommitting
    cases hcommitting
  · intro revision rest hhead _
    rw [hhash revision rest hhead]
    exact hsettled
  · intro other hmem
    cases hmem
  · intro path hpath
    cases hpath

theorem uploadStep_putFails
    (h : uploadStep options wired address db tree others upload .putFails =
      some (upload', db', tree')) :
    UploadStepped options address db db' tree tree' upload upload' := by
  obtain ⟨put, hput, h⟩ := bind_eq_some_iff.mp h
  obtain ⟨⟨request', next⟩, hadvance, heq⟩ := map_eq_some_iff.mp h
  simp only [Prod.mk.injEq] at heq
  obtain ⟨rfl, rfl, rfl⟩ := heq
  obtain ⟨hphase, hdigest, hholds, hhash⟩ := I.putting put hput
  have hadvanced := advance_cases hadvance
  obtain ⟨hpreparing, hcommitting⟩ := phase_advanced hadvance
  have hown : BackupConsistency.temporary upload = put.temporary := by
    rw [BackupConsistency.temporary, hput]
    rfl
  refine ⟨⟨preparedHead_advanced hadvanced, batch_advanced I.batch hadvanced, ?_, ?_⟩,
    hown ▸ undisturbed_discard hholds, ?_, ?_⟩
  · intro revision rest hhead hlater
    rcases hlater with hprepare | ⟨prepared, hcommit⟩
    · cases hpreparing hprepare
    · obtain ⟨hbefore, _⟩ := hcommitting prepared hcommit
      rw [hphase] at hbefore
      cases hbefore
  · intro other hmem
    cases hmem
  · intro path hpath
    cases hpath
  · rcases revisions_advanced I.prepared hadvanced with
      hsame | ⟨prepared, _, _, _, hcommit, _⟩
    · exact Or.inl hsame
    · rw [hphase] at hcommit
      cases hcommit

theorem uploadStep_spec {event : UploadEvent}
    (h : uploadStep options wired address db tree others upload event =
      some (upload', db', tree')) :
    UploadStepped options address db db' tree tree' upload upload' := by
  cases event with
  | request event => exact uploadStep_request I h
  | beginPut => exact uploadStep_beginPut I h
  | put event => exact uploadStep_put I h
  | publish => exact uploadStep_publish I h
  | putFails => exact uploadStep_putFails I h

omit I in
/-- A push that was just received writes nothing yet. -/
theorem uploadInv_receive (db : Database) (actor : AuthenticatedRevisionActor) (vaultId : Id)
    (ordered : List PushedRevision) :
    UploadInv options address tree
      ⟨receive options db actor vaultId (ordered.map (PushedRevision.hashed address)), ordered,
        none⟩ := by
  have hprepared : PreparedHead options (receive options db actor vaultId
      (ordered.map (PushedRevision.hashed address))) := preparedHead_receive db actor vaultId _
  rcases receive_cases options db actor vaultId (ordered.map (PushedRevision.hashed address)) with
    ⟨error, hrefused⟩ | ⟨hbegun, -, -⟩
  · refine ⟨hprepared, Or.inl (by rw [hrefused]; rfl), ?_, fun _ hmem => by cases hmem⟩
    intro revision rest hhead
    rw [hrefused] at hhead
    cases hhead
  · refine ⟨hprepared, Or.inr (by rw [hbegun]; rfl), ?_, fun _ hmem => by cases hmem⟩
    intro revision rest hhead hphase
    rw [hbegun] at hphase
    simp only [PushHandler.begun] at hphase
    split_ifs at hphase <;> simp at hphase

end

section
variable {server server' : Server} {id : ℕ}

def Referenced (db : Database) : Startup → Prop
  | .selecting => True
  | .listing referenced | .removing referenced _ =>
    ∀ row ∈ db.revisions, row.blobHash ∈ referenced

/-- What holds of the server between any two steps. -/
structure Consistent (options : RevisionRepositoryOptions) (address : BlobAddress)
    (server : Server) : Prop where
  rows : ∀ row ∈ server.database.revisions, Settled address server.tree row.blobHash
  uploads : ∀ upload ∈ server.uploads, UploadInv options address server.tree upload
  apart : ∀ (i j : ℕ) (left right : Upload) (path : BlobPath),
    server.uploads[i]? = some left → server.uploads[j]? = some right →
    temporary left = some path → temporary right = some path → i = j
  startup : ∀ stage ∈ server.startup, server.uploads = [] ∧ Referenced server.database stage
  backups : ∀ backup ∈ server.backups,
    (∀ row ∈ backup.database.revisions, row ∈ server.database.revisions) ∧
      ∀ row ∈ backup.database.revisions, Accounted address backup row.blobHash

variable (C : Consistent options address server)
include C

/-- A temporary file that a write has open is there. -/
theorem Consistent.open_file {upload : Upload} (hmem : upload ∈ server.uploads) {path : BlobPath}
    (hpath : temporary upload = some path) :
    (∃ hash unique, path = temporaryPath address hash unique) ∧
      ∃ bytes, server.tree.lookup path = some bytes := by
  obtain ⟨put, hput, hown⟩ := bind_eq_some_iff.mp hpath
  obtain ⟨_, _, hholds, _⟩ := (C.uploads upload hmem).putting put hput
  obtain ⟨hash, bytes, stage⟩ := put
  cases stage with
  | writing other written =>
    cases hown
    obtain ⟨unique, rfl, hwritten⟩ := hholds.writing
    exact ⟨⟨hash, unique, rfl⟩, _, hwritten⟩
  | _ => cases hown

omit C in
/-- An entry of the list behind a step is the one that stepped or an old one elsewhere. -/
theorem getElem?_set_cases {α : Type*} {entries : List α} {j : ℕ} {new found : α}
    (h : (entries.set id new)[j]? = some found) :
    (j = id ∧ found = new) ∨ (j ≠ id ∧ entries[j]? = some found) := by
  rw [List.getElem?_set] at h
  split_ifs at h with hid hlength
  · exact Or.inl ⟨hid.symm, (some.inj h).symm⟩
  · exact Or.inr ⟨fun heq => hid heq.symm, h⟩

theorem Consistent.upload {upload upload' : Upload} {db' : Database} {tree' : BlobTree}
    (hget : server.uploads[id]? = some upload)
    (S : UploadStepped options address server.database db' server.tree tree' upload upload') :
    Consistent options address { server with
      uploads := server.uploads.set id upload'
      database := db'
      tree := tree' } := by
  have hgrows : ∀ row ∈ server.database.revisions, row ∈ db'.revisions := by
    intro row hrow
    rcases S.revisions with hsame | ⟨new, hrows, _⟩
    · exact hsame ▸ hrow
    · rw [hrows]
      exact mem_append_left _ hrow
  have hfresh {path : BlobPath} {j : ℕ} {other : Upload} (hne : j ≠ id)
      (hother : server.uploads[j]? = some other) (hpath : temporary other = some path) :
      temporary upload ≠ some path ∧ temporary upload' ≠ some path := by
    have hold : temporary upload ≠ some path := fun hown =>
      hne (C.apart j id other upload path hother hget hpath hown)
    refine ⟨hold, ?_⟩
    intro hown
    rcases S.temporary path hown with hbefore | habsent
    · exact hold hbefore
    · obtain ⟨bytes, hlookup⟩ := (C.open_file (mem_of_getElem? hother) hpath).2
      rw [habsent] at hlookup
      cases hlookup
  refine ⟨?_, ?_, ?_, ?_, ?_⟩
  · intro row hrow
    apply S.undisturbed.settled
    rcases S.revisions with hsame | ⟨new, hrows, hsettled⟩
    · exact C.rows row (hsame ▸ hrow)
    · rw [hrows] at hrow
      rcases mem_append.mp hrow with hold | hnew
      · exact C.rows row hold
      · rw [mem_singleton.mp hnew]
        exact hsettled
  · intro other hmem
    obtain ⟨j, hj⟩ := mem_iff_getElem?.mp hmem
    rcases getElem?_set_cases hj with ⟨rfl, rfl⟩ | ⟨hne, hother⟩
    · exact S.inv
    · refine (C.uploads other (mem_of_getElem? hother)).undisturbed S.undisturbed ?_
      intro path hpath hown
      exact (hfresh hne hother hpath).1 hown.symm
  · intro i j left right path hleft hright hpathLeft hpathRight
    rcases getElem?_set_cases hleft with ⟨rfl, rfl⟩ | ⟨hi, holdLeft⟩
    · rcases getElem?_set_cases hright with ⟨rfl, rfl⟩ | ⟨hj, holdRight⟩
      · rfl
      · exact absurd hpathLeft (hfresh hj holdRight hpathRight).2
    · rcases getElem?_set_cases hright with ⟨rfl, rfl⟩ | ⟨hj, holdRight⟩
      · exact absurd hpathRight (hfresh hi holdLeft hpathLeft).2
      · exact C.apart i j left right path holdLeft holdRight hpathLeft hpathRight
  · intro stage hstage
    have hnil := (C.startup stage hstage).1
    rw [hnil] at hget
    cases hget
  · intro backup hmem
    obtain ⟨hrows, haccounted⟩ := C.backups backup hmem
    exact ⟨fun row hrow => hgrows row (hrows row hrow), haccounted⟩

/-- What does not touch the revisions, the blobs, the pushes and the backups. -/
theorem Consistent.database {db' : Database} (h : db'.revisions = server.database.revisions) :
    Consistent options address { server with database := db' } := by
  refine ⟨?_, C.uploads, C.apart, ?_, ?_⟩
  · intro row hrow
    exact C.rows row (h ▸ hrow)
  · intro stage hstage
    obtain ⟨hnil, hreferenced⟩ := C.startup stage hstage
    refine ⟨hnil, ?_⟩
    cases stage with
    | selecting => trivial
    | listing referenced => exact fun row hrow => hreferenced row (h ▸ hrow)
    | removing referenced pending => exact fun row hrow => hreferenced row (h ▸ hrow)
  · intro backup hmem
    obtain ⟨hrows, haccounted⟩ := C.backups backup hmem
    exact ⟨fun row hrow => h ▸ hrows row hrow, haccounted⟩

theorem Consistent.push (hserving : server.startup.isSome = false)
    (actor : AuthenticatedRevisionActor) (vaultId : Id) (ordered : List PushedRevision) :
    Consistent options address { server with
      uploads := server.uploads ++
        [⟨receive options server.database actor vaultId
          (ordered.map (PushedRevision.hashed address)), ordered, none⟩] } := by
  refine ⟨C.rows, ?_, ?_, ?_, C.backups⟩
  · intro upload hmem
    rcases mem_append.mp hmem with hold | hnew
    · exact C.uploads upload hold
    · rw [mem_singleton.mp hnew]
      exact uploadInv_receive _ _ _ _
  · intro i j left right path hleft hright hpathLeft hpathRight
    have hold {k : ℕ} {upload : Upload}
        (hget : (server.uploads ++ [⟨receive options server.database actor vaultId
          (ordered.map (PushedRevision.hashed address)), ordered, none⟩])[k]? = some upload)
        (hpath : temporary upload = some path) : server.uploads[k]? = some upload := by
      rw [List.getElem?_append] at hget
      split_ifs at hget with hlength
      · exact hget
      · have hnew := mem_of_getElem? hget
        rw [mem_singleton.mp hnew] at hpath
        cases hpath
    exact C.apart i j left right path (hold hleft hpathLeft) (hold hright hpathRight)
      hpathLeft hpathRight
  · intro stage hstage
    rw [Option.mem_def.mp hstage] at hserving
    cases hserving

/-- The sweep removes no blob that a revision refers to. -/
theorem Consistent.sweep {stage stage' : Startup} {tree' : BlobTree}
    (hstage : server.startup = some stage)
    (h : sweepStep address server.database server.tree stage = some (stage', tree')) :
    Consistent options address { server with startup := some stage', tree := tree' } := by
  obtain ⟨hnil, hreferenced⟩ := C.startup stage hstage
  suffices hkept : Referenced server.database stage' ∧
      ∀ row ∈ server.database.revisions, Settled address tree' row.blobHash by
    refine ⟨hkept.2, ?_, C.apart, ?_, C.backups⟩
    · intro upload hmem
      rw [hnil] at hmem
      cases hmem
    · intro other hother
      cases hother
      exact ⟨hnil, hkept.1⟩
  cases stage with
  | selecting =>
    cases h
    exact ⟨fun row hrow => mem_map_of_mem hrow, C.rows⟩
  | listing referenced =>
    cases h
    exact ⟨hreferenced, C.rows⟩
  | removing referenced pending =>
    cases pending with
    | nil => cases h
    | cons hash pending =>
      simp only [sweepStep, some.injEq, Prod.mk.injEq] at h
      obtain ⟨rfl, rfl⟩ := h
      refine ⟨hreferenced, ?_⟩
      intro row hrow
      split_ifs with hkeep
      · exact C.rows row hrow
      · refine (C.rows row hrow).kept (AList.lookup_erase_ne ?_)
        intro heq
        have hsame : row.blobHash = hash := pathForHash_injective heq
        have hmem := hreferenced row hrow
        simp only [contains_eq_mem, decide_eq_true_eq] at hkeep
        exact hkeep (hsame ▸ hmem)

theorem Consistent.backup {backup backup' : Backup} {event : BackupEvent}
    (hget : server.backups[id]? = some backup)
    (h : backupStep address directory server.tree backup event = some backup') :
    Consistent options address { server with backups := server.backups.set id backup' } := by
  refine ⟨C.rows, C.uploads, C.apart, C.startup, ?_⟩
  intro other hmem
  rcases mem_or_eq_of_mem_set hmem with hold | hnew
  · exact C.backups other hold
  · obtain ⟨hrows, haccounted⟩ := C.backups backup (mem_of_getElem? hget)
    rw [hnew, database_backupStep h]
    refine ⟨hrows, ?_⟩
    intro row hrow
    exact (haccounted row hrow).step (C.rows row (hrows row hrow)) h

theorem Consistent.step {event : BackupServer.Event}
    (htaken : BackupServer.step options wired address directory server event = some server') :
    Consistent options address server' := by
  cases event with
  | push actor vaultId ordered =>
    simp only [BackupServer.step] at htaken
    split_ifs at htaken with hstarting
    cases htaken
    exact C.push (by simpa using hstarting) actor vaultId ordered
  | upload id event =>
    obtain ⟨upload, hget, htaken⟩ := bind_eq_some_iff.mp htaken
    obtain ⟨⟨upload', db', tree'⟩, hstep, rfl⟩ := map_eq_some_iff.mp htaken
    exact C.upload hget (uploadStep_spec (C.uploads upload (mem_of_getElem? hget)) hstep)
  | prune cutoff =>
    cases htaken
    exact C.database rfl
  | administer users devices memberships =>
    cases htaken
    exact C.database rfl
  | restart =>
    cases htaken
    refine ⟨C.rows, fun _ hmem => ?_, fun i j left right path hleft => ?_, ?_, C.backups⟩
    · cases hmem
    · cases hleft
    · intro stage hstage
      cases hstage
      exact ⟨rfl, trivial⟩
  | sweep =>
    obtain ⟨⟨stage', tree'⟩, hsweep, rfl⟩ := map_eq_some_iff.mp htaken
    obtain ⟨stage, hstage, hsweep⟩ := bind_eq_some_iff.mp hsweep
    exact C.sweep hstage hsweep
  | listen =>
    simp only [BackupServer.step] at htaken
    split at htaken
    · cases htaken
      exact ⟨C.rows, C.uploads, C.apart, fun _ hstage => (by cases hstage), C.backups⟩
    · cases htaken
  | snapshot previous =>
    cases htaken
    refine ⟨C.rows, C.uploads, C.apart, C.startup, ?_⟩
    intro backup hmem
    rcases mem_append.mp hmem with hold | hnew
    · exact C.backups backup hold
    · rw [mem_singleton.mp hnew]
      exact ⟨fun _ hrow => hrow, fun _ _ => trivial⟩
  | backup id event =>
    obtain ⟨backup, hget, htaken⟩ := bind_eq_some_iff.mp htaken
    obtain ⟨backup', hstep, rfl⟩ := map_eq_some_iff.mp htaken
    exact C.backup hget hstep

omit C in
/-- A server whose revisions have their blobs, as a new one and a restored one do. -/
theorem consistent_starting {database : Database} {tree : BlobTree}
    (hstored : ∀ row ∈ database.revisions, Settled address tree row.blobHash) :
    Consistent options address (starting database tree) := by
  refine ⟨hstored, fun _ hmem => ?_, fun i j left right path hleft => ?_, ?_, fun _ hmem => ?_⟩
  · cases hmem
  · cases hleft
  · intro stage hstage
    cases hstage
    exact ⟨rfl, trivial⟩
  · cases hmem

omit C in
/-- However pushes, backups, restarts and sweeps interleave, every revision of a finished
backup's database has its blob in the backup, with bytes of its digest, and in the
backup's manifest. -/
theorem backup_holds_blobs {database : Database} {tree : BlobTree}
    (hstored : ∀ row ∈ database.revisions, Settled address tree row.blobHash)
    (h : Reached (BackupServer.step options wired address directory) Interleaved
      (starting database tree) server) :
    ∀ backup ∈ server.backups, backup.phase = .finished →
      ∀ row ∈ backup.database.revisions, ∃ bytes,
        backup.blobs.lookup (pathForHash address row.blobHash) = some bytes ∧
          address.hashBlob bytes = row.blobHash ∧
          ⟨row.blobHash, bytes.length⟩ ∈ backup.manifest := by
  have hconsistent : Consistent options address server :=
    h.invariant (consistent_starting hstored) fun _ _ _ hbefore _ htaken => hbefore.step htaken
  intro backup hmem hfinished row hrow
  have haccounted := (hconsistent.backups backup hmem).2 row hrow
  rw [Accounted, hfinished] at haccounted
  exact haccounted

omit C in
/-- Whatever is pushed, swept and restarted, the blob of each stored revision is there. -/
theorem blobs_kept {database : Database} {tree : BlobTree}
    (hstored : ∀ row ∈ database.revisions, Settled address tree row.blobHash)
    (h : Reached (BackupServer.step options wired address directory) Interleaved
      (starting database tree) server) :
    ∀ row ∈ server.database.revisions, Settled address server.tree row.blobHash := by
  have hconsistent : Consistent options address server :=
    h.invariant (consistent_starting hstored) fun _ _ _ hbefore _ htaken => hbefore.step htaken
  exact hconsistent.rows

end

def hexUnit (digit : ℕ) : CodeUnit := (if digit < 10 then 48 + digit else 87 + digit).toUInt16

def hexDigit (unit : CodeUnit) : ℕ := if unit < 97 then unit.toNat - 48 else unit.toNat - 87

/-- The hexadecimal digits of a number, at least 64 of them. -/
def hexText (hash : ℕ) : JsString :=
  let digits := (Nat.digits 16 hash).map hexUnit
  List.replicate (64 - digits.length) 48 ++ digits.reverse

def hexValue (name : JsString) : ℕ := Nat.ofDigits 16 (name.reverse.map hexDigit)

theorem hexDigit_hexUnit {digit : ℕ} (h : digit < 16) :
    hexDigit (hexUnit digit) = digit ∧ hexUnit digit ≠ dot := by
  interval_cases digit <;> decide

theorem hexValue_hexText (hash : ℕ) : hexValue (hexText hash) = hash := by
  have hdigits : ((Nat.digits 16 hash).map hexUnit).map hexDigit = Nat.digits 16 hash := by
    rw [List.map_map]
    conv_rhs => rw [← map_id (Nat.digits 16 hash)]
    apply map_congr_left
    intro digit hmem
    exact (hexDigit_hexUnit (Nat.digits_lt_base (by norm_num) hmem)).1
  have hpad : hexDigit 48 = 0 := rfl
  simp only [hexValue, hexText, reverse_append, reverse_reverse, reverse_replicate,
    map_append, map_replicate, hdigits, hpad]
  rw [Nat.ofDigits_append_replicate_zero, Nat.ofDigits_digits]

theorem dot_notMem_hexText (hash : ℕ) : dot ∉ hexText hash := by
  intro hmem
  rcases mem_append.mp hmem with hpad | hdigit
  · cases eq_of_mem_replicate hpad
  · obtain ⟨digit, hdigit, heq⟩ := mem_map.mp (mem_reverse.mp hdigit)
    exact (hexDigit_hexUnit (Nat.digits_lt_base (by norm_num) hdigit)).2 heq

def exampleAddress : BlobAddress where
  hashBlob := fun bytes =>
    if bytes = [1, 2, 3] then
      0x039058c6f2c0cb492c533b0a4d14ef77cc0f78abccced5287d84a1a2011cfb81
    else 0
  text := hexText
  parse := fun name => if hexText (hexValue name) = name then some (hexValue name) else none
  parse_eq_some := by
    intro name hash
    constructor
    · intro h
      split_ifs at h with htext
      cases h
      exact htext
    · rintro rfl
      rw [hexValue_hexText, if_pos rfl]
  text_plain := dot_notMem_hexText

def examplePush : PushedRevision := ⟨⟨⟨1, 0⟩, 1, 9, 64, [], 7, 6⟩, [64], [1, 2, 3]⟩

/-- A push commits before the snapshot, and its blob is listed and copied. -/
def backupRun : List BackupServer.Event :=
  let path := pathForHash exampleAddress (exampleAddress.hashBlob [1, 2, 3])
  [.sweep, .sweep, .listen, .push ⟨6, 7⟩ 1 [examplePush],
    .upload 0 (.request .check), .upload 0 .beginPut, .upload 0 (.put .probe),
    .upload 0 (.put (.create [49])), .upload 0 (.put (.write 2)), .upload 0 (.put (.write 3)),
    .upload 0 (.put .rename), .upload 0 .publish, .upload 0 (.request .prepare),
    .upload 0 (.request (.commit (some 5))), .snapshot none, .backup 0 .readRoot,
    .backup 0 (.rootRead [path.shard]), .backup 0 .readShard, .backup 0 (.shardRead [path.name]),
    .backup 0 .openFiles, .backup 0 .readFile, .backup 0 (.copy true), .backup 0 .finish]

theorem backup_holds_blobs_example : ∃ server backup,
    run (BackupServer.step exampleOptions true exampleAddress [98])
      (starting exampleDatabase ∅) backupRun = some server ∧
    backup ∈ server.backups ∧ backup.phase = .finished ∧ backup.database.revisions.length = 1 ∧
      ∀ row ∈ backup.database.revisions, ∃ bytes,
        backup.blobs.lookup (pathForHash exampleAddress row.blobHash) = some bytes ∧
          exampleAddress.hashBlob bytes = row.blobHash ∧
          ⟨row.blobHash, bytes.length⟩ ∈ backup.manifest := by
  have hends : ((run (BackupServer.step exampleOptions true exampleAddress [98])
      (starting exampleDatabase ∅) backupRun).bind fun server =>
        server.backups.head?.map fun backup =>
          (backup.phase, backup.database.revisions.length)) = some (.finished, 1) := by
    decide +kernel
  obtain ⟨server, hrun, hbackup⟩ := bind_eq_some_iff.mp hends
  obtain ⟨backup, hhead, hphase⟩ := map_eq_some_iff.mp hbackup
  obtain ⟨hfinished, hlength⟩ := Prod.mk.inj hphase
  have hmem : backup ∈ server.backups := mem_of_mem_head? hhead
  have hallowed : Allowed (BackupServer.step exampleOptions true exampleAddress [98]) Interleaved
      (starting exampleDatabase ∅) backupRun := allowed_of_forall (fun _ _ => trivial) _ _
  have hreached := Reached.start.run hallowed hrun
  have hstored : ∀ row ∈ exampleDatabase.revisions,
      Settled exampleAddress (∅ : BlobTree) row.blobHash := by
    intro row hrow
    cases hrow
  exact ⟨server, backup, hrun, hmem, hfinished, hlength,
    backup_holds_blobs hstored hreached backup hmem hfinished⟩

theorem blobs_kept_example : ∃ server, run (BackupServer.step exampleOptions true exampleAddress [98])
      (starting exampleDatabase ∅) backupRun = some server ∧
    ∀ row ∈ server.database.revisions, Settled exampleAddress server.tree row.blobHash := by
  have hruns : (run (BackupServer.step exampleOptions true exampleAddress [98])
      (starting exampleDatabase ∅) backupRun).isSome = true := by decide +kernel
  obtain ⟨server, hrun⟩ := isSome_iff_exists.mp hruns
  exact ⟨server, hrun, blobs_kept (by simp [exampleDatabase])
    (Reached.start.run (allowed_of_forall (fun _ _ => trivial) _ _) hrun)⟩

end Havemind.BackupConsistency
