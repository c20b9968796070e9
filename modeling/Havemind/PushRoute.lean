import Havemind.RevisionRepository

/-!
One revision of a push request. The route checks that the revision would
commit, stores its payload and commits it; each of the three runs against the
database as it is by then.
-/
namespace Havemind.PushRoute

open JsText RevisionSchema Transaction ServerDatabase RevisionRepository

/-- A parsed revision and the content address and length of its payload. -/
structure HashedRevisionInput where
  header : ProtectedRevisionHeader
  idempotencyKey : JsString
  blobHash : BlobHash
  byteLength : ℕ
  deriving DecidableEq

def HashedRevisionInput.commitInput (revision : HashedRevisionInput)
    (actor : AuthenticatedRevisionActor) : CommitRevisionInput :=
  { actor
    blobHash := revision.blobHash
    header := revision.header
    idempotencyKey := revision.idempotencyKey
    blobSize := some revision.byteLength }

/-- The databases of the feasibility check and of the commit's preparation,
what storing the payload answers, and the commit's clock. -/
structure PushContext where
  checked : Database
  seen : Database
  stored : Except RepositoryError Unit
  blobStore : BlobHash → BlobRead
  now : Option Timestamp

def pushRevision (options : RevisionRepositoryOptions) (context : PushContext)
    (actor : AuthenticatedRevisionActor) (revision : HashedRevisionInput) :
    Tx CommitRevisionResult := do
  check (assertCommittable options context.checked (revision.commitInput actor)
    revision.byteLength)
  check context.stored
  commitRevisionSeen options context.seen context.blobStore context.now
    (revision.commitInput actor)

end Havemind.PushRoute
