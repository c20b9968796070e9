import Havemind.Endings
import Havemind.Runs
import Havemind.SessionRepository

/-!
The client of `/auth/refresh`: one provider with its stored refresh token and its
stored record of the rotation in flight, the request it sent last, and the answer
on its way back. Every await of a rotation is a phase. The awaited operation is
done or rejected, and the process may die in any phase. The route answers 401
whenever the rotation throws, be it the rotation's own error or the storage's.
-/
namespace Havemind.AccessToken

open RevisionSchema Endings AuthTables SessionRepository

def expirySkewMs : ℕ := 30000

/-- The rotation in flight, bound to the refresh token it was minted for. -/
structure PendingRotation where
  refreshToken : Token
  rotationId : Token
  successorRefreshToken : Token
  deriving DecidableEq

/-- The draws of the random generators, in order. -/
structure Generators where
  rotationId : ℕ → Token
  successorToken : ℕ → Token
  accessToken : ℕ → Token

inductive Answer
  | ok (access : IssuedAccess)
  | unauthenticated
  deriving DecidableEq

/-- What a rotation is waiting for. -/
inductive Phase
  | idle
  | readingToken
  | loadingPending (refreshToken : Token)
  | savingPending (record : PendingRotation)
  | sending (record : PendingRotation)
  | requesting (record : PendingRotation)
  | savingToken (record : PendingRotation) (access : IssuedAccess)
  | clearingPending (granted : Option IssuedAccess)
  deriving DecidableEq

/-- The stored secrets outlive the process; `request` is the last one sent, as
long as the server has not processed it. -/
structure World where
  db : AuthDatabase
  now : Timestamp
  refreshToken : Option Token
  pendingRotation : Option PendingRotation
  phase : Phase
  cached : Option IssuedAccess
  request : Option PendingRotation
  answer : Option Answer
  minted : ℕ
  served : ℕ

def World.paired (db : AuthDatabase) (now : Timestamp) (refreshToken : Token) : World where
  db := db
  now := now
  refreshToken := some refreshToken
  pendingRotation := none
  phase := .idle
  cached := none
  request := none
  answer := none
  minted := 0
  served := 0

section
variable (generators : Generators)

/-- The call returns the cached token, joins the rotation in flight or starts one. -/
def getAccessToken (clock : Timestamp) (w : World) : World :=
  if (w.cached.any fun access => clock + expirySkewMs < access.accessExpiresAt) then w
  else if w.phase = .idle then { w with phase := .readingToken }
  else w

/-- The stored record when it was minted for this token, else a new one to save. -/
def resolvePendingRotation (refreshToken : Token) (w : World) : World :=
  match w.pendingRotation.filter fun record => record.refreshToken = refreshToken with
  | some record => { w with phase := .sending record }
  | none =>
    { w with
      phase := .savingPending
        { refreshToken
          rotationId := generators.rotationId w.minted
          successorRefreshToken := generators.successorToken w.minted }
      minted := w.minted + 1 }

/-- A refused credential clears the record; a granted one is stored first. -/
def receive (record : PendingRotation) (w : World) : Answer → World
  | .ok access => { w with phase := .savingToken record access, answer := none }
  | .unauthenticated => { w with phase := .clearingPending none, answer := none }

/-- The end of a rotation, its record cleared or not. -/
def settle (granted : Option IssuedAccess) (w : World) : World :=
  { w with phase := .idle, cached := granted <|> w.cached }

/-- The awaited operation is done. -/
def proceed (w : World) : Option World :=
  match w.phase with
  | .idle => none
  | .readingToken =>
    match w.refreshToken with
    | none => some { w with phase := .idle }
    | some refreshToken => some { w with phase := .loadingPending refreshToken }
  | .loadingPending refreshToken => some (resolvePendingRotation generators refreshToken w)
  | .savingPending record =>
    some { w with pendingRotation := some record, phase := .sending record }
  | .sending record =>
    some { w with request := some record, answer := none, phase := .requesting record }
  | .requesting record => w.answer.map (receive record w)
  | .savingToken record access =>
    some
      { w with
        refreshToken := some record.successorRefreshToken
        phase := .clearingPending (some access) }
  | .clearingPending granted => some (settle granted { w with pendingRotation := none })

/-- The awaited operation is rejected; a rejected write may have been made. No
answer, an answer that cannot be read and any status but 401 reject a request. -/
def reject (written : Bool) (w : World) : Option World :=
  match w.phase with
  | .idle => none
  | .readingToken | .loadingPending _ | .sending _ => some { w with phase := .idle }
  | .savingPending record =>
    some
      { w with
        pendingRotation := if written then some record else w.pendingRotation
        phase := .idle }
  | .requesting _ => some { w with answer := none, phase := .idle }
  | .savingToken record _ =>
    some
      { w with
        refreshToken := if written then some record.successorRefreshToken else w.refreshToken
        phase := .idle }
  | .clearingPending granted =>
    some
      (settle granted
        { w with pendingRotation := if written then none else w.pendingRotation })

/-- A new process: nothing is left but the stored secrets. -/
def restart (w : World) : World := { w with phase := .idle, cached := none, answer := none }

end

variable (server : AuthServer) (generators : Generators)

def PendingRotation.input (record : PendingRotation) : RotateRefreshInput where
  currentRefreshToken := some record.refreshToken
  rotationId := some record.rotationId
  successorRefreshToken := some record.successorRefreshToken

def respond : EStateM.Result AuthError AuthDatabase RotateRefreshResult → Answer
  | .ok result _ =>
    .ok { accessExpiresAt := result.accessExpiresAt, accessToken := result.accessToken }
  | .error _ _ => .unauthenticated

def rotation (record : PendingRotation) (w : World) : Auth RotateRefreshResult :=
  rotateRefresh server record.input (some w.now) (generators.accessToken w.served)

/-- The server processes a request. -/
def refresh (record : PendingRotation) (w : World) : World :=
  { w with
    db := storeAfter (rotation server generators record w) w.db
    request := none
    answer :=
      if w.phase = .requesting record then some (respond (rotation server generators record w w.db))
      else none
    served := w.served + 1 }

/-- The storage throws while the server processes a request: the transaction is
undone, and the route answers as to every other error. -/
def refreshThrows (record : PendingRotation) (w : World) : World :=
  { w with
    request := none
    answer := if w.phase = .requesting record then some .unauthenticated else none
    served := w.served + 1 }

inductive Action
  | getAccessToken (clock : Timestamp)
  | proceed
  | reject (written : Bool)
  | crash
  | serve
  | serveThrows
  | tick (now : Timestamp)
  deriving DecidableEq

def step (w : World) : Action → Option World
  | .getAccessToken clock => some (getAccessToken clock w)
  | .proceed => proceed generators w
  | .reject written => reject written w
  | .crash => some (restart w)
  | .serve => w.request.map fun record => refresh server generators record w
  | .serveThrows => w.request.map fun record => refreshThrows record w
  | .tick now => if w.now ≤ now then some { w with now } else none

end Havemind.AccessToken
