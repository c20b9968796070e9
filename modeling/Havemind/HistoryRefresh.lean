import Havemind.RevisionHistory
import Havemind.Runs
import Mathlib.Logic.Function.Basic

/-!
The accepted log a device keeps, from one connection to the next. A refresh
seeds the log from the store, once, confirms the seed by the overlap of the
first page, and reads page after page to the cursor of the first; then the log
is saved. The server commits more at any moment, and it may be replaced by one
restored from a backup, under a new epoch and with a log of its own. No
connection names an epoch in its pulls, so every page is answered.
-/
namespace Havemind.HistoryRefresh

open JsText SyncRunner

def sameEvent (left right : RemoteEvent) : Bool :=
  left.revision.revisionId = right.revision.revisionId ∧
    left.revision.fileId = right.revision.fileId ∧
    left.revision.contentHash = right.revision.contentHash ∧
    left.revision.parentRevisionIds.getD [] = right.revision.parentRevisionIds.getD []

structure StoredRevisionHistory where
  epoch : Option JsString
  cursor : ℕ
  events : List RemoteEvent
  deriving DecidableEq

/-- The stored log, unless it is no gap-free prefix of a log. -/
def parseStoredHistory (value : StoredRevisionHistory) : Option StoredRevisionHistory :=
  if value.events.length ≠ value.cursor then none
  else if value.events.zipIdx.all fun entry => entry.1.serverSequence = entry.2 + 1 then some value
  else none

def maxHistorySegments : ℕ := 64

/-- What the client database holds: the meta record and the segments it covers. -/
structure HistoryRecords where
  history : StoredRevisionHistory
  segments : ℕ
  deriving DecidableEq

/-- A save appends the tail to the records it continues, and rewrites all others. -/
def saveHistory (records : Option HistoryRecords) (history : StoredRevisionHistory)
    (persistedCursor : ℕ) : HistoryRecords :=
  match records with
  | none => ⟨history, 1⟩
  | some found =>
      if 0 < persistedCursor ∧ found.history.cursor = persistedCursor ∧
          found.history.epoch = history.epoch ∧ found.segments < maxHistorySegments then
        ⟨{ history with
            events := found.history.events ++ history.events.drop persistedCursor },
          found.segments + 1⟩
      else ⟨history, 1⟩

/-- The records as a load returns them: torn ones read as absent. -/
def loadHistory (records : Option HistoryRecords) : Option StoredRevisionHistory :=
  records.bind fun found =>
    if found.history.events.length = found.history.cursor then some found.history else none

/-- What the device holds of the log during one connection. -/
structure CachedHistory where
  ordered : List RemoteEvent := []
  cursor : ℕ := 0
  epoch : Option JsString := none
  loaded : Bool := false
  restoreAttempted : Bool := false
  unconfirmed : Bool := false
  persistedCursor : ℕ := 0
  deriving DecidableEq

namespace CachedHistory
variable (cached : CachedHistory)

def append (event : RemoteEvent) : CachedHistory :=
  { cached with
    ordered := cached.ordered ++ [event]
    cursor := event.serverSequence }

def reset : CachedHistory :=
  { cached with
    ordered := []
    cursor := 0
    epoch := none
    unconfirmed := false
    persistedCursor := 0 }

def restore (stored : Option StoredRevisionHistory) : CachedHistory :=
  match stored.bind parseStoredHistory with
  | none => cached
  | some found =>
      if found.cursor = 0 then cached
      else
        { found.events.foldl append cached with
          epoch := found.epoch
          persistedCursor := found.cursor
          unconfirmed := true }

/-- The last event of a log that is still to be confirmed. -/
def anchor : Option RemoteEvent :=
  if cached.unconfirmed then cached.ordered[cached.cursor - 1]? else none

def pullAfter : ℕ :=
  match cached.anchor with
  | none => cached.cursor
  | some _ => cached.cursor - 1

/-- Appends the events behind the cursor; whether there was a gap. -/
def appendEvents : CachedHistory → List RemoteEvent → CachedHistory × Bool
  | cached, [] => (cached, false)
  | cached, event :: rest =>
      if event.serverSequence ≤ cached.cursor then appendEvents cached rest
      else if event.serverSequence ≠ cached.cursor + 1 then (cached, true)
      else appendEvents (cached.append event) rest

end CachedHistory

/-- What reading a page comes to: an error, another page, or the end. -/
inductive PageOutcome
  | threw (cached : CachedHistory)
  | more (cached : CachedHistory) (target : ℕ)
  | done (cached : CachedHistory)

def confirms (cached : CachedHistory) (anchor : RemoteEvent) (page : PullResult) : Bool :=
  cached.cursor ≤ page.cursor && page.epoch = cached.epoch &&
    page.events.head?.any fun first =>
      first.serverSequence = anchor.serverSequence && sameEvent first anchor

def takePage (cached : CachedHistory) (target : Option ℕ) (page : PullResult) : PageOutcome :=
  let target := target.getD page.cursor
  match CachedHistory.appendEvents { cached with epoch := page.epoch } page.events with
  | (read, true) => .threw read
  | (read, false) =>
      if page.events = [] ∧ read.cursor < target then .threw read
      else if read.cursor < target then .more read target
      else .done read

/-- One turn of the loop of `pullAll`. -/
def readPage (cached : CachedHistory) (target : Option ℕ) (page : PullResult) : PageOutcome :=
  match cached.anchor with
  | none => takePage cached target page
  | some anchor =>
      if confirms cached anchor page then
        takePage { cached with unconfirmed := false } target page
      else .threw cached

/-- The server: its epoch, and the log of each epoch as far as it got. -/
structure Server where
  current : JsString
  earlier : List JsString
  log : JsString → List RemoteEvent

namespace Server
variable (server : Server)

def known : List JsString := server.current :: server.earlier

def commit (revision : RemoteRevision) : Server :=
  { server with
    log := Function.update server.log server.current
      (server.log server.current ++ [⟨(server.log server.current).length + 1, revision⟩]) }

def replace (epoch : JsString) (log : List RemoteEvent) : Server where
  current := epoch
  earlier := server.known
  log := Function.update server.log epoch log

/-- A page of the log; a cursor beyond it is refused. -/
def page (after limit : ℕ) : Option PullResult :=
  if (server.log server.current).length < after then none
  else some
    { cursor := (server.log server.current).length
      epoch := some server.current
      events := ((server.log server.current).drop after).take limit }

end Server

/-- A log from the first sequence on, without a gap. -/
def sequenced (log : List RemoteEvent) : Bool :=
  log.zipIdx.all fun entry => entry.1.serverSequence = entry.2 + 1

/-- How a pull came about: of a confirmed log, to confirm a stored one, or in
full after a stored one was set aside. -/
inductive Mode
  | plain
  | confirming
  | full
  deriving DecidableEq

inductive Phase
  | idle
  | restoring
  | pulling (mode : Mode) (target : Option ℕ)
  | saving
  deriving DecidableEq

structure World where
  server : Server
  cached : CachedHistory := {}
  phase : Phase := .idle
  records : Option HistoryRecords := none

/-- What a failed save leaves in the store. -/
inductive SaveOutcome
  | saved
  | failedBefore
  | failedTorn
  | failedAfter
  deriving DecidableEq

inductive Action
  | commit (revision : RemoteRevision)
  | replace (epoch : JsString) (log : List RemoteEvent)
  | connect
  | refresh
  | restored (readable : Bool)
  | page (limit : ℕ)
  | pageFails
  | saved (outcome : SaveOutcome)

variable (hasStore : Bool) (world : World)

def startPulling (cached : CachedHistory) : World :=
  { world with
    cached := cached
    phase := .pulling (if cached.unconfirmed then .confirming else .plain) none }

/-- An error of a pull. A stored log is set aside and the full log read; when
that fails too, the store is tried again on the next refresh. -/
def pullThrew (mode : Mode) (cached : CachedHistory) : World :=
  match mode with
  | .plain => { world with cached := cached, phase := .idle }
  | .confirming => { world with cached := cached.reset, phase := .pulling .full none }
  | .full =>
      { world with
        cached := { cached.reset with restoreAttempted := false }
        phase := .idle }

/-- A pull that came to its end: the log is saved unless the store has it. -/
def pulled (cached : CachedHistory) : World :=
  if hasStore = false ∨ cached.persistedCursor = cached.cursor then
    { world with cached := { cached with loaded := true }, phase := .idle }
  else { world with cached := cached, phase := .saving }

def pageRead (mode : Mode) : PageOutcome → World
  | .threw cached => pullThrew world mode cached
  | .more cached target =>
      { world with cached := cached, phase := .pulling mode (some target) }
  | .done cached => pulled hasStore world cached

def CachedHistory.toStore (cached : CachedHistory) : StoredRevisionHistory where
  epoch := cached.epoch
  cursor := cached.cursor
  events := cached.ordered

def saveEnds (outcome : SaveOutcome) : World :=
  let written := saveHistory world.records world.cached.toStore world.cached.persistedCursor
  { world with
    cached :=
      { world.cached with
        loaded := true
        persistedCursor := if outcome = .saved then world.cached.cursor else 0 }
    phase := .idle
    records :=
      match outcome with
      | .saved | .failedAfter => some written
      | .failedBefore => world.records
      | .failedTorn => none }

def step : Action → Option World
  | .commit revision => some { world with server := world.server.commit revision }
  | .replace epoch log =>
      if world.server.known.contains epoch = false ∧ sequenced log then
        some { world with server := world.server.replace epoch log }
      else none
  | .connect => some { world with cached := {}, phase := .idle }
  | .refresh =>
      if world.phase ≠ .idle then none
      else if hasStore ∧ world.cached.restoreAttempted = false then
        some
          { world with
            cached := { world.cached with restoreAttempted := true }
            phase := .restoring }
      else some (startPulling world { world.cached with restoreAttempted := true })
  | .restored readable =>
      if world.phase ≠ .restoring then none
      else some (startPulling world (world.cached.restore
        (if readable then loadHistory world.records else none)))
  | .page limit =>
      match world.phase with
      | .pulling mode target =>
          if limit = 0 then none
          else match world.server.page world.cached.pullAfter limit with
            | none => some (pullThrew world mode world.cached)
            | some page => some (pageRead hasStore world mode (readPage world.cached target page))
      | _ => none
  | .pageFails =>
      match world.phase with
      | .pulling mode _ => some (pullThrew world mode world.cached)
      | _ => none
  | .saved outcome => if world.phase ≠ .saving then none else some (saveEnds world outcome)

end Havemind.HistoryRefresh
