import Havemind.AwaitCode
import Havemind.HistoryEpochs

/-!
The log in the client database: a meta record for each vault, the commit point, and the segments
it counts. A save appends a segment and rewrites the meta record, or takes the meta record away
and rewrites the log as one segment. Any record call may fail and the process may end at any
await; connections follow one another, each with a history of its own.
-/
namespace Havemind.HistoryStore

open AwaitCode JsText RevisionSchema SyncRunner HistoryRefresh HistoryEpochs Runs List Option
  Function

def format : ℕ := 2

structure Scope where
  apiBaseUrl : JsString
  vaultId : Id
  deriving DecidableEq

inductive HistoryKey
  | metaKey (vaultId : Id)
  | segmentKey (vaultId : Id) (index : ℕ)
  deriving DecidableEq

structure Meta where
  format : ℕ
  apiBaseUrl : JsString
  vaultId : Id
  epoch : Option JsString
  cursor : ℕ
  segments : ℕ
  deriving DecidableEq

structure Segment where
  format : ℕ
  fromCursor : ℕ
  events : List RemoteEvent
  deriving DecidableEq

inductive HistoryRecord
  | header (value : Meta)
  | segment (value : Segment)
  | other
  deriving DecidableEq

abbrev Records := HistoryKey → Option HistoryRecord

/-- The client database as one connection finds it: opened once, or unavailable throughout. -/
structure Database where
  available : Bool
  records : Records

inductive HistoryCall
  | openRecords
  | getHistoryRecord (key : HistoryKey)
  | putHistoryRecord (key : HistoryKey) (value : HistoryRecord)
  | deleteHistoryRecord (key : HistoryKey)

def HistoryCall.Answer : HistoryCall → Type
  | .openRecords => Bool
  | .getHistoryRecord _ => Option HistoryRecord
  | .putHistoryRecord _ _ | .deleteHistoryRecord _ => Unit

def historyStore : Signature := ⟨Unit, HistoryCall, HistoryCall.Answer, Unit⟩

abbrev HistoryCode := Code historyStore

def respond : (call : HistoryCall) → Database → call.Answer × Database
  | .openRecords, database => (database.available, database)
  | .getHistoryRecord key, database => (database.records key, database)
  | .putHistoryRecord key value, database =>
    ((), { database with records := update database.records key (some value) })
  | .deleteHistoryRecord key, database =>
    ((), { database with records := update database.records key none })

section
variable (scope : Scope)

/-- What `readMeta` accepts. -/
def metaOf : Option HistoryRecord → Option Meta
  | some (.header found) =>
    if found.format = format ∧ found.apiBaseUrl = scope.apiBaseUrl ∧ found.vaultId = scope.vaultId
    then some found else none
  | _ => none

def readMeta : HistoryCode (Option Meta) := do
  let value ← Code.call (S := historyStore) (.getHistoryRecord (.metaKey scope.vaultId))
  return metaOf scope value

def metaRecord (epoch : Option JsString) (cursor segments : ℕ) : Meta :=
  ⟨format, scope.apiBaseUrl, scope.vaultId, epoch, cursor, segments⟩

def writeMeta (epoch : Option JsString) (cursor segments : ℕ) : HistoryCode Unit :=
  Code.call (S := historyStore) (.putHistoryRecord (.metaKey scope.vaultId)
    (.header (metaRecord scope epoch cursor segments)))

def putSegment (index : ℕ) (fromCursor : ℕ) (events : List RemoteEvent) : HistoryCode Unit :=
  Code.call (S := historyStore) (.putHistoryRecord (.segmentKey scope.vaultId index)
    (.segment ⟨format, fromCursor, events⟩))

def readSegments : List ℕ → HistoryCode (List (Option HistoryRecord))
  | [] => pure []
  | index :: rest => do
    let value ← Code.call (S := historyStore) (.getHistoryRecord (.segmentKey scope.vaultId index))
    let values ← readSegments rest
    return value :: values

/-- The events of the segments, each of which goes on where those before it ended. -/
def joinSegments : List RemoteEvent → List (Option HistoryRecord) → Option (List RemoteEvent)
  | events, [] => some events
  | events, some (.segment found) :: rest =>
    if found.format = format ∧ found.fromCursor = events.length then
      joinSegments (events ++ found.events) rest
    else none
  | _, _ => none

/-- The log that the meta record and its segments come to. -/
def assemble (found : Meta) (segments : List (Option HistoryRecord)) :
    Option StoredRevisionHistory :=
  (joinSegments [] segments).bind fun events =>
    if events.length = found.cursor then some ⟨found.epoch, found.cursor, events⟩ else none

def load : HistoryCode (Option StoredRevisionHistory) := do
  let available : Bool ← Code.call (S := historyStore) .openRecords
  if available = false then return none
  match ← readMeta scope with
  | none => return none
  | some found =>
    if maxHistorySegments < found.segments then return none
    let segments ← readSegments scope (List.range found.segments)
    return assemble found segments

/-- The meta record a save appends to. -/
def continued (found : Option Meta) (history : StoredRevisionHistory) (persistedCursor : ℕ) :
    Option Meta :=
  found.bind fun found =>
    if 0 < persistedCursor ∧ found.cursor = persistedCursor ∧ found.epoch = history.epoch ∧
      found.segments < maxHistorySegments then some found else none

def removeSegments : List ℕ → HistoryCode Unit
  | [] => pure ()
  | index :: rest => do
    let _ ← Code.attempt (S := historyStore)
      (.deleteHistoryRecord (.segmentKey scope.vaultId index))
    removeSegments rest

def rewrite (found : Option Meta) (history : StoredRevisionHistory) : HistoryCode Unit := do
  Code.call (S := historyStore) (.deleteHistoryRecord (.metaKey scope.vaultId))
  putSegment scope 0 0 history.events
  writeMeta scope history.epoch history.cursor 1
  removeSegments scope (List.range' 1 ((found.map Meta.segments).getD 0 - 1))

def save (history : StoredRevisionHistory) (persistedCursor : ℕ) : HistoryCode Unit := do
  let available : Bool ← Code.call (S := historyStore) .openRecords
  if available = false then return ()
  let found ← readMeta scope
  match continued found history persistedCursor with
  | some found =>
    putSegment scope found.segments persistedCursor (history.events.drop persistedCursor)
    writeMeta scope history.epoch history.cursor (found.segments + 1)
  | none => rewrite scope found history

/-- What a load of undisturbed records returns. -/
def stored (records : Records) : Option StoredRevisionHistory :=
  (metaOf scope (records (.metaKey scope.vaultId))).bind fun found =>
    if maxHistorySegments < found.segments then none
    else assemble found
      ((List.range found.segments).map fun i => records (.segmentKey scope.vaultId i))

end

section
variable {scope : Scope} {database : Database}

/-- Code that only reads the records, by what it returns. -/
def Reads {α : Type} (database : Database) (V : α → Prop) (code : HistoryCode α) : Prop :=
  Keeps respond (fun after => after = database) (fun _ after => after = database) V code

theorem reads_openRecords : Reads database (fun available : Bool => available = database.available)
    (Code.call (S := historyStore) .openRecords) := by
  refine Keeps.call (fun _ _ h => h) ?_
  rintro m _ rfl
  exact ⟨rfl, rfl⟩

theorem reads_record (key : HistoryKey) : Reads database (fun value => value = database.records key)
    (Code.call (S := historyStore) (.getHistoryRecord key)) := by
  refine Keeps.call (fun _ _ h => h) ?_
  rintro m _ rfl
  exact ⟨rfl, rfl⟩

theorem reads_readMeta : Reads database
    (fun found => found = metaOf scope (database.records (.metaKey scope.vaultId)))
    (readMeta scope) := by
  refine Keeps.bind (reads_record _) ?_
  rintro value rfl
  exact Keeps.pure rfl

theorem reads_readSegments (indices : List ℕ) : Reads database
    (fun values => values = indices.map fun i => database.records (.segmentKey scope.vaultId i))
    (readSegments scope indices) := by
  induction indices with
  | nil => exact Keeps.pure rfl
  | cons index rest ih =>
    refine Keeps.bind (reads_record _) ?_
    rintro value rfl
    refine Keeps.bind ih ?_
    rintro values rfl
    exact Keeps.pure rfl

theorem Reads.visits {α β : Type} {V : α → Prop} {code : HistoryCode α} {f : α → HistoryCode β}
    {P : Database → Prop} {Q : Except Unit β → Unit → Database → Prop} {m : Unit}
    (h : Reads database V code) (hstop : P database)
    (herror : ∀ error, Q (.error error) m database)
    (hthen : ∀ value, V value → Visits respond P Q (f value) m database) :
    Visits respond P Q (code >>= f) m database := by
  refine visits_bind.mpr ((h m database rfl).mono ?_ ?_)
  · rintro _ rfl
    exact hstop
  · rintro result m' _ ⟨rfl, hvalue⟩
    cases result with
    | ok value => exact hthen value (hvalue value rfl)
    | error error => exact herror error

/-- What a load returns is nothing, or what the records hold. -/
theorem reads_load : Reads database
    (fun found => found = none ∨ found = stored scope database.records) (load scope) := by
  refine Keeps.bind reads_openRecords ?_
  intro available _
  split_ifs
  · exact Keeps.pure (.inl rfl)
  · refine Keeps.bind reads_readMeta ?_
    rintro found rfl
    cases hfound : metaOf scope (database.records (.metaKey scope.vaultId)) with
    | none => exact Keeps.pure (.inl rfl)
    | some found =>
      dsimp only
      split_ifs with hmany
      · exact Keeps.pure (.inl rfl)
      · refine Keeps.bind (reads_readSegments _) ?_
        rintro values rfl
        refine Keeps.pure (.inr ?_)
        rw [stored, hfound, bind_some, if_neg hmany]

end

section
variable {scope other : Scope} {records records' : Records} {log : StoredRevisionHistory}
  {before : Records} {epoch : Option JsString} {found : Meta} {vaultId : Id}
  {value : Option HistoryRecord} {cursor segments : ℕ}

theorem metaOf_eq_some {record : Option HistoryRecord} (h : metaOf scope record = some found) :
    record = some (.header found) ∧
      found.apiBaseUrl = scope.apiBaseUrl ∧ found.vaultId = scope.vaultId := by
  unfold metaOf at h
  split at h
  · split_ifs at h with haccepted
    obtain rfl := some.inj h
    exact ⟨rfl, haccepted.2⟩
  · cases h

theorem stored_congr
    (hmeta : records' (.metaKey other.vaultId) = records (.metaKey other.vaultId))
    (hsegments : ∀ found, records (.metaKey other.vaultId) = some (.header found) →
      ∀ i < found.segments,
        records' (.segmentKey other.vaultId i) = records (.segmentKey other.vaultId i)) :
    stored other records' = stored other records := by
  unfold stored
  rw [hmeta]
  cases hfound : metaOf other (records (.metaKey other.vaultId)) with
  | none => rfl
  | some found =>
    have hsame : (List.range found.segments).map (fun i => records' (.segmentKey other.vaultId i)) =
        (List.range found.segments).map fun i => records (.segmentKey other.vaultId i) := by
      refine map_congr_left fun i hi => ?_
      exact hsegments found (metaOf_eq_some hfound).1 i (mem_range.mp hi)
    simp only [bind_some, hsame]

/-- A segment that no meta record counts is not read. -/
theorem stored_update_segment {index : ℕ}
    (hbeyond : ∀ found, records (.metaKey vaultId) = some (.header found) →
      found.segments ≤ index) :
    stored other (update records (.segmentKey vaultId index) value) =
      stored other records := by
  refine stored_congr (update_of_ne (by simp) _ _) ?_
  intro found hfound i hi
  refine update_of_ne ?_ _ _
  intro hsame
  obtain ⟨hvault, rfl⟩ := HistoryKey.segmentKey.inj hsame
  have := hbeyond found (hvault ▸ hfound)
  omega

/-- The records of another vault do not depend on this meta record. -/
theorem stored_update_meta (hvault : other.vaultId ≠ vaultId) :
    stored other (update records (.metaKey vaultId) value) = stored other records :=
  stored_congr (update_of_ne (by simpa using hvault) _ _)
    fun _ _ _ _ => update_of_ne (by simp) _ _

theorem stored_eq_none (h : metaOf other (records (.metaKey other.vaultId)) = none) :
    stored other records = none := by
  rw [stored, h, Option.bind_none]

theorem joinSegments_concat {events : List RemoteEvent} {l : List (Option HistoryRecord)}
    {last : Option HistoryRecord} : joinSegments events (l ++ [last]) =
      (joinSegments events l).bind fun joined => joinSegments joined [last] := by
  induction l generalizing events with
  | nil => rfl
  | cons record rest ih =>
    rcases record with _ | _ | found | _
    · rfl
    · rfl
    · by_cases hgood : found.format = format ∧ found.fromCursor = events.length
      · simp only [cons_append, joinSegments, if_pos hgood]
        exact ih
      · simp only [cons_append, joinSegments, if_neg hgood, Option.bind_none]
    · rfl

/-- What a save may have made of each vault's log by the time it stops. -/
def Committed (scope : Scope) (log : StoredRevisionHistory) (before after : Records) : Prop :=
  ∀ other, stored other after = stored other before ∨ stored other after = none ∨
    other = scope ∧ stored other after = some log

theorem Committed.of_same (h : Committed scope log before records)
    (hsame : ∀ other, stored other records' = stored other records) :
    Committed scope log before records' := by
  intro other
  rw [hsame other]
  exact h other

theorem Committed.deleteMeta (h : Committed scope log before records) :
    Committed scope log before (update records (.metaKey scope.vaultId) none) := by
  intro other
  by_cases hvault : other.vaultId = scope.vaultId
  · exact .inr (.inl (stored_eq_none (by rw [hvault, update_self]; rfl)))
  · rw [stored_update_meta hvault]
    exact h other

/-- The meta record commits the log, and is no other vault's. -/
theorem Committed.writeMeta (h : Committed scope log before records)
    (hlog : stored scope (update records (.metaKey scope.vaultId)
      (some (.header (metaRecord scope epoch cursor segments)))) = some log) :
    Committed scope log before (update records (.metaKey scope.vaultId)
      (some (.header (metaRecord scope epoch cursor segments)))) := by
  intro other
  by_cases hvault : other.vaultId = scope.vaultId
  · by_cases hurl : scope.apiBaseUrl = other.apiBaseUrl
    · have hsame : other = scope := by
        cases other
        cases scope
        simp_all
      exact .inr (.inr ⟨hsame, hsame ▸ hlog⟩)
    · refine .inr (.inl (stored_eq_none ?_))
      simp [hvault, metaOf, metaRecord, hurl]
  · rw [stored_update_meta hvault]
    exact h other

theorem stored_writeMeta (hfew : segments ≤ maxHistorySegments) :
    stored scope (update records (.metaKey scope.vaultId)
      (some (.header (metaRecord scope epoch cursor segments)))) =
        assemble (metaRecord scope epoch cursor segments)
          ((List.range segments).map fun i => records (.segmentKey scope.vaultId i)) := by
  have hmeta : metaOf scope (some (.header (metaRecord scope epoch cursor segments))) =
      some (metaRecord scope epoch cursor segments) := if_pos ⟨rfl, rfl, rfl⟩
  have hnot : ¬ maxHistorySegments < segments := by omega
  simp only [stored, update_self, hmeta, bind_some]
  rw [metaRecord, if_neg hnot]
  congr 1

/-- The tail goes on where the stored prefix ended. -/
theorem stored_appended {p : ℕ}
    (hfound : metaOf scope (records (.metaKey scope.vaultId)) = some found)
    (hfew : found.segments < maxHistorySegments) (hwhole : log.cursor = log.events.length)
    (hheld : stored scope records = some ⟨epoch, p, log.events.take p⟩) :
    stored scope (update
      (update records (.segmentKey scope.vaultId found.segments)
        (some (.segment ⟨format, p, log.events.drop p⟩)))
      (.metaKey scope.vaultId)
        (some (.header (metaRecord scope log.epoch log.cursor (found.segments + 1))))) =
      some log := by
  rw [stored_writeMeta hfew, range_succ, map_append, map_cons, map_nil,
    update_self]
  rw [stored, hfound, bind_some, if_neg (by omega)] at hheld
  obtain ⟨joined, hjoined, hlength⟩ := bind_eq_some_iff.mp hheld
  split_ifs at hlength with hcursor
  obtain ⟨-, hp, rfl⟩ := StoredRevisionHistory.mk.inj (some.inj hlength)
  have hbefore : (List.range found.segments).map (fun i =>
      update records (.segmentKey scope.vaultId found.segments)
        (some (.segment ⟨format, p, log.events.drop p⟩)) (.segmentKey scope.vaultId i)) =
      (List.range found.segments).map fun i => records (.segmentKey scope.vaultId i) := by
    refine map_congr_left fun i hi => update_of_ne ?_ _ _
    have := mem_range.mp hi
    simp
    omega
  rw [hbefore, assemble, joinSegments_concat, hjoined, bind_some]
  have hfrom : p = (log.events.take p).length := by omega
  simp only [joinSegments]
  rw [if_pos ⟨trivial, hfrom⟩, take_append_drop, bind_some]
  exact if_pos hwhole.symm

theorem stored_rewritten (scope : Scope) (records : Records) (hwhole : log.cursor = log.events.length) :
    stored scope (update
      (update records (.segmentKey scope.vaultId 0)
        (some (.segment ⟨format, 0, log.events⟩)))
      (.metaKey scope.vaultId) (some (.header (metaRecord scope log.epoch log.cursor 1)))) =
      some log := by
  rw [stored_writeMeta (by decide)]
  cases log
  simp_all [assemble, joinSegments, metaRecord]

end

section
variable {scope : Scope} {log : StoredRevisionHistory} {database : Database} {after : Database}
  {m : Unit}

/-- What a save leaves wherever it stops. -/
def Left (scope : Scope) (log : StoredRevisionHistory) (before after : Database) : Prop :=
  after.available = before.available ∧ Committed scope log before.records after.records

/-- The log is committed as one segment, and what else there is of it is out of reach. -/
structure Rewritten (scope : Scope) (log : StoredRevisionHistory) (before after : Database) :
    Prop where
  left : Left scope log before after
  saved : stored scope after.records = some log
  one : ∀ found, after.records (.metaKey scope.vaultId) = some (.header found) →
    found.segments = 1

theorem Rewritten.remove (h : Rewritten scope log database after) {index : ℕ} (hindex : 1 ≤ index) :
    Rewritten scope log database
      { after with
        records := update after.records (.segmentKey scope.vaultId index) none } := by
  have hsame : ∀ other, stored other
      (update after.records (.segmentKey scope.vaultId index) none) =
        stored other after.records := by
    intro other
    refine stored_update_segment fun found hfound => ?_
    rw [h.one found hfound]
    exact hindex
  refine ⟨⟨h.left.1, h.left.2.of_same hsame⟩, (hsame scope).trans h.saved, ?_⟩
  intro found hfound
  have hbefore : after.records (.metaKey scope.vaultId) = some (.header found) := by
    simpa using hfound
  exact h.one found hbefore

theorem keeps_removeSegments {indices : List ℕ} (hindices : ∀ index ∈ indices, 1 ≤ index) :
    Keeps respond (Left scope log database) (fun _ after => Rewritten scope log database after)
      (fun _ => True) (removeSegments scope indices) := by
  induction indices with
  | nil => exact Keeps.pure trivial
  | cons index rest ih =>
    have hfirst : Keeps respond (Left scope log database)
        (fun _ after => Rewritten scope log database after) (fun _ => True)
        (Code.attempt (S := historyStore)
          (.deleteHistoryRecord (.segmentKey scope.vaultId index))) := by
      refine Keeps.attempt (fun _ _ h => h.left) ?_ fun _ => trivial
      exact fun _ _ h => ⟨h.remove (hindices index mem_cons_self), trivial⟩
    exact hfirst.bind fun _ _ => ih fun later hlater => hindices later (mem_cons_of_mem _ hlater)

/-- How a save ends: it is left off, or the log has been committed. -/
def Ended (scope : Scope) (log : StoredRevisionHistory) (before : Database)
    (result : Except Unit Unit) (after : Database) : Prop :=
  Left scope log before after ∧
    (result = .ok () → before.available = true → stored scope after.records = some log)

theorem Left.threw (h : Left scope log database after) (error : Unit) :
    Ended scope log database (.error error) after := ⟨h, by simp⟩

theorem visits_rewrite (found : Option Meta) (hwhole : log.cursor = log.events.length) :
    Visits respond (Left scope log database)
      (fun result _ after => Ended scope log database result after)
      (rewrite scope found log) m database := by
  have hstart : Left scope log database database := ⟨rfl, fun _ => .inl rfl⟩
  refine ⟨hstart, ?_, hstart.threw⟩
  have hdeleted : Left scope log database (respond (.deleteHistoryRecord (.metaKey scope.vaultId))
      database).2 := ⟨rfl, hstart.2.deleteMeta⟩
  refine ⟨hdeleted, ?_, hdeleted.threw⟩
  have hsegment : Left scope log database (respond (.putHistoryRecord
      (.segmentKey scope.vaultId 0) (.segment ⟨format, 0, log.events⟩))
        (respond (.deleteHistoryRecord (.metaKey scope.vaultId)) database).2).2 := by
    refine ⟨rfl, hdeleted.2.of_same fun other => stored_update_segment ?_⟩
    intro found hfound
    simp [respond] at hfound
  refine ⟨hsegment, ?_, hsegment.threw⟩
  have hsaved := stored_rewritten scope (update database.records
    (.metaKey scope.vaultId) none) hwhole
  have hremove : Keeps respond (Left scope log database)
      (fun _ after => Rewritten scope log database after) (fun _ => True)
      (removeSegments scope (List.range' 1 ((found.map Meta.segments).getD 0 - 1))) :=
    keeps_removeSegments fun index hindex => (mem_range'_1.mp hindex).1
  refine Visits.mono (hremove m _ ?_) (fun _ hstop => hstop) ?_
  · refine ⟨⟨rfl, hsegment.2.writeMeta hsaved⟩, hsaved, ?_⟩
    intro found hfound
    simp only [respond, update_self, some.injEq, HistoryRecord.header.injEq]
      at hfound
    exact hfound ▸ rfl
  · rintro result _ after ⟨hend, -⟩
    exact ⟨hend.left, fun _ _ => hend.saved⟩

/-- A save commits its log or leaves each vault with what it had or with nothing. -/
theorem visits_save {p : ℕ} (hwhole : log.cursor = log.events.length)
    (hheld : database.available = true → 0 < p → ∃ epoch,
      stored scope database.records = some ⟨epoch, p, log.events.take p⟩) :
    Visits respond (Left scope log database)
      (fun result _ after => Ended scope log database result after)
      (save scope log p) m database := by
  have hstart : Left scope log database database := ⟨rfl, fun _ => .inl rfl⟩
  refine reads_openRecords.visits hstart hstart.threw ?_
  rintro available rfl
  split_ifs with havailable
  · exact ⟨hstart, fun _ htrue => absurd (havailable.symm.trans htrue) (by simp)⟩
  · refine reads_readMeta.visits hstart hstart.threw ?_
    rintro found rfl
    cases hcontinued : continued (metaOf scope (database.records (.metaKey scope.vaultId))) log p with
    | none => exact visits_rewrite _ hwhole
    | some found =>
      obtain ⟨found', hfound, happend⟩ := bind_eq_some_iff.mp hcontinued
      split_ifs at happend with hcontinues
      obtain rfl := some.inj happend
      obtain ⟨hpos, -, -, hfew⟩ := hcontinues
      obtain ⟨epoch, hstored⟩ := hheld (by simpa using havailable) hpos
      have hsaved := stored_appended hfound hfew hwhole hstored
      refine ⟨hstart, ?_, hstart.threw⟩
      have hsegment : Left scope log database (respond (.putHistoryRecord
          (.segmentKey scope.vaultId found'.segments)
            (.segment ⟨format, p, log.events.drop p⟩)) database).2 := by
        refine ⟨rfl, hstart.2.of_same fun other => stored_update_segment ?_⟩
        intro other hother
        rw [(metaOf_eq_some hfound).1, some.injEq, HistoryRecord.header.injEq] at hother
        exact hother ▸ le_rfl
      refine ⟨hsegment, ?_, hsegment.threw⟩
      exact ⟨⟨rfl, hsegment.2.writeMeta hsaved⟩, fun _ _ => hsaved⟩

end

/-- The database, and the history of the connection of the moment: its pages may come from any
server. The logs passed to a save are kept for the statement. -/
structure World where
  database : Database
  scope : Scope
  session : HistoryRefresh.World
  attempts : List (Scope × StoredRevisionHistory)

inductive Action
  | connect (scope : Scope) (available : Bool)
  | refresh
  | restored (choices : List (Choice Unit))
  | page (page : PullResult)
  | pageFails
  | saved (choices : List (Choice Unit))

namespace World
variable (world : World)

def withCached (cached : CachedHistory) (phase : Phase) : World :=
  { world with session := { world.session with cached := cached, phase := phase } }

/-- The process has ended, and another history begins. -/
def reopened : World := world.withCached {} .idle

def restored : Ending historyStore (Option StoredRevisionHistory) × Database → World
  | (.returned found _, _) =>
    { world with session := startPulling world.session (world.session.cached.restore found) }
  | (.threw _ _, _) =>
    { world with session := startPulling world.session (world.session.cached.restore none) }
  | (.stopped, _) => world.reopened

/-- A save was attempted with this log. -/
def attempted (log : StoredRevisionHistory) (database : Database) : World :=
  { world with database := database, attempts := world.attempts ++ [(world.scope, log)] }

def saved (log : StoredRevisionHistory) : Ending historyStore Unit × Database → World
  | (.returned _ _, database) =>
    { world.attempted log database with session := saveEnds world.session .saved }
  | (.threw _ _, database) =>
    { world.attempted log database with session := saveEnds world.session .failedBefore }
  | (.stopped, database) => (world.attempted log database).reopened

end World

def step (world : World) : Action → Option World
  | .connect scope available =>
    some { world.reopened with
      scope := scope
      database := { world.database with available := available } }
  | .refresh =>
    (HistoryRefresh.step true world.session .refresh).map fun session =>
      { world with session := session }
  | .restored choices =>
    if world.session.phase = .restoring then
      some (world.restored (exec respond (load world.scope) () world.database choices))
    else none
  | .page page =>
    if let .pulling mode target := world.session.phase then
      some { world with
        session := pageRead true world.session mode (readPage world.session.cached target page) }
    else none
  | .pageFails =>
    if let .pulling mode _ := world.session.phase then
      some { world with session := pullThrew world.session mode world.session.cached }
    else none
  | .saved choices =>
    if world.session.phase = .saving then
      some (world.saved world.session.cached.toStore (exec respond
        (save world.scope world.session.cached.toStore world.session.cached.persistedCursor) ()
          world.database choices))
    else none

section
variable {cached read : CachedHistory}

structure Whole (cached : CachedHistory) : Prop where
  cursor : cached.cursor = cached.ordered.length
  sequenced : sequenced cached.ordered = true

/-- The history has read on. -/
structure Grown (cached read : CachedHistory) : Prop where
  whole : Whole cached → Whole read
  ordered : cached.ordered <+: read.ordered
  persisted : read.persistedCursor = cached.persistedCursor
  restored : read.restoreAttempted = cached.restoreAttempted

theorem appendEvents_grown (cached : CachedHistory) (events : List RemoteEvent) :
    Grown cached (cached.appendEvents events).1 := by
  induction events generalizing cached with
  | nil => exact ⟨id, prefix_refl _, rfl, rfl⟩
  | cons event rest ih =>
    unfold CachedHistory.appendEvents
    split_ifs with hskip hgap
    · exact ih cached
    · exact ⟨id, prefix_refl _, rfl, rfl⟩
    · obtain ⟨hwhole, hordered, hpersisted, hrestored⟩ := ih (cached.append event)
      refine ⟨fun h => hwhole ?_, (prefix_append _ _).trans hordered, hpersisted, hrestored⟩
      have hnext : event = ⟨cached.ordered.length + 1, event.revision⟩ := by
        rw [← h.cursor, ← not_not.mp hgap]
      refine ⟨?_, ?_⟩
      · simp only [CachedHistory.append, length_append, length_singleton, ← h.cursor]
        exact not_not.mp hgap
      · rw [CachedHistory.append, hnext]
        exact sequenced_append h.sequenced event.revision

theorem takePage_grown (cached : CachedHistory) (target : Option ℕ) (page : PullResult) :
    Grown cached (outcomeCached (takePage cached target page)) := by
  obtain ⟨hwhole, hordered, hpersisted, hrestored⟩ :=
    appendEvents_grown { cached with epoch := page.epoch } page.events
  have hgrown : Grown cached
      (CachedHistory.appendEvents { cached with epoch := page.epoch } page.events).1 :=
    ⟨fun h => hwhole ⟨h.cursor, h.sequenced⟩, hordered, hpersisted, hrestored⟩
  unfold takePage
  rcases hread : CachedHistory.appendEvents { cached with epoch := page.epoch } page.events with
    ⟨read, gap⟩
  rw [hread] at hgrown
  cases gap with
  | true => exact hgrown
  | false =>
    dsimp only
    split_ifs
    all_goals exact hgrown

theorem readPage_grown (cached : CachedHistory) (target : Option ℕ) (page : PullResult) :
    Grown cached (outcomeCached (readPage cached target page)) := by
  unfold readPage
  split
  · exact takePage_grown cached target page
  · split_ifs
    · obtain ⟨hwhole, hordered, hpersisted, hrestored⟩ :=
        takePage_grown { cached with unconfirmed := false } target page
      exact ⟨fun h => hwhole ⟨h.cursor, h.sequenced⟩, hordered, hpersisted, hrestored⟩
    · exact ⟨id, prefix_refl _, rfl, rfl⟩

end

variable {world after : World} {database : Database} {scope : Scope} {cached read : CachedHistory}
  {mode : Mode} {log : StoredRevisionHistory}

/-- What of the history is behind its persisted cursor is what the records hold. -/
structure Fits (database : Database) (scope : Scope) (cached : CachedHistory) : Prop where
  whole : Whole cached
  persisted_le : cached.persistedCursor ≤ cached.ordered.length
  persisted : database.available = true → 0 < cached.persistedCursor → ∃ epoch,
    stored scope database.records =
      some ⟨epoch, cached.persistedCursor, cached.ordered.take cached.persistedCursor⟩

theorem Fits.grown (h : Fits database scope cached) (hgrown : Grown cached read) :
    Fits database scope read where
  whole := hgrown.whole h.whole
  persisted_le := by
    rw [hgrown.persisted]
    exact h.persisted_le.trans hgrown.ordered.length_le
  persisted := by
    rw [hgrown.persisted]
    intro havailable hpos
    obtain ⟨epoch, hstored⟩ := h.persisted havailable hpos
    obtain ⟨later, hlater⟩ := hgrown.ordered
    refine ⟨epoch, ?_⟩
    rw [hstored, ← hlater, take_append_of_le_length h.persisted_le]

theorem fits_empty (hordered : cached.ordered = []) (hcursor : cached.cursor = 0)
    (hpersisted : cached.persistedCursor = 0) : Fits database scope cached := by
  refine ⟨⟨by rw [hcursor, hordered]; rfl, by rw [hordered]; rfl⟩, by omega, ?_⟩
  intro _ hpos
  omega

/-- Every log that the records hold was passed to a save as a whole. -/
def Loads (world : World) : Prop :=
  ∀ scope log, stored scope world.database.records = some log →
    (scope, log) ∈ world.attempts ∧ log.cursor = log.events.length ∧ sequenced log.events = true

structure Kept (world : World) : Prop where
  loads : Loads world
  fits : Fits world.database world.scope world.session.cached
  attempted : world.session.phase ≠ .idle → world.session.cached.restoreAttempted = true
  unread : world.session.cached.restoreAttempted = false ∨ world.session.phase = .restoring →
    world.session.cached.ordered = [] ∧ world.session.cached.persistedCursor = 0

theorem kept_of_fits (hloads : Loads world)
    (hfits : Fits world.database world.scope world.session.cached)
    (hrestored : world.session.cached.restoreAttempted = true)
    (hphase : world.session.phase ≠ .restoring) : Kept world where
  loads := hloads
  fits := hfits
  attempted _ := hrestored
  unread h := by
    obtain h | h := h
    · cases hrestored.symm.trans h
    · exact absurd h hphase

theorem kept_reopened (hloads : Loads world) : Kept world.reopened where
  loads := hloads
  fits := fits_empty rfl rfl rfl
  attempted h := absurd rfl h
  unread _ := ⟨rfl, rfl⟩

theorem Kept.pullThrew (h : Kept world) (hfits : Fits world.database world.scope cached)
    (hrestored : cached.restoreAttempted = true) :
    Kept { world with session := pullThrew world.session mode cached } := by
  cases mode with
  | plain => exact kept_of_fits h.loads hfits hrestored fun hphase => by cases hphase
  | confirming => exact kept_of_fits h.loads (fits_empty rfl rfl rfl) hrestored fun hphase => by cases hphase
  | full => exact ⟨h.loads, fits_empty rfl rfl rfl, fun hphase => absurd rfl hphase, fun _ => ⟨rfl, rfl⟩⟩

theorem Kept.page (h : Kept world) {target : Option ℕ} {page : PullResult}
    (hphase : world.session.phase = .pulling mode target) :
    Kept { world with
      session := pageRead true world.session mode
        (readPage world.session.cached target page) } := by
  have hgrown := readPage_grown world.session.cached target page
  have hfits := h.fits.grown hgrown
  have hrestored := hgrown.restored.trans (h.attempted (by rw [hphase]; simp))
  cases hread : readPage world.session.cached target page with
  | threw read =>
    rw [hread] at hfits hrestored
    exact h.pullThrew hfits hrestored
  | more read target =>
    rw [hread] at hfits hrestored
    exact kept_of_fits h.loads hfits hrestored fun hphase => by cases hphase
  | done read =>
    rw [hread] at hfits hrestored
    simp only [pageRead, pulled, reduceCtorEq, false_or]
    by_cases hsame : read.persistedCursor = read.cursor
    · rw [if_pos hsame]
      have hloaded : Fits world.database world.scope { read with loaded := true } :=
        ⟨⟨hfits.whole.cursor, hfits.whole.sequenced⟩, hfits.persisted_le, hfits.persisted⟩
      exact kept_of_fits h.loads hloaded hrestored fun hphase => by cases hphase
    · rw [if_neg hsame]
      exact kept_of_fits h.loads hfits hrestored fun hphase => by cases hphase

theorem some_eq_take (h : log.cursor = log.events.length) :
    some log = some ⟨log.epoch, log.cursor, log.events.take log.cursor⟩ := by
  rw [h, take_length, ← h]

theorem Kept.restored (h : Kept world) (hphase : world.session.phase = .restoring)
    (choices : List (Choice Unit)) :
    Kept (world.restored (exec respond (load world.scope) () world.database choices)) := by
  have hreads : Reads world.database _ (load world.scope) := reads_load
  have hload := (hreads () world.database rfl).exec choices
  obtain ⟨hempty, hzero⟩ := h.unread (.inr hphase)
  have hrestored := h.attempted (by rw [hphase]; simp)
  have hunchanged : Kept { world with session := startPulling world.session world.session.cached } :=
    kept_of_fits h.loads h.fits hrestored fun hphase => by cases hphase
  rcases hexec : exec respond (load world.scope) () world.database choices with
    ⟨found | _ | _, database⟩
  · rw [hexec] at hload ⊢
    simp only [World.restored]
    obtain hsame | ⟨log, rfl, hcursor, hsequenced, hpos, hrestore⟩ :=
      restore_of_empty hempty found
    · rw [hsame]
      exact hunchanged
    · rw [hrestore]
      obtain hnone | hsome := hload.2 (some log) rfl
      · cases hnone
      · refine kept_of_fits h.loads ⟨⟨rfl, hsequenced⟩, hcursor.le, fun _ _ => ⟨log.epoch, ?_⟩⟩
          hrestored fun hphase => by cases hphase
        exact hsome.symm.trans (some_eq_take hcursor)
  · rw [hexec]
    exact hunchanged
  · rw [hexec]
    exact kept_reopened h.loads

/-- What a save leaves: the logs held before, none, or the one it was passed. -/
theorem loads_of_left (h : Kept world) (hleft : Left world.scope log world.database database)
    (hcursor : log.cursor = log.events.length) (hsequenced : sequenced log.events = true) :
    Loads (world.attempted log database) := by
  intro scope found hfound
  obtain hsame | hnone | ⟨rfl, hsaved⟩ := hleft.2 scope
  · obtain ⟨hmem, hwhole⟩ := h.loads scope found (hsame.symm.trans hfound)
    exact ⟨mem_append_left _ hmem, hwhole⟩
  · cases hnone.symm.trans hfound
  · obtain rfl := some.inj (hsaved.symm.trans hfound)
    exact ⟨mem_append_right _ mem_cons_self, hcursor, hsequenced⟩

theorem Kept.saved (h : Kept world) (hphase : world.session.phase = .saving)
    (choices : List (Choice Unit)) :
    Kept (world.saved world.session.cached.toStore (exec respond
      (save world.scope world.session.cached.toStore world.session.cached.persistedCursor) ()
        world.database choices)) := by
  obtain ⟨⟨hcursor, hsequenced⟩, -, hpersisted⟩ := h.fits
  have hrestored := h.attempted (by rw [hphase]; simp)
  have hsave := (visits_save (m := ())
    (show world.session.cached.toStore.cursor = world.session.cached.toStore.events.length from
      hcursor)
    hpersisted).exec choices
  rcases hexec : exec respond (save world.scope world.session.cached.toStore
    world.session.cached.persistedCursor) () world.database choices with ⟨_ | _ | _, database⟩
  · rw [hexec] at hsave ⊢
    have hloads := loads_of_left h hsave.1 hcursor hsequenced
    refine kept_of_fits hloads ⟨⟨hcursor, hsequenced⟩, hcursor.le, ?_⟩ hrestored
      fun hphase => by cases hphase
    intro havailable _
    have hstored := hsave.2 rfl (hsave.1.1.symm.trans havailable)
    exact ⟨_, hstored.trans (some_eq_take hcursor)⟩
  · rw [hexec] at hsave ⊢
    have hloads := loads_of_left h hsave.1 hcursor hsequenced
    exact kept_of_fits hloads
      ⟨⟨hcursor, hsequenced⟩, Nat.zero_le _, fun _ hpos => absurd hpos (lt_irrefl _)⟩ hrestored
      fun hphase => by cases hphase
  · rw [hexec] at hsave ⊢
    exact kept_reopened (loads_of_left h hsave hcursor hsequenced)

theorem Kept.step {action : Action} (h : Kept world) (taken : step world action = some after) :
    Kept after := by
  cases action with
  | connect scope available =>
    obtain rfl := some.inj taken
    exact ⟨h.loads, fits_empty rfl rfl rfl, fun hphase => absurd rfl hphase, fun _ => ⟨rfl, rfl⟩⟩
  | refresh =>
    obtain ⟨session, hsession, rfl⟩ := map_eq_some_iff.mp taken
    simp only [HistoryRefresh.step] at hsession
    split_ifs at hsession with hidle hunread
    · obtain rfl := some.inj hsession
      obtain ⟨hempty, hzero⟩ := h.unread (.inl hunread.2)
      exact ⟨h.loads, ⟨⟨h.fits.whole.cursor, h.fits.whole.sequenced⟩, h.fits.persisted_le,
        h.fits.persisted⟩, fun _ => rfl, fun _ => ⟨hempty, hzero⟩⟩
    · obtain rfl := some.inj hsession
      exact kept_of_fits h.loads ⟨⟨h.fits.whole.cursor, h.fits.whole.sequenced⟩,
        h.fits.persisted_le, h.fits.persisted⟩ rfl fun hphase => by cases hphase
  | restored choices =>
    simp only [HistoryStore.step] at taken
    split_ifs at taken with hphase
    obtain rfl := some.inj taken
    exact h.restored hphase choices
  | page page =>
    cases hphase : world.session.phase with
    | pulling mode target =>
      simp only [HistoryStore.step, hphase, some.injEq] at taken
      subst taken
      exact h.page hphase
    | _ => simp [HistoryStore.step, hphase] at taken
  | pageFails =>
    cases hphase : world.session.phase with
    | pulling mode target =>
      simp only [HistoryStore.step, hphase, some.injEq] at taken
      subst taken
      exact h.pullThrew h.fits (h.attempted (by rw [hphase]; simp))
    | _ => simp [HistoryStore.step, hphase] at taken
  | saved choices =>
    simp only [HistoryStore.step] at taken
    split_ifs at taken with hphase
    obtain rfl := some.inj taken
    exact h.saved hphase choices

/-- The first connection of a run. -/
def opened (database : Database) (scope : Scope) (server : Server) : World :=
  ⟨database, scope, { server := server }, []⟩

theorem kept_opened (hempty : ∀ scope, stored scope database.records = none) (server : Server) :
    Kept (opened database scope server) where
  loads scope log hstored := by cases (hempty scope).symm.trans hstored
  fits := fits_empty rfl rfl rfl
  attempted h := absurd rfl h
  unread _ := ⟨rfl, rfl⟩

/-- Whatever a load returns, at any time and with any failures of its own, is a whole log that
a save was attempted with: from the first sequence on, without a gap, under its one epoch. -/
theorem load_attempted (database : Database)
    (hempty : ∀ scope, stored scope database.records = none) (first : Scope) (server : Server)
    {actions : List Action} (hrun : run step (opened database first server) actions = some world)
    (scope : Scope) (available : Bool) (choices : List (Choice Unit)) :
    ∀ found m after, exec respond (load scope) () ⟨available, world.database.records⟩
        choices = (.returned (some found) m, after) →
      (scope, found) ∈ world.attempts ∧ found.cursor = found.events.length ∧
        sequenced found.events = true := by
  intro found m after hload
  have hreached : Reached step (fun _ _ => True) (opened database first server) world :=
    Reached.start.run (allowed_of_forall (fun _ _ => trivial) _ _) hrun
  have hkept : Kept world :=
    hreached.invariant (kept_opened hempty server) fun _ _ _ hbefore _ taken => hbefore.step taken
  have hreads : Reads ⟨available, world.database.records⟩ _ (load scope) := reads_load
  have hread := (hreads () _ rfl).exec choices
  rw [hload] at hread
  obtain hnone | hstored := hread.2 _ rfl
  · cases hnone
  · exact hkept.loads scope found hstored.symm

/-- A log is saved, and the process ends under the save of its next page: the new segment is
there, the meta record that counts it is not. -/
def appendCut : List Action :=
  [.refresh, .restored [], .page ⟨1, some [49], [⟨1, plainRevision 11⟩]⟩, .saved [], .refresh,
    .page ⟨2, some [49], [⟨2, plainRevision 12⟩]⟩, .saved [.done, .done, .done, .stop]]

theorem load_attempted_saved :
    ∃ world, run step (opened ⟨true, fun _ => none⟩ ⟨[], 1⟩ firstEpoch) appendCut = some world ∧
      world.database.records (.segmentKey 1 1) =
        some (.segment ⟨format, 1, [⟨2, plainRevision 12⟩]⟩) ∧
      (⟨[], 1⟩, ⟨some [49], 1, [⟨1, plainRevision 11⟩]⟩) ∈ world.attempts := by
  obtain ⟨world, hrun, hsegment, hload⟩ : ∃ world,
      run step (opened ⟨true, fun _ => none⟩ ⟨[], 1⟩ firstEpoch) appendCut = some world ∧
      world.database.records (.segmentKey 1 1) =
        some (.segment ⟨format, 1, [⟨2, plainRevision 12⟩]⟩) ∧
      exec respond (load ⟨[], 1⟩) () ⟨true, world.database.records⟩ [] =
        (.returned (some ⟨some [49], 1, [⟨1, plainRevision 11⟩]⟩) (), world.database) :=
    ⟨_, rfl, rfl, rfl⟩
  exact ⟨world, hrun, hsegment, (load_attempted ⟨true, fun _ => none⟩ (fun _ => rfl) ⟨[], 1⟩
    firstEpoch hrun ⟨[], 1⟩ true [] _ _ _ hload).1⟩

end Havemind.HistoryStore
