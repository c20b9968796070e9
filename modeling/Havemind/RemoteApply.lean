import Havemind.Diff3
import Havemind.RevisionEnvelope
import Havemind.RevisionHistory
import Havemind.VaultFilePort

/-!
The remote apply: what a device does with an incoming revision of a file. It
removes, moves or writes the file when nothing on this device stands against
it, merges a note both sides changed, and otherwise keeps the incoming content
as a conflict copy. The same apply runs in the plugin and in the headless
client, over two vaults that answer the port's calls differently, so it is
stated for a port that is a record of calls over any store.
-/
namespace Havemind.RemoteApply

open Diff3 Endings JsText RevisionEnvelope RevisionHistory RevisionSchema SyncRunner SyncState
  VaultFilePort VaultPayload

/-- One apply's surroundings. `producing` says whether the producer has started,
`recordId` and `mergeRevisionId` are the identifiers it generates, `conflictPath`
names the copies of a revision, one for each number of taken names. -/
structure ApplyContext extends VaultPort where
  digests : ContentDigests
  encoder : EnvelopeEncoder
  accepted : List RemoteEvent
  resolveRevision : Id → Option DecodedRevisionPayload
  producing : Bool
  recordId : Id
  mergeRevisionId : Id
  mergeKey : JsString
  conflictPath : RemoteEvent → DecodedRevisionPayload → ℕ → Path
  conflictPath_injective : ∀ event decoded, Function.Injective (conflictPath event decoded)
  deletedMarkerBody : JsString

section
variable (ctx : ApplyContext) (state : PersistedSyncState)

def localHeadFor (fileId : Id) : Option Id :=
  if ctx.producing then headFor state fileId else none

def localVersionFor (fileId : Id) : Option (Id × ContentHash) :=
  if ctx.producing then versionFor state fileId else none

def historyOf (fileId : Id) : List RemoteEvent := graph ctx.accepted state fileId

/-- A payload of the history: a queued revision's from the queue, another's from
the server. -/
def historyPayload (revisionId : Id) : Option DecodedRevisionPayload :=
  match state.outbox.find? fun envelope => envelope.revisionId = revisionId with
  | some envelope => some envelope.payload
  | none => ctx.resolveRevision revisionId

/-- The hash of the local version, when it is on disk and the event was built on
it. -/
def cleanCausalHash (event : RemoteEvent) (diskHash : ContentHash) : Option ContentHash :=
  match localVersionFor ctx state event.revision.fileId with
  | none => none
  | some (revisionId, contentHash) =>
      if diskHash ≠ contentHash then none
      else if revisionId ∈ event.revision.parentRevisionIds.getD [] then some diskHash
      else if revisionId ∈
          ancestors (historyOf ctx state event.revision.fileId) event.revision.revisionId then
        some diskHash
      else none

def holdsLocalEdit (event : RemoteEvent) (onDisk : Content) : Bool :=
  let onDiskHash := hash ctx.digests onDisk
  some onDiskHash ≠ state.baseHashes event.revision.fileId ∧
    cleanCausalHash ctx state event onDiskHash = none

/-- The event provably descends from this device's head, or names no parents. -/
def isCausalFastForward (event : RemoteEvent) : Bool :=
  match event.revision.parentRevisionIds with
  | none => true
  | some parents =>
      match localHeadFor ctx state event.revision.fileId with
      | none => false
      | some localHead =>
          localHead ∈ parents ∨ localHead ∈
            ancestors (historyOf ctx state event.revision.fileId) event.revision.revisionId

/-- During the initial catch-up, an intermediate revision of a file this device
never had. -/
def isObsolete (event : RemoteEvent) (bootstrap : Bool) : Bool :=
  bootstrap ∧ localHeadFor ctx state event.revision.fileId = none ∧
    isHead ctx.accepted event = false

/-- The event is in the ancestry of this device's head. -/
def isSettled (event : RemoteEvent) : Bool :=
  ∃ head ∈ localHeadFor ctx state event.revision.fileId,
    event.revision.revisionId ∈ ancestors (historyOf ctx state event.revision.fileId) head

end

section
variable (ctx : ApplyContext) (event : RemoteEvent)

/-- The producer's files and heads with the event's revision adopted. -/
def adopted (decoded : DecodedRevisionPayload) (contentHash : ContentHash)
    (state : PersistedSyncState) : PersistedSyncState :=
  match ctx.rules.classifyVaultPath decoded.path with
  | none => state
  | some classified =>
      if ctx.producing then
        adoptRemoteMapping state
          { fileId := event.revision.fileId
            path := classified.canonicalPath
            collisionKey := classified.collisionKey
            contentHash
            contentKind := decoded.kind }
          event.revision.revisionId
      else state

/-- The producer's files and heads without a file. -/
def forgotten (fileId : Id) (path : Path) (state : PersistedSyncState) : PersistedSyncState :=
  match ctx.rules.classifyVaultPath path with
  | none => state
  | some classified =>
      if ctx.producing then forgetRemoteMapping state classified.collisionKey fileId else state

def lastWriterWins (path : Path) : Bool := ctx.rules.isSyncableConfigPath path

/-- What the re-read found is neither the incoming content, nor the base, nor
the version the event was built on. -/
def divergedSince (state : PersistedSyncState) (decoded : DecodedRevisionPayload)
    (cleanHash : Option ContentHash) (preWriteOnDisk : Content) : Bool :=
  lastWriterWins ctx decoded.path = false ∧
    contentMatches preWriteOnDisk (incomingContent decoded) = false ∧
    some (hash ctx.digests preWriteOnDisk) ≠ state.baseHashes event.revision.fileId ∧
    some (hash ctx.digests preWriteOnDisk) ≠ cleanHash

/-- The content found on disk stands against the event: it drifted from the base
and from the version the event was built on, or the event does not provably
follow this device's head. -/
def diverges (state : PersistedSyncState) (decoded : DecodedRevisionPayload) (onDisk : Content) :
    Bool :=
  let onDiskHash := hash ctx.digests onDisk
  let clean := cleanCausalHash ctx state event onDiskHash
  (clean = none ∨ decoded.kind = .binary) ∧
    ((clean = none ∧ some onDiskHash ≠ state.baseHashes event.revision.fileId) ∨
      isCausalFastForward ctx state event = false)

/-- A sibling whose path differs only by case. -/
def pathCaseVariant (disk : Disk) (path : Path) : Option Path := do
  let wanted ← ctx.rules.classifyVaultPath path
  disk.entries.keys.find? fun other =>
    other ≠ path ∧ ctx.rules.parentFolder other = ctx.rules.parentFolder path ∧
      (ctx.rules.classifyVaultPath other).any fun sibling =>
        sibling.collisionKey = wanted.collisionKey

def hasConverged (decoded : DecodedRevisionPayload) (onDisk : Option Content) : Bool :=
  onDisk.any fun content => contentMatches content (incomingContent decoded)

/-- The path a rename takes this file away from. -/
def ownedPreviousPath (state : PersistedSyncState) (decoded : DecodedRevisionPayload) :
    Option Path :=
  decoded.previousPath.filter fun previousPath =>
    decoded.operation = .rename ∧
      fileIdAtPath state previousPath = some event.revision.fileId

def touchedPaths (decoded : DecodedRevisionPayload) : List Path :=
  decoded.path :: decoded.previousPath.toList

/-- Whether the paths a peer chose are ones this device syncs. -/
def pathsInScope (decoded : DecodedRevisionPayload) : Bool :=
  inSyncScope ctx.rules decoded.path ∧
    ∀ previousPath ∈ decoded.previousPath, inSyncScope ctx.rules previousPath

end

/-- The file port over a store `σ`. `freeName` is the first name of a sequence at
which the port sees no conflict copy. -/
structure FilePort (σ : Type) where
  stateOf : σ → PersistedSyncState
  withState : PersistedSyncState → σ → σ
  openBufferStates : Id → EStateM Thrown σ (List Bool)
  readByPath : Moment → Path → EStateM Thrown σ (Option JsString)
  readBinaryByPath : Moment → Path → EStateM Thrown σ (Option Bytes)
  writeByPath : Moment → Path → JsString → Option (Option JsString) → EStateM Thrown σ Unit
  writeBinaryByPath : Moment → Path → Bytes → EStateM Thrown σ Unit
  deleteByPath : Moment → Path → EStateM Thrown σ Unit
  writeConflictArtifact : Path → Content → EStateM Thrown σ Unit
  freeName : (ℕ → Path) → σ → ℕ
  pathCaseVariant : Path → σ → Option Path

section
variable {σ : Type} (port : FilePort σ) (ctx : ApplyContext) (event : RemoteEvent)

def setState (f : PersistedSyncState → PersistedSyncState) : EStateM Thrown σ Unit :=
  modify fun device => port.withState (f (port.stateOf device)) device

/-- Replaces the state, or fails and keeps it. -/
def trySetState (f : PersistedSyncState → Option PersistedSyncState) : EStateM Thrown σ Unit := do
  let device ← get
  match f (port.stateOf device) with
  | none => throw .failure
  | some state => setState port fun _ => state

def ensureEvent : EStateM Thrown σ Unit :=
  if ∃ accepted ∈ ctx.accepted, accepted.revision.revisionId = event.revision.revisionId then
    return ()
  else throw .failure

def onRemoteWrite (decoded : DecodedRevisionPayload) (contentHash : ContentHash) :
    EStateM Thrown σ Unit :=
  setState port (adopted ctx event decoded contentHash)

def onRemoteDelete (fileId : Id) (path : Path) : EStateM Thrown σ Unit :=
  setState port (forgotten ctx fileId path)

/-- Reads a path as note text, or as an attachment's bytes. -/
def readContent (moment : Moment) (kind : SyncContentKind) (path : Path) :
    EStateM Thrown σ (Option Content) :=
  match kind with
  | .binary => do
      let bytes ← port.readBinaryByPath moment path
      return bytes.map .bytes
  | .markdown => do
      let text ← port.readByPath moment path
      return text.map .text

/-- Both sides hold the incoming content: the base advances, nothing is written. -/
def converge (decoded : DecodedRevisionPayload) : EStateM Thrown σ RemoteApplyOutcome := do
  let incomingHash := hash ctx.digests (incomingContent decoded)
  setState port fun state => recordApplied state event.revision.fileId decoded.path incomingHash
  onRemoteWrite port ctx event decoded incomingHash
  return .noop

/-- Keeps the incoming content beside the file: a redelivery uses the path that
is recorded for it. -/
def writeConflict (decoded : DecodedRevisionPayload) : EStateM Thrown σ RemoteApplyOutcome := do
  let device ← get
  let existing := (port.stateOf device).conflictArtifacts event.revision.revisionId
  let target := existing.getD (ctx.conflictPath event decoded
    (port.freeName (ctx.conflictPath event decoded) device))
  let content := if decoded.operation = .delete then .text ctx.deletedMarkerBody
    else incomingContent decoded
  port.writeConflictArtifact target content
  if existing = none then
    setState port fun state => recordConflictArtifactPath state event.revision.revisionId target
  return .conflict

/-- The text both sides started from, when the history has exactly one. -/
def mergeAncestor (path : Path) : EStateM Thrown σ (Option JsString) := do
  let device ← get
  let history := historyOf ctx (port.stateOf device) event.revision.fileId
  match localHeadFor ctx (port.stateOf device) event.revision.fileId with
  | none => return none
  | some head =>
      match commonAncestor history head event.revision.revisionId with
      | none => return none
      | some shared =>
          match historyPayload ctx (port.stateOf device) shared.revision.revisionId with
          | none => throw .failure
          | some payload =>
              if payload.kind = .binary ∨ payload.operation = .delete ∨ payload.path ≠ path then
                return none
              else return payload.content

/-- Queues a merge of this device's head and the event, which becomes the head. -/
def commitMergedChange (mapping : LocalFileMapping) (content : JsString) :
    EStateM Thrown σ Bool := do
  let device ← get
  let remoteRevisionId := event.revision.revisionId
  match headFor (port.stateOf device) mapping.fileId with
  | none => return false
  | some localHead =>
      if hasAuthoredRevision (port.stateOf device) localHead = false then return false
      else do
        let parents :=
          if localHead ∈ event.revision.parentRevisionIds.getD [] ∨ localHead = remoteRevisionId then
            [remoteRevisionId]
          else [localHead, remoteRevisionId]
        match buildRevisionEnvelope ctx.encoder
          { fileId := mapping.fileId
            revisionId := ctx.mergeRevisionId
            parentRevisionIds := parents
            operation := .update
            path := mapping.path
            content := some content
            idempotencyKey := ctx.mergeKey } with
        | none => throw .failure
        | some envelope => do
            trySetState port fun state => enqueueAutomaticMerge state envelope
            setState port fun state => adoptRemoteMapping state mapping ctx.mergeRevisionId
            return true

def onMergedWrite (decoded : DecodedRevisionPayload) (content : JsString) :
    EStateM Thrown σ Bool :=
  match ctx.rules.classifyVaultPath decoded.path with
  | none => return false
  | some classified =>
      if ctx.producing then
        commitMergedChange port ctx event
          { fileId := event.revision.fileId
            path := classified.canonicalPath
            collisionKey := classified.collisionKey
            contentHash := hash ctx.digests (.text content)
            contentKind := .markdown }
          content
      else return false

/-- Merges the note on disk with the incoming text; `none` when it cannot. The
merge is queued before the disk changes. -/
def tryMergeApply (decoded : DecodedRevisionPayload) (onDisk : Content) :
    EStateM Thrown σ (Option RemoteApplyOutcome) :=
  match onDisk with
  | .bytes _ => return none
  | .text current => do
      match ← mergeAncestor port ctx event decoded.path with
      | none => return none
      | some ancestor =>
          match mergeText ancestor current (decoded.content.getD []) with
          | .error _ => throw .failure
          | .ok .conflict => return none
          | .ok (.merged merged) => do
              if ← onMergedWrite port ctx event decoded merged then
                if merged = current then do
                  setState port fun state =>
                    recordPathOwner state event.revision.fileId decoded.path
                  return some .noop
                else do
                  port.writeByPath .mergeWrite decoded.path merged (some (some current))
                  setState port fun state =>
                    recordPathOwner state event.revision.fileId decoded.path
                  return some .applied
              else return none

/-- Merges, or else keeps both. -/
def mergeOrConflict (decoded : DecodedRevisionPayload) (onDisk : Content) :
    EStateM Thrown σ RemoteApplyOutcome := do
  match ← tryMergeApply port ctx event decoded onDisk with
  | some outcome => return outcome
  | none => writeConflict port ctx event decoded

def writeIncoming (decoded : DecodedRevisionPayload) (preWriteOnDisk : Option Content) :
    EStateM Thrown σ Unit :=
  match incomingContent decoded with
  | .text incoming =>
      port.writeByPath .writeText decoded.path incoming
        (if lastWriterWins ctx decoded.path then none
        else some (preWriteOnDisk.map ctx.asText))
  | .bytes incoming => port.writeBinaryByPath .writeBinary decoded.path incoming

/-- Adopts the revision and writes its content, after a last look at the disk. -/
def publish (decoded : DecodedRevisionPayload) (cleanHash : Option ContentHash) :
    EStateM Thrown σ RemoteApplyOutcome := do
  let incomingHash := hash ctx.digests (incomingContent decoded)
  onRemoteWrite port ctx event decoded incomingHash
  let preWriteOnDisk ← readContent port .reread decoded.kind decoded.path
  let device ← get
  match preWriteOnDisk.filter (divergedSince ctx event (port.stateOf device) decoded cleanHash) with
  | some diverged => do
      onRemoteDelete port ctx event.revision.fileId decoded.path
      mergeOrConflict port ctx event decoded diverged
  | none =>
      catching
        (do
          writeIncoming port ctx decoded preWriteOnDisk
          setState port fun state =>
            recordApplied state event.revision.fileId decoded.path incomingHash
          return .applied)
        fun error =>
          if error = .parentFolderOccupied ∧ lastWriterWins ctx decoded.path = false then do
            onRemoteDelete port ctx event.revision.fileId decoded.path
            writeConflict port ctx event decoded
          else throw error

def overwrite (decoded : DecodedRevisionPayload) (onDisk : Option Content) :
    EStateM Thrown σ RemoteApplyOutcome := do
  let device ← get
  let cleanHash := onDisk.bind fun content =>
    cleanCausalHash ctx (port.stateOf device) event (hash ctx.digests content)
  match onDisk.filter (diverges ctx event (port.stateOf device) decoded) with
  | none => publish port ctx event decoded cleanHash
  | some diverged => do
      match ← tryMergeApply port ctx event decoded diverged with
      | some outcome => return outcome
      | none =>
          if lastWriterWins ctx decoded.path then publish port ctx event decoded cleanHash
          else writeConflict port ctx event decoded

/-- Nobody owns the path and nothing is there, but another file has it in another
case. -/
def caseTaken (device : σ) (decoded : DecodedRevisionPayload) (onDisk : Option Content) :
    Bool :=
  fileIdAtPath (port.stateOf device) decoded.path = none ∧ onDisk = none ∧
    lastWriterWins ctx decoded.path = false ∧
    (port.pathCaseVariant decoded.path device).any fun variant =>
      fileIdAtPath (port.stateOf device) variant ≠ some event.revision.fileId

/-- With the path this file's to write. -/
def settle (decoded : DecodedRevisionPayload) (onDisk : Option Content) :
    EStateM Thrown σ RemoteApplyOutcome :=
  if hasConverged decoded onDisk then converge port ctx event decoded
  else overwrite port ctx event decoded onDisk

/-- What the content found at the path decides. -/
def applyFound (decoded : DecodedRevisionPayload) (onDisk : Option Content) :
    EStateM Thrown σ RemoteApplyOutcome := do
  let device ← get
  if caseTaken port ctx event device decoded onDisk then writeConflict port ctx event decoded
  else
    match (fileIdAtPath (port.stateOf device) decoded.path).filter fun owner =>
      owner ≠ event.revision.fileId with
    | none => settle port ctx event decoded onDisk
    | some owner =>
        if hasConverged decoded onDisk ∧ owner < event.revision.fileId ∧
            heads ctx.accepted owner ≠ [] then
          return .noop
        else if ¬ hasConverged decoded onDisk ∧ lastWriterWins ctx decoded.path = false then
          writeConflict port ctx event decoded
        else do
          onRemoteDelete port ctx owner decoded.path
          setState port fun state => forgetBaseHash state owner
          settle port ctx event decoded onDisk

def applyContent (decoded : DecodedRevisionPayload) : EStateM Thrown σ RemoteApplyOutcome := do
  let onDisk ← readContent port .read decoded.kind decoded.path
  applyFound port ctx event decoded onDisk

def destinationTaken (decoded : DecodedRevisionPayload) : EStateM Thrown σ Bool := do
  let destinationOnDisk ← readContent port .readDestination decoded.kind decoded.path
  return destinationOnDisk.any fun content =>
    contentMatches content (incomingContent decoded) = false

/-- What the file found at a rename's source says. -/
def sourceBlocks (decoded : DecodedRevisionPayload) (previousOnDisk : Option Content) :
    EStateM Thrown σ Bool := do
  let device ← get
  if lastWriterWins ctx decoded.path then return false
  else if previousOnDisk.any (holdsLocalEdit ctx (port.stateOf device) event) then return true
  else destinationTaken port decoded

/-- Whether a rename must not go ahead: the file it moves was edited here, or
another content is in the way. -/
def renameBlocked (decoded : DecodedRevisionPayload) (previousPath : Path) :
    EStateM Thrown σ Bool := do
  let previousOnDisk ← readContent port .readPrevious decoded.kind previousPath
  sourceBlocks port ctx event decoded previousOnDisk

def applyUpsert (decoded : DecodedRevisionPayload) : EStateM Thrown σ RemoteApplyOutcome := do
  let device ← get
  match ownedPreviousPath event (port.stateOf device) decoded with
  | none => applyContent port ctx event decoded
  | some previousPath => do
      if ← renameBlocked port ctx event decoded previousPath then
        writeConflict port ctx event decoded
      else do
        onRemoteDelete port ctx event.revision.fileId previousPath
        applyContent port ctx event decoded

/-- Removes the file a tombstone is about, unless it was edited here. -/
def removeFound (decoded : DecodedRevisionPayload) (onDisk : Option Content) :
    EStateM Thrown σ RemoteApplyOutcome := do
  let device ← get
  if onDisk.any (holdsLocalEdit ctx (port.stateOf device) event) then
    writeConflict port ctx event decoded
  else do
    onRemoteDelete port ctx event.revision.fileId decoded.path
    port.deleteByPath .remove decoded.path
    setState port fun state => forgetPath state decoded.path
    setState port fun state => forgetBaseHash state event.revision.fileId
    return .applied

def applyDelete (decoded : DecodedRevisionPayload) : EStateM Thrown σ RemoteApplyOutcome := do
  let device ← get
  if fileIdAtPath (port.stateOf device) decoded.path ≠ some event.revision.fileId then
    return .applied
  else do
    let kind := ((ctx.rules.classifyVaultPath decoded.path).map ClassifiedPath.kind).getD .markdown
    let onDisk ← if lastWriterWins ctx decoded.path then pure none
      else readContent port .readTarget kind decoded.path
    removeFound port ctx event decoded onDisk

def applyDecoded (decoded : DecodedRevisionPayload) : EStateM Thrown σ RemoteApplyOutcome :=
  if decoded.operation = .delete then applyDelete port ctx event decoded
  else applyUpsert port ctx event decoded

/-- The destination of a rename is there: the source goes. -/
def vacate (decoded : DecodedRevisionPayload) (result : RemoteApplyOutcome) :
    EStateM Thrown σ Unit := do
  let device ← get
  match (ownedPreviousPath event (port.stateOf device) decoded).filter fun previousPath =>
    previousPath ≠ decoded.path ∧ (result = .applied ∨ result = .noop) with
  | none => return ()
  | some previousPath => do
      port.deleteByPath .remove previousPath
      setState port fun state => forgetPath state previousPath

def rollback : EStateM Thrown σ Unit :=
  if ctx.producing then trySetState port recover else return ()

def complete : EStateM Thrown σ Unit :=
  if ctx.producing then setState port fun state => completeProducerRecovery state ctx.recordId
  else return ()

/-- The apply proper, and how it ends: undone after a conflict or an error. -/
def attempt (decoded : DecodedRevisionPayload) : EStateM Thrown σ RemoteApplyOutcome :=
  catching
    (do
      let result ← applyDecoded port ctx event decoded
      vacate port event decoded result
      if result = .conflict then rollback port ctx else complete port ctx
      return result)
    fun error => do
      rollback port ctx
      if error = .applyDeferred then return .deferred else throw error

def checkpoint (decoded : DecodedRevisionPayload) : EStateM Thrown σ Unit :=
  if ctx.producing then
    trySetState port fun state =>
      checkpointApply state ctx.recordId event.revision.fileId (touchedPaths decoded)
  else return ()

/-- What happens under the file's lock. -/
def applyLocked (decoded : DecodedRevisionPayload) (bootstrap : Bool) :
    EStateM Thrown σ RemoteApplyOutcome := do
  let buffers ← port.openBufferStates event.revision.fileId
  let device ← get
  if buffers.any id then return .deferred
  else if isObsolete ctx (port.stateOf device) event bootstrap then return .noop
  else if isSettled ctx (port.stateOf device) event then return .noop
  else do
    checkpoint port ctx event decoded
    attempt port ctx event decoded

/-- Fetches the revision and applies it. -/
def applyFetched (bootstrap : Bool) : EStateM Thrown σ RemoteApplyOutcome :=
  match ctx.resolveRevision event.revision.revisionId with
  | none => throw .failure
  | some decoded => do
      ensureEvent ctx event
      if pathsInScope ctx decoded = false then throw .permanentApply
      else applyLocked port ctx event decoded bootstrap

/-- An obsolete revision is not even fetched. -/
def applyUnlessObsolete (bootstrap : Bool) : EStateM Thrown σ RemoteApplyOutcome := do
  let device ← get
  if isObsolete ctx (port.stateOf device) event bootstrap then return .noop
  else applyFetched port ctx event bootstrap

def applyRemote (bootstrap : Bool) : EStateM Thrown σ RemoteApplyOutcome :=
  if bootstrap then do
    ensureEvent ctx event
    applyUnlessObsolete port ctx event bootstrap
  else applyUnlessObsolete port ctx event bootstrap

end

/-- The port over the plugin's vault. -/
@[simps stateOf]
def vaultPort (ctx : ApplyContext) : FilePort Device where
  stateOf := Device.state
  withState state device := { device with state }
  openBufferStates := openBufferStates ctx.toVaultPort
  readByPath := readByPath ctx.toVaultPort
  readBinaryByPath := readBinaryByPath ctx.toVaultPort
  writeByPath := writeByPath ctx.toVaultPort
  writeBinaryByPath := writeBinaryByPath ctx.toVaultPort
  deleteByPath := deleteByPath ctx.toVaultPort
  writeConflictArtifact := writeConflictArtifact ctx.toVaultPort
  freeName name device := firstName device.disk name fun entry => entry = none
  pathCaseVariant path device := RemoteApply.pathCaseVariant ctx device.disk path

end Havemind.RemoteApply
