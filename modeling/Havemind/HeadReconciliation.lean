import Havemind.Diff3
import Havemind.OutboxRepository
import Havemind.RevisionHistory

/-!
The reconciliation of a file's heads: each head the device does not descend from is merged
into the note's text behind a synthetic tip, and when the text comes back unchanged the
queued revisions are replaced by one that names every head. What the server's log holds and
what the vault and the editors answer are inputs.
-/
namespace Havemind.HeadReconciliation

open JsText RevisionSchema SyncRunner VaultPayload Diff3 RevisionEnvelope RevisionHistory
  DurableState DurableOperations OutboxRepository

/-- What ends a reconciliation: an unreadable payload, a failed merge, or what ends the
producer's commit. -/
inductive ReconcileError
  | payload
  | merge (error : JsError)
  | repository (error : RepositoryError)
  deriving DecidableEq

/-- What reconciling one file reads outside the document, the two ids it makes and the
clock when it commits. -/
structure FileReads where
  unsaved : Bool
  initialDisk : Option JsString
  disk : Option JsString
  unsavedSince : Bool
  revisionId : Id
  recordId : Id
  now : Timestamp

/-- `resolveRevision` is what the server has of a revision and `decodePayload` what a queued
payload decodes to, `none` when that throws; `reconcileTip` names a synthetic tip. -/
structure Ports where
  options : SyncStateOptions
  digests : ContentDigests
  builder : EnvelopeBuilder
  decodePayload : JsString → Option DecodedRevisionPayload
  resolveRevision : RemoteEvent → Option DecodedRevisionPayload
  reconcileTip : Id → Id → Id
  accepted : List RemoteEvent
  activeApplies : List Id

def outboxEvent (envelope : OutboxEnvelope) : RemoteEvent where
  serverSequence := 0
  revision :=
    { revisionId := envelope.revisionId
      fileId := envelope.fileId
      contentHash := envelope.contentHash
      parentRevisionIds := if envelope.parents.length > 0 then some envelope.parents else none
      authorMembershipId := none
      acceptedAt := none }

def pendingOf (state : PersistedSyncState) (fileId : Id) : List OutboxEnvelope :=
  state.outbox.filter fun envelope => envelope.fileId = fileId

def graphOf (accepted : List RemoteEvent) (state : PersistedSyncState) (fileId : Id) :
    List RemoteEvent :=
  graphWith accepted fileId (state.outbox.map outboxEvent)

def allHeads (accepted : List RemoteEvent) : List RemoteEvent :=
  let parents := accepted.flatMap fun event => event.revision.parentRevisionIds.getD []
  accepted.filter fun event => event.revision.revisionId ∉ parents

/-- The graph with the tip the heads folded so far lead to. -/
structure Tip where
  graph : List RemoteEvent
  tip : Id
  deriving DecidableEq

def Tip.lineage (tip : Tip) : List Id := ancestors tip.graph tip.tip

def Tip.extend (reconcileTip : Id → Id → Id) (tip : Tip) (fileId remoteId : Id) : Tip where
  graph :=
    { serverSequence := 0
      revision :=
        { revisionId := reconcileTip tip.tip remoteId
          fileId
          contentHash := emptyText
          parentRevisionIds := some [tip.tip, remoteId]
          authorMembershipId := none
          acceptedAt := none } } :: tip.graph
  tip := reconcileTip tip.tip remoteId

/-- An ancestor of the tip that is the same snapshot over the same parents as a merge on
the server: two devices may write the same merge. -/
def equivalentMerge (tip : Tip) (head : RemoteEvent) : Option RemoteEvent :=
  let remoteParents := head.revision.parentRevisionIds.getD []
  (tip.lineage.reverse.filterMap (eventIn tip.graph)).find? fun event =>
    let parents := event.revision.parentRevisionIds.getD []
    remoteParents.length > 1 ∧ event.revision.contentHash = head.revision.contentHash ∧
      parents.length = remoteParents.length ∧ parents.all fun id => remoteParents.contains id

/-- The base a head is merged against. -/
def baseOf (tip : Tip) (head : RemoteEvent) : Option RemoteEvent :=
  equivalentMerge tip head <|> commonAncestor tip.graph tip.tip head.revision.revisionId

section
variable (ports : Ports) (state : PersistedSyncState) (mapping : LocalFileMapping)

/-- The payload of a revision, from the queue or else from the server. -/
def payload (event : RemoteEvent) : Option DecodedRevisionPayload :=
  match state.outbox.find? fun envelope => envelope.revisionId = event.revision.revisionId with
  | some queued => ports.decodePayload queued.payloadBase64
  | none => ports.resolveRevision event

/-- The text of a note that is still at its path. -/
def noteText (decoded : DecodedRevisionPayload) : Option JsString :=
  if decoded.kind = .binary ∨ decoded.operation = .delete ∨ decoded.path ≠ mapping.path then none
  else decoded.content

/-- The text of a revision of the file; an inner `none` when it has none to merge. -/
def textOf (event : RemoteEvent) : Except ReconcileError (Option JsString) :=
  match payload ports state event with
  | none => .error .payload
  | some decoded => .ok (noteText mapping decoded)

/-- The running text with a head's text merged in; an inner `none` when they conflict. -/
def mergeHead (tip : Tip) (head : RemoteEvent) (content remote : JsString) :
    Except ReconcileError (Option JsString) :=
  if remote = content then .ok (some content)
  else
    match baseOf tip head with
    | none => .ok none
    | some base =>
      match textOf ports state mapping base with
      | .error error => .error error
      | .ok none => .ok none
      | .ok (some ancestor) =>
        match mergeText ancestor content remote with
        | .error error => .error (.merge error)
        | .ok .conflict => .ok none
        | .ok (.merged text) => .ok (some text)

/-- The heads the device does not descend from, merged one after another; an inner `none`
when one of them cannot be. -/
def foldHeads (tip : Tip) (content : JsString) :
    List RemoteEvent → Except ReconcileError (Option JsString)
  | [] => .ok (some content)
  | head :: rest =>
    if head.revision.revisionId ∈ tip.lineage then foldHeads tip content rest
    else
      match textOf ports state mapping head with
      | .error error => .error error
      | .ok none => .ok none
      | .ok (some remote) =>
        match mergeHead ports state mapping tip head content remote with
        | .error error => .error error
        | .ok none => .ok none
        | .ok (some merged) =>
          foldHeads (tip.extend ports.reconcileTip mapping.fileId head.revision.revisionId)
            merged rest

end

section

variable (ports : Ports) (reads : FileReads) (state : PersistedSyncState)
  (mapping : LocalFileMapping)

/-- The file's head, when the note on disk is what the producer holds for it and every
queued revision of the file is one of the head's ancestors, with the text on disk. -/
def startOf : Option (Id × JsString) :=
  let pending := pendingOf state mapping.fileId
  let heads := heads ports.accepted mapping.fileId
  match versionFor state.producerState mapping.fileId, reads.initialDisk with
  | some (localHead, contentHash), some initialDisk =>
    if reads.unsaved ∨ contentHash ≠ mapping.contentHash ∨ heads.length = 0 ∨
        (heads.length = 1 ∧ pending.length = 0) ∨
        (0 < pending.length ∧ pending.all fun envelope => envelope.parents.length ≤ 1) ∨
        (pending.any fun envelope => envelope.revisionId ∉
          ancestors (graphOf ports.accepted state mapping.fileId) localHead) ∨
        hash ports.digests (.text initialDisk) ≠ mapping.contentHash then none
    else some (localHead, canonicalizeMarkdown initialDisk)
  | _, _ => none

/-- The only head, when it already holds the text. -/
def existingRevision (content : JsString) : Except ReconcileError (Option Id) :=
  match heads ports.accepted mapping.fileId with
  | [onlyHead] =>
    match textOf ports state mapping onlyHead with
    | .error error => .error error
    | .ok text => .ok (if text = some content then some onlyHead.revision.revisionId else none)
  | _ => .ok none

/-- The body of the loop over the files, up to its commit; an inner `none` when there is
nothing to commit. -/
def reconcileFile : Except ReconcileError (Option ResolutionInput) :=
  let heads := heads ports.accepted mapping.fileId
  match startOf ports reads state mapping with
  | none => .ok none
  | some (localHead, initialContent) =>
    match foldHeads ports state mapping ⟨graphOf ports.accepted state mapping.fileId, localHead⟩
        initialContent heads with
    | .error error => .error error
    | .ok none => .ok none
    | .ok (some content) =>
      -- The reads in between must not let a newer save on disk be replaced.
      if initialContent ≠ content ∨ reads.disk.map canonicalizeMarkdown ≠ some content ∨
          reads.unsavedSince then .ok none
      else
        match existingRevision ports state mapping content with
        | .error error => .error error
        | .ok existingRevisionId =>
          .ok (some
            { mapping
              content
              expectedHead := localHead
              pendingIds := (pendingOf state mapping.fileId).map OutboxEnvelope.revisionId
              parents := heads.map fun head => head.revision.revisionId
              existingRevisionId })

/-- A committed head resolution: its transaction, what it was read from and asked for. -/
structure Resolution extends Transaction where
  reads : FileReads
  input : ResolutionInput

def Resolution.fileId (resolution : Resolution) : Id := resolution.input.mapping.fileId

/-- The commit the body of the loop ends with. -/
def resolve (input : ResolutionInput) :
    Except RepositoryError (PersistedSyncState × Option Transaction) :=
  commitHeadResolution ports.options ports.builder reads.now ports.activeApplies reads.revisionId
    reads.recordId state input

end

section
variable (ports : Ports) (reads : ℕ → FileReads) (queued : List Id)

/-- Whether a file can need reconciling: only one with several heads, or with one and
something queued. -/
def candidate (mapping : LocalFileMapping) : Bool :=
  let count := ((allHeads ports.accepted).filter fun event =>
    event.revision.fileId = mapping.fileId).length
  !(mapping.contentKind = some .binary ∨ count = 0 ∨ (count = 1 ∧ mapping.fileId ∉ queued))

/-- The resolutions committed over the files; a throw ends the loop. -/
def reconcileEach (turn : ℕ) (state : PersistedSyncState) :
    List LocalFileMapping → List Resolution
  | [] => []
  | mapping :: rest =>
    if candidate ports queued mapping then
      match reconcileFile ports (reads turn) state mapping with
      | .error _ => []
      | .ok none => reconcileEach (turn + 1) state rest
      | .ok (some input) =>
        match resolve ports (reads turn) state input with
        | .error _ => []
        | .ok (next, found) =>
          (found.map fun transaction => ⟨transaction, reads turn, input⟩).toList ++
            reconcileEach (turn + 1) next rest
    else reconcileEach (turn + 1) state rest

end

/-- The resolutions one reconciliation commits. Listing the files recovers the unfinished
transactions first. -/
def reconcileHeads (ports : Ports) (reads : ℕ → FileReads) (now : Timestamp)
    (state : PersistedSyncState) : List Resolution :=
  match recoverLocked ports.options now ports.activeApplies state with
  | none => []
  | some current =>
    reconcileEach ports reads (state.outbox.map OutboxEnvelope.fileId) 0 current
      current.producerState.mappings

end Havemind.HeadReconciliation
