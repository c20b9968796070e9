import Havemind.SyncState
import Havemind.SyncTransport

/-!
The envelope of a revision this device queues: the protected header with its
parents in order, and the payload. What the payload's bytes are, and whether
header and payload pass their checks and the size limit, is the encoder's.
-/
namespace Havemind.RevisionEnvelope

open JsText RevisionSchema SyncState SyncTransport VaultPayload

/-- `encode` gives the address and the length of the payload's bytes; `none`
when they are refused. -/
structure EnvelopeEncoder where
  protocol : ProtocolVersion
  identity : PushHeaderIdentity
  encode : ProtectedRevisionHeader → DecodedRevisionPayload → Option (BlobHash × ℕ)

structure BuildRevisionEnvelopeInput where
  fileId : Id
  revisionId : Id
  parentRevisionIds : List Id
  operation : RevisionOperation
  path : Path
  previousPath : Option Path := none
  kind : SyncContentKind := .markdown
  content : Option JsString
  binaryContent : Option Bytes := none
  idempotencyKey : JsString

def buildInnerPayload (input : BuildRevisionEnvelopeInput) : DecodedRevisionPayload :=
  let previousPath := if input.operation = .rename then input.previousPath else none
  match input.operation, input.kind with
  | .delete, _ =>
      { operation := .delete
        path := input.path
        previousPath := none
        kind := .markdown
        content := none
        binaryContent := none }
  | operation, .binary =>
      { operation
        path := input.path
        previousPath
        kind := .binary
        content := none
        binaryContent := some (input.binaryContent.getD []) }
  | operation, .markdown =>
      { operation
        path := input.path
        previousPath
        kind := .markdown
        content := some (canonicalizeMarkdown (input.content.getD []))
        binaryContent := none }

/-- The parents without repetitions, in ascending order. -/
def headerParents (parents : List Id) : List Id := parents.dedup.mergeSort (· ≤ ·)

def buildRevisionEnvelope (encoder : EnvelopeEncoder) (input : BuildRevisionEnvelopeInput) :
    Option OutboxEnvelope :=
  let header : ProtectedRevisionHeader :=
    { protocol := encoder.protocol
      vaultId := encoder.identity.vaultId
      fileId := input.fileId
      revisionId := input.revisionId
      parentRevisionIds := headerParents input.parentRevisionIds
      expectedMemberId := encoder.identity.memberId
      expectedDeviceId := encoder.identity.deviceId }
  let payload := buildInnerPayload input
  if input.operation = .rename ∧ input.previousPath = none then none
  else (encoder.encode header payload).map fun bytes =>
    { header
      idempotencyKey := input.idempotencyKey
      revisionId := input.revisionId
      fileId := input.fileId
      contentHash := bytes.1
      byteLength := bytes.2
      payload }

theorem mem_headerParents {parents : List Id} {id : Id} :
    id ∈ headerParents parents ↔ id ∈ parents := by
  rw [headerParents, List.mem_mergeSort, List.mem_dedup]

end Havemind.RevisionEnvelope
