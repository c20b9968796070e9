import Havemind.JsText

/-!
The protected header and the receipt of a revision, and the checks their
schemas make. Identifiers are only compared for equality and in ascending
order, so they are natural numbers here; a content address is one as well.
Fields with a single admissible value (payload encoding, semantics) are left
out.
-/
namespace Havemind.RevisionSchema

open JsText

abbrev Id := ℕ

abbrev BlobHash := ℕ

/-- A date text the schemas accept, by its instant. -/
abbrev Timestamp := ℕ

def maxSafeInteger : ℕ := 9007199254740991

def maxParentRevisionIds : ℕ := 32

structure ProtocolVersion where
  major : ℕ
  minor : ℕ
  deriving DecidableEq

structure ProtectedRevisionHeader where
  protocol : ProtocolVersion
  vaultId : Id
  fileId : Id
  revisionId : Id
  parentRevisionIds : List Id
  expectedMemberId : Id
  expectedDeviceId : Id
  deriving DecidableEq

/-- No entry is greater than the one behind it. -/
def ascending : List Id → Bool
  | previous :: current :: rest => !(current < previous) && ascending (current :: rest)
  | _ => true

def ProtectedRevisionHeader.schemaValid (header : ProtectedRevisionHeader) : Bool :=
  header.parentRevisionIds.length ≤ maxParentRevisionIds ∧
    header.parentRevisionIds.Nodup ∧ header.revisionId ∉ header.parentRevisionIds ∧
    ascending header.parentRevisionIds

structure OpaqueBlobReceipt where
  revisionId : Id
  memberId : Id
  deviceId : Id
  serverSequence : ℕ
  serverTime : Timestamp
  blobHash : BlobHash
  byteLength : ℕ
  parentRevisionIds : Option (List Id)
  deriving DecidableEq

def OpaqueBlobReceipt.schemaValid (receipt : OpaqueBlobReceipt) : Bool :=
  0 < receipt.serverSequence ∧ receipt.serverSequence ≤ maxSafeInteger ∧
    receipt.byteLength ≤ maxSafeInteger ∧
    (receipt.parentRevisionIds.getD []).length ≤ maxParentRevisionIds

def maxIdempotencyKeyLength : ℕ := 200

def containsAsciiControlCharacter (value : JsString) : Bool :=
  value.any fun unit => unit ≤ 0x1f ∨ unit = 0x7f

def idempotencyKeyValid (value : JsString) : Bool :=
  ¬ (value.all isWhitespace ∨ maxIdempotencyKeyLength < value.length ∨
    containsAsciiControlCharacter value)

end Havemind.RevisionSchema
