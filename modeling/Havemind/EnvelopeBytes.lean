import Havemind.RevisionEnvelope
import Havemind.RevisionPayload

/-!
The envelope of a revision, down to its bytes: the payload object with its
keys in the order they are written, its JSON text, and the digest of the text.
Everything the peers can refuse is refused here first.
-/
namespace Havemind.EnvelopeBytes

open JsText JsonText Utf16 VaultPath PayloadCodec RevisionSchema RevisionPayload
open VaultPayload (SyncContentKind canonicalizeMarkdown)
open RevisionEnvelope (headerParents)

/-- What the code takes from its runtime and from the schema library. -/
structure Platform extends UnicodeMethods where
  digest : List Byte → List Byte
  isIdentifier : Id → Bool

inductive RevisionEnvelopeOperation
  | initialImport
  | create
  | update
  | rename
  | delete
  deriving DecidableEq

def RevisionEnvelopeOperation.toRevision : RevisionEnvelopeOperation → RevisionOperation
  | .initialImport => .initialImport
  | .create => .create
  | .update => .update
  | .rename => .rename
  | .delete => .delete

structure RevisionEnvelopeIdentity where
  vaultId : Id
  fileId : Id
  memberId : Id
  deviceId : Id

structure BuildRevisionEnvelopeInput where
  identity : RevisionEnvelopeIdentity
  revisionId : Id
  parentRevisionIds : List Id
  operation : RevisionEnvelopeOperation
  path : JsString
  previousPath : Option JsString := none
  kind : Option SyncContentKind := none
  content : Option JsString
  binaryContentBase64 : Option JsString := none
  idempotencyKey : JsString
  maxPayloadBytes : Option ℕ := none

structure BuiltRevisionEnvelope where
  header : ProtectedRevisionHeader
  payloadBase64 : JsString
  contentHash : JsString
  revisionId : Id
  fileId : Id
  idempotencyKey : JsString

def protocolVersion : ProtocolVersion := ⟨1, 0⟩

def defaultMaxRevisionPayloadBytes : ℕ := 512 * 1024

section
variable (platform : Platform)

def hexDigitText (n : ℕ) : JsString := [hexDigit n]

/-- Two lower-case hexadecimal digits for each byte. -/
def bytesToHex (bytes : List Byte) : JsString :=
  bytes.flatMap fun byte => hexDigitText (byte.toNat / 16) ++ hexDigitText (byte.toNat % 16)

def sha256HexOf (bytes : List Byte) : JsString := bytesToHex (platform.digest bytes)

def hashBlob (bytes : List Byte) : JsString := sha256HexOf platform bytes

def hashPlaintext (content : JsString) : JsString :=
  sha256HexOf platform (encodeUtf8 (canonicalizeMarkdown content))

end

variable (platform : Platform)

def legacyRecipe : Option Json → Json
  | some (.string content) =>
      .object [(ascii "version", .number (ascii "1")),
        (ascii "parts", .array (if content = [] then [] else
          [.object [(ascii "type", .string (ascii "literal")), (ascii "text", .string content)]]))]
  | _ => .null

def canonicalize (path : JsString) : Except Thrown JsString :=
  match canonicalizeVaultPath platform.toUnicodeMethods path with
  | .error message => .error (.error message)
  | .ok canonical => .ok canonical

/-- The member a rename adds behind the path. -/
def previousPathMembers (input : BuildRevisionEnvelopeInput) :
    Except Thrown (List (JsString × Json)) :=
  if input.operation = .rename then
    match input.previousPath with
    | none => .error (.error "A rename revision requires a previousPath.")
    | some previousPath =>
        (canonicalize platform previousPath).map fun canonical =>
          [(ascii "previousPath", .string canonical)]
  else .ok []

def buildInnerPayload (input : BuildRevisionEnvelopeInput) (path : JsString) :
    Except Thrown (List (JsString × Json)) :=
  let version := (ascii "schemaVersion", Json.number (ascii "1"))
  let operation := (ascii "operation", Json.string input.operation.toRevision.text)
  if input.operation = .delete then
    .ok [version, operation, (ascii "path", .string path), (ascii "content", .null),
      (ascii "plaintextHash", .null)]
  else if input.kind = some .binary then
    let contentBase64 := input.binaryContentBase64.getD []
    (previousPathMembers platform input).bind fun previous =>
      match base64ToBytes contentBase64 with
      | none => .error .invalidCharacter
      | some bytes =>
          .ok ([version, operation, (ascii "kind", .string (ascii "binary")),
            (ascii "path", .string path)] ++ previous ++
            [(ascii "contentBase64", .string contentBase64),
              (ascii "blobByteHash", .string (hashBlob platform bytes))])
  else
    let content := canonicalizeMarkdown (input.content.getD [])
    (previousPathMembers platform input).map fun previous =>
      [version, operation, (ascii "path", .string path)] ++ previous ++
        [(ascii "content", .string content),
          (ascii "plaintextHash", .string (hashPlaintext platform content))]

/-- The payload object: a revision with two or more parents carries the recipe
behind its other members. -/
def payloadObject (input : BuildRevisionEnvelopeInput) (path : JsString) : Except Thrown Json :=
  (buildInnerPayload platform input path).map fun members =>
    if (headerParents input.parentRevisionIds).length ≥ 2 then
      .object (members ++ [(ascii "recipe", legacyRecipe ((Json.object members).get
        (ascii "content")))])
    else .object members

def envelopeHeader (input : BuildRevisionEnvelopeInput) : ProtectedRevisionHeader :=
  { protocol := protocolVersion
    vaultId := input.identity.vaultId
    fileId := input.identity.fileId
    revisionId := input.revisionId
    parentRevisionIds := headerParents input.parentRevisionIds
    expectedMemberId := input.identity.memberId
    expectedDeviceId := input.identity.deviceId }

def buildRevisionEnvelope (input : BuildRevisionEnvelopeInput) :
    Except Thrown BuiltRevisionEnvelope := do
  let path ← canonicalize platform input.path
  let header := envelopeHeader input
  let payload ← payloadObject platform input path
  let _ ← validateRevisionPayloadAgainstHeader platform.toUnicodeMethods platform.isIdentifier
    header payload
  let bytes := encodeUtf8 (stringify payload)
  let maxPayloadBytes := input.maxPayloadBytes.getD defaultMaxRevisionPayloadBytes
  if bytes.length > maxPayloadBytes then
    throw (.payloadTooLarge path bytes.length maxPayloadBytes)
  pure
    { header
      payloadBase64 := bytesToBase64 bytes
      contentHash := sha256HexOf platform bytes
      revisionId := input.revisionId
      fileId := input.identity.fileId
      idempotencyKey := input.idempotencyKey }

end Havemind.EnvelopeBytes
