import Havemind.PayloadCodec

/-!
The schema of the inner payload, checked against the protected header before a
revision is queued. The three shapes of a payload are strict objects, so a key
of another shape is refused as well.
-/
namespace Havemind.RevisionPayload

open JsText JsonText VaultPath PayloadCodec RevisionSchema
open VaultPayload (carriageReturn)

section
variable (unicode : UnicodeMethods)

def usesLfLineEndings (text : JsString) : Bool := carriageReturn ∉ text

def isLowerHex (unit : CodeUnit) : Bool :=
  (48 ≤ unit.toNat ∧ unit.toNat ≤ 57) ∨ (97 ≤ unit.toNat ∧ unit.toNat ≤ 102)

/-- `^[0-9a-f]{64}$`. -/
def sha256Hex (text : JsString) : Bool := text.length = 64 ∧ text.all isLowerHex

def canonicalPath (path : JsString) : Bool :=
  match canonicalizeVaultPath unicode path with
  | .error _ => false
  | .ok canonical => canonical = path

/-- A required string that passes `check`. -/
def stringField (check : JsString → Bool) : Option Json → Bool
  | some (.string text) => check text
  | _ => false

/-- An optional string: absent, or one that passes `check`. -/
def optionalStringField (check : JsString → Bool) : Option Json → Bool
  | none => true
  | value => stringField check value

def nullField : Option Json → Bool
  | some .null => true
  | _ => false

/-- `.strict()`: every key of the object is a key of the shape. -/
def onlyKeys (keys : List JsString) : Json → Bool
  | .object members => members.all fun member => keys.contains member.1
  | _ => false

def contentOperations : List RevisionOperation :=
  [.initialImport, .create, .update, .rename, .restore, .reconcile]

def isContentOperation (value : Option Json) : Bool :=
  match operationOf value with
  | some operation => operation ∈ contentOperations
  | none => false

/-- The refinement both content shapes make: a rename has a previous path that
differs from the path, and nothing else has one. -/
def previousPathRefinement (json : Json) : Bool :=
  if operationOf (json.get (ascii "operation")) = some .rename then
    match json.get (ascii "previousPath"), json.get (ascii "path") with
    | some (.string previousPath), some (.string path) => previousPath ≠ path
    | _, _ => false
  else (json.get (ascii "previousPath")).isNone

def contentRevisionPayloadSchema (json : Json) : Bool :=
  onlyKeys [ascii "schemaVersion", ascii "operation", ascii "path", ascii "previousPath",
      ascii "content", ascii "plaintextHash", ascii "recipe"] json &&
    isVersionOne (json.get (ascii "schemaVersion")) &&
    isContentOperation (json.get (ascii "operation")) &&
    stringField (canonicalPath unicode) (json.get (ascii "path")) &&
    optionalStringField (canonicalPath unicode) (json.get (ascii "previousPath")) &&
    stringField usesLfLineEndings (json.get (ascii "content")) &&
    stringField sha256Hex (json.get (ascii "plaintextHash")) &&
    previousPathRefinement json

def binaryRevisionPayloadSchema (json : Json) : Bool :=
  onlyKeys [ascii "schemaVersion", ascii "operation", ascii "kind", ascii "path",
      ascii "previousPath", ascii "contentBase64", ascii "blobByteHash", ascii "recipe"] json &&
    isVersionOne (json.get (ascii "schemaVersion")) &&
    isContentOperation (json.get (ascii "operation")) &&
    stringField (· = ascii "binary") (json.get (ascii "kind")) &&
    stringField (canonicalPath unicode) (json.get (ascii "path")) &&
    optionalStringField (canonicalPath unicode) (json.get (ascii "previousPath")) &&
    stringField isCanonicalBase64 (json.get (ascii "contentBase64")) &&
    stringField sha256Hex (json.get (ascii "blobByteHash")) &&
    previousPathRefinement json

def tombstoneRevisionPayloadSchema (json : Json) : Bool :=
  onlyKeys [ascii "schemaVersion", ascii "operation", ascii "path", ascii "content",
      ascii "plaintextHash", ascii "recipe"] json &&
    isVersionOne (json.get (ascii "schemaVersion")) &&
    stringField (· = ascii "delete") (json.get (ascii "operation")) &&
    stringField (canonicalPath unicode) (json.get (ascii "path")) &&
    nullField (json.get (ascii "content")) &&
    nullField (json.get (ascii "plaintextHash"))

def innerRevisionPayloadSchema (json : Json) : Bool :=
  contentRevisionPayloadSchema unicode json || binaryRevisionPayloadSchema unicode json ||
    tombstoneRevisionPayloadSchema unicode json

end

def isRootOperation (operation : RevisionOperation) : Bool :=
  operation = .create ∨ operation = .initialImport

/-- The text of an operation inside an error message. -/
def operationName : RevisionOperation → String
  | .initialImport => "initial-import"
  | .create => "create"
  | .update => "update"
  | .rename => "rename"
  | .restore => "restore"
  | .reconcile => "reconcile"
  | .delete => "delete"

/-- `isIdentifier` is the library's check of a UUID. -/
def protectedRevisionHeaderSchema (isIdentifier : Id → Bool) (header : ProtectedRevisionHeader) :
    Bool :=
  isIdentifier header.vaultId && isIdentifier header.fileId && isIdentifier header.revisionId &&
    header.parentRevisionIds.all isIdentifier && isIdentifier header.expectedMemberId &&
    isIdentifier header.expectedDeviceId && header.schemaValid

def validateRevisionPayloadAgainstHeader (unicode : UnicodeMethods) (isIdentifier : Id → Bool)
    (header : ProtectedRevisionHeader) (payload : Json) :
    Except Thrown (ProtectedRevisionHeader × Json) :=
  if !protectedRevisionHeaderSchema isIdentifier header then .error .zodError
  else if !innerRevisionPayloadSchema unicode payload then .error .zodError
  else match operationOf (payload.get (ascii "operation")) with
    | none => .error .zodError
    | some operation =>
        if isRootOperation operation && header.parentRevisionIds.length ≠ 0 then
          .error (.error s!"{operationName operation} must not have a parent revision.")
        else if !isRootOperation operation && header.parentRevisionIds.length = 0 then
          .error (.error s!"{operationName operation} requires at least one parent revision.")
        else if operation = .reconcile && header.parentRevisionIds.length < 2 then
          .error (.error "reconcile requires at least two parent revisions.")
        else .ok (header, payload)

end Havemind.RevisionPayload
