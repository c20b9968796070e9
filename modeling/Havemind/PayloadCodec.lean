import Havemind.Base64
import Havemind.VaultPath
import Havemind.VaultPayload

/-!
The receiving side of a revision's payload: the bytes are UTF-8 JSON, and only
the fields that materialise the revision are checked and read.
-/
namespace Havemind.PayloadCodec

open JsText JsonText Utf16 VaultPath
open VaultPayload (SyncContentKind)

/-- What the code throws. A schema error and a decoding error of `atob` carry
texts of other libraries. -/
inductive Thrown
  | error (message : String)
  | zodError
  | invalidCharacter
  | payloadTooLarge (path : JsString) (byteLength maxByteLength : ℕ)

def encodeSlice : ℕ := 8192

def decodeSlice : ℕ := 4 * 8192

/-- The slices of a text, in order; `fuel` bounds their number. -/
def slices {α : Type} (size : ℕ) : ℕ → List α → List (List α)
  | 0, _ => []
  | fuel + 1, text =>
      if text.isEmpty then [] else text.take size :: slices size fuel (text.drop size)

/-- The binary string is put together from the slices; its units are the bytes. -/
def bytesToBase64 (bytes : List Byte) : JsString :=
  Base64.btoa (slices encodeSlice bytes.length bytes).flatten

/-- The slices are decoded into a buffer of the expected size: what does not
fit is dropped, what is missing stays zero. -/
def base64ToBytes (base64 : JsString) : Option (List Byte) :=
  let padding :=
    if (ascii "==").isSuffixOf base64 then 2 else if (ascii "=").isSuffixOf base64 then 1 else 0
  let size := (base64.length - padding) * 3 / 4
  ((slices decodeSlice base64.length base64).mapM Base64.atob).map fun parts =>
    (parts.flatten ++ List.replicate size 0).take size

def isBase64Unit (unit : CodeUnit) : Bool :=
  let code := unit.toNat
  (0x41 ≤ code ∧ code ≤ 0x5a) ∨ (0x61 ≤ code ∧ code ≤ 0x7a) ∨ (0x30 ≤ code ∧ code ≤ 0x39) ∨
    code = 0x2b ∨ code = 0x2f

def isCanonicalBase64 (value : JsString) : Bool :=
  let length := value.length
  let bodyEnd :=
    if length > 0 ∧ value[length - 1]? = some 0x3d then
      if value[length - 2]? = some 0x3d then length - 2 else length - 1
    else length
  length % 4 = 0 ∧ (value.take bodyEnd).all isBase64Unit

inductive RevisionOperation
  | initialImport
  | create
  | update
  | rename
  | restore
  | reconcile
  | delete
  deriving DecidableEq

def RevisionOperation.text : RevisionOperation → JsString
  | .initialImport => ascii "initial-import"
  | .create => ascii "create"
  | .update => ascii "update"
  | .rename => ascii "rename"
  | .restore => ascii "restore"
  | .reconcile => ascii "reconcile"
  | .delete => ascii "delete"

def operations : List RevisionOperation :=
  [.initialImport, .create, .update, .rename, .restore, .reconcile, .delete]

def operationOfText (text : JsString) : Option RevisionOperation :=
  operations.find? fun operation => operation.text = text

theorem operationOfText_text (operation : RevisionOperation) :
    operationOfText operation.text = some operation := by
  cases operation <;> decide

structure DecodedRevisionPayload where
  operation : RevisionOperation
  path : JsString
  previousPath : Option JsString
  kind : SyncContentKind
  content : Option JsString
  binaryContent : Option (List Byte)
  deriving DecidableEq

variable (unicode : UnicodeMethods)

def assertCanonicalPath (value : Option Json) (field : String) : Except Thrown JsString :=
  match value with
  | some (.string text) =>
      match canonicalizeVaultPath unicode text with
      | .error _ => .error (.error s!"Revision payload {field} is a reserved or invalid vault path.")
      | .ok canonical =>
          if canonical ≠ text then
            .error (.error s!"Revision payload {field} is not a canonical vault path.")
          else .ok text
  | _ => .error (.error s!"Revision payload {field} must be a string.")

def decodeBase64 (base64 : JsString) : Except Thrown (List Byte) :=
  if !isCanonicalBase64 base64 then
    .error (.error "Binary revision content is not valid base64.")
  else match base64ToBytes base64 with
    | none => .error .invalidCharacter
    | some bytes => .ok bytes

def isVersionOne : Option Json → Bool
  | some (.number literal) => isOne literal
  | _ => false

def operationOf : Option Json → Option RevisionOperation
  | some (.string text) => operationOfText text
  | _ => none

/-- The fields behind the path, by the payload's kind. -/
def decodeContent (json : Json) (operation : RevisionOperation) (path : JsString)
    (previousPath : Option JsString) : Except Thrown DecodedRevisionPayload :=
  match json.get (ascii "kind") with
  | some (.string kind) =>
      if kind = ascii "binary" then
        if operation = .delete then
          .error (.error "A binary payload cannot be a delete tombstone.")
        else match json.get (ascii "contentBase64") with
          | some (.string base64) =>
              (decodeBase64 base64).map fun binaryContent =>
                { operation, path, previousPath, kind := .binary, content := none
                  binaryContent := some binaryContent }
          | _ => .error (.error "A binary revision must carry string contentBase64.")
      else decodeText
  | _ => decodeText
where
  decodeText : Except Thrown DecodedRevisionPayload :=
    let decoded (content : Option JsString) : DecodedRevisionPayload :=
      { operation, path, previousPath, kind := .markdown, content, binaryContent := none }
    if operation = .delete then
      match json.get (ascii "content") with
      | none | some .null => .ok (decoded none)
      | some _ => .error (.error "A delete tombstone must not carry content.")
    else match json.get (ascii "content") with
      | some (.string content) => .ok (decoded (some content))
      | _ => .error (.error "A content revision must carry string content.")

def decodeFields (json : Json) : Except Thrown DecodedRevisionPayload :=
  match json with
  | .object _ =>
      if !isVersionOne (json.get (ascii "schemaVersion")) then
        .error (.error "Unsupported revision payload schema version.")
      else match operationOf (json.get (ascii "operation")) with
        | none => .error (.error "Revision payload has an unknown operation.")
        | some operation => do
            let path ← assertCanonicalPath unicode (json.get (ascii "path")) "path"
            let previousPath ← match json.get (ascii "previousPath") with
              | none | some .null => pure none
              | some value =>
                  (assertCanonicalPath unicode (some value) "previousPath").map some
            decodeContent json operation path previousPath
  | _ => .error (.error "Revision payload must be a JSON object.")

inductive PayloadInput
  | text (value : JsString)
  | bytes (value : List Byte)

def decodeRevisionPayload (input : PayloadInput) : Except Thrown DecodedRevisionPayload :=
  let json := match input with
    | .text value => parse value
    | .bytes value => (decodeUtf8 value).bind parse
  match json with
  | none => .error (.error "Revision payload is not valid UTF-8 JSON.")
  | some json => decodeFields unicode json

end Havemind.PayloadCodec
