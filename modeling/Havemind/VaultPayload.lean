import Havemind.RevisionSchema

/-!
What a revision says about a file of the vault: its operation, its paths and a
note's text or an attachment's bytes. Notes are compared and hashed in canonical
form, attachments byte for byte. The rules about paths and the two digests are
parameters, so that everything behind this module holds whatever they are.
-/
namespace Havemind.VaultPayload

open JsText

abbrev Path := ℕ

abbrev Bytes := List UInt8

def byteOrderMark : CodeUnit := 0xFEFF

def carriageReturn : CodeUnit := 13

def dropByteOrderMark : JsString → JsString
  | [] => []
  | unit :: rest => if unit = byteOrderMark then rest else unit :: rest

/-- `\r\n` and a lone `\r` become `\n`. -/
def unixNewlines : JsString → JsString
  | [] => []
  | [unit] => [if unit = carriageReturn then lineFeed else unit]
  | unit :: next :: rest =>
      if unit = carriageReturn then
        if next = lineFeed then lineFeed :: unixNewlines rest
        else lineFeed :: unixNewlines (next :: rest)
      else unit :: unixNewlines (next :: rest)

def dropTrailingNewlines (text : JsString) : JsString :=
  (text.reverse.dropWhile fun unit => unit = lineFeed).reverse

def canonicalizeMarkdown (content : JsString) : JsString :=
  let withoutTrailingNewlines := dropTrailingNewlines (unixNewlines (dropByteOrderMark content))
  if withoutTrailingNewlines.length = 0 then [] else withoutTrailingNewlines ++ [lineFeed]

inductive SyncContentKind
  | markdown
  | binary
  deriving DecidableEq

/-- A note's text, or an attachment's raw bytes. -/
inductive Content
  | text (value : JsString)
  | bytes (value : Bytes)
  deriving DecidableEq

inductive RevisionOperation
  | create
  | update
  | rename
  | delete
  deriving DecidableEq

structure DecodedRevisionPayload where
  operation : RevisionOperation
  path : Path
  previousPath : Option Path
  kind : SyncContentKind
  content : Option JsString
  binaryContent : Option Bytes
  deriving DecidableEq

def incomingContent (decoded : DecodedRevisionPayload) : Content :=
  match decoded.kind with
  | .binary => .bytes (decoded.binaryContent.getD [])
  | .markdown => .text (decoded.content.getD [])

/-- Canonical forms of notes, and bytes, are compared. -/
def contentMatches : Content → Content → Bool
  | .text onDisk, .text incoming => canonicalizeMarkdown onDisk = canonicalizeMarkdown incoming
  | .bytes onDisk, .bytes incoming => onDisk = incoming
  | _, _ => false

/-- A digest's value; any countable type would do. -/
abbrev ContentHash := Content

/-- The digests of a note's canonical text and of an attachment's bytes. -/
structure ContentDigests where
  hashText : JsString → ContentHash
  hashBlob : Bytes → ContentHash
  text_injective : Function.Injective hashText
  blob_injective : Function.Injective hashBlob

def hash (digests : ContentDigests) : Content → ContentHash
  | .text value => digests.hashText (canonicalizeMarkdown value)
  | .bytes value => digests.hashBlob value

structure ClassifiedPath where
  canonicalPath : Path
  collisionKey : ℕ
  kind : SyncContentKind

/-- What the code asks about a path. `rebased path folder` is the file name of
`path` in another folder or at the root, `numbered path n` the name of the attempt
after `n` failed ones to place a copy. -/
structure PathRules where
  classifyVaultPath : Path → Option ClassifiedPath
  isSyncableConfigPath : Path → Bool
  syncContentKind : Path → Option SyncContentKind
  ancestorFolders : Path → List Path
  parentFolder : Path → Option Path
  filesFolder : Path → Path
  rebased : Path → Option Path → Path
  numbered : Path → ℕ → Path
  numbered_zero : ∀ path, numbered path 0 = path
  numbered_injective : ∀ path, Function.Injective (numbered path)

def inSyncScope (rules : PathRules) (path : Path) : Bool :=
  (rules.syncContentKind path).isSome || rules.isSyncableConfigPath path

def keyOf (rules : PathRules) (path : Path) : Option ℕ :=
  (rules.classifyVaultPath path).map ClassifiedPath.collisionKey

variable {rules : PathRules} {path : Path} {classified : ClassifiedPath}

theorem keyOf_classified (h : rules.classifyVaultPath path = some classified) :
    keyOf rules path = some classified.collisionKey := by
  unfold keyOf
  rw [h]
  rfl

theorem keyOf_ineligible (h : rules.classifyVaultPath path = none) : keyOf rules path = none := by
  unfold keyOf
  rw [h]
  rfl

/-- Notes at the root of a vault, each path its own key and without settings files. -/
def noteRules : PathRules where
  classifyVaultPath path := some { canonicalPath := path, collisionKey := path, kind := .markdown }
  isSyncableConfigPath _ := false
  syncContentKind _ := some .markdown
  ancestorFolders _ := []
  parentFolder _ := none
  filesFolder path := path
  rebased path _ := path
  numbered path n := path + n
  numbered_zero := Nat.add_zero
  numbered_injective _ _ _ := Nat.add_left_cancel

def textIn : Content → JsString
  | .text value => value
  | .bytes _ => []

def bytesIn : Content → Bytes
  | .text _ => []
  | .bytes value => value

/-- Digests that are the digested values. -/
def plainDigests : ContentDigests where
  hashText := .text
  hashBlob := .bytes
  text_injective := fun _ _ => Content.text.inj
  blob_injective := fun _ _ => Content.bytes.inj

end Havemind.VaultPayload
