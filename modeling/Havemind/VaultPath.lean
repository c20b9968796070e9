import Havemind.JsonText

/-!
Vault paths at the sync boundary: the checks `canonicalizeVaultPath` makes, in
the order it makes them, and the allowlist of appearance files under the
config directory. What depends on the runtime's Unicode tables, normalisation
and lower case, is a parameter with the documented facts it is used for.
-/
namespace Havemind.VaultPath

open JsText JsonText Utf16

/-- The two string methods that read the Unicode tables. -/
structure UnicodeMethods where
  normalizeNfc : JsString → JsString
  toLowerCase : JsString → JsString

def slash : CodeUnit := 47
def backslash : CodeUnit := 92
def dot : CodeUnit := 46
def driveColon : CodeUnit := 58
def kelvinSign : CodeUnit := 0x212A

def isAsciiLetter (unit : CodeUnit) : Bool :=
  (65 ≤ unit.toNat ∧ unit.toNat ≤ 90) ∨ (97 ≤ unit.toNat ∧ unit.toNat ≤ 122)

def asciiLower (unit : CodeUnit) : CodeUnit :=
  if 65 ≤ unit.toNat ∧ unit.toNat ≤ 90 then unit + 32 else unit

/-- The methods on ASCII texts, which are their own normal form. -/
def plainMethods : UnicodeMethods := ⟨id, List.map asciiLower⟩

def isControl (codePoint : ℕ) : Bool :=
  codePoint ≤ 0x1f ∨ (0x7f ≤ codePoint ∧ codePoint ≤ 0x9f)

def containsControlCharacter (value : JsString) : Bool :=
  (scalars value).any fun character => isControl character.toNat

def segmentsOf (path : JsString) : List JsString := path.splitOn slash

section
variable (unicode : UnicodeMethods)

def obsidianPrefix : JsString := ascii ".obsidian/"

def allowExact : List JsString :=
  [ascii ".obsidian/appearance.json", ascii ".obsidian/app.json",
    ascii ".obsidian/core-plugins.json", ascii ".obsidian/graph.json",
    ascii ".obsidian/hotkeys.json"]

def snippetsPrefix : JsString := ascii ".obsidian/snippets/"

def snippetsSegmentCount : ℕ := 3

def snippetExtensions : List JsString := [ascii "css"]

def themesPrefix : JsString := ascii ".obsidian/themes/"

def themesMinSegmentCount : ℕ := 4

def themeExtensions : List JsString :=
  [ascii "css", ascii "gif", ascii "jpeg", ascii "jpg", ascii "json", ascii "png", ascii "svg",
    ascii "webp"]

def secretStoreSegment : JsString := ascii "data.json"

def normalizeSeparators (path : JsString) : JsString :=
  path.map fun unit => if unit = backslash then slash else unit

/-- `lastIndexOf` of a single unit, `-1` when it does not occur. -/
def lastIndexOf (text : JsString) (unit : CodeUnit) : ℤ :=
  match text.reverse.findIdx? (· = unit) with
  | none => -1
  | some k => text.length - 1 - k

def pathExtension (path : JsString) : JsString :=
  let dotIndex := lastIndexOf path dot
  let slashIndex := lastIndexOf path slash
  if dotIndex ≤ slashIndex + 1 then []
  else unicode.toLowerCase (path.drop (dotIndex + 1).toNat)

def hasBlockedSegment (segments : List JsString) : Bool :=
  segments.any fun segment =>
    segment.length = 0 ∨ segment = ascii "." ∨ segment = ascii ".." ∨ segment = secretStoreSegment

def isSyncableConfigPath (path : JsString) : Bool :=
  let normalized := normalizeSeparators path
  let segments := segmentsOf normalized
  if !obsidianPrefix.isPrefixOf normalized then false
  else if hasBlockedSegment segments then false
  else if normalized ∈ allowExact then true
  else if snippetsPrefix.isPrefixOf normalized then
    segments.length = snippetsSegmentCount ∧ pathExtension unicode normalized ∈ snippetExtensions
  else if themesPrefix.isPrefixOf normalized then
    segments.length ≥ themesMinSegmentCount ∧ pathExtension unicode normalized ∈ themeExtensions
  else false

end

variable (unicode : UnicodeMethods)

def conflictFolder : JsString := ascii "Havemind Conflicts"

def reservedRoots : List JsString :=
  [ascii ".obsidian", ascii ".trash", unicode.toLowerCase conflictFolder]

/-- `WINDOWS_DRIVE_PATH`: a letter and a colon in front. -/
def windowsDrivePath : JsString → Bool
  | letter :: next :: _ => isAsciiLetter letter && next = driveColon
  | _ => false

def normalizedVaultPath (path : JsString) : Except String JsString :=
  if path.length = 0 then .error "Vault path must not be empty."
  else if path.head? = some slash ∨ backslash ∈ path ∨ windowsDrivePath path then
    .error "Vault path must be relative and use forward slashes."
  else if containsControlCharacter path then
    .error "Vault path must not contain control characters."
  else
    let normalized := unicode.normalizeNfc path
    if (segmentsOf normalized).any fun segment =>
        segment.length = 0 ∨ segment = ascii "." ∨ segment = ascii ".." then
      .error "Vault path contains an empty or traversal segment."
    else .ok normalized

def reservedRoot (path : JsString) : Bool :=
  match segmentsOf path with
  | [] => false
  | root :: _ =>
      if unicode.toLowerCase root ∉ reservedRoots unicode then false
      else if isSyncableConfigPath unicode path then false
      else true

def canonicalizeVaultPath (path : JsString) : Except String JsString :=
  match normalizedVaultPath unicode path with
  | .error message => .error message
  | .ok normalized =>
      if reservedRoot unicode normalized then .error "Vault path uses a reserved Havemind root."
      else .ok normalized

end Havemind.VaultPath
