import Havemind.JsObject
import Havemind.PathScope
import Havemind.RevisionSchema

/-!
An agent's task note: the folders it opens to the agent, how often the agent runs, and
the check of a write against them. The note is text a person edits; its frontmatter is
read line by line, without a parser of its language.
-/
namespace Havemind.TaskNote

open JsText JsonText RevisionSchema VaultPath

def carriageReturn : CodeUnit := 13

def hyphen : CodeUnit := 45

def colon : CodeUnit := 58

def comma : CodeUnit := 44

def openBracket : CodeUnit := 91

def closeBracket : CodeUnit := 93

def defaultEveryMinutes : ℕ := 60

def unitMinutes (unit : CodeUnit) : Option ℕ :=
  if unit = 109 then some 1 else if unit = 104 then some 60
  else if unit = 100 then some (24 * 60) else none

/-- The folders no task note can open to an agent. -/
def never : List JsString :=
  [ascii "Havemind", ascii ".obsidian", conflictFolder, ascii ".trash"]

structure AgentTask where
  mayWrite : List JsString
  everyMinutes : ℕ
  instructions : JsString
  deriving DecidableEq

/-- What `.` does not match. -/
def isLineTerminator (unit : CodeUnit) : Bool :=
  unit = lineFeed ∨ unit = carriageReturn ∨ unit = 0x2028 ∨ unit = 0x2029

def isQuote (unit : CodeUnit) : Bool := unit = 34 ∨ unit = 39

/-- `/^(["']).*\1$/u`. -/
def isQuoted (text : JsString) : Bool :=
  2 ≤ text.length ∧ text.head?.any isQuote ∧ text.getLast? = text.head? ∧
    ¬ (slice text 1 (-1)).any isLineTerminator

def unquote (value : JsString) : JsString :=
  let trimmed := trim value
  if isQuoted trimmed then slice trimmed 1 (-1) else trimmed

def cleanFolder (value : JsString) : JsString :=
  (((unquote value).dropWhile (· = slash)).reverse.dropWhile (· = slash)).reverse

/-- `/^(\d+)\s*([mhd])$/`: the digits and the unit. -/
def everyParts (text : JsString) : Option (JsString × CodeUnit) :=
  let digits := text.takeWhile isDigit
  match (text.dropWhile isDigit).dropWhile isWhitespace with
  | [unit] => if digits ≠ [] ∧ (unitMinutes unit).isSome then some (digits, unit) else none
  | _ => none

def parseEvery (value : Option JsString) : ℕ :=
  match everyParts (trim (value.getD [])) with
  | none => defaultEveryMinutes
  | some (digits, unit) => max 1 (digitsValue digits) * (unitMinutes unit).getD 60

inductive FieldValue
  | text (value : JsString)
  | list (items : List JsString)
  deriving DecidableEq

/-- `/^\s+-\s+(.*)$/u`: the item behind a dash. -/
def itemOf (line : JsString) : Option JsString :=
  match line.dropWhile isWhitespace with
  | [] => none
  | dash :: after =>
    let item := after.dropWhile isWhitespace
    if line.head?.any isWhitespace ∧ dash = hyphen ∧ after.head?.any isWhitespace ∧
        ¬ item.any isLineTerminator then some item
    else none

def isKeyStart (unit : CodeUnit) : Bool := isAsciiLetter unit || unit = 95

def isKeyUnit (unit : CodeUnit) : Bool := isKeyStart unit || isDigit unit || unit = hyphen

/-- `/^([A-Za-z_][\w-]*):\s*(.*)$/u`: the key and the value. -/
def pairOf (line : JsString) : Option (JsString × JsString) :=
  let key := line.takeWhile isKeyUnit
  match line.dropWhile isKeyUnit with
  | [] => none
  | separator :: after =>
    let value := after.dropWhile isWhitespace
    if key.head?.any isKeyStart ∧ separator = colon ∧ ¬ value.any isLineTerminator then
      some (key, value)
    else none

/-- The fields read so far, and the key a list goes on under. -/
structure Reading where
  fields : JsObject JsString FieldValue := ∅
  listKey : Option JsString := none

def readPair (reading : Reading) (key : JsString) (raw : JsString) : Reading :=
  let value := trim raw
  if value = [] then
    { fields := reading.fields.set key (.list []), listKey := some key }
  else if value.head? = some openBracket ∧ value.getLast? = some closeBracket then
    { fields := reading.fields.set key
        (.list (((slice value 1 (-1)).splitOn comma).filter fun part => trim part ≠ []))
      listKey := none }
  else { fields := reading.fields.set key (.text value), listKey := none }

def readLine (reading : Reading) (line : JsString) : Reading :=
  match itemOf line, reading.listKey with
  | some item, some key =>
    match reading.fields.get key with
    | some (.list items) =>
      { reading with fields := reading.fields.set key (.list (items ++ [item])) }
    | _ => reading
  | _, _ =>
    match pairOf line with
    | none => reading
    | some (key, value) => readPair reading key value

def readFrontmatter (lines : List JsString) : JsObject JsString FieldValue :=
  (lines.foldl readLine {}).fields

/-- `text.replace(/\r\n?/gu, '\n')`. -/
def replaceBreaks : JsString → JsString
  | [] => []
  | unit :: rest =>
    if unit = carriageReturn then
      match rest with
      | [] => [lineFeed]
      | next :: after =>
        if next = lineFeed then lineFeed :: replaceBreaks after
        else lineFeed :: replaceBreaks (next :: after)
    else unit :: replaceBreaks rest

def fence : JsString := ascii "---"

/-- The lines between the fences, and those behind the second; all of them when there is
no frontmatter. -/
def splitNote (lines : List JsString) : List JsString × List JsString :=
  match lines with
  | [] => ([], [])
  | first :: rest =>
    if trim first = fence then
      match rest.findIdx? (· = fence) with
      | none => ([], lines)
      | some k => (rest.take k, rest.drop (k + 1))
    else ([], lines)

def parseTaskNote (text : JsString) : AgentTask :=
  let parts := splitNote (splitLines (replaceBreaks text))
  let fields := readFrontmatter parts.1
  let named := match fields.get (ascii "may_write") with
    | some (.list items) => items
    | some (.text value) => [value]
    | none => []
  { mayWrite := (named.map cleanFolder).filter fun folder => folder ≠ []
    everyMinutes := parseEvery (match fields.get (ascii "every") with
      | some (.text value) => some value
      | _ => none)
    instructions := trim (joinLines parts.2) }

variable (unicode : UnicodeMethods)

def inside (path folder : JsString) : Bool :=
  path = folder ∨ (folder ++ [slash]).isPrefixOf path

/-- How a peer that folds names sees one. -/
def fold (value : JsString) : JsString := unicode.toLowerCase (unicode.normalizeNfc value)

def isPlainSegment (segment : JsString) : Bool :=
  ¬ (segment = ascii ".." ∨ segment = ascii "." ∨ segment = [] ∨
    segment.getLast? = some dot ∨ segment.getLast? = some 32)

/-- `none` when the agent may write there, otherwise the reason it may not. -/
def checkWrite (path : JsString) (task : AgentTask) : Option JsString :=
  if ¬ (segmentsOf path).all isPlainSegment then
    some (ascii "An agent may never write " ++ path ++ ascii ": the path is not a plain vault path.")
  else
    match never.find? fun folder => inside (fold unicode path) (fold unicode folder) with
    | some blocked =>
      some (ascii "An agent may never write in " ++ blocked ++
        ascii "/, whatever its task note says.")
    | none =>
      if task.mayWrite.any (inside path) then none
      else if task.mayWrite.length = 0 then
        some (path ++ ascii " is refused: the task note gives this agent no folder to write in.")
      else
        some (path ++ ascii " is outside " ++ (ascii ", ").intercalate task.mayWrite ++
          ascii ", the folders this agent may write in.")

/-- The path of the revision the producer makes of a file written there, as its envelope
is built; `none` when the file is out of scope or its envelope is refused. -/
def pushedPath (path : JsString) : Option JsString :=
  (PathScope.classifyVaultPath unicode path).bind fun classified =>
    (canonicalizeVaultPath unicode classified.canonicalPath).toOption

/-- The one way an agent changes the vault: the refusal, or the path of what is sent. -/
def writeAsAgent (task : AgentTask) (path : JsString) : Except JsString (Option JsString) :=
  match checkWrite unicode path task with
  | some refusal => .error refusal
  | none => .ok (pushedPath unicode path)

end Havemind.TaskNote
