import Havemind.SavedMappings
import Havemind.ScanAccounts

/-!
The scan leaves a mapped file unread when its size and modification time are those an earlier
pass recorded. A recorded stat vouches for the content: it is older than the moment the pass
looked at it by more than the clock of the disk may be behind, so that every later write of
the file shows, whatever commits, applies and rollbacks do with the mapping.
-/
namespace Havemind.StatShortcut

open Runs AwaitCode JsObject RevisionSchema VaultPayload DurableState OutboxRepository
  ChangeObserver ClientRuns SavedMappings VaultReconcile List Option ScanSafety ScanAccounts JsText

/-- The disk keeps the time of a write in steps of `granularity`. -/
structure StatOptions extends ScanOptions where
  client : ClientOptions
  sizeOf : Content → ℕ
  granularity : ℕ
  granularity_pos : 0 < granularity
  granularity_le : granularity ≤ racyStatMs

structure StatFile where
  content : Content
  mtime : ℕ

section

/-- What the pass does next with the first file that is left. -/
inductive Phase
  | stat
  | read (found : Option (ℕ × FileStat))
  | modify

/-- A pass of the scan while it compares files with mappings. -/
structure Pass where
  compared : Compared
  rest : List (ℕ × EligibleFile)
  phase : Phase := .stat

variable (options : ScanOptions)

def startPass (listing : Listing) (mappings : List LocalFileMapping) : Pass where
  compared := startComparing (sortPaths options.rules listing.paths)
    (mappingsByCollision options.rules mappings listing.configListingFailed)
  rest := (sortPaths options.rules listing.paths).eligible.entries

/-- The file's stat is known; one that its mapping has ends the comparison. -/
def afterStat (pass : Pass) (statAt : ℕ) (stat : Option FileStat) : Option Pass :=
  match pass.phase, pass.rest with
  | .stat, (key, _) :: rest =>
    let known := pass.compared.mappings.get key
    let found := if options.canRecord ∧ known.isSome then stat.map fun stat => (statAt, stat) else none
    if found.any fun stat => known.bind LocalFileMapping.stat = some stat.2 then
      some
        { compared :=
            { pass.compared with
              mappings := pass.compared.mappings.erase key
              unchanged := pass.compared.unchanged + 1 }
          rest }
    else some { pass with phase := .read found }
  | _, _ => none

/-- The file is read. -/
def afterRead (pass : Pass) (contentHash : Option ContentHash) : Option Pass :=
  match pass.phase, pass.rest with
  | .read found, (key, file) :: rest =>
    match contentHash, pass.compared.mappings.get key with
    | none, _ =>
      some
        { compared :=
            { pass.compared with
              mappings := pass.compared.mappings.erase key
              binaryExcluded := pass.compared.binaryExcluded + 1 }
          rest }
    | some contentHash, none =>
      some
        { compared :=
            { pass.compared with
              unmatchedVault := pass.compared.unmatchedVault ++
                [⟨key, contentHash, file.kind, file.readPath⟩] }
          rest }
    | some contentHash, some mapping =>
      if mapping.contentHash = contentHash then
        let stable := found.filter fun stat => stat.2.mtime + racyStatMs ≤ stat.1
        some
          { compared :=
              { pass.compared with
                mappings := pass.compared.mappings.erase key
                unchanged := pass.compared.unchanged + 1
                statsToRecord := pass.compared.statsToRecord ++ (stable.map fun stat =>
                  (⟨mapping.fileId, contentHash, stat.2⟩ : StatEntry)).toList }
            rest }
      else some { pass with phase := .modify }
  | _, _ => none

/-- A file that differs was observed, or could not be. -/
def afterModify (pass : Pass) (committed : Bool) : Option Pass :=
  match pass.phase, pass.rest with
  | .modify, (key, file) :: rest =>
    let compared := { pass.compared with mappings := pass.compared.mappings.erase key }
    some
      { compared :=
          if committed then { compared with updated := compared.updated + 1 }
          else
            { compared with
              skipped := compared.skipped + 1
              skippedPaths := recordSkip compared.skippedPaths file.readPath }
        rest }
  | _, _ => none

end

section
variable (options : ScanOptions)

/-- What is left of the comparison once the file is read. -/
def answeredCode (compared : Compared) (key : ℕ) (file : EligibleFile)
    (found : Option (ℕ × FileStat)) : Option ContentHash → Scan Compared
  | none =>
    return { compared with
      mappings := compared.mappings.erase key
      binaryExcluded := compared.binaryExcluded + 1 }
  | some contentHash =>
    match compared.mappings.get key with
    | none =>
      return { compared with
        unmatchedVault := compared.unmatchedVault ++
          [⟨key, contentHash, file.kind, file.readPath⟩] }
    | some mapping => matched compared key file found contentHash mapping

/-- What is left of it once the file's stat is known. -/
def readCode (compared : Compared) (key : ℕ) (file : EligibleFile) (found : Option (ℕ × FileStat)) :
    Scan Compared :=
  Code.call (S := scanCalls) (.readContent file.readPath file.kind) >>=
    answeredCode compared key file found

/-- What is left of it once the file is found to differ. -/
def modifyCode (compared : Compared) (key : ℕ) (file : EligibleFile) : Scan Compared := do
  let rest := { compared with mappings := compared.mappings.erase key }
  if ← observeResilient (.observeModify file.readPath) then
    return { rest with updated := rest.updated + 1 }
  else
    return { rest with
      skipped := rest.skipped + 1
      skippedPaths := recordSkip rest.skippedPaths file.readPath }

/-- The code that a pass is at. -/
def codeOf (pass : Pass) : Scan Compared :=
  match pass.rest with
  | [] => .ret pass.compared
  | (key, file) :: rest =>
    (match pass.phase with
      | .stat => compareFile options pass.compared key file
      | .read found => readCode pass.compared key file found
      | .modify => modifyCode pass.compared key file).bind fun next =>
      compareFiles options next rest

/-- The code asks the call and goes on with the answer. -/
def Resumes {α : Type} (code : Scan α) (call : ScanCall) (answer : Except ScanError call.Answer)
    (code' : Scan α) : Prop :=
  ∃ next, code = .await call next ∧ next answer = code'

variable {options} {pass pass' : Pass} {key : ℕ} {file : EligibleFile}
  {rest : List (ℕ × EligibleFile)}

theorem compareFile_eq (compared : Compared) (key : ℕ) (file : EligibleFile) :
    compareFile options compared key file =
      statFor options (compared.mappings.get key) file.readPath >>= fun found =>
        if found.any fun stat => (compared.mappings.get key).bind LocalFileMapping.stat = some stat.2
        then
          return { compared with
            mappings := compared.mappings.erase key
            unchanged := compared.unchanged + 1 }
        else readCode compared key file found := by
  refine congrArg (statFor options (compared.mappings.get key) file.readPath >>= ·)
    (funext fun found => ?_)
  split_ifs
  · rfl
  · refine congrArg (Code.call (S := scanCalls) _ >>= ·) (funext fun answer => ?_)
    cases answer <;> rfl

theorem codeOf_next (compared : Compared) (rest : List (ℕ × EligibleFile)) :
    codeOf options ⟨compared, rest, .stat⟩ = compareFiles options compared rest := by
  cases rest <;> rfl

/-- A stat is asked for a file with a mapping. -/
theorem codeOf_afterStat {statAt : ℕ} {stat : Option FileStat}
    (hrest : pass.rest = (key, file) :: rest)
    (h : afterStat options pass statAt stat = some pass') :
    if options.canRecord ∧ (pass.compared.mappings.get key).isSome then
      Resumes (codeOf options pass) (.stat file.readPath) (.ok (statAt, stat)) (codeOf options pass')
    else codeOf options pass = codeOf options pass' := by
  obtain ⟨compared, todo, phase⟩ := pass
  cases hrest
  cases phase with
  | read _ => cases h
  | modify => cases h
  | stat =>
    have hcode : codeOf options ⟨compared, (key, file) :: rest, .stat⟩ =
        (compareFile options compared key file).bind fun next => compareFiles options next rest := rfl
    rw [compareFile_eq, statFor] at hcode
    unfold afterStat at h
    dsimp only at h ⊢
    split_ifs at h ⊢ with hask hskip hskip
    · cases h
      rw [if_pos hask] at hcode
      refine ⟨_, hcode.trans rfl, ?_⟩
      rw [codeOf_next]
      exact congrArg (fun code => Code.bind code _) (if_pos hskip)
    · cases h
      rw [if_pos hask] at hcode
      refine ⟨_, hcode.trans rfl, ?_⟩
      exact congrArg (fun code => Code.bind code _) (if_neg hskip)
    · cases hskip
    · cases h
      rw [if_neg hask] at hcode
      exact hcode

/-- The file is read. -/
theorem codeOf_afterRead {contentHash : Option ContentHash}
    (hrest : pass.rest = (key, file) :: rest)
    (h : afterRead pass contentHash = some pass') :
    Resumes (codeOf options pass) (.readContent file.readPath file.kind) (.ok contentHash)
      (codeOf options pass') := by
  obtain ⟨compared, todo, phase⟩ := pass
  cases hrest
  cases phase with
  | stat => cases h
  | modify => cases h
  | read found =>
    unfold afterRead at h
    dsimp only at h
    refine ⟨_, rfl, ?_⟩
    change (answeredCode compared key file found contentHash).bind _ = _
    cases contentHash with
    | none =>
      cases h
      rw [codeOf_next]
      rfl
    | some contentHash =>
      unfold answeredCode
      cases hknown : compared.mappings.get key with
      | none =>
        rw [hknown] at h
        cases h
        rw [codeOf_next]
        rfl
      | some mapping =>
        rw [hknown] at h
        dsimp only at h
        unfold matched
        split_ifs at h with hsame
        · cases h
          rw [codeOf_next]
          exact congrArg (fun code => Code.bind code _) (if_pos hsame)
        · cases h
          exact congrArg (fun code => Code.bind code _) (if_neg hsame)

/-- A file that differs is observed. -/
theorem codeOf_afterModify (hrest : pass.rest = (key, file) :: rest) {committed : Bool}
    (h : afterModify pass committed = some pass') :
    Resumes (codeOf options pass) (.observeModify file.readPath)
      (if committed then .ok () else .error .other) (codeOf options pass') := by
  obtain ⟨compared, todo, phase⟩ := pass
  cases hrest
  cases phase with
  | stat => cases h
  | read _ => cases h
  | modify =>
    cases h
    refine ⟨_, rfl, ?_⟩
    rw [codeOf_next]
    cases committed <;> rfl

/-- A call of the scan with its answer. -/
abbrev Exchange : Type := Σ call : ScanCall, Except ScanError call.Answer

/-- One step of the comparison, with the call it makes, if any, and the answer. -/
inductive PassStep (options : ScanOptions) : Pass → List Exchange → Pass → Prop
  | stat {pass pass' : Pass} {key : ℕ} {file : EligibleFile} {rest : List (ℕ × EligibleFile)}
      (statAt : ℕ) (stat : Option FileStat) (hrest : pass.rest = (key, file) :: rest)
      (h : afterStat options pass statAt stat = some pass') :
      PassStep options pass
        (if options.canRecord ∧ (pass.compared.mappings.get key).isSome then
          [⟨.stat file.readPath, .ok (statAt, stat)⟩]
        else []) pass'
  | read {pass pass' : Pass} {key : ℕ} {file : EligibleFile} {rest : List (ℕ × EligibleFile)}
      (contentHash : Option ContentHash) (hrest : pass.rest = (key, file) :: rest)
      (h : afterRead pass contentHash = some pass') :
      PassStep options pass [⟨.readContent file.readPath file.kind, .ok contentHash⟩] pass'
  | modify {pass pass' : Pass} {key : ℕ} {file : EligibleFile} {rest : List (ℕ × EligibleFile)}
      (committed : Bool) (hrest : pass.rest = (key, file) :: rest)
      (h : afterModify pass committed = some pass') :
      PassStep options pass
        [⟨.observeModify file.readPath, if committed then .ok () else .error .other⟩] pass'

/-- The second code is what the first does once its call got this answer. -/
def Answers (code : Scan Compared) (exchanges : List Exchange) (code' : Scan Compared) : Prop :=
  ∃ call answer, exchanges = [⟨call, answer⟩] ∧ Resumes code call answer code'

variable {exchanges : List Exchange}

theorem PassStep.answers (h : PassStep options pass exchanges pass') :
    Labelled Answers (codeOf options pass) exchanges (codeOf options pass') := by
  cases h with
  | stat statAt stat hrest h =>
    have hstep := codeOf_afterStat hrest h
    split_ifs at hstep ⊢
    · exact .single ⟨_, _, rfl, hstep⟩
    · rw [hstep]
      exact .refl _
  | read contentHash hrest h => exact .single ⟨_, _, rfl, codeOf_afterRead hrest h⟩
  | modify committed hrest h => exact .single ⟨_, _, rfl, codeOf_afterModify hrest h⟩

/-- However its calls are answered, a pass is at the point of the comparison's code that these
answers lead to, and what it has compared at its end is what the code returns. -/
theorem pass_refines (listing : Listing) (mappings : List LocalFileMapping)
    (h : Labelled (PassStep options) (startPass options listing mappings) exchanges pass) :
    Labelled Answers (compareFiles options (startPass options listing mappings).compared
      (sortPaths options.rules listing.paths).eligible.entries) exchanges (codeOf options pass) ∧
    (pass.rest = [] → codeOf options pass = .ret pass.compared) := by
  constructor
  · rw [← codeOf_next]
    exact h.simulates fun _ _ _ hstep => hstep.answers
  · intro hend
    rw [codeOf, hend]

end

section

/-- `held` are the mappings a head reconciliation has read and may still commit, `pass` the
scan that is comparing files. -/
structure StatWorld where
  client : ClientWorld := {}
  now : ℕ := 0
  disk : JsObject Path StatFile := ∅
  held : List LocalFileMapping := []
  pass : Option Pass := none

def StatWorld.files (world : StatWorld) : Files := world.disk.mapValues fun _ file => file.content

def StatWorld.mappings (world : StatWorld) : List LocalFileMapping :=
  world.client.state.producerState.mappings

/-- Time passes, files are written and removed, the device writes its document, and a pass of
the scan goes on or ends. -/
inductive StatAction
  | elapse (duration : ℕ)
  | write (path : Path) (content : Content)
  | remove (path : Path)
  | listMappings
  | client (action : ClientAction)
  | reconcile (listing : Listing)
  | stat (statAt : ℕ)
  | readContent
  | observeModify (ids : FreshIds) (revisionId recordId : Id) (now : Timestamp)
  | observeFails
  | recordStats
  | endPass

variable (options : StatOptions)

def statOnDisk (world : StatWorld) (path : Path) : Option FileStat :=
  (world.disk.get path).map fun file => ⟨file.mtime, options.sizeOf file.content⟩

/-- No other file on disk differs from the path only by the case of its letters. -/
def onlyOne (world : StatWorld) (path : Path) : Bool :=
  world.disk.keys.all fun other => other = path ∨ keyOf options.rules path = none ∨
    keyOf options.rules other ≠ keyOf options.rules path

/-- Of the files on disk that share a key the listing has all or none. -/
def listsDisk (world : StatWorld) (listing : Listing) : Bool :=
  world.disk.keys.all fun path => path ∈ listing.paths ∨ keyOf options.rules path = none ∨
    ∀ listed ∈ listing.paths, keyOf options.rules listed ≠ keyOf options.rules path

/-- The mapping a method is given has no stat; a head reconciliation gives one it has read. -/
def unstamped (world : StatWorld) : ClientAction → Bool
  | .commitLocalChange commit _ _ _ => commit.upsertMapping.all fun mapping => mapping.stat = none
  | .adoptRemoteMapping mapping _ => mapping.stat = none
  | .commitHeadResolution input _ _ _ => input.mapping.stat = none ∨ input.mapping ∈ world.held
  | .recordStats _ => false
  | _ => true

def StatWorld.withPass (world : StatWorld) (pass : Option Pass) : Option StatWorld :=
  pass.map fun pass => { world with pass := some pass }

/-- A pass and the other writes of the document come one after the other; files are written at
any time, but no second file of a key while a pass is under way. -/
def statStep (world : StatWorld) : StatAction → Option StatWorld
  | .elapse duration => some { world with now := world.now + duration }
  | .write path content =>
    if world.pass.isNone ∨ onlyOne options world path then
      some
        { world with
          disk := world.disk.set path
            ⟨content, world.now / options.granularity * options.granularity⟩ }
    else none
  | .remove path => some { world with disk := world.disk.erase path }
  | .listMappings => some { world with held := world.held ++ world.mappings }
  | .client action =>
    if world.pass.isNone ∧ unstamped world action then
      (clientStep options.client world.client action).map fun client => { world with client }
    else none
  | .reconcile listing =>
    if world.pass.isNone ∧ listsDisk options world listing then
      some { world with pass := some (startPass options.toScanOptions listing world.mappings) }
    else none
  | .stat statAt =>
    match world.pass with
    | some pass =>
      if statAt ≤ world.now then
        world.withPass (pass.rest.head?.bind fun entry =>
          afterStat options.toScanOptions pass statAt (statOnDisk options world entry.2.readPath))
      else none
    | none => none
  | .readContent =>
    match world.pass with
    | some pass =>
      world.withPass (pass.rest.head?.bind fun entry =>
        afterRead pass (readEligibleContent options.toScanOptions world.files
          entry.2.readPath entry.2.kind))
    | none => none
  | .observeModify ids revisionId recordId now =>
    match world.pass with
    | some pass =>
      pass.rest.head?.bind fun entry =>
        (afterModify pass true).bind fun next =>
          match handleModify options.toObserverOptions world.files world.mappings ids
              entry.2.readPath false with
          | none => some { world with pass := some next }
          | some commit =>
            (clientStep options.client world.client
              (.commitLocalChange commit revisionId recordId now)).map fun client =>
                { world with client, pass := some next }
    | none => none
  | .observeFails =>
    match world.pass with
    | some pass => world.withPass (afterModify pass false)
    | none => none
  | .recordStats =>
    match world.pass with
    | some pass =>
      if pass.rest.isEmpty then
        (clientStep options.client world.client (.recordStats pass.compared.statsToRecord)).map
          fun client => { world with client, pass := none }
      else none
    | none => none
  | .endPass => some { world with pass := none }

/-- A restart loads what was saved. -/
def Reloads (world : StatWorld) : StatAction → Prop
  | .client action => reloads world.client action
  | _ => True

end

section
variable {options : StatOptions} {disk disk' : JsObject Path StatFile} {now now' : ℕ} {path : Path}
  {key : ℕ} {stat : FileStat}

def contentAt (options : StatOptions) (disk : JsObject Path StatFile) (path : Path)
    (kind : SyncContentKind) : Option ContentHash :=
  readEligibleContent options.toScanOptions (disk.mapValues fun _ file => file.content)
    path kind

/-- Whatever file has the key and the stat's time has the content. No later write gives a file
that time. -/
structure Certified (options : StatOptions) (disk : JsObject Path StatFile) (now key : ℕ)
    (contentHash : ContentHash) (stat : FileStat) : Prop where
  past : stat.mtime + racyStatMs ≤ now
  content : ∀ path classified file, options.rules.classifyVaultPath path = some classified →
    classified.collisionKey = key → disk.get path = some file → file.mtime = stat.mtime →
    contentAt options disk path classified.kind = some contentHash

/-- A mapping with a stat vouches for the file. -/
def Vouched (options : StatOptions) (disk : JsObject Path StatFile) (now : ℕ)
    (mapping : LocalFileMapping) : Prop :=
  ∀ stat, mapping.stat = some stat →
    Certified options disk now mapping.collisionKey mapping.contentHash stat

/-- The file at the path is the only one with its key that has the stat's time. -/
def Sole (options : StatOptions) (disk : JsObject Path StatFile) (key : ℕ) (path : Path)
    (stat : FileStat) : Prop :=
  ∀ other classified file, options.rules.classifyVaultPath other = some classified →
    classified.collisionKey = key → disk.get other = some file → file.mtime = stat.mtime →
    other = path

/-- Each file is as it was, or was written since. -/
structure Later (disk : JsObject Path StatFile) (now : ℕ) (disk' : JsObject Path StatFile)
    (now' : ℕ) : Prop where
  clock : now ≤ now'
  files : ∀ path file, disk'.get path = some file →
    disk.get path = some file ∨ now < file.mtime + racyStatMs

theorem later_elapse (duration : ℕ) : Later disk now disk (now + duration) :=
  ⟨Nat.le_add_right now duration, fun _ _ => .inl⟩

theorem later_remove (path : Path) : Later disk now (disk.erase path) now := by
  refine ⟨le_rfl, fun other file hfile => .inl ?_⟩
  rw [get_erase] at hfile
  split_ifs at hfile
  exact hfile

/-- The time of a write is less than the racy window behind the clock. -/
theorem later_write (options : StatOptions) (path : Path) (content : Content) :
    Later disk now
      (disk.set path ⟨content, now / options.granularity * options.granularity⟩) now := by
  refine ⟨le_rfl, fun other file hfile => ?_⟩
  rw [get_set] at hfile
  split_ifs at hfile
  · right
    rw [← some.inj hfile]
    dsimp only
    have hbehind := Nat.mod_lt now options.granularity_pos
    have hsplit := Nat.div_add_mod now options.granularity
    have hsmall := options.granularity_le
    rw [Nat.mul_comm] at hsplit
    omega
  · exact .inl hfile

theorem contentAt_congr {file : StatFile} (h : disk.get path = some file)
    (h' : disk'.get path = some file) (kind : SyncContentKind) :
    contentAt options disk path kind = contentAt options disk' path kind := by
  have hsame : (disk.mapValues fun _ file => file.content).get path =
      (disk'.mapValues fun _ file => file.content).get path := by
    rw [get_mapValues, get_mapValues, h, h']
  unfold contentAt readEligibleContent readBinary readText
  rw [hsame]

theorem Certified.later {contentHash : ContentHash}
    (h : Certified options disk now key contentHash stat) (hlater : Later disk now disk' now') :
    Certified options disk' now' key contentHash stat := by
  refine ⟨h.past.trans hlater.clock, fun path classified file hclassified hkey hfile hmtime => ?_⟩
  rcases hlater.files path file hfile with hbefore | hwritten
  · rw [← contentAt_congr hbefore hfile]
    exact h.content path classified file hclassified hkey hbefore hmtime
  · have hpast := h.past
    omega

theorem Vouched.later {mapping : LocalFileMapping} (h : Vouched options disk now mapping)
    (hlater : Later disk now disk' now') : Vouched options disk' now' mapping :=
  fun stat hstat => (h stat hstat).later hlater

theorem Sole.later (h : Sole options disk key path stat) (hpast : stat.mtime + racyStatMs ≤ now)
    (hlater : Later disk now disk' now') : Sole options disk' key path stat := by
  intro other classified file hclassified hkey hfile hmtime
  rcases hlater.files other file hfile with hbefore | hwritten
  · exact h other classified file hclassified hkey hbefore hmtime
  · omega

end

section
variable {options : StatOptions} {disk disk' : JsObject Path StatFile} {now now' : ℕ}
  {mappings mappings' : List LocalFileMapping} {pass pass' : Pass} {key : ℕ} {file : EligibleFile}
  {rest : List (ℕ × EligibleFile)} {path : Path} {classified : ClassifiedPath} {files : Files}
  {ids : FreshIds} {commit : LocalChangeCommit} {observer : ObserverOptions} {force : Bool}
  {mapping : LocalFileMapping}

/-- No two files on disk have the key. -/
def ApartAt (options : StatOptions) (disk : JsObject Path StatFile) (key : ℕ) : Prop :=
  ∀ path other, disk.get path ≠ none → disk.get other ≠ none →
    keyOf options.rules path = some key → keyOf options.rules other = some key → path = other

/-- The file is mapped under the key. -/
def MappedAt (mappings : List LocalFileMapping) (fileId : Id) (key : ℕ) : Prop :=
  ∃ mapping ∈ mappings, mapping.fileId = fileId ∧ mapping.collisionKey = key

/-- What a pass has found so far and what it is about to find. -/
structure PassInv (options : StatOptions) (disk : JsObject Path StatFile) (now : ℕ)
    (mappings : List LocalFileMapping) (pass : Pass) : Prop where
  nodup : (pass.rest.map Prod.fst).Nodup
  files : ∀ entry ∈ pass.rest, ∃ classified,
    options.rules.classifyVaultPath entry.2.readPath = some classified ∧
      classified.collisionKey = entry.1 ∧ classified.kind = entry.2.kind
  apart : ∀ entry ∈ pass.rest, ApartAt options disk entry.1
  known : ∀ key mapping, pass.compared.mappings.get key = some mapping →
    mapping.collisionKey = key ∧ Vouched options disk now mapping ∧
      MappedAt mappings mapping.fileId key
  verified : ∀ entry ∈ pass.compared.statsToRecord, ∃ key, key ∉ pass.rest.map Prod.fst ∧
    Certified options disk now key entry.contentHash entry.stat ∧
      MappedAt mappings entry.fileId key
  found : ∀ key file rest statAt stat, pass.phase = .read (some (statAt, stat)) →
    pass.rest = (key, file) :: rest → stat.mtime + racyStatMs ≤ statAt →
    statAt ≤ now ∧ Sole options disk key file.readPath stat
  differs : ∀ key file rest, pass.phase = .modify → pass.rest = (key, file) :: rest →
    pass.compared.mappings.get key ≠ none

variable (h : PassInv options disk now mappings pass)
include h

theorem PassInv.later (hlater : Later disk now disk' now')
    (hapart : ∀ key, ApartAt options disk key → ApartAt options disk' key) :
    PassInv options disk' now' mappings pass where
  nodup := h.nodup
  files := h.files
  apart entry hmem := hapart entry.1 (h.apart entry hmem)
  known key mapping hget := by
    obtain ⟨hkey, hvouched, hmapped⟩ := h.known key mapping hget
    exact ⟨hkey, hvouched.later hlater, hmapped⟩
  verified entry hmem := by
    obtain ⟨key, hkey, hcertified, hmapped⟩ := h.verified entry hmem
    exact ⟨key, hkey, hcertified.later hlater, hmapped⟩
  found key file rest statAt stat hphase hrest hpast := by
    obtain ⟨hnow, hsole⟩ := h.found key file rest statAt stat hphase hrest hpast
    exact ⟨hnow.trans hlater.clock, hsole.later (hpast.trans hnow) hlater⟩
  differs := h.differs

/-- The files stay mapped where they are. -/
theorem PassInv.grow (hmappings : ∀ mapping ∈ mappings, mapping ∈ mappings') :
    PassInv options disk now mappings' pass := by
  have hstays : ∀ fileId key, MappedAt mappings fileId key → MappedAt mappings' fileId key := by
    rintro fileId key ⟨mapping, hmem, hmapped⟩
    exact ⟨mapping, hmappings mapping hmem, hmapped⟩
  refine ⟨h.nodup, h.files, h.apart, ?_, ?_, h.found, h.differs⟩
  · intro key mapping hget
    obtain ⟨hkey, hvouched, hmapped⟩ := h.known key mapping hget
    exact ⟨hkey, hvouched, hstays _ _ hmapped⟩
  · intro entry hmem
    obtain ⟨key, hkey, hcertified, hmapped⟩ := h.verified entry hmem
    exact ⟨key, hkey, hcertified, hstays _ _ hmapped⟩

/-- The comparison of the first file is over. -/
theorem PassInv.tail (hrest : pass.rest = (key, file) :: rest) {compared : Compared}
    (hknown : ∀ other mapping, compared.mappings.get other = some mapping →
      pass.compared.mappings.get other = some mapping)
    (hverified : ∀ entry ∈ compared.statsToRecord, entry ∈ pass.compared.statsToRecord ∨
      (Certified options disk now key entry.contentHash entry.stat ∧
        MappedAt mappings entry.fileId key)) :
    PassInv options disk now mappings ⟨compared, rest, .stat⟩ := by
  have hnodup := h.nodup
  rw [hrest, map_cons] at hnodup
  obtain ⟨hfirst, hnodup⟩ := nodup_cons.mp hnodup
  have hstays : ∀ entry ∈ rest, entry ∈ pass.rest := by
    intro entry hmem
    rw [hrest]
    exact mem_cons_of_mem _ hmem
  refine ⟨hnodup, fun entry hmem => h.files entry (hstays entry hmem),
    fun entry hmem => h.apart entry (hstays entry hmem),
    fun other mapping hget => h.known other mapping (hknown other mapping hget), ?_,
    fun _ _ _ _ _ hphase => (by cases hphase), fun _ _ _ hphase => (by cases hphase)⟩
  · intro entry hmem
    rcases hverified entry hmem with hbefore | hnow
    · obtain ⟨other, hother, hrecorded⟩ := h.verified entry hbefore
      refine ⟨other, fun hlater => hother ?_, hrecorded⟩
      rw [hrest, map_cons]
      exact mem_cons_of_mem _ hlater
    · exact ⟨key, hfirst, hnow⟩

omit h in
theorem get_of_erase {K V : Type} [DecidableEq K] {table : JsObject K V} {key other : K} {value : V}
    (h : (table.erase key).get other = some value) : table.get other = some value := by
  rw [get_erase] at h
  split_ifs at h
  exact h

omit h in
/-- A listed file that shares its key with no other listed one shares it with no file on disk. -/
theorem apartAt_of_alone {world : StatWorld} {listing : Listing}
    (hlists : listsDisk options world listing)
    (halone : listedUnder options.toScanOptions key listing.paths = [path]) :
    ApartAt options world.disk key := by
  have hlisted : path ∈ listing.paths ∧ keyOf options.rules path = some key := by
    have hmem : path ∈ listedUnder options.toScanOptions key listing.paths := by
      rw [halone]
      exact mem_singleton_self _
    exact ⟨(mem_filter.mp hmem).1, of_decide_eq_true (mem_filter.mp hmem).2⟩
  have honly : ∀ other, world.disk.get other ≠ none → keyOf options.rules other = some key →
      other = path := by
    intro other hother hkey
    obtain ⟨onDisk, hdisk⟩ := ne_none_iff_exists'.mp hother
    have hmem : other ∈ world.disk.keys :=
      mem_map.mpr ⟨(other, onDisk), get_eq_some.mp hdisk, rfl⟩
    have hunder : other ∈ listing.paths := by
      rcases of_decide_eq_true (all_eq_true.mp hlists other hmem) with hthere | hnone | hnobody
      · exact hthere
      · rw [hkey] at hnone
        cases hnone
      · exact absurd (hlisted.2.trans hkey.symm) (hnobody path hlisted.1)
    have hsame : other ∈ listedUnder options.toScanOptions key listing.paths :=
      mem_filter.mpr ⟨hunder, decide_eq_true hkey⟩
    rw [halone] at hsame
    exact mem_singleton.mp hsame
  intro first second hfirst hsecond hfirstKey hsecondKey
  rw [honly first hfirst hfirstKey, honly second hsecond hsecondKey]

omit h in
/-- A pass begins. -/
theorem passInv_start {world : StatWorld} {listing : Listing}
    (hvouched : ∀ mapping ∈ mappings, Vouched options world.disk world.now mapping)
    (hlists : listsDisk options world listing) :
    PassInv options world.disk world.now mappings
      (startPass options.toScanOptions listing mappings) := by
  have hsorted : SortedOf options.toScanOptions listing.paths
      (sortPaths options.rules listing.paths) := sortedOf_sortPaths listing.paths
  refine ⟨(sortPaths options.rules listing.paths).eligible.keys_nodup, ?_, ?_, ?_,
    fun _ hmem => absurd hmem not_mem_nil, fun _ _ _ _ _ hphase => (by cases hphase),
    fun _ _ _ hphase => (by cases hphase)⟩
  · intro entry hmem
    obtain ⟨halone, hkind⟩ := (hsorted.eligible entry.1 entry.2).mp (get_eq_some.mpr hmem)
    have hlisted : entry.2.readPath ∈ listedUnder options.toScanOptions entry.1
        listing.paths := by
      rw [halone]
      exact mem_singleton_self _
    have hkey := of_decide_eq_true (mem_filter.mp hlisted).2
    obtain ⟨classified, hclassified, hsame⟩ := map_eq_some_iff.mp hkey
    rw [hclassified] at hkind
    exact ⟨classified, hclassified, hsame, some.inj hkind⟩
  · intro entry hmem
    exact apartAt_of_alone hlists ((hsorted.eligible entry.1 entry.2).mp (get_eq_some.mpr hmem)).1
  · intro key mapping hget
    obtain ⟨htable, -⟩ := eraseAll_get _ hget
    obtain ⟨⟨hmem, hkey⟩, -⟩ := mappingsByCollision_get htable
    exact ⟨hkey, hvouched mapping hmem, mapping, hmem, rfl, hkey⟩

/-- The stat of a file is taken. -/
theorem passInv_stat {statAt : ℕ} (hnow : statAt ≤ now)
    (hrest : pass.rest = (key, file) :: rest)
    (hstep : afterStat options.toScanOptions pass statAt
      ((disk.get file.readPath).map fun file => ⟨file.mtime, options.sizeOf file.content⟩) =
        some pass') : PassInv options disk now mappings pass' := by
  obtain ⟨compared, todo, phase⟩ := pass
  cases hrest
  cases phase with
  | read _ => cases hstep
  | modify => cases hstep
  | stat =>
    unfold afterStat at hstep
    dsimp only at hstep
    split_ifs at hstep with hask hskip hskip
    · cases hstep
      exact h.tail rfl (fun _ _ => get_of_erase) fun _ => .inl
    · cases hstep
      refine ⟨h.nodup, h.files, h.apart, h.known, h.verified, ?_,
        fun _ _ _ hphase => by cases hphase⟩
      intro key' file' rest' statAt' stat hread hrest' hpast
      obtain ⟨found, hfound, hpair⟩ := map_eq_some_iff.mp (Phase.read.inj hread)
      obtain ⟨rfl, rfl⟩ := Prod.mk.inj hpair
      obtain ⟨onDisk, hdisk, rfl⟩ := map_eq_some_iff.mp hfound
      obtain ⟨hentry, -⟩ := List.cons.inj hrest'
      obtain ⟨rfl, rfl⟩ := Prod.mk.inj hentry
      obtain ⟨classified, hclassified, hkey, -⟩ := h.files (key, file) mem_cons_self
      refine ⟨hnow, fun other classified' file' hclassified' hkey' hother _ => ?_⟩
      refine h.apart (key, file) mem_cons_self other file.readPath ?_ ?_ ?_ ?_
      · rw [hother]
        exact some_ne_none _
      · rw [hdisk]
        exact some_ne_none _
      · exact (keyOf_classified hclassified').trans (congrArg some hkey')
      · exact (keyOf_classified hclassified).trans (congrArg some hkey)
    · cases hskip
    · cases hstep
      refine ⟨h.nodup, h.files, h.apart, h.known, h.verified, ?_,
        fun _ _ _ hphase => by cases hphase⟩
      intro _ _ _ _ _ hread _ _
      cases hread

/-- The file is read. What it has is certified when its stat is old enough. -/
theorem passInv_read (hrest : pass.rest = (key, file) :: rest)
    (hstep : afterRead pass (contentAt options disk file.readPath file.kind) = some pass') :
    PassInv options disk now mappings pass' := by
  obtain ⟨compared, todo, phase⟩ := pass
  cases hrest
  cases phase with
  | stat => cases hstep
  | modify => cases hstep
  | read found =>
    unfold afterRead at hstep
    cases hcontent : contentAt options disk file.readPath file.kind with
    | none =>
      rw [hcontent] at hstep
      cases hstep
      exact h.tail rfl (fun _ _ => get_of_erase) fun _ => .inl
    | some contentHash =>
      rw [hcontent] at hstep
      dsimp only at hstep
      cases hknown : compared.mappings.get key with
      | none =>
        rw [hknown] at hstep
        cases hstep
        exact h.tail rfl (fun _ _ => id) fun _ => .inl
      | some mapping =>
        rw [hknown] at hstep
        dsimp only at hstep
        split_ifs at hstep with hsame
        · cases hstep
          refine h.tail rfl (fun _ _ => get_of_erase) fun entry hmem => ?_
          rcases mem_append.mp hmem with hbefore | hnew
          · exact .inl hbefore
          · right
            obtain ⟨stat, hstat, rfl⟩ := map_eq_some_iff.mp (Option.mem_toList.mp hnew)
            obtain ⟨rfl, hpast⟩ := filter_eq_some_iff.mp hstat
            have hpast := of_decide_eq_true hpast
            obtain ⟨hnow, hsole⟩ := h.found key file rest stat.1 stat.2 rfl rfl hpast
            obtain ⟨-, -, hmapped⟩ := h.known key mapping hknown
            refine ⟨⟨hpast.trans hnow, ?_⟩, hmapped⟩
            intro path classified onDisk hclassified hkey hfile hmtime
            obtain ⟨classified', hclassified', -, hkind⟩ := h.files (key, file) mem_cons_self
            have hpath := hsole path classified onDisk hclassified hkey hfile hmtime
            rw [hpath, hclassified'] at hclassified
            rw [hpath, ← some.inj hclassified, hkind]
            exact hcontent
        · cases hstep
          refine ⟨h.nodup, h.files, h.apart, h.known, h.verified,
            fun _ _ _ _ _ hphase => (by cases hphase), ?_⟩
          intro key' file' rest' _ hrest'
          obtain ⟨hentry, -⟩ := List.cons.inj hrest'
          rw [← (Prod.mk.inj hentry).1, hknown]
          exact some_ne_none _

/-- A file that differs was looked at. -/
theorem passInv_modify {committed : Bool} (hstep : afterModify pass committed = some pass') :
    PassInv options disk now mappings pass' := by
  obtain ⟨compared, todo, phase⟩ := pass
  cases phase with
  | stat => cases hstep
  | read _ => cases hstep
  | modify =>
    cases todo with
    | nil => cases hstep
    | cons entry rest =>
      obtain ⟨key, file⟩ := entry
      cases hstep
      cases committed with
      | false => exact h.tail rfl (fun _ _ => get_of_erase) fun _ => .inl
      | true => exact h.tail rfl (fun _ _ => get_of_erase) fun _ => .inl

omit h in
/-- A commit for a modified file that is mapped keeps its file and its key. -/
theorem handleModify_known (hclassified : observer.rules.classifyVaultPath path = some classified)
    (hfound : findMapping mappings classified.collisionKey = some mapping)
    (h : handleModify observer files mappings ids path force = some commit) :
    ∃ upsert, nextMappings mappings commit = upsertMapping mappings upsert ∧
      upsert.fileId = mapping.fileId ∧ upsert.collisionKey = classified.collisionKey := by
  unfold handleModify at h
  rw [hclassified] at h
  dsimp only at h
  rw [hfound] at h
  obtain ⟨read, -, rfl⟩ := commitModify_some h
  exact ⟨_, rfl, rfl, rfl⟩

omit h in
theorem unstamped_contentCommit (ids : FreshIds) (kind : LocalChangeKind) (fileId : Id)
    (classified : ClassifiedPath) (previousPath : Option Path) (read : ReadContent) :
    ∀ mapping, (contentCommit ids kind fileId classified previousPath read).upsertMapping =
      some mapping → mapping.stat = none := by
  intro mapping hmapping
  cases hmapping
  rfl

omit h in
theorem unstamped_handleModify
    (h : handleModify observer files mappings ids path force = some commit) :
    ∀ mapping, commit.upsertMapping = some mapping → mapping.stat = none := by
  obtain ⟨classified, -, ⟨-, h⟩ | ⟨mapping, -, h⟩⟩ := handleModify_cases h
  · obtain ⟨read, -, rfl⟩ := map_eq_some_iff.mp h
    exact unstamped_contentCommit _ _ _ _ _ _
  · obtain ⟨read, -, rfl⟩ := commitModify_some h
    exact unstamped_contentCommit _ _ _ _ _ _

omit h in
/-- A file under another key stays mapped there. -/
theorem MappedAt.upsert {fileId : Id} {upsert : LocalFileMapping}
    (h : MappedAt mappings fileId key) (hapart : FilesApart mappings) (hmem : mapping ∈ mappings)
    (hfile : upsert.fileId = mapping.fileId) (hkey : upsert.collisionKey = mapping.collisionKey)
    (hother : key ≠ mapping.collisionKey) :
    MappedAt (upsertMapping mappings upsert) fileId key := by
  obtain ⟨kept, hkept, rfl, rfl⟩ := h
  refine ⟨kept, ProducerIndex.mem_upsertMapping_of_ne hkept ?_ ?_, rfl, rfl⟩
  · intro hsame
    rw [hfile] at hsame
    rw [inj_on_of_nodup_map hapart hkept hmem hsame] at hother
    exact hother rfl
  · rw [hkey]
    exact hother

/-- The pass commits the modification of a file that differs: its key is the one the pass is
at, and what it has found is about other keys. -/
theorem passInv_committed (hapart : FilesApart mappings) (hrest : pass.rest = (key, file) :: rest)
    (hcommit : handleModify options.toObserverOptions files mappings ids file.readPath false =
      some commit) (hstep : afterModify pass true = some pass') :
    PassInv options disk now (nextMappings mappings commit) pass' := by
  obtain ⟨compared, todo, phase⟩ := pass
  cases hrest
  cases phase with
  | stat => cases hstep
  | read _ => cases hstep
  | modify =>
    obtain ⟨classified, hclassified, hclassifiedKey, -⟩ := h.files (key, file) mem_cons_self
    dsimp only at hclassifiedKey
    subst hclassifiedKey
    obtain ⟨known, hknown⟩ := ne_none_iff_exists'.mp (h.differs _ _ _ rfl rfl)
    obtain ⟨-, -, mapped, hmapped, -, hmappedKey⟩ := h.known _ known hknown
    have hfound : ∃ mapping, findMapping mappings classified.collisionKey = some mapping := by
      rw [← isSome_iff_exists, findMapping, List.find?_isSome]
      exact ⟨mapped, hmapped, decide_eq_true hmappedKey⟩
    obtain ⟨mapping, hmapping⟩ := hfound
    obtain ⟨hmem, hmappingKey⟩ := findMapping_some hmapping
    obtain ⟨upsert, hnext, hfile, hkey⟩ := handleModify_known hclassified hmapping hcommit
    rw [← hmappingKey] at hkey
    have hstays : ∀ fileId key, MappedAt mappings fileId key → key ≠ classified.collisionKey →
        MappedAt (nextMappings mappings commit) fileId key := by
      intro fileId key hat hother
      rw [hnext]
      rw [← hmappingKey] at hother
      exact hat.upsert hapart hmem hfile hkey hother
    have htail := passInv_modify h hstep
    have hnodup := h.nodup
    rw [map_cons] at hnodup
    cases hstep
    refine ⟨htail.nodup, htail.files, htail.apart, ?_, ?_, htail.found, htail.differs⟩
    · intro other mapping' hget
      obtain ⟨hother, hvouched, hat⟩ := htail.known other mapping' hget
      refine ⟨hother, hvouched, hstays _ _ hat ?_⟩
      intro hsame
      dsimp only at hget
      rw [if_pos rfl, get_erase, if_pos hsame] at hget
      cases hget
    · intro entry hentry
      obtain ⟨at_, hfree, hcertified, hat⟩ := h.verified entry hentry
      rw [map_cons, mem_cons, not_or] at hfree
      exact ⟨at_, hfree.2, hcertified, hstays _ _ hat hfree.1⟩

end

variable {options : StatOptions} {world world' : StatWorld} {action : StatAction}
  {disk : JsObject Path StatFile} {now : ℕ}

structure Inv (options : StatOptions) (world : StatWorld) : Prop where
  saved : ClientSaved (Vouched options world.disk world.now) world.client
  held : ∀ mapping ∈ world.held, Vouched options world.disk world.now mapping
  pass : ∀ pass, world.pass = some pass →
    PassInv options world.disk world.now world.mappings pass

/-- Time goes on, or a file is written or removed. -/
theorem Inv.later (h : Inv options world) (hlater : Later world.disk world.now disk now)
    (hapart : world.pass ≠ none → ∀ key, ApartAt options world.disk key → ApartAt options disk key) :
    Inv options { world with disk, now } where
  saved := h.saved.mono fun _ hvouched => hvouched.later hlater
  held mapping hmem := (h.held mapping hmem).later hlater
  pass pass hpass := by
    refine (h.pass pass hpass).later hlater (hapart ?_)
    rw [show world.pass = some pass from hpass]
    exact some_ne_none pass

/-- The pass goes on. -/
theorem Inv.withPass (h : Inv options world) {pass : Option Pass}
    (hpass : ∀ next, pass = some next →
      PassInv options world.disk world.now world.mappings next)
    (hstep : world.withPass pass = some world') : Inv options world' := by
  obtain ⟨next, hnext, rfl⟩ := map_eq_some_iff.mp hstep
  refine ⟨h.saved, h.held, fun pass' hsame => ?_⟩
  cases hsame
  exact hpass next hnext

theorem ApartAt.write {key : ℕ} (h : ApartAt options world.disk key) {path : Path}
    (honly : onlyOne options world path) (file : StatFile) :
    ApartAt options (world.disk.set path file) key := by
  have hclear : ∀ other, world.disk.get other ≠ none → keyOf options.rules path = some key →
      keyOf options.rules other = some key → other = path := by
    intro other hother hkey hsame
    obtain ⟨there, hthere⟩ := ne_none_iff_exists'.mp hother
    have hmem : other ∈ world.disk.keys :=
      mem_map.mpr ⟨(other, there), get_eq_some.mp hthere, rfl⟩
    rcases of_decide_eq_true (all_eq_true.mp honly other hmem) with heq | hnone | hne
    · exact heq
    · rw [hkey] at hnone
      cases hnone
    · exact absurd (hsame.trans hkey.symm) hne
  intro first second hfirst hsecond hfirstKey hsecondKey
  rw [get_set] at hfirst hsecond
  by_cases hfirstPath : first = path
  · by_cases hsecondPath : second = path
    · rw [hfirstPath, hsecondPath]
    · rw [if_neg hsecondPath] at hsecond
      rw [hfirstPath] at hfirstKey ⊢
      exact (hclear second hsecond hfirstKey hsecondKey).symm
  · rw [if_neg hfirstPath] at hfirst
    by_cases hsecondPath : second = path
    · rw [hsecondPath] at hsecondKey ⊢
      exact hclear first hfirst hsecondKey hfirstKey
    · rw [if_neg hsecondPath] at hsecond
      exact h first second hfirst hsecond hfirstKey hsecondKey

theorem ApartAt.remove {key : ℕ} (h : ApartAt options world.disk key) (path : Path) :
    ApartAt options (world.disk.erase path) key := by
  have hkept : ∀ other, (world.disk.erase path).get other ≠ none → world.disk.get other ≠ none := by
    intro other hother
    obtain ⟨file, hfile⟩ := ne_none_iff_exists'.mp hother
    rw [get_of_erase hfile]
    exact some_ne_none file
  exact fun first second hfirst hsecond => h first second (hkept first hfirst) (hkept second hsecond)

theorem vouched_of_unstamped {mapping : LocalFileMapping} (h : mapping.stat = none) :
    Vouched options disk now mapping := by
  intro stat hstat
  rw [h] at hstat
  cases hstat

/-- A method brings no stat but one that a mapping had. -/
theorem brings_unstamped (h : Inv options world) {action : ClientAction}
    (hunstamped : unstamped world action) :
    Brings (Vouched options world.disk world.now) world.client action := by
  cases action with
  | commitLocalChange commit revisionId recordId now =>
    intro mapping hmapping
    unfold unstamped at hunstamped
    dsimp only at hunstamped
    rw [hmapping] at hunstamped
    exact vouched_of_unstamped (of_decide_eq_true hunstamped)
  | adoptRemoteMapping mapping headRevisionId =>
    exact vouched_of_unstamped (of_decide_eq_true hunstamped)
  | commitHeadResolution input revisionId recordId now =>
    rcases of_decide_eq_true hunstamped with hnone | hheld
    · exact vouched_of_unstamped hnone
    · exact h.held _ hheld
  | recordStats entries => cases hunstamped
  | checkpointApply | enqueueMerge | forgetRemoteMapping | completeApply | endApply | recoverRecord
  | document | reload => trivial

/-- A stat is recorded on a mapping only when the pass verified its file and its content. -/
theorem brings_recordStats (h : Inv options world) {pass : Pass} (hpass : world.pass = some pass) :
    Brings (Vouched options world.disk world.now) world.client
      (.recordStats pass.compared.statsToRecord) := by
  intro mapping hmem
  have hvouched := h.saved.state.holds mapping hmem
  unfold withStat
  cases hentry : pass.compared.statsToRecord.reverse.find? fun entry =>
      entry.fileId = mapping.fileId with
  | none => exact hvouched
  | some entry =>
    dsimp only
    split_ifs with hhash
    · have hfile := List.find?_some hentry
      rw [decide_eq_true_eq] at hfile
      have hrecorded := mem_reverse.mp (mem_of_find?_eq_some hentry)
      obtain ⟨key, -, hcertified, mapped, hmapped, hmappedFile, rfl⟩ :=
        (h.pass pass hpass).verified entry hrecorded
      have hsame : mapped = mapping :=
        inj_on_of_nodup_map h.saved.state.apart hmapped hmem (hmappedFile.trans hfile)
      intro stat hstat
      cases hstat
      rw [hsame, hhash] at hcertified
      exact hcertified
    · exact hvouched

theorem pass_of_step {next : Pass → Option StatWorld} {world world' : StatWorld}
    (h : (match world.pass with | some pass => next pass | none => none) = some world') :
    ∃ pass, world.pass = some pass ∧ next pass = some world' := by
  cases hpass : world.pass with
  | none =>
    rw [hpass] at h
    cases h
  | some pass =>
    rw [hpass] at h
    exact ⟨pass, rfl, h⟩

/-- One action keeps every recorded stat true. -/
theorem inv_step (h : Inv options world) (hreloads : Reloads world action)
    (hstep : statStep options world action = some world') : Inv options world' := by
  cases action with
  | elapse duration =>
    cases hstep
    exact h.later (later_elapse duration) fun _ _ hapart => hapart
  | write path content =>
    unfold statStep at hstep
    dsimp only at hstep
    split_ifs at hstep with hallowed
    cases hstep
    refine h.later (later_write options path content) fun hpass key hapart => ?_
    rcases hallowed with hnone | honly
    · exact absurd (isNone_iff_eq_none.mp hnone) hpass
    · exact hapart.write honly _
  | remove path =>
    cases hstep
    exact h.later (later_remove path) fun _ _ hapart => hapart.remove path
  | listMappings =>
    cases hstep
    refine ⟨h.saved, fun mapping hmem => ?_, h.pass⟩
    rcases mem_append.mp hmem with hbefore | hnow
    · exact h.held mapping hbefore
    · exact h.saved.state.holds mapping hnow
  | client action =>
    unfold statStep at hstep
    dsimp only at hstep
    split_ifs at hstep with henabled
    obtain ⟨client, hclient, rfl⟩ := map_eq_some_iff.mp hstep
    obtain ⟨hnone, hunstamped⟩ := henabled
    refine ⟨?_, h.held, fun pass hpass => ?_⟩
    · exact clientSaved_step h.saved (brings_unstamped h hunstamped) hreloads hclient
    · rw [isNone_iff_eq_none.mp hnone] at hpass
      cases hpass
  | reconcile listing =>
    unfold statStep at hstep
    dsimp only at hstep
    split_ifs at hstep with henabled
    cases hstep
    refine ⟨h.saved, h.held, fun pass hpass => ?_⟩
    cases hpass
    exact passInv_start h.saved.state.holds henabled.2
  | stat statAt =>
    unfold statStep at hstep
    dsimp only at hstep
    obtain ⟨pass, hpass, hstep⟩ := pass_of_step hstep
    split_ifs at hstep with hnow
    refine h.withPass (fun next hnext => ?_) hstep
    obtain ⟨entry, hhead, htaken⟩ := bind_eq_some_iff.mp hnext
    obtain ⟨rest, hrest⟩ := List.head?_eq_some_iff.mp hhead
    exact passInv_stat (h.pass pass hpass) hnow hrest htaken
  | readContent =>
    unfold statStep at hstep
    dsimp only at hstep
    obtain ⟨pass, hpass, hstep⟩ := pass_of_step hstep
    refine h.withPass (fun next hnext => ?_) hstep
    obtain ⟨entry, hhead, htaken⟩ := bind_eq_some_iff.mp hnext
    obtain ⟨rest, hrest⟩ := List.head?_eq_some_iff.mp hhead
    exact passInv_read (h.pass pass hpass) hrest htaken
  | observeModify ids revisionId recordId now =>
    unfold statStep at hstep
    dsimp only at hstep
    obtain ⟨pass, hpass, hstep⟩ := pass_of_step hstep
    obtain ⟨entry, hhead, hstep⟩ := bind_eq_some_iff.mp hstep
    obtain ⟨next, hnext, hstep⟩ := bind_eq_some_iff.mp hstep
    obtain ⟨rest, hrest⟩ := List.head?_eq_some_iff.mp hhead
    cases hcommit : handleModify options.toObserverOptions world.files world.mappings ids
        entry.2.readPath false with
    | none =>
      rw [hcommit] at hstep
      cases hstep
      refine ⟨h.saved, h.held, fun pass' hpass' => ?_⟩
      cases hpass'
      exact passInv_modify (h.pass pass hpass) hnext
    | some commit =>
      rw [hcommit] at hstep
      obtain ⟨client, hclient, rfl⟩ := map_eq_some_iff.mp hstep
      have hbrings : Brings (Vouched options world.disk world.now) world.client
          (.commitLocalChange commit revisionId recordId now) :=
        fun mapping hmapping => vouched_of_unstamped (unstamped_handleModify hcommit mapping hmapping)
      refine ⟨clientSaved_step h.saved hbrings trivial hclient, h.held,
        fun pass' hpass' => ?_⟩
      cases hpass'
      refine (passInv_committed (h.pass pass hpass) h.saved.state.apart hrest hcommit hnext).grow ?_
      obtain ⟨transaction, hcommitted, rfl⟩ := commitLocalChange_step hclient
      exact fun mapping hmem => mem_committed h.saved.state.apart hcommitted hmem
  | observeFails =>
    unfold statStep at hstep
    dsimp only at hstep
    obtain ⟨pass, hpass, hstep⟩ := pass_of_step hstep
    exact h.withPass (fun next hnext => passInv_modify (h.pass pass hpass) hnext) hstep
  | recordStats =>
    unfold statStep at hstep
    dsimp only at hstep
    obtain ⟨pass, hpass, hstep⟩ := pass_of_step hstep
    split_ifs at hstep
    obtain ⟨client, hclient, rfl⟩ := map_eq_some_iff.mp hstep
    refine ⟨clientSaved_step h.saved (brings_recordStats h hpass) trivial hclient, h.held,
      fun pass' hpass' => ?_⟩
    cases hpass'
  | endPass =>
    cases hstep
    refine ⟨h.saved, h.held, fun pass' hpass' => ?_⟩
    cases hpass'

/-- No stat has been recorded yet, and no scan is under way. -/
structure Unrecorded (options : StatOptions) (world : StatWorld) : Prop where
  saved : ClientSaved (fun mapping => mapping.stat = none) world.client
  held : world.held = []
  pass : world.pass = none

theorem inv_of_unrecorded (h : Unrecorded options world) : Inv options world where
  saved := h.saved.mono fun _ => vouched_of_unstamped
  held mapping hmem := by
    rw [h.held] at hmem
    exact absurd hmem not_mem_nil
  pass pass hpass := by
    rw [h.pass] at hpass
    cases hpass

/-- Where a scan finds the size and the time that the mapping has, the file has the content the
mapping has. -/
theorem shortcut_shows_edits (options : StatOptions) {start world : StatWorld}
    (hstart : Unrecorded options start) (h : Reached (statStep options) Reloads start world)
    {pass : Pass} {key : ℕ} {file : EligibleFile} {rest : List (ℕ × EligibleFile)}
    {mapping : LocalFileMapping} {stat : FileStat} (hpass : world.pass = some pass)
    (hrest : pass.rest = (key, file) :: rest)
    (hmapping : pass.compared.mappings.get key = some mapping)
    (hstat : statOnDisk options world file.readPath = some stat)
    (hsame : mapping.stat = some stat) :
    readEligibleContent options.toScanOptions world.files file.readPath file.kind =
      some mapping.contentHash := by
  have hinv : Inv options world := h.invariant (inv_of_unrecorded hstart)
    fun _ _ _ hbefore hreloads hstep => inv_step hbefore hreloads hstep
  have hpassInv := hinv.pass pass hpass
  obtain ⟨hkey, hvouched, -⟩ := hpassInv.known key mapping hmapping
  have hcertified := hvouched stat hsame
  obtain ⟨onDisk, hdisk, rfl⟩ := map_eq_some_iff.mp hstat
  obtain ⟨classified, hclassified, hclassifiedKey, hkind⟩ := hpassInv.files (key, file) (by
    rw [hrest]
    exact mem_cons_self)
  have hcontent := hcertified.content file.readPath classified onDisk hclassified
    (hclassifiedKey.trans hkey.symm) hdisk rfl
  rw [hkind] at hcontent
  exact hcontent

/-- A vault of notes on a disk that keeps seconds. -/
def noteStats : StatOptions where
  toScanOptions := { noteScan with canRecord := true }
  client := ProducerIndex.plainClient
  sizeOf content := (textIn content).length
  granularity := 1000
  granularity_pos := by decide
  granularity_le := by decide

def noteCommit : LocalChangeCommit :=
  contentCommit ⟨11, 90⟩ .create 11 { canonicalPath := 1, collisionKey := 1, kind := .markdown } none
    ⟨[97, lineFeed], .text [97, lineFeed]⟩

/-- A mapped note's stat is taken, and the note is read. -/
theorem pass_refines_note : ∃ compared, Labelled Answers
    (compareFiles noteStats.toScanOptions
      (startPass noteStats.toScanOptions ⟨[1], false⟩ [noteMapping 1]).compared
      (sortPaths noteStats.rules [1]).eligible.entries)
    [⟨.stat 1, .ok (5000, some ⟨0, 2⟩)⟩,
      ⟨.readContent 1 .markdown, .ok (some (.text [97, lineFeed]))⟩] (.ret compared) ∧
    compared.unchanged = 1 := by
  have hrest : (startPass noteStats.toScanOptions ⟨[1], false⟩ [noteMapping 1]).rest =
      [(1, ⟨1, .markdown⟩)] := rfl
  have hstat := PassStep.stat 5000 (some ⟨0, 2⟩) hrest
    (rfl : afterStat noteStats.toScanOptions _ 5000 (some ⟨0, 2⟩) = some _)
  rw [if_pos (by decide)] at hstat
  have hread := (Labelled.single hstat).tail
    (.read (some (.text [97, lineFeed])) hrest (rfl : afterRead _ _ = some _))
  have h := pass_refines ⟨[1], false⟩ [noteMapping 1] hread
  exact ⟨_, h.2 rfl ▸ h.1, rfl⟩

/-- A note is written and committed, a scan records its stat, and the next scan comes to it. -/
def secondScan : List StatAction :=
  [.write 1 (.text [97, lineFeed]),
    .client (.commitLocalChange noteCommit 13 103 0),
    .elapse 5000, .reconcile ⟨[1], false⟩, .stat 5000, .readContent, .recordStats,
    .reconcile ⟨[1], false⟩]

theorem shortcut_shows_edits_note :
    ∃ world pass, Reached (statStep noteStats) Reloads {} world ∧ world.pass = some pass ∧
      pass.compared.mappings.get 1 = some { noteMapping 1 with stat := some ⟨0, 2⟩ } ∧
      readEligibleContent noteStats.toScanOptions world.files 1 .markdown =
        some (.text [97, lineFeed]) := by
  have hruns : (run (statStep noteStats) {} secondScan).any (fun world =>
      world.pass.any fun pass => pass.rest = [(1, ⟨1, .markdown⟩)] ∧
        pass.compared.mappings.get 1 = some { noteMapping 1 with stat := some ⟨0, 2⟩ } ∧
        statOnDisk noteStats world 1 = some ⟨0, 2⟩) = true := by decide +kernel
  obtain ⟨world, hrun, hworld⟩ := (Option.any_eq_true _ _).mp hruns
  obtain ⟨pass, hpass, hfound⟩ := (Option.any_eq_true _ _).mp hworld
  obtain ⟨hrest, hmapping, hstat⟩ := of_decide_eq_true hfound
  have hstart : Unrecorded noteStats {} :=
    ⟨⟨saved_empty, saved_empty⟩, rfl, rfl⟩
  have hallowed : Allowed (statStep noteStats) Reloads {} secondScan := by
    refine allowed_of_mem (fun action hmem world => ?_) _
    simp only [secondScan, mem_cons, not_mem_nil, or_false] at hmem
    rcases hmem with rfl | rfl | rfl | rfl | rfl | rfl | rfl | rfl <;> trivial
  have hreached : Reached (statStep noteStats) Reloads {} world :=
    Reached.start.run hallowed hrun
  exact ⟨world, pass, hreached, hpass, hmapping,
    shortcut_shows_edits noteStats hstart hreached hpass hrest hmapping hstat rfl⟩

end Havemind.StatShortcut
