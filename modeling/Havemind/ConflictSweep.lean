import Havemind.ConflictNames
import Havemind.Diff3
import Havemind.JsObject
import Havemind.Runs

/-!
The sweep that merges conflict copies into their notes, between whose awaits the user saves
and deletes files. The write to a note is conditional on what was read of it; the removal
of the copy behind it is not, so a copy that is saved after it was read is lost, and only
then.
-/
namespace Havemind.ConflictSweep

open JsText JsonText JsObject VaultPath ConflictNames Diff3 Runs List Option
open VaultPayload (canonicalizeMarkdown)

abbrev FileId := ℕ

/-- The files, the texts of the open editors, and which file is known to be where. -/
structure Vault where
  files : JsObject JsString JsString
  editors : JsString → List JsString
  fileIdAtPath : JsString → Option FileId
  fileIdForCopy : JsString → Option FileId

def inReservedFolder (path : JsString) : Bool :=
  path = conflictFolder || (conflictFolder ++ [slash]).isPrefixOf path

/-- `createObsidianConflictPort`, as far as the list of copies asks it. -/
def conflictPort (localeLe : JsString → JsString → Bool) (vault : Vault) : ConflictVaultPort :=
  let allFiles := vault.files.keys.map fun path => (⟨path, leafOf path⟩ : ConflictVaultFile)
  { listConflictFiles := allFiles.filter fun file => inReservedFolder file.path
    listNoteFiles := allFiles.filter fun file => !inReservedFolder file.path
    localeLe }

def deletedMarkerFront : JsString :=
  ascii "Deleted on another device." ++ [lineFeed, lineFeed] ++ ascii "By "

/-- `DELETED_MARKER_RE`: the ending has a fixed length, so the author is what is left. -/
def isDeletedMarker (text : JsString) : Bool :=
  let signed := ((text.drop deletedMarkerFront.length).reverse.dropWhile isWhitespace).reverse
  let author := signed.take (signed.length - 18)
  deletedMarkerFront.isPrefixOf text && !author.isEmpty && !author.contains lineFeed &&
    fitsPattern (exactly (ascii ", ") ++ stampPattern ++ exactly (ascii "."))
      (signed.drop (signed.length - 18))

/-- A copy and the note it is merged into. -/
structure Job where
  copyPath : JsString
  targetPath : JsString
  fileId : FileId
  deriving DecidableEq

/-- The await a sweep stands at, with what it keeps across it. -/
inductive Phase
  | asking (job : Job)
  | reading (job : Job) (ancestor : JsString) (mine theirs : Option JsString)
  | replacing (job : Job) (ancestor mine theirs text : JsString)
  | removing (job : Job) (theirs : JsString)
  | done

/-- A note that was replaced, with what it held and who the two files belonged to then. -/
structure Replacement where
  job : Job
  ancestor : JsString
  before : JsString
  theirs : JsString
  after : JsString
  noteOwner : Option FileId
  copyOwner : Option FileId
  deriving DecidableEq

/-- What happened to the sweep and what it did. -/
inductive Deed
  | answered (job : Job) (ancestor : JsString)
  | replaced (replacement : Replacement)
  | removed (copyPath text : JsString)
  deriving DecidableEq

structure Sweep where
  vault : Vault
  phase : Phase
  waiting : List ConflictCopy
  resolved : ℕ
  notices : List String
  history : List Deed

/-- The job a copy of the list is, where it may be merged at all. -/
def jobOf (vault : Vault) (copy : ConflictCopy) : Option Job :=
  if copy.kind = .legacy ∨ copy.isBinary ∨ copy.targetKnown = false then none
  else
    copy.targetPath.bind fun targetPath =>
      (vault.fileIdAtPath targetPath).bind fun fileId =>
        if vault.fileIdForCopy copy.copyPath ≠ some fileId then none
        else some ⟨copy.copyPath, targetPath, fileId⟩

/-- The next copy that is not skipped, and those behind it. -/
def nextJob (vault : Vault) : List ConflictCopy → Option (Job × List ConflictCopy)
  | [] => none
  | copy :: rest =>
      match jobOf vault copy with
      | some job => some (job, rest)
      | none => nextJob vault rest

/-- The loop goes on to the next await, or the sweep ends. -/
def goOn (sweep : Sweep) : Sweep :=
  match nextJob sweep.vault sweep.waiting with
  | some (job, rest) => { sweep with phase := .asking job, waiting := rest }
  | none =>
      { sweep with
        phase := .done
        waiting := []
        notices := if sweep.resolved > 0 then
          sweep.notices ++ ["Auto-resolved " ++ toString sweep.resolved ++ " conflict(s)"]
        else sweep.notices }

def sweepConflictCopies (unicode : UnicodeMethods)
    (localeLe : JsString → JsString → Bool) (vault : Vault) : Sweep :=
  goOn
    { vault
      phase := .done
      waiting := listConflictCopies unicode (conflictPort localeLe vault)
      resolved := 0
      notices := []
      history := [] }

/-- Both texts are there: the merge, up to the await of the write. -/
def merge (sweep : Sweep) (job : Job) (ancestor mine theirs : JsString) : Sweep :=
  if isDeletedMarker theirs then goOn sweep
  else
    match mergeText ancestor mine theirs with
    | .ok (.merged text) => { sweep with phase := .replacing job ancestor mine theirs text }
    | _ => goOn sweep

def received (sweep : Sweep) (job : Job) (ancestor : JsString) (mine theirs : Option JsString) :
    Sweep :=
  match mine, theirs with
  | some mine, some theirs => merge sweep job ancestor mine theirs
  | mine, theirs => { sweep with phase := .reading job ancestor mine theirs }

/-- What happens between two awaits of the sweep, or at one of them. -/
inductive Event
  | saved (path text : JsString)
  | deleted (path : JsString)
  | typed (path : JsString) (texts : List JsString)
  | owned (path : JsString) (fileId : Option FileId)
  | recorded (copyPath : JsString) (fileId : Option FileId)
  | answered (ancestor : Option JsString)
  | noteRead
  | copyRead
  | processed
  | removed
  | failed

/-- The events that are steps of the sweep. -/
def Event.bySweep : Event → Bool
  | .saved _ _ | .deleted _ | .typed _ _ | .owned _ _ | .recorded _ _ => false
  | .answered _ | .noteRead | .copyRead | .processed | .removed | .failed => true

/-- The user, and the tables the rest of the plugin keeps. -/
def disturb (vault : Vault) : Event → Vault
  | .saved path text => { vault with files := vault.files.set path text }
  | .deleted path => { vault with files := vault.files.erase path }
  | .typed path texts => { vault with editors := Function.update vault.editors path texts }
  | .owned path fileId =>
      { vault with fileIdAtPath := Function.update vault.fileIdAtPath path fileId }
  | .recorded copyPath fileId =>
      { vault with fileIdForCopy := Function.update vault.fileIdForCopy copyPath fileId }
  | _ => vault

def Vault.unsaved (vault : Vault) (path current : JsString) : Bool :=
  (vault.editors path).any fun text => text ≠ canonicalizeMarkdown current

/-- An await ends. A read or a write that finds no file, a `null` and a thrown error all
lead to the next copy. -/
def step (sweep : Sweep) (event : Event) : Option Sweep :=
  match event, sweep.phase with
  | .answered none, .asking _ => some (goOn sweep)
  | .answered (some ancestor), .asking job =>
      some
        { sweep with
          phase := .reading job ancestor none none
          history := sweep.history ++ [.answered job ancestor] }
  | .noteRead, .reading job ancestor none theirs =>
      (sweep.vault.files.get job.targetPath).map fun mine =>
        received sweep job ancestor (some mine) theirs
  | .copyRead, .reading job ancestor mine none =>
      (sweep.vault.files.get job.copyPath).map fun theirs =>
        received sweep job ancestor mine (some theirs)
  | .processed, .replacing job ancestor mine theirs text =>
      (sweep.vault.files.get job.targetPath).map fun current =>
        if current ≠ mine ∨ sweep.vault.unsaved job.targetPath current then goOn sweep
        else
          { sweep with
            vault := { sweep.vault with files := sweep.vault.files.set job.targetPath text }
            phase := .removing job theirs
            history := sweep.history ++ [.replaced
              { job, ancestor, before := current, theirs, after := text
                noteOwner := sweep.vault.fileIdAtPath job.targetPath
                copyOwner := sweep.vault.fileIdForCopy job.copyPath }] }
  | .removed, .removing job _ =>
      some <| goOn
        { sweep with
          vault := { sweep.vault with files := sweep.vault.files.erase job.copyPath }
          resolved := sweep.resolved + 1
          history := sweep.history ++
            ((sweep.vault.files.get job.copyPath).map (Deed.removed job.copyPath)).toList }
  | .failed, .asking _ => some (goOn sweep)
  | .failed, .reading _ _ _ _ => some (goOn sweep)
  | .failed, .replacing _ _ _ _ _ => some (goOn sweep)
  | .failed, .removing _ _ => some (goOn sweep)
  | event, _ =>
      if event.bySweep then none else some { sweep with vault := disturb sweep.vault event }

/-- The job whose write is still to come. -/
def Phase.pending : Phase → Option Job
  | .asking job | .reading job _ _ _ | .replacing job _ _ _ _ => some job
  | .removing _ _ | .done => none

/-- The copy that was read, with the text it held then. -/
def Phase.copyRead : Phase → Option (JsString × JsString)
  | .reading job _ _ (some theirs) => some (job.copyPath, theirs)
  | .replacing job _ _ theirs _ => some (job.copyPath, theirs)
  | .removing job theirs => some (job.copyPath, theirs)
  | _ => none

/-- The condition: no copy is saved with another text between its reading and its removal,
and up to the write to a note the two files stay those of one file id. -/
def Calm (sweep : Sweep) : Event → Prop
  | .saved path text => ∀ read ∈ sweep.phase.copyRead, read.1 = path → read.2 = text
  | .owned path fileId =>
      ∀ job ∈ sweep.phase.pending, job.targetPath = path → fileId = some job.fileId
  | .recorded copyPath fileId =>
      ∀ job ∈ sweep.phase.pending, job.copyPath = copyPath → fileId = some job.fileId
  | _ => True

instance (sweep : Sweep) (event : Event) : Decidable (Calm sweep event) := by
  cases event <;> unfold Calm <;> infer_instance

/-- A note was replaced by the merge of an ancestor, what it held and the copy's text, and both
files were those of one file id. -/
structure Merging (history : List Deed) (replacement : Replacement) : Prop where
  ancestor : .answered replacement.job replacement.ancestor ∈ history
  merged : mergeText replacement.ancestor replacement.before replacement.theirs =
    .ok (.merged replacement.after)
  note : replacement.noteOwner = some replacement.job.fileId
  copy : replacement.copyOwner = some replacement.job.fileId

/-- Before a copy was removed, the text it held then was merged into its note. -/
def Justified (history : List Deed) : Prop :=
  ∀ front copyPath text rest, history = front ++ .removed copyPath text :: rest →
    ∃ replacement, .replaced replacement ∈ front ∧ replacement.job.copyPath = copyPath ∧
      replacement.theirs = text ∧ Merging front replacement

/-- What a step of the sweep does to the files. -/
inductive Effect (before after : Sweep) : Prop
  | read (vault : after.vault = before.vault)
      (history : after.history = before.history ∨
        ∃ job ancestor, after.history = before.history ++ [.answered job ancestor])
  | replaced (replacement : Replacement)
      (held : before.vault.files.get replacement.job.targetPath = some replacement.before)
      (files : after.vault.files =
        before.vault.files.set replacement.job.targetPath replacement.after)
      (outside : inReservedFolder replacement.job.targetPath = false)
      (note : replacement.noteOwner = before.vault.fileIdAtPath replacement.job.targetPath)
      (copy : replacement.copyOwner = before.vault.fileIdForCopy replacement.job.copyPath)
      (history : after.history = before.history ++ [.replaced replacement])
  | removed (copyPath text : JsString) (held : before.vault.files.get copyPath = some text)
      (files : after.vault.files = before.vault.files.erase copyPath)
      (history : after.history = before.history ++ [.removed copyPath text])

section
variable {unicode : UnicodeMethods} {localeLe : JsString → JsString → Bool} {vault : Vault}
  {copy : ConflictCopy} {copies rest : List ConflictCopy} {job : Job}

/-- A copy lies in the reserved folder, its note outside. -/
structure Placed (copy : ConflictCopy) : Prop where
  inside : inReservedFolder copy.copyPath = true
  outside : ∀ path, copy.targetPath = some path → inReservedFolder path = false

structure Paired (job : Job) : Prop where
  inside : inReservedFolder job.copyPath = true
  outside : inReservedFolder job.targetPath = false

structure Owned (vault : Vault) (job : Job) : Prop where
  note : vault.fileIdAtPath job.targetPath = some job.fileId
  copy : vault.fileIdForCopy job.copyPath = some job.fileId

theorem Paired.ne (h : Paired job) : job.copyPath ≠ job.targetPath := by
  intro heq
  have hnote := h.outside
  rw [← heq, h.inside] at hnote
  cases hnote

theorem placed_of_conflictCopy {notes : List ConflictVaultFile} {file : ConflictVaultFile}
    (hfile : inReservedFolder file.path = true)
    (hnotes : ∀ note ∈ notes, inReservedFolder note.path = false)
    (h : conflictCopy unicode notes file = some copy) : Placed copy := by
  obtain ⟨parsed, -, rfl⟩ := map_eq_some_iff.mp h
  cases hkind : parsed.kind with
  | legacy => exact ⟨hfile, fun path hpath => by cases hpath⟩
  | new =>
    refine ⟨hfile, fun path hpath => ?_⟩
    obtain ⟨note, hunique, hnote⟩ := map_eq_some_iff.mp hpath
    rw [← hnote]
    apply hnotes
    split at hunique
    · next only hfilter =>
      have hmem : only ∈ [only] := mem_singleton_self only
      rw [← hfilter, some.inj hunique] at hmem
      exact mem_of_mem_filter hmem
    · cases hunique

theorem placed_of_mem
    (h : copy ∈ listConflictCopies unicode (conflictPort localeLe vault)) : Placed copy := by
  rw [listConflictCopies, mem_insertionSort, mem_filterMap] at h
  obtain ⟨file, hfile, hcopy⟩ := h
  apply placed_of_conflictCopy _ _ hcopy
  · exact (mem_filter.mp hfile).2
  · intro note hnote
    simpa using (mem_filter.mp hnote).2

theorem jobOf_spec (hplaced : Placed copy) (h : jobOf vault copy = some job) :
    Paired job ∧ Owned vault job := by
  unfold jobOf at h
  split_ifs at h
  obtain ⟨targetPath, htarget, h⟩ := bind_eq_some_iff.mp h
  obtain ⟨fileId, hnote, h⟩ := bind_eq_some_iff.mp h
  split_ifs at h with hcopy
  obtain rfl := some.inj h
  exact ⟨⟨hplaced.inside, hplaced.outside targetPath htarget⟩, hnote, not_not.mp hcopy⟩

theorem nextJob_spec (hplaced : ∀ copy ∈ copies, Placed copy)
    (h : nextJob vault copies = some (job, rest)) :
    Paired job ∧ Owned vault job ∧ ∀ copy ∈ rest, Placed copy := by
  induction copies with
  | nil => cases h
  | cons copy later ih =>
    obtain ⟨hcopy, hlater⟩ := forall_mem_cons.mp hplaced
    unfold nextJob at h
    cases hjob : jobOf vault copy with
    | none =>
      rw [hjob] at h
      exact ih hlater h
    | some found =>
      rw [hjob] at h
      obtain ⟨rfl, rfl⟩ := Prod.mk.inj (some.inj h)
      obtain ⟨hpaired, howned⟩ := jobOf_spec hcopy hjob
      exact ⟨hpaired, howned, hlater⟩

end

section
variable {history : List Deed} {replacement : Replacement} {copyPath text : JsString}

theorem justified_nil : Justified [] := by
  intro front copyPath text rest h
  simp at h

/-- Only a removal has to be justified. -/
theorem Justified.snoc (h : Justified history) {deed : Deed}
    (hdeed : ∀ copyPath text, deed = .removed copyPath text →
      ∃ replacement, .replaced replacement ∈ history ∧ replacement.job.copyPath = copyPath ∧
        replacement.theirs = text ∧ Merging history replacement) :
    Justified (history ++ [deed]) := by
  intro front copyPath text rest hsplit
  obtain rfl | ⟨before, last, rfl⟩ := eq_nil_or_concat rest
  · obtain ⟨rfl, hlast⟩ := append_inj' hsplit rfl
    exact hdeed copyPath text (head_eq_of_cons_eq hlast)
  · have hfront : history = front ++ .removed copyPath text :: before := by
      rw [concat_eq_append, ← cons_append, ← append_assoc] at hsplit
      exact (append_inj' hsplit rfl).1
    exact h front copyPath text before hfront

end

section
variable {vault : Vault} {history : List Deed} {sweep next : Sweep} {job : Job}
  {ancestor mine theirs text : JsString} {event : Event}

/-- The copy holds what was read of it, as long as it is there. -/
def Holds (vault : Vault) (path text : JsString) : Prop :=
  ∀ current, vault.files.get path = some current → current = text

/-- What is known at each await. -/
def PhaseHolds (vault : Vault) (history : List Deed) : Phase → Prop
  | .asking job => Paired job ∧ Owned vault job
  | .reading job ancestor _ theirs =>
      Paired job ∧ Owned vault job ∧ .answered job ancestor ∈ history ∧
        ∀ text, theirs = some text → Holds vault job.copyPath text
  | .replacing job ancestor mine theirs text =>
      Paired job ∧ Owned vault job ∧ .answered job ancestor ∈ history ∧
        Holds vault job.copyPath theirs ∧ mergeText ancestor mine theirs = .ok (.merged text)
  | .removing job theirs =>
      Paired job ∧ Holds vault job.copyPath theirs ∧
        ∃ replacement, .replaced replacement ∈ history ∧ replacement.job.copyPath = job.copyPath ∧
          replacement.theirs = theirs ∧ Merging history replacement
  | .done => True

structure Invariant (sweep : Sweep) : Prop where
  placed : ∀ copy ∈ sweep.waiting, Placed copy
  phase : PhaseHolds sweep.vault sweep.history sweep.phase
  justified : Justified sweep.history

theorem invariant_goOn (hplaced : ∀ copy ∈ sweep.waiting, Placed copy)
    (hjustified : Justified sweep.history) : Invariant (goOn sweep) := by
  unfold goOn
  cases hnext : nextJob sweep.vault sweep.waiting with
  | none => exact ⟨by simp, trivial, hjustified⟩
  | some found =>
    obtain ⟨hpaired, howned, hrest⟩ := nextJob_spec hplaced hnext
    exact ⟨hrest, ⟨hpaired, howned⟩, hjustified⟩

theorem goOn_vault (sweep : Sweep) : (goOn sweep).vault = sweep.vault := by
  unfold goOn
  cases nextJob sweep.vault sweep.waiting <;> rfl

theorem goOn_history (sweep : Sweep) : (goOn sweep).history = sweep.history := by
  unfold goOn
  cases nextJob sweep.vault sweep.waiting <;> rfl

/-- While a write is to come the two files stay those of one file id. -/
theorem owned_disturb (h : Owned sweep.vault job) (hpending : sweep.phase.pending = some job)
    (hcalm : Calm sweep event) : Owned (disturb sweep.vault event) job := by
  cases event with
  | owned path fileId =>
    refine ⟨?_, h.copy⟩
    by_cases hpath : job.targetPath = path
    · have hfile : fileId = some job.fileId := hcalm job hpending hpath
      simp [disturb, hpath, hfile]
    · simp [disturb, hpath, h.note]
  | recorded copyPath fileId =>
    refine ⟨h.note, ?_⟩
    by_cases hpath : job.copyPath = copyPath
    · have hfile : fileId = some job.fileId := hcalm job hpending hpath
      simp [disturb, hpath, hfile]
    · simp [disturb, hpath, h.copy]
  | _ => exact ⟨h.note, h.copy⟩

theorem holds_disturb (h : Holds sweep.vault job.copyPath text)
    (hread : sweep.phase.copyRead = some (job.copyPath, text)) (hcalm : Calm sweep event) :
    Holds (disturb sweep.vault event) job.copyPath text := by
  intro current hcurrent
  cases event with
  | saved path saved =>
    simp only [disturb, get_set] at hcurrent
    split_ifs at hcurrent with hpath
    · rw [← some.inj hcurrent]
      exact (hcalm _ hread hpath).symm
    · exact h current hcurrent
  | deleted path =>
    simp only [disturb, get_erase] at hcurrent
    split_ifs at hcurrent
    exact h current hcurrent
  | _ => exact h current hcurrent

theorem invariant_disturb (h : Invariant sweep) (hcalm : Calm sweep event) :
    Invariant { sweep with vault := disturb sweep.vault event } := by
  refine ⟨h.placed, ?_, h.justified⟩
  have hphase := h.phase
  cases hwhere : sweep.phase with
  | asking job =>
    rw [hwhere] at hphase
    obtain ⟨hpaired, howned⟩ := hphase
    exact ⟨hpaired, owned_disturb howned (by rw [hwhere]; rfl) hcalm⟩
  | reading job ancestor mine theirs =>
    rw [hwhere] at hphase
    obtain ⟨hpaired, howned, hanswered, hholds⟩ := hphase
    refine ⟨hpaired, owned_disturb howned (by rw [hwhere]; rfl) hcalm, hanswered, ?_⟩
    rintro text rfl
    exact holds_disturb (hholds text rfl) (by rw [hwhere]; rfl) hcalm
  | replacing job ancestor mine theirs text =>
    rw [hwhere] at hphase
    obtain ⟨hpaired, howned, hanswered, hholds, hmerged⟩ := hphase
    exact ⟨hpaired, owned_disturb howned (by rw [hwhere]; rfl) hcalm, hanswered,
      holds_disturb hholds (by rw [hwhere]; rfl) hcalm, hmerged⟩
  | removing job theirs =>
    rw [hwhere] at hphase
    obtain ⟨hpaired, hholds, hreplaced⟩ := hphase
    exact ⟨hpaired, holds_disturb hholds (by rw [hwhere]; rfl) hcalm, hreplaced⟩
  | done => trivial

/-- With both texts the loop goes on, or it stands before the write of their merge. -/
theorem invariant_received (h : Invariant sweep) (hpaired : Paired job)
    (howned : Owned sweep.vault job) (hanswered : .answered job ancestor ∈ sweep.history)
    {mine theirs : Option JsString}
    (hholds : ∀ text, theirs = some text → Holds sweep.vault job.copyPath text) :
    Invariant (received sweep job ancestor mine theirs) := by
  have hwaiting : Invariant { sweep with phase := .reading job ancestor mine theirs } :=
    ⟨h.placed, ⟨hpaired, howned, hanswered, hholds⟩, h.justified⟩
  cases mine with
  | none => exact hwaiting
  | some mine =>
    cases theirs with
    | none => exact hwaiting
    | some theirs =>
      have hskipped := invariant_goOn h.placed h.justified
      unfold received merge
      dsimp only
      split_ifs
      · exact hskipped
      · split
        · next text hmerged =>
          exact ⟨h.placed, ⟨hpaired, howned, hanswered, hholds theirs rfl, hmerged⟩, h.justified⟩
        · exact hskipped

theorem holds_self {path : JsString} (hget : vault.files.get path = some text) :
    Holds vault path text := by
  intro current hcurrent
  exact some.inj (hcurrent.symm.trans hget)

theorem invariant_processed (h : Invariant sweep)
    (hphase : sweep.phase = .replacing job ancestor mine theirs text)
    (hstep : step sweep .processed = some next) : Invariant next := by
  have hknown := h.phase
  rw [hphase] at hknown
  obtain ⟨hpaired, howned, hanswered, hholds, hmerged⟩ := hknown
  simp only [step, hphase, map_eq_some_iff] at hstep
  obtain ⟨current, hcurrent, rfl⟩ := hstep
  split_ifs with hchanged
  · exact invariant_goOn h.placed h.justified
  · have hsame : current = mine := by
      by_contra hne
      exact hchanged (.inl hne)
    refine ⟨h.placed, ⟨hpaired, ?_, _, mem_append_right _ (mem_singleton_self _), rfl,
      rfl, ?_⟩, h.justified.snoc fun _ _ hdeed => by cases hdeed⟩
    · intro held hheld
      rw [get_set, if_neg hpaired.ne] at hheld
      exact hholds held hheld
    · exact ⟨mem_append_left _ hanswered, by rw [hsame]; exact hmerged, howned.note,
        howned.copy⟩

theorem invariant_removed (h : Invariant sweep) (hphase : sweep.phase = .removing job theirs)
    (hstep : step sweep .removed = some next) : Invariant next := by
  have hknown := h.phase
  rw [hphase] at hknown
  obtain ⟨-, hholds, hreplaced⟩ := hknown
  simp only [step, hphase, Option.some_inj] at hstep
  rw [← hstep]
  apply invariant_goOn
  · exact h.placed
  · cases hget : sweep.vault.files.get job.copyPath with
    | none =>
      rw [Option.map_none, Option.toList_none, append_nil]
      exact h.justified
    | some text =>
      apply h.justified.snoc
      intro copyPath removed hdeed
      obtain ⟨rfl, rfl⟩ := Deed.removed.inj hdeed
      rw [hholds text hget]
      exact hreplaced

theorem step_disturb (h : event.bySweep = false) :
    step sweep event = some { sweep with vault := disturb sweep.vault event } := by
  cases event <;> first | rfl | cases h

/-- The end of an await of the sweep takes it to the next copy or one await further. -/
inductive Moves (sweep next : Sweep) : Prop
  | skipped (after : next = goOn sweep)
  | answered (job : Job) (ancestor : JsString) (asking : sweep.phase = .asking job)
      (after : next =
        { sweep with
          phase := .reading job ancestor none none
          history := sweep.history ++ [.answered job ancestor] })
  | received (job : Job) (ancestor : JsString) (mine theirs mine' theirs' : Option JsString)
      (reading : sweep.phase = .reading job ancestor mine theirs)
      (after : next = received sweep job ancestor mine' theirs')
      (read : theirs' = theirs ∨
        ∃ text, theirs' = some text ∧ sweep.vault.files.get job.copyPath = some text)
  | processed (job : Job) (ancestor mine theirs text : JsString)
      (replacing : sweep.phase = .replacing job ancestor mine theirs text)
      (after : step sweep .processed = some next)
  | removed (job : Job) (theirs : JsString) (removing : sweep.phase = .removing job theirs)
      (after : step sweep .removed = some next)

theorem moves_step (hsweep : event.bySweep = true) (hstep : step sweep event = some next) :
    Moves sweep next := by
  have hafter := hstep
  unfold step at hstep
  split at hstep
  case h_1 => exact .skipped (some.inj hstep).symm
  case h_2 ancestor job hphase => exact .answered job ancestor hphase (some.inj hstep).symm
  case h_3 job ancestor theirs hphase =>
    obtain ⟨mine, -, rfl⟩ := map_eq_some_iff.mp hstep
    exact .received job ancestor none theirs (some mine) theirs hphase rfl (.inl rfl)
  case h_4 job ancestor mine hphase =>
    obtain ⟨theirs, hget, rfl⟩ := map_eq_some_iff.mp hstep
    exact .received job ancestor mine none mine (some theirs) hphase rfl (.inr ⟨theirs, rfl, hget⟩)
  case h_5 hphase => exact .processed _ _ _ _ _ hphase hafter
  case h_6 hphase => exact .removed _ _ hphase hafter
  case h_11 => simp [hsweep] at hstep
  all_goals exact .skipped (some.inj hstep).symm

theorem invariant_moved (h : Invariant sweep) (hmoves : Moves sweep next) : Invariant next := by
  have hknown := h.phase
  cases hmoves with
  | skipped after =>
    rw [after]
    exact invariant_goOn h.placed h.justified
  | answered job ancestor asking after =>
    rw [asking] at hknown
    rw [after]
    refine ⟨h.placed, ⟨hknown.1, hknown.2, mem_append_right _ (mem_singleton_self _),
      fun _ htheirs => by cases htheirs⟩, h.justified.snoc fun _ _ hdeed => by cases hdeed⟩
  | received job ancestor mine theirs mine' theirs' reading after read =>
    rw [reading] at hknown
    obtain ⟨hpaired, howned, hanswered, hholds⟩ := hknown
    rw [after]
    apply invariant_received h hpaired howned hanswered
    intro text htext
    rcases read with hsame | ⟨found, hfound, hget⟩
    · exact hholds text (hsame ▸ htext)
    · rw [hfound] at htext
      rw [← some.inj htext]
      exact holds_self hget
  | processed job ancestor mine theirs text replacing after =>
    exact invariant_processed h replacing after
  | removed job theirs removing after => exact invariant_removed h removing after

theorem invariant_step (h : Invariant sweep) (hcalm : Calm sweep event)
    (hstep : step sweep event = some next) : Invariant next := by
  by_cases hsweep : event.bySweep = true
  · exact invariant_moved h (moves_step hsweep hstep)
  · rw [step_disturb (Bool.eq_false_of_not_eq_true hsweep), Option.some_inj] at hstep
    rw [← hstep]
    exact invariant_disturb h hcalm

theorem effect_goOn (sweep : Sweep) : Effect sweep (goOn sweep) :=
  .read (goOn_vault sweep) (.inl (goOn_history sweep))

theorem effect_received (sweep : Sweep) (job : Job) (ancestor : JsString)
    (mine theirs : Option JsString) : Effect sweep (received sweep job ancestor mine theirs) := by
  have hwaiting : Effect sweep { sweep with phase := .reading job ancestor mine theirs } :=
    .read rfl (.inl rfl)
  cases mine with
  | none => exact hwaiting
  | some mine =>
    cases theirs with
    | none => exact hwaiting
    | some theirs =>
      unfold received merge
      dsimp only
      split_ifs
      · exact effect_goOn sweep
      · split
        · exact .read rfl (.inl rfl)
        · exact effect_goOn sweep

theorem effect_processed (h : Invariant sweep)
    (hphase : sweep.phase = .replacing job ancestor mine theirs text)
    (hstep : step sweep .processed = some next) : Effect sweep next := by
  have hknown := h.phase
  rw [hphase] at hknown
  simp only [step, hphase, map_eq_some_iff] at hstep
  obtain ⟨current, hcurrent, rfl⟩ := hstep
  split_ifs
  · exact effect_goOn sweep
  · exact .replaced _ hcurrent rfl hknown.1.outside rfl rfl rfl

theorem effect_removed (hphase : sweep.phase = .removing job theirs)
    (hstep : step sweep .removed = some next) : Effect sweep next := by
  simp only [step, hphase, Option.some_inj] at hstep
  rw [← hstep]
  cases hget : sweep.vault.files.get job.copyPath with
  | none =>
    apply Effect.read
    · rw [goOn_vault, erase_of_get_none hget]
    · left
      rw [goOn_history, Option.map_none, Option.toList_none, append_nil]
  | some text =>
    apply Effect.removed job.copyPath text hget
    · rw [goOn_vault]
    · rw [goOn_history]
      rfl

/-- A step of the sweep reads, replaces one note outside the folder or removes one copy. -/
theorem effect_step (h : Invariant sweep) (hsweep : event.bySweep = true)
    (hstep : step sweep event = some next) : Effect sweep next := by
  cases moves_step hsweep hstep with
  | skipped after =>
    rw [after]
    exact effect_goOn sweep
  | answered job ancestor asking after =>
    rw [after]
    exact .read rfl (.inr ⟨job, ancestor, rfl⟩)
  | received job ancestor mine theirs mine' theirs' reading after read =>
    rw [after]
    exact effect_received sweep job ancestor mine' theirs'
  | processed job ancestor mine theirs text replacing after =>
    exact effect_processed h replacing after
  | removed job theirs removing after => exact effect_removed removing after

end

variable {unicode : UnicodeMethods} {localeLe : JsString → JsString → Bool} {vault : Vault}
  {sweep : Sweep}

theorem invariant_start (unicode : UnicodeMethods) (localeLe : JsString → JsString → Bool)
    (vault : Vault) : Invariant (sweepConflictCopies unicode localeLe vault) := by
  apply invariant_goOn
  · intro copy hcopy
    exact placed_of_mem hcopy
  · exact justified_nil

/-- Every copy that was removed was merged as it was, and no other copy is touched. -/
structure Lossless (sweep : Sweep) : Prop where
  merged : Justified sweep.history
  others : ∀ event next, event.bySweep = true → step sweep event = some next → Effect sweep next

/-- In a run that meets the condition the sweep loses nothing. -/
theorem sweep_lossless
    (h : Reached step Calm (sweepConflictCopies unicode localeLe vault) sweep) :
    Lossless sweep := by
  have hinvariant : Invariant sweep := by
    apply h.invariant (P := Invariant) (invariant_start unicode localeLe vault)
    intro before event next hbefore hcalm hstep
    exact invariant_step hbefore hcalm hstep
  exact ⟨hinvariant.justified, fun event next hsweep hstep => effect_step hinvariant hsweep hstep⟩

def sampleNote : JsString := ascii "Notes/a.md"

def sampleCopy : JsString := ascii "Havemind Conflicts/a (conflict Bob 2024-01-03 1405).md"

/-- A note whose first line was edited here, and a copy whose last line was edited there. -/
def sampleVault : Vault where
  files := (JsObject.empty.set sampleNote (ascii "0\n2\n3\n")).set sampleCopy (ascii "1\n2\n4\n")
  editors _ := []
  fileIdAtPath path := if path = sampleNote then some 7 else none
  fileIdForCopy path := if path = sampleCopy then some 7 else none

def sampleSweep : Sweep := sweepConflictCopies ⟨id, id⟩ (fun _ _ => true) sampleVault

def sampleJob : Job := ⟨sampleCopy, sampleNote, 7⟩

def sampleReplacement : Replacement where
  job := sampleJob
  ancestor := ascii "1\n2\n3\n"
  before := ascii "0\n2\n3\n"
  theirs := ascii "1\n2\n4\n"
  after := ascii "0\n2\n4\n"
  noteOwner := some 7
  copyOwner := some 7

/-- Up to the write of the merge. -/
def sampleEvents : List Event :=
  [.answered (some (ascii "1\n2\n3\n")), .copyRead, .typed sampleNote [], .noteRead, .processed]

theorem sweep_lossless_sample : ∃ sweep, Lossless sweep ∧
    sweep.history = [.answered sampleJob sampleReplacement.ancestor, .replaced sampleReplacement,
      .removed sampleCopy sampleReplacement.theirs] := by
  have hrun : (run step sampleSweep (sampleEvents ++ [.removed])).map (·.history) =
      some [.answered sampleJob sampleReplacement.ancestor, .replaced sampleReplacement,
        .removed sampleCopy sampleReplacement.theirs] := by decide +kernel
  obtain ⟨sweep, hsweep, hhistory⟩ := map_eq_some_iff.mp hrun
  have hallowed : Allowed step Calm sampleSweep (sampleEvents ++ [.removed]) := by decide +kernel
  exact ⟨sweep, sweep_lossless (.run .start hallowed hsweep), hhistory⟩

/-- Saved between its reading and its removal, a copy is removed with what nobody merged. -/
theorem sweep_loses_edit :
    ¬ ∀ sweep, Reached step (fun _ _ => True) sampleSweep sweep → Lossless sweep := by
  intro hclaim
  have hrun : (run step sampleSweep
      (sampleEvents ++ [.saved sampleCopy (ascii "1\n2\n4\n5\n"), .removed])).map (·.history) =
      some [.answered sampleJob sampleReplacement.ancestor, .replaced sampleReplacement,
        .removed sampleCopy (ascii "1\n2\n4\n5\n")] := by decide +kernel
  obtain ⟨sweep, hsweep, hhistory⟩ := map_eq_some_iff.mp hrun
  have hreached : Reached step (fun _ _ => True) sampleSweep sweep :=
    .run .start (allowed_of_forall (fun _ _ => trivial) _ _) hsweep
  obtain ⟨replacement, hmem, -, htheirs, -⟩ := (hclaim sweep hreached).merged
    [.answered sampleJob sampleReplacement.ancestor, .replaced sampleReplacement] _ _ [] hhistory
  have hsame : replacement = sampleReplacement := by simpa using hmem
  rw [hsame] at htheirs
  exact absurd htheirs (by decide)

end Havemind.ConflictSweep
