import Havemind.OverwriteSafety
import Havemind.PortRelations

/-!
When an incoming delete or rename takes a file off the disk. It may only take a
content that a revision in its own ancestry has; the apply also takes a content
that merely is the recorded base, whoever wrote it.
-/
namespace Havemind.RemovalSafety

open Endings JsText OverwriteSafety RevisionEnvelope RevisionHistory RevisionSchema SyncRunner List
  SyncState Transaction RemoteApply VaultCalls VaultFilePort VaultPayload

variable {ctx : ApplyContext} {s : PersistedSyncState} {event : RemoteEvent}
  {decoded : DecodedRevisionPayload} {d d' : Device} {path : Path}

section
variable {path other : Path} {fileId : Id} {state : PersistedSyncState} {contentHash : ContentHash}

theorem find?_setOwner {owners : List (Path × Id)} (hother : other ≠ path) :
    (setOwner owners path fileId).find? (fun entry => entry.1 = other) =
      owners.find? fun entry => entry.1 = other := by
  unfold setOwner
  split
  · clear *- hother
    induction owners with
    | nil => rfl
    | cons entry rest ih =>
      rw [map_cons, List.find?_cons, List.find?_cons, ih]
      by_cases hentry : entry.1 = path
      · rw [if_pos hentry]
        simp [hentry, hother.symm]
      · rw [if_neg hentry]
  · rw [List.find?_append]
    simp [hother.symm]

theorem fileIdAtPath_recordApplied (hother : other ≠ path) :
    fileIdAtPath (recordApplied state fileId path contentHash) other = fileIdAtPath state other := by
  unfold fileIdAtPath recordApplied
  rw [find?_setOwner hother]

theorem fileIdAtPath_recordPathOwner (hother : other ≠ path) :
    fileIdAtPath (recordPathOwner state fileId path) other = fileIdAtPath state other := by
  unfold fileIdAtPath recordPathOwner
  rw [find?_setOwner hother]

theorem fileIdAtPath_congr {state' : PersistedSyncState}
    (h : state'.pathOwners = state.pathOwners) (other : Path) :
    fileIdAtPath state' other = fileIdAtPath state other := by
  unfold fileIdAtPath
  rw [h]

theorem adopted_pathOwners :
    (adopted ctx event decoded contentHash state).pathOwners = state.pathOwners := by
  unfold adopted
  split
  · rfl
  · split <;> rfl

theorem forgotten_pathOwners : (forgotten ctx fileId path state).pathOwners = state.pathOwners := by
  unfold forgotten
  split
  · rfl
  · split <;> rfl

end
variable {moment : Moment} {other : Path} {content : JsString}

/-- Nothing was removed, and only the owner of this path may be another. -/
structure NoRemoval (path : Path) (d d' : Device) : Prop where
  removed : ∀ other content, .removed other content ∈ d'.writes →
    .removed other content ∈ d.writes
  owners : ∀ other, other ≠ path → fileIdAtPath d'.state other = fileIdAtPath d.state other

instance : Std.Refl (NoRemoval path) where
  refl _ := ⟨fun _ _ h => h, fun _ _ => rfl⟩

instance : IsTrans Device (NoRemoval path) where
  trans _ _ _ h h' := ⟨fun other content hw => h.removed other content (h'.removed other content hw),
    fun other hother => (h'.owners other hother).trans (h.owners other hother)⟩

theorem NoRemoval.of_eq (hstate : d'.state.pathOwners = d.state.pathOwners)
    (hwrites : d'.writes = d.writes) : NoRemoval path d d' where
  removed _ _ h := hwrites ▸ h
  owners other _ := fileIdAtPath_congr hstate other

theorem NoRemoval.append {write : VaultWrite} (hstate : d'.state.pathOwners = d.state.pathOwners)
    (hwrites : d'.writes = d.writes ++ [write])
    (hkind : ∀ other content, write ≠ .removed other content) : NoRemoval path d d' where
  removed other content h := by
    rw [hwrites] at h
    rcases mem_append.mp h with hold | hnew
    · exact hold
    · exact absurd (mem_singleton.mp hnew).symm (hkind other content)
  owners other _ := fileIdAtPath_congr hstate other

theorem preserves_setState {f : PersistedSyncState → PersistedSyncState}
    (h : ∀ state other, other ≠ path → fileIdAtPath (f state) other = fileIdAtPath state other) :
    Preserves (NoRemoval path) (setState (vaultPort ctx) f) :=
  preserves_modify fun _ => ⟨fun _ _ h => h, fun other hother => h _ other hother⟩

theorem preserves_readContent {kind : SyncContentKind} :
    Preserves (NoRemoval path) (readContent (vaultPort ctx) moment kind other) := by
  intro d
  refine ends_readContent ?_ ?_ ?_
  · exact fun _ => .of_eq rfl rfl
  · exact fun _ _ => .of_eq rfl rfl
  · exact fun _ => .of_eq rfl rfl

theorem preserves_writeConflict :
    Preserves (NoRemoval path) (writeConflict (vaultPort ctx) ctx event decoded) := by
  intro d
  refine ends_get_bind (Ends.bind (ends_writeConflictArtifact.mono ?_ fun _ _ h => h))
  intro _ d' h
  have hkept : NoRemoval path d d' := by
    rcases h.2.writes with hsame | ⟨copy, hmade⟩
    · exact .of_eq (congrArg _ h.1) hsame
    · exact .append (congrArg _ h.1) hmade nofun
  split
  · exact ends_modify_bind (ends_pure ⟨hkept.removed, hkept.owners⟩)
  · exact ends_pure hkept

theorem preserves_writeByPath {expected : Option (Option JsString)}
    (hnote : ctx.rules.isSyncableConfigPath decoded.path = false) :
    Preserves (NoRemoval path)
      (writeByPath ctx.toVaultPort moment decoded.path content expected) := by
  intro d
  refine ends_writeByPath hnote ?_ ?_ ?_ ?_ ?_ ?_ ?_
  · exact fun _ _ => .of_eq rfl rfl
  · exact fun d' _ _ h _ => .of_eq (congrArg _ h.state) h.writes
  · exact fun d' _ _ h _ => .of_eq (congrArg _ h.state) h.writes
  · intro d' _ _ h _ _
    exact .append (congrArg _ h.state) (congrArg (· ++ [_]) h.writes) nofun
  · exact fun _ => .of_eq rfl rfl
  · exact fun _ _ => .of_eq rfl rfl
  · exact fun _ _ _ => .append rfl rfl nofun

theorem preserves_writeBinaryByPath {bytes : Bytes}
    (hnote : ctx.rules.isSyncableConfigPath decoded.path = false) :
    Preserves (NoRemoval path) (writeBinaryByPath ctx.toVaultPort moment decoded.path bytes) := by
  intro d
  refine ends_writeBinaryByPath hnote ?_ ?_ ?_ ?_
  · exact fun d' _ h _ => .of_eq (congrArg _ h.state) h.writes
  · intro d' _ h _
    exact .append (congrArg _ h.state) (congrArg (· ++ [_]) h.writes) nofun
  · exact fun _ => .of_eq rfl rfl
  · exact fun _ _ => .append rfl rfl nofun

theorem preserves_forget {fileId : Id} :
    Preserves (NoRemoval path) (onRemoteDelete (vaultPort ctx) ctx fileId other) :=
  preserves_setState fun _ other _ => fileIdAtPath_congr forgotten_pathOwners other

theorem preserves_onMergedWrite :
    Preserves (NoRemoval path) (onMergedWrite (vaultPort ctx) ctx event decoded content) := by
  unfold onMergedWrite
  split
  · exact preserves_pure
  · split
    · refine preserves_get_bind fun d => ?_
      dsimp only
      split
      · exact preserves_pure
      · split
        · exact preserves_pure
        · split
          · exact preserves_throw
          · refine Preserves.bind ?_ fun _ => Preserves.bind ?_ fun _ => preserves_pure
            · intro d
              refine ends_trySetState_of ?_ fun _ => .of_eq rfl rfl
              intro state hstate
              obtain ⟨record, _, rfl⟩ := Option.map_eq_some_iff.mp hstate
              exact .of_eq rfl rfl
            · exact preserves_setState fun _ _ _ => rfl
    · exact preserves_pure

theorem preserves_tryMergeApply (hnote : ctx.rules.isSyncableConfigPath decoded.path = false)
    {onDisk : Content} :
    Preserves (NoRemoval decoded.path)
      (tryMergeApply (vaultPort ctx) ctx event decoded onDisk) := by
  unfold tryMergeApply
  cases onDisk with
  | bytes value => exact preserves_pure
  | text current =>
    have howner : Preserves (NoRemoval decoded.path) (setState (vaultPort ctx) fun state =>
        recordPathOwner state event.revision.fileId decoded.path) :=
      preserves_setState fun _ _ hother => fileIdAtPath_recordPathOwner hother
    refine PortRelations.preserves_mergeAncestor.bind fun found => ?_
    split
    · exact preserves_pure
    · split
      · exact preserves_throw
      · exact preserves_pure
      · refine preserves_onMergedWrite.bind fun queued => ?_
        split
        · split
          · exact howner.bind fun _ => preserves_pure
          · refine (preserves_writeByPath hnote).bind fun _ => ?_
            exact howner.bind fun _ => preserves_pure
        · exact preserves_pure

theorem preserves_publish (hnote : ctx.rules.isSyncableConfigPath decoded.path = false)
    {cleanHash : Option ContentHash} :
    Preserves (NoRemoval decoded.path) (publish (vaultPort ctx) ctx event decoded cleanHash) := by
  have hadopt : Preserves (NoRemoval decoded.path)
      (onRemoteWrite (vaultPort ctx) ctx event decoded
        (hash ctx.digests (incomingContent decoded))) :=
    preserves_setState fun _ other _ => fileIdAtPath_congr adopted_pathOwners other
  have hrecord : Preserves (NoRemoval decoded.path) (setState (vaultPort ctx) fun state =>
      recordApplied state event.revision.fileId decoded.path
        (hash ctx.digests (incomingContent decoded))) :=
    preserves_setState fun _ _ hother => fileIdAtPath_recordApplied hother
  refine hadopt.bind fun _ => preserves_readContent.bind fun onDisk => ?_
  refine preserves_get_bind fun d => ?_
  split
  · refine preserves_forget.bind fun _ => (preserves_tryMergeApply hnote).bind fun merged => ?_
    split
    · exact preserves_pure
    · exact preserves_writeConflict
  · refine Preserves.catching ?_ fun e => ?_
    · have hwrite : Preserves (NoRemoval decoded.path)
          (writeIncoming (vaultPort ctx) ctx decoded onDisk) := by
        unfold writeIncoming
        split
        · exact preserves_writeByPath hnote
        · exact preserves_writeBinaryByPath hnote
      exact hwrite.bind fun _ => hrecord.bind fun _ => preserves_pure
    · split
      · exact preserves_forget.bind fun _ => preserves_writeConflict
      · exact preserves_throw

theorem preserves_settle (hnote : ctx.rules.isSyncableConfigPath decoded.path = false)
    {onDisk : Option Content} :
    Preserves (NoRemoval decoded.path) (settle (vaultPort ctx) ctx event decoded onDisk) := by
  unfold settle
  split
  · refine Preserves.bind ?_ fun _ => Preserves.bind ?_ fun _ => preserves_pure
    · exact preserves_setState fun _ _ hother => fileIdAtPath_recordApplied hother
    · exact preserves_setState fun _ other _ => fileIdAtPath_congr adopted_pathOwners other
  · refine preserves_get_bind fun d => ?_
    split
    · exact preserves_publish hnote
    · refine (preserves_tryMergeApply hnote).bind fun merged => ?_
      split
      · exact preserves_pure
      · split
        · exact preserves_publish hnote
        · exact preserves_writeConflict

/-- What an apply of content does never removes anything. -/
theorem preserves_applyContent (hnote : ctx.rules.isSyncableConfigPath decoded.path = false) :
    Preserves (NoRemoval decoded.path) (applyContent (vaultPort ctx) ctx event decoded) := by
  refine preserves_readContent.bind fun onDisk => preserves_get_bind fun d => ?_
  split
  · exact preserves_writeConflict
  · split
    · exact preserves_settle hnote
    · split
      · exact preserves_pure
      · split
        · exact preserves_writeConflict
        · refine preserves_forget.bind fun _ => Preserves.bind ?_ fun _ => preserves_settle hnote
          exact preserves_setState fun _ _ _ => rfl

section
variable (ctx : ApplyContext) (s : PersistedSyncState) (event : RemoteEvent)
  (decoded : DecodedRevisionPayload)

/-- The folders of the destination can be made, and no editor has a note open
there. -/
structure Room (disk : Disk) : Prop where
  folders : ∀ folder ∈ ctx.rules.ancestorFolders decoded.path, ¬ HoldsFile disk folder
  closed : decoded.kind = .markdown → editorTexts disk decoded.path = []

/-- Nothing is at the destination of a rename, and nobody else has it. -/
structure DestinationFree (disk : Disk) : Prop extends Room ctx decoded disk where
  absent : disk.entryAt decoded.path = none
  owner : ∀ owner, fileIdAtPath s decoded.path = some owner → owner = event.revision.fileId
  variant : fileIdAtPath s decoded.path = none →
    ∀ variant, pathCaseVariant ctx disk decoded.path = some variant →
      fileIdAtPath s variant = some event.revision.fileId

/-- The incoming content is at the destination, or can be written there. -/
def Arrives (disk : Disk) : Prop :=
  (∃ content, disk.entryAt decoded.path = some (.file content) ∧
    contentMatches (seen ctx.toVaultPort decoded.kind decoded.path content)
      (incomingContent decoded) = true) ∨
    DestinationFree ctx s event decoded disk

structure DeleteReached (disk : Disk) (path : Path) (content : Content) : Prop where
  operation : decoded.operation = .delete
  target : path = decoded.path
  owner : fileIdAtPath s path = some event.revision.fileId
  file : disk.entryAt path = some (.file content)
  editors : EditorsAgree ctx.toVaultPort disk path content

structure RenameReached (disk : Disk) (path : Path) (content : Content) : Prop where
  operation : decoded.operation = .rename
  previous : decoded.previousPath = some path
  moved : path ≠ decoded.path
  owner : fileIdAtPath s path = some event.revision.fileId
  file : disk.entryAt path = some (.file content)
  editors : EditorsAgree ctx.toVaultPort disk path content
  arrives : Arrives ctx s event decoded disk

/-- A delete or rename that reaches the file, but for the look at its content. -/
def Reached (disk : Disk) (path : Path) (content : Content) : Prop :=
  DeleteReached ctx s event decoded disk path content ∨
    RenameReached ctx s event decoded disk path content

/-- How the apply reads the file it may remove. -/
def viewed (path : Path) (content : Content) : Content :=
  seen ctx.toVaultPort
    (if decoded.operation = .delete then
      ((ctx.rules.classifyVaultPath decoded.path).map ClassifiedPath.kind).getD .markdown
    else decoded.kind) path content

/-- The file a delete or a rename is about. -/
def IsTarget (path : Path) : Prop :=
  (decoded.operation = .delete ∧ path = decoded.path) ∨
    (decoded.operation ≠ .delete ∧ decoded.previousPath = some path)

/-- The apply removes the file: it reaches it and sees no local edit in it. -/
def Removes (disk : Disk) (path : Path) (content : Content) : Prop :=
  Reached ctx s event decoded disk path content ∧
    holdsLocalEdit ctx s event (viewed ctx decoded path content) = false

end
variable {content : Content} {removes : Path → Content → Prop} {disk : Disk}

/-- The files that were there are there, but at this path, no others are, and
the editors are the same. -/
structure OthersKept (path : Path) (d d' : Device) : Prop where
  files : ∀ other content, other ≠ path →
    (d'.disk.entryAt other = some (.file content) ↔ d.disk.entryAt other = some (.file content))
  editors : d'.disk.editors = d.disk.editors

theorem OthersKept.of_eq (h : d'.disk = d.disk) : OthersKept path d d' := by
  constructor
  · intro other content _
    rw [h]
  · rw [h]

theorem OthersKept.of_created {made : Device} (h : OnlyFolders d made)
    (hdisk : d'.disk = (createdIn made path content).disk) : OthersKept path d d' where
  files other content hother := by
    have hput : d'.disk.entryAt other = made.disk.entryAt other := by
      rw [hdisk]
      show (made.disk.put path _).entryAt other = _
      rw [entryAt_put, if_neg hother]
    rw [hput]
    constructor
    · exact h.files other content
    · intro hfile
      rw [h.kept other (by rw [hfile]; nofun), hfile]
  editors := by
    rw [hdisk]
    exact h.editors

theorem disturbed_of_calm {moment : Moment} (hcalm : ∀ moment disk, ctx.edit moment disk = disk) :
    disturbed ctx.toVaultPort moment d = d := by
  unfold disturbed
  rw [hcalm]

/-- On a calm disk an absent note or attachment is written where there is room. -/
theorem ends_writeAbsent (hcalm : ∀ moment disk, ctx.edit moment disk = disk)
    (hnote : ctx.rules.isSyncableConfigPath decoded.path = false)
    (habsent : d.disk.entryAt decoded.path = none) :
    Ends (writeIncoming (vaultPort ctx) ctx decoded none) d
      (fun _ d' => Room ctx decoded d.disk ∧ OthersKept decoded.path d d')
      (fun _ _ => ¬ Room ctx decoded d.disk) := by
  have hdisk : ∀ moment, ctx.edit moment d.disk = d.disk := fun moment => hcalm moment d.disk
  have hsame : ∀ moment, disturbed ctx.toVaultPort moment d = d := fun _ => disturbed_of_calm hcalm
  unfold writeIncoming incomingContent lastWriterWins
  rw [hnote]
  cases hkind : decoded.kind with
  | binary =>
    refine ends_writeBinaryByPath hnote ?_ ?_ ?_ ?_
    · intro d' _ _ hoccupied hroom
      obtain ⟨folder, hfolder, hfile⟩ := hoccupied
      exact hroom.folders folder hfolder (hdisk _ ▸ hfile)
    · intro d' _ hmade hfolders
      rw [hsame] at hmade
      refine ⟨⟨?_, ?_⟩, .of_created hmade rfl⟩
      · exact hdisk _ ▸ hfolders
      · intro hmarkdown
        rw [hkind] at hmarkdown
        cases hmarkdown
    · intro hfolder
      rw [hdisk, habsent] at hfolder
      cases hfolder
    · intro current hfile
      rw [hdisk, habsent] at hfile
      cases hfile
  | markdown =>
    refine ends_writeByPath hnote ?_ ?_ ?_ ?_ ?_ ?_ ?_
    · intro _ hexpected
      cases hexpected
    · intro d' _ _ _ hoccupied hroom
      obtain ⟨folder, hfolder, hfile⟩ := hoccupied
      exact hroom.folders folder hfolder (hdisk _ ▸ hfile)
    · intro d' _ _ hmade hopen hroom
      rw [hsame] at hmade
      refine hopen ?_
      unfold editorTexts
      rw [hmade.editors]
      exact hroom.closed hkind
    · intro d' _ _ hmade hfolders hclosed
      rw [hsame] at hmade
      refine ⟨⟨hdisk .writeText ▸ hfolders, fun _ => ?_⟩, .of_created hmade rfl⟩
      unfold editorTexts at hclosed ⊢
      rw [← hmade.editors]
      exact hclosed
    · intro hfolder
      rw [hdisk, habsent] at hfolder
      cases hfolder
    · intro current hfile
      rw [hdisk, habsent] at hfile
      cases hfile
    · intro current hfile
      rw [hdisk, habsent] at hfile
      cases hfile

/-- The apply of the content arrived, or it kept a copy. -/
def Arrival (ctx : ApplyContext) (event : RemoteEvent) (decoded : DecodedRevisionPayload)
    (d : Device) (outcome : RemoteApplyOutcome) (d' : Device) : Prop :=
  ((outcome = .applied ∨ outcome = .noop) ∧ Arrives ctx d.state event decoded d.disk ∧
      OthersKept decoded.path d d') ∨
    (outcome = .conflict ∧ ¬ Arrives ctx d.state event decoded d.disk)

theorem ends_copy {moved : Device} {E : Thrown → Device → Prop}
    (h : ¬ Arrives ctx d.state event decoded d.disk) :
    Ends (writeConflict (vaultPort ctx) ctx event decoded) moved (Arrival ctx event decoded d) E := by
  refine ends_writeConflict.mono ?_ fun _ _ h => h
  exact fun _ _ hcopy => .inr ⟨hcopy.1, h⟩

theorem not_arrives_of_absent (habsent : d.disk.entryAt decoded.path = none)
    (h : ¬ DestinationFree ctx d.state event decoded d.disk) :
    ¬ Arrives ctx d.state event decoded d.disk := by
  intro harrives
  rcases harrives with ⟨content, hfile, _⟩ | hfree
  · rw [habsent] at hfile
    cases hfile
  · exact h hfree

theorem ends_publishAbsent (hcalm : ∀ moment disk, ctx.edit moment disk = disk)
    (hnote : ctx.rules.isSyncableConfigPath decoded.path = false)
    (habsent : d.disk.entryAt decoded.path = none)
    (howner : ∀ owner, fileIdAtPath d.state decoded.path = some owner →
      owner = event.revision.fileId)
    (hvariant : fileIdAtPath d.state decoded.path = none →
      ∀ variant, pathCaseVariant ctx d.disk decoded.path = some variant →
        fileIdAtPath d.state variant = some event.revision.fileId) :
    Ends (publish (vaultPort ctx) ctx event decoded none) d (Arrival ctx event decoded d)
      (fun _ _ => ¬ Arrives ctx d.state event decoded d.disk) := by
  have hfree : Room ctx decoded d.disk ↔ DestinationFree ctx d.state event decoded d.disk :=
    ⟨fun hroom => ⟨hroom, habsent, howner, hvariant⟩, fun h => h.toRoom⟩
  refine ends_modify_bind (Ends.bind (ends_readContent ?_ ?_ ?_))
  · intro _
    refine ends_get_bind (Ends.catching (Ends.bind ?_))
    rw [disturbed_of_calm hcalm]
    refine Ends.mono (ends_writeAbsent hcalm hnote ?_) ?_ ?_
    · exact habsent
    · intro _ d' h
      refine ends_modify_bind (ends_pure (.inl ⟨.inl rfl, .inr (hfree.mp h.1), ?_, ?_⟩))
      · exact h.2.files
      · exact h.2.editors
    · intro e d' hroom
      have hnot := not_arrives_of_absent habsent (mt hfree.mpr hroom)
      split
      · exact ends_modify_bind (ends_copy hnot)
      · exact ends_throw hnot
  · intro content hfile
    have hfound : (ctx.edit .reread d.disk).entryAt decoded.path = some (.file content) := hfile
    rw [hcalm, habsent] at hfound
    cases hfound
  · intro hfolder
    have hfound : (ctx.edit .reread d.disk).entryAt decoded.path = some .folder := hfolder
    rw [hcalm, habsent] at hfound
    cases hfound

theorem arrival_of_converged {outcome : RemoteApplyOutcome} (houtcome : outcome = .noop)
    (hfile : d.disk.entryAt decoded.path = some (.file content))
    (hmatch : contentMatches (seen ctx.toVaultPort decoded.kind decoded.path content)
      (incomingContent decoded) = true) (hdisk : d'.disk = d.disk) :
    Arrival ctx event decoded d outcome d' := by
  exact .inl ⟨.inr houtcome, .inl ⟨content, hfile, hmatch⟩, .of_eq hdisk⟩

/-- An apply of content arrives exactly when the destination lets it, unless
another content is in the way. -/
theorem ends_applyContent_arrival (hcalm : ∀ moment disk, ctx.edit moment disk = disk)
    (hnote : ctx.rules.isSyncableConfigPath decoded.path = false)
    (hopen : ∀ content, d.disk.entryAt decoded.path = some (.file content) →
      contentMatches (seen ctx.toVaultPort decoded.kind decoded.path content)
        (incomingContent decoded) = true) :
    Ends (applyContent (vaultPort ctx) ctx event decoded) d (Arrival ctx event decoded d)
      (fun _ _ => ¬ Arrives ctx d.state event decoded d.disk) := by
  refine Ends.bind (ends_readContent ?_ ?_ ?_)
  · intro habsent
    rw [hcalm] at habsent
    rw [disturbed_of_calm hcalm]
    refine ends_get_bind ?_
    split
    · rename_i htaken
      obtain ⟨howner, _, _, hvariant⟩ := of_decide_eq_true htaken
      refine ends_copy (not_arrives_of_absent habsent ?_)
      intro hfree
      obtain ⟨variant, hfound, hother⟩ := (Option.any_eq_true _ _).mp hvariant
      exact of_decide_eq_true hother (hfree.variant howner variant hfound)
    · rename_i htaken
      split
      · rename_i hfilter
        have howner : ∀ owner, fileIdAtPath d.state decoded.path = some owner →
            owner = event.revision.fileId := by
          intro owner hat
          by_contra hne
          exact Option.filter_eq_none_iff.mp hfilter owner hat (decide_eq_true hne)
        refine ends_get_bind (ends_publishAbsent hcalm hnote habsent howner ?_)
        intro hnone variant hfound
        by_contra hother
        refine htaken (decide_eq_true ⟨hnone, rfl, hnote, ?_⟩)
        exact (Option.any_eq_true _ _).mpr ⟨variant, hfound, decide_eq_true hother⟩
      · rename_i owner hfilter
        obtain ⟨hat, hne⟩ := Option.filter_eq_some_iff.mp hfilter
        have hblocked : ¬ Arrives ctx d.state event decoded d.disk := by
          refine not_arrives_of_absent habsent fun hfree => ?_
          exact of_decide_eq_true hne (hfree.owner owner hat)
        rw [if_neg (by simp [hasConverged]), if_pos ⟨by simp [hasConverged], hnote⟩]
        exact ends_copy hblocked
  · intro content hfile
    rw [hcalm] at hfile
    rw [disturbed_of_calm hcalm]
    have hmatch := hopen content hfile
    have hconverged : hasConverged decoded
        (some (seen ctx.toVaultPort decoded.kind decoded.path content)) = true := hmatch
    have hsettle : ∀ moved : Device, moved.disk = d.disk →
        Ends (settle (vaultPort ctx) ctx event decoded
          (some (seen ctx.toVaultPort decoded.kind decoded.path content))) moved
          (Arrival ctx event decoded d)
          (fun _ _ => ¬ Arrives ctx d.state event decoded d.disk) := by
      intro moved hdisk
      unfold settle
      rw [if_pos hconverged]
      exact ends_modify_bind (ends_modify_bind (ends_pure (arrival_of_converged rfl hfile hmatch hdisk)))
    refine ends_get_bind ?_
    have hpresent : caseTaken (vaultPort ctx) ctx event d decoded
        (some (seen ctx.toVaultPort decoded.kind decoded.path content)) = false := by
      simp [caseTaken]
    rw [hpresent, if_neg Bool.false_ne_true]
    split
    · exact hsettle d rfl
    · split
      · exact ends_pure (arrival_of_converged rfl hfile hmatch rfl)
      · rw [if_neg (by simp [hconverged])]
        refine ends_modify_bind (ends_modify_bind (hsettle _ ?_))
        rfl
  · intro hfolder harrives
    rw [hcalm] at hfolder
    rcases harrives with ⟨content, hfile, _⟩ | hfree
    · rw [hfolder] at hfile
      cases hfile
    · rw [hfree.absent] at hfolder
      cases hfolder

/-- Of the file the event is about, exactly this was removed. -/
def Exactly (decoded : DecodedRevisionPayload) (removes : Path → Content → Prop) (d : Device) :
    Prop :=
  ∀ path content, IsTarget decoded path → (.removed path content ∈ d.writes ↔ removes path content)

def NothingRemoved (decoded : DecodedRevisionPayload) (d : Device) : Prop :=
  ∀ path content, IsTarget decoded path → .removed path content ∉ d.writes

theorem exactly_none (h : NothingRemoved decoded d)
    (hnone : ∀ path content, ¬ removes path content) : Exactly decoded removes d :=
  fun path content htarget => ⟨fun hw => absurd hw (h path content htarget),
    fun hr => absurd hr (hnone path content)⟩

theorem NothingRemoved.of_noRemoval (h : NothingRemoved decoded d) (hkept : NoRemoval path d d') :
    NothingRemoved decoded d' :=
  fun path content htarget hw => h path content htarget (hkept.removed path content hw)

theorem NothingRemoved.of_eq (h : NothingRemoved decoded d) (hwrites : d'.writes = d.writes) :
    NothingRemoved decoded d' :=
  fun path content htarget hw => h path content htarget (hwrites ▸ hw)

theorem Exactly.of_eq (h : Exactly decoded removes d) (hwrites : d'.writes = d.writes) :
    Exactly decoded removes d' := by
  intro path content htarget
  rw [hwrites]
  exact h path content htarget

/-- A removal on a calm disk takes the file, if no editor disagrees with it. -/
theorem ends_takeFile (hcalm : ∀ moment disk, ctx.edit moment disk = disk)
    (htarget : IsTarget decoded path) (hnothing : NothingRemoved decoded d)
    (hremoves : ∀ other content, removes other content ↔ other = path ∧
      d.disk.entryAt path = some (.file content) ∧
      EditorsAgree ctx.toVaultPort d.disk path content) :
    Ends (deleteByPath ctx.toVaultPort .remove path) d (fun _ d' => Exactly decoded removes d')
      (fun _ d' => Exactly decoded removes d') := by
  have hdisk : ctx.edit .remove d.disk = d.disk := hcalm _ _
  have hone : ∀ current, d.disk.entryAt path = some (.file current) →
      ∀ other content, removes other content → other = path ∧ content = current := by
    intro current hfile other content h
    obtain ⟨hother, hcontent, _⟩ := (hremoves other content).mp h
    exact ⟨hother, (Entry.file.inj (Option.some.inj (hfile.symm.trans hcontent))).symm⟩
  have hkept : ∀ d', d'.writes = d.writes → (∀ other content, ¬ removes other content) →
      Exactly decoded removes d' := fun d' hwrites hnone =>
    exactly_none (hnothing.of_eq hwrites) hnone
  have hmissing : (∀ content, d.disk.entryAt path ≠ some (.file content)) →
      ∀ other content, ¬ removes other content := by
    intro habsent other content h
    exact habsent content ((hremoves other content).mp h).2.1
  refine ends_deleteByPath ?_ ?_ ?_ ?_ ?_
  · intro habsent
    rw [hdisk] at habsent
    exact hkept _ rfl (hmissing (by simp [habsent]))
  · intro hfolder
    rw [hdisk] at hfolder
    exact hkept _ rfl (hmissing (by simp [hfolder]))
  · intro d' removals hfolder _ hwrites hremovals
    rw [hdisk] at hfolder hremovals
    have hnone := hmissing (by simp [hfolder])
    refine exactly_none ?_ hnone
    intro other content hother hw
    have hsame : other = path := by
      rcases htarget with ⟨hop, rfl⟩ | ⟨hop, hprevious⟩
      · rcases hother with ⟨_, rfl⟩ | ⟨hno, _⟩
        · rfl
        · exact absurd hop hno
      · rcases hother with ⟨hyes, _⟩ | ⟨_, hprevious'⟩
        · exact absurd hyes hop
        · exact Option.some.inj (hprevious'.symm.trans hprevious)
    rw [hwrites] at hw
    rcases mem_append.mp hw with hold | hnew
    · exact hnothing other content hother hold
    · obtain ⟨other', content', heq, hfile⟩ := hremovals _ hnew
      cases heq
      rw [hsame, hfolder] at hfile
      cases hfile
  · intro current hfile hopen
    rw [hdisk] at hfile hopen
    refine hkept _ rfl fun other content h => hopen ?_
    obtain ⟨_, rfl⟩ := hone current hfile other content h
    exact ((hremoves other content).mp h).2.2
  · intro current hfile hagree other content hother
    rw [hdisk] at hfile hagree
    show _ ∈ d.writes ++ [VaultWrite.removed path current] ↔ _
    constructor
    · intro hw
      rcases mem_append.mp hw with hold | hnew
      · exact absurd hold (hnothing other content hother)
      · cases mem_singleton.mp hnew
        exact (hremoves _ _).mpr ⟨rfl, hfile, hagree⟩
    · intro h
      obtain ⟨rfl, rfl⟩ := hone current hfile other content h
      exact mem_append_right _ (mem_singleton_self _)

theorem Removes.deleteReached (hdelete : decoded.operation = .delete)
    (h : Removes ctx s event decoded disk path content) :
    DeleteReached ctx s event decoded disk path content := by
  rcases h.1 with hd | hr
  · exact hd
  · have hop := hdelete.symm.trans hr.operation
    cases hop

theorem Removes.renameReached (hupsert : decoded.operation ≠ .delete)
    (h : Removes ctx s event decoded disk path content) :
    RenameReached ctx s event decoded disk path content := by
  rcases h.1 with hd | hr
  · exact absurd hd.operation hupsert
  · exact hr

theorem ends_removeFound (hcalm : ∀ moment disk, ctx.edit moment disk = disk)
    (hdelete : decoded.operation = .delete) (hnothing : NothingRemoved decoded d)
    {onDisk : Option Content}
    (hheld : onDisk.any (holdsLocalEdit ctx d.state event) = true →
      ∀ path content, ¬ removes path content)
    (hclear : onDisk.any (holdsLocalEdit ctx d.state event) = false →
      ∀ path content, removes path content ↔ path = decoded.path ∧
        d.disk.entryAt decoded.path = some (.file content) ∧
        EditorsAgree ctx.toVaultPort d.disk decoded.path content) :
    Ends (removeFound (vaultPort ctx) ctx event decoded onDisk) d
      (fun _ d' => Exactly decoded removes d')
      (fun _ d' => Exactly decoded removes d') := by
  refine ends_get_bind ?_
  split
  · rename_i hedit
    have hcopy : Preserves (NoRemoval decoded.path)
        (writeConflict (vaultPort ctx) ctx event decoded) :=
      preserves_writeConflict
    refine (hcopy d).mono ?_ ?_
    · exact fun _ _ h => exactly_none (hnothing.of_noRemoval h) (hheld hedit)
    · exact fun _ _ h => exactly_none (hnothing.of_noRemoval h) (hheld hedit)
  · rename_i hedit
    rw [Bool.not_eq_true] at hedit
    refine ends_modify_bind (Ends.bind (Ends.mono (ends_takeFile hcalm (.inl ⟨hdelete, rfl⟩)
      (hnothing.of_eq rfl) (hclear hedit)) ?_ fun _ _ h => h))
    intro _ d' h
    exact ends_modify_bind (ends_modify_bind (ends_pure (h.of_eq rfl)))

theorem ends_applyDelete (hcalm : ∀ moment disk, ctx.edit moment disk = disk)
    (hnote : ctx.rules.isSyncableConfigPath decoded.path = false)
    (hdelete : decoded.operation = .delete) (hnothing : NothingRemoved decoded d) :
    Ends (applyDelete (vaultPort ctx) ctx event decoded) d
      (fun _ d' => Exactly decoded (Removes ctx d.state event decoded d.disk) d')
      (fun _ d' => Exactly decoded (Removes ctx d.state event decoded d.disk) d') := by
  have hview : ∀ content, seen ctx.toVaultPort
      (((ctx.rules.classifyVaultPath decoded.path).map ClassifiedPath.kind).getD .markdown)
      decoded.path content = viewed ctx decoded decoded.path content := by
    intro content
    unfold viewed
    rw [if_pos hdelete]
  refine ends_get_bind ?_
  split
  · rename_i hother
    refine ends_pure (exactly_none hnothing fun path content h => hother ?_)
    have hreached := h.deleteReached hdelete
    rw [← hreached.target]
    exact hreached.owner
  · rename_i howner
    rw [not_not] at howner
    unfold lastWriterWins
    rw [hnote]
    refine Ends.bind (ends_readContent ?_ ?_ ?_)
    · intro habsent
      rw [hcalm] at habsent
      rw [disturbed_of_calm hcalm]
      refine ends_removeFound hcalm hdelete hnothing nofun fun _ path content => ?_
      rw [habsent]
      refine ⟨fun h => ?_, fun h => nomatch h.2.1⟩
      have hreached := h.deleteReached hdelete
      have hfile := hreached.file
      rw [hreached.target, habsent] at hfile
      cases hfile
    · intro content hfile
      rw [hcalm] at hfile
      rw [disturbed_of_calm hcalm, hview]
      refine ends_removeFound hcalm hdelete hnothing ?_ ?_
      · intro hheld path found h
        have hreached := h.deleteReached hdelete
        have hpath := hreached.target
        subst hpath
        cases hfile.symm.trans hreached.file
        have hedit : holdsLocalEdit ctx d.state event (viewed ctx decoded decoded.path content) =
            true := hheld
        rw [h.2] at hedit
        cases hedit
      · intro hclear path found
        constructor
        · intro h
          have hreached := h.deleteReached hdelete
          have hpath := hreached.target
          subst hpath
          exact ⟨rfl, hreached.file, hreached.editors⟩
        · intro h
          obtain ⟨rfl, hfound, hagree⟩ := h
          cases hfile.symm.trans hfound
          exact ⟨.inl ⟨hdelete, rfl, howner, hfile, hagree⟩, hclear⟩
    · intro hfolder
      rw [hcalm] at hfolder
      refine exactly_none (hnothing.of_eq rfl) fun path content h => ?_
      have hreached := h.deleteReached hdelete
      have hfile := hreached.file
      rw [hreached.target, hfolder] at hfile
      cases hfile

section
variable {previousPath : Path}

/-- What is known of a rename's source once its content was applied. -/
structure SourceSettled (ctx : ApplyContext) (event : RemoteEvent)
    (decoded : DecodedRevisionPayload) (d : Device) (previousPath : Path)
    (outcome : RemoteApplyOutcome) (d' : Device) : Prop where
  arrived : (outcome = .applied ∨ outcome = .noop) →
    Arrives ctx d.state event decoded d.disk ∧ OthersKept decoded.path d d' ∧
      ∀ content, d.disk.entryAt previousPath = some (.file content) →
        holdsLocalEdit ctx d.state event (viewed ctx decoded previousPath content) = false
  stayed : outcome ≠ .applied ∧ outcome ≠ .noop →
    ∀ path content, ¬ Removes ctx d.state event decoded d.disk path content

theorem arrives_congr {state : PersistedSyncState} (h : state.pathOwners = s.pathOwners)
    {disk : Disk} : Arrives ctx state event decoded disk ↔ Arrives ctx s event decoded disk := by
  have hfree : DestinationFree ctx state event decoded disk ↔
      DestinationFree ctx s event decoded disk := by
    constructor
    · intro hfree
      refine ⟨hfree.toRoom, hfree.absent, ?_, ?_⟩
      · intro owner howner
        exact hfree.owner owner ((fileIdAtPath_congr h _).trans howner)
      · intro hnone variant hfound
        rw [← fileIdAtPath_congr h]
        exact hfree.variant ((fileIdAtPath_congr h _).trans hnone) variant hfound
    · intro hfree
      refine ⟨hfree.toRoom, hfree.absent, ?_, ?_⟩
      · intro owner howner
        exact hfree.owner owner ((fileIdAtPath_congr h _).symm.trans howner)
      · intro hnone variant hfound
        rw [fileIdAtPath_congr h]
        exact hfree.variant ((fileIdAtPath_congr h _).symm.trans hnone) variant hfound
  unfold Arrives
  rw [hfree]

theorem viewed_of_upsert (hupsert : decoded.operation ≠ .delete) (path : Path)
    (content : Content) :
    viewed ctx decoded path content = seen ctx.toVaultPort decoded.kind path content := by
  unfold viewed
  rw [if_neg hupsert]

/-- The file at a rename's source holds a local edit. -/
def SourceEdited (ctx : ApplyContext) (event : RemoteEvent) (decoded : DecodedRevisionPayload)
    (d : Device) (previousPath : Path) : Prop :=
  ∃ content, d.disk.entryAt previousPath = some (.file content) ∧
    holdsLocalEdit ctx d.state event (seen ctx.toVaultPort decoded.kind previousPath content) = true

/-- Another content is at a rename's destination. -/
def DestinationTaken (ctx : ApplyContext) (decoded : DecodedRevisionPayload) (disk : Disk) : Prop :=
  ∃ content, disk.entryAt decoded.path = some (.file content) ∧
    contentMatches (seen ctx.toVaultPort decoded.kind decoded.path content)
      (incomingContent decoded) = false

/-- A folder is at one end of a rename. -/
def FolderInPlace (decoded : DecodedRevisionPayload) (disk : Disk) (previousPath : Path) : Prop :=
  disk.entryAt previousPath = some .folder ∨ disk.entryAt decoded.path = some .folder

variable (hcalm : ∀ moment disk, ctx.edit moment disk = disk)
include hcalm

theorem ends_destinationTaken :
    Ends (destinationTaken (vaultPort ctx) decoded) d
      (fun taken d' => d' = d ∧ (taken = true ↔ DestinationTaken ctx decoded d.disk))
      (fun _ d' => d' = d ∧ FolderInPlace decoded d.disk previousPath) := by
  refine Ends.bind (ends_readContent ?_ ?_ ?_)
  · intro habsent
    rw [hcalm] at habsent
    rw [disturbed_of_calm hcalm]
    refine ends_pure ⟨rfl, ⟨nofun, fun h => ?_⟩⟩
    obtain ⟨content, hfile, _⟩ := h
    rw [habsent] at hfile
    cases hfile
  · intro content hfile
    rw [hcalm] at hfile
    rw [disturbed_of_calm hcalm]
    refine ends_pure ⟨rfl, ⟨fun h => ⟨content, hfile, of_decide_eq_true h⟩, fun h => ?_⟩⟩
    obtain ⟨found, hfound, hother⟩ := h
    cases hfile.symm.trans hfound
    exact decide_eq_true hother
  · intro hfolder
    rw [hcalm] at hfolder
    exact ⟨disturbed_of_calm hcalm, .inr hfolder⟩

/-- On a calm disk a rename is blocked by a local edit of the file it moves or by
another content at the destination. -/
theorem ends_renameBlocked_calm (hnote : ctx.rules.isSyncableConfigPath decoded.path = false) :
    Ends (renameBlocked (vaultPort ctx) ctx event decoded previousPath) d
      (fun blocked d' => d' = d ∧ (blocked = true ↔
        SourceEdited ctx event decoded d previousPath ∨ DestinationTaken ctx decoded d.disk))
      (fun _ d' => d' = d ∧ FolderInPlace decoded d.disk previousPath) := by
  have hsource : ∀ onDisk : Option Content,
      (onDisk.any (holdsLocalEdit ctx d.state event) = true ↔
        SourceEdited ctx event decoded d previousPath) →
      Ends (sourceBlocks (vaultPort ctx) ctx event decoded onDisk) d
        (fun blocked d' => d' = d ∧ (blocked = true ↔
          SourceEdited ctx event decoded d previousPath ∨ DestinationTaken ctx decoded d.disk))
        (fun _ d' => d' = d ∧ FolderInPlace decoded d.disk previousPath) := by
    intro onDisk hedited
    refine ends_get_bind ?_
    rw [show lastWriterWins ctx decoded.path = false from hnote, if_neg Bool.false_ne_true]
    split
    · rename_i hedit
      exact ends_pure ⟨rfl, ⟨fun _ => .inl (hedited.mp hedit), fun _ => rfl⟩⟩
    · rename_i hclear
      refine (ends_destinationTaken hcalm).mono ?_ fun _ _ h => h
      intro taken d' h
      refine ⟨h.1, h.2.trans ⟨.inr, fun hboth => ?_⟩⟩
      exact hboth.resolve_left fun hsource => hclear (hedited.mpr hsource)
  refine Ends.bind (ends_readContent ?_ ?_ ?_)
  · intro habsent
    rw [hcalm] at habsent
    rw [disturbed_of_calm hcalm]
    refine hsource none ⟨nofun, fun h => ?_⟩
    obtain ⟨content, hfile, _⟩ := h
    rw [habsent] at hfile
    cases hfile
  · intro content hfile
    rw [hcalm] at hfile
    rw [disturbed_of_calm hcalm]
    refine hsource _ ⟨fun h => ⟨content, hfile, h⟩, fun h => ?_⟩
    obtain ⟨found, hfound, hedit⟩ := h
    cases hfile.symm.trans hfound
    exact hedit
  · intro hfolder
    rw [hcalm] at hfolder
    exact ⟨disturbed_of_calm hcalm, .inl hfolder⟩

omit hcalm in
/-- Neither a folder at one end, nor a local edit, nor another content lets a
rename remove its source. -/
theorem not_removes_of_blocked (hupsert : decoded.operation ≠ .delete)
    (hprevious : decoded.previousPath = some previousPath)
    (h : FolderInPlace decoded d.disk previousPath ∨
      SourceEdited ctx event decoded d previousPath ∨ DestinationTaken ctx decoded d.disk)
    (path : Path) (content : Content) :
    ¬ Removes ctx d.state event decoded d.disk path content := by
  intro hremoves
  have hreached := hremoves.renameReached hupsert
  have hpath : previousPath = path := Option.some.inj (hprevious.symm.trans hreached.previous)
  subst hpath
  rcases h with (hfolder | hfolder) | ⟨found, hfound, hedit⟩ | ⟨found, hfound, hother⟩
  · cases hfolder.symm.trans hreached.file
  · rcases hreached.arrives with ⟨there, hthere, _⟩ | hfree
    · cases hfolder.symm.trans hthere
    · cases hfolder.symm.trans hfree.absent
  · cases hfound.symm.trans hreached.file
    have hclear := hremoves.2
    rw [viewed_of_upsert hupsert, hedit] at hclear
    cases hclear
  · rcases hreached.arrives with ⟨there, hthere, hmatch⟩ | hfree
    · cases hfound.symm.trans hthere
      rw [hother] at hmatch
      cases hmatch
    · cases hfound.symm.trans hfree.absent

/-- The apply of a rename's content, with what it leaves of the source. -/
theorem ends_applyUpsert_settled (hnote : ctx.rules.isSyncableConfigPath decoded.path = false)
    (hupsert : decoded.operation ≠ .delete)
    (howned : ownedPreviousPath event d.state decoded = some previousPath) :
    Ends (applyUpsert (vaultPort ctx) ctx event decoded) d
      (fun outcome d' => NoRemoval decoded.path d d' ∧
        SourceSettled ctx event decoded d previousPath outcome d')
      (fun _ d' => NoRemoval decoded.path d d' ∧
        ∀ path content, ¬ Removes ctx d.state event decoded d.disk path content) := by
  have hprevious := (Option.filter_eq_some_iff.mp howned).1
  have hblocked : FolderInPlace decoded d.disk previousPath ∨
      SourceEdited ctx event decoded d previousPath ∨ DestinationTaken ctx decoded d.disk →
      ∀ path content, ¬ Removes ctx d.state event decoded d.disk path content :=
    not_removes_of_blocked hupsert hprevious
  refine ends_get_bind ?_
  rw [vaultPort_stateOf, howned]
  refine Ends.bind ((ends_renameBlocked_calm hcalm hnote).mono ?_ ?_)
  · intro blocked d' h
    obtain ⟨rfl, hiff⟩ := h
    split
    · rename_i hyes
      have hkept : Preserves (NoRemoval decoded.path)
          (writeConflict (vaultPort ctx) ctx event decoded) :=
        preserves_writeConflict
      have hcopy : Ends (writeConflict (vaultPort ctx) ctx event decoded) d' _ (fun _ _ => False) :=
        ends_writeConflict
      refine ((hkept d').and hcopy).mono ?_ fun _ _ h => absurd h.2 id
      intro outcome moved h
      refine ⟨h.1, ⟨?_, fun _ => hblocked (.inr (hiff.mp hyes))⟩⟩
      intro hdone
      rw [h.2.1] at hdone
      rcases hdone with hdone | hdone <;> cases hdone
    · rename_i hno
      have hfree := mt hiff.mpr hno
      rw [not_or] at hfree
      have hkept : NoRemoval decoded.path d'
          { d' with state := forgotten ctx event.revision.fileId previousPath d'.state } :=
        .of_eq forgotten_pathOwners rfl
      refine ends_modify_bind (Ends.mono ((preserves_applyContent hnote _).and
        (ends_applyContent_arrival hcalm hnote ?_)) ?_ ?_)
      · intro content hfile
        by_contra hother
        rw [Bool.not_eq_true] at hother
        exact hfree.2 ⟨content, hfile, hother⟩
      · intro outcome moved h
        refine ⟨IsTrans.trans _ _ _ hkept h.1, ?_, ?_⟩
        · intro hdone
          rcases h.2 with ⟨_, harrives, hothers⟩ | ⟨hconflict, _⟩
          · refine ⟨(arrives_congr forgotten_pathOwners).mp harrives,
              ⟨hothers.files, hothers.editors⟩, fun content hfile => ?_⟩
            rw [viewed_of_upsert hupsert]
            by_contra hedit
            rw [Bool.not_eq_false] at hedit
            exact hfree.1 ⟨content, hfile, hedit⟩
          · rw [hconflict] at hdone
            rcases hdone with hdone | hdone <;> cases hdone
        · intro hdone path content hremoves
          rcases h.2 with ⟨happlied | hnoop, _⟩ | ⟨_, hmissed⟩
          · exact hdone.1 happlied
          · exact hdone.2 hnoop
          · exact hmissed ((arrives_congr forgotten_pathOwners).mpr
              (hremoves.renameReached hupsert).arrives)
      · intro e moved h
        refine ⟨IsTrans.trans _ _ _ hkept h.1, fun path content hremoves => h.2 ?_⟩
        exact (arrives_congr forgotten_pathOwners).mpr (hremoves.renameReached hupsert).arrives
  · intro e d' h
    obtain ⟨rfl, hfolder⟩ := h
    exact ⟨Std.Refl.refl _, hblocked (.inl hfolder)⟩

omit hcalm in
/-- The owner of a source that may go is the one the apply began with. -/
theorem filter_ownedPreviousPath (h : NoRemoval decoded.path d d') (done : Prop) [Decidable done] :
    (ownedPreviousPath event d'.state decoded).filter
        (fun previousPath => previousPath ≠ decoded.path ∧ done) =
      (ownedPreviousPath event d.state decoded).filter
        fun previousPath => previousPath ≠ decoded.path ∧ done := by
  unfold ownedPreviousPath
  cases decoded.previousPath with
  | none => rfl
  | some previousPath =>
    by_cases hpath : previousPath = decoded.path
    · have hnone : ∀ owned : Path → Bool, ((some previousPath).filter owned).filter
          (fun previousPath => previousPath ≠ decoded.path ∧ done) = none := by
        intro owned
        refine Option.filter_eq_none_iff.mpr fun other hother hkeep => ?_
        cases (Option.filter_eq_some_iff.mp hother).1
        exact (of_decide_eq_true hkeep).1 hpath
      rw [hnone, hnone]
    · rw [Option.filter_some, Option.filter_some, h.owners previousPath hpath]

theorem ends_vacate_exactly (hupsert : decoded.operation ≠ .delete)
    (hnothing : NothingRemoved decoded d) {result : RemoteApplyOutcome}
    (hkept : NoRemoval decoded.path d d')
    (hsettled : ∀ previousPath, ownedPreviousPath event d.state decoded = some previousPath →
      SourceSettled ctx event decoded d previousPath result d') :
    Ends (vacate (vaultPort ctx) event decoded result) d'
      (fun _ d'' => Exactly decoded (Removes ctx d.state event decoded d.disk) d'')
      (fun _ d'' => Exactly decoded (Removes ctx d.state event decoded d.disk) d'') := by
  have hnone := hnothing.of_noRemoval hkept
  refine ends_get_bind ?_
  rw [vaultPort_stateOf, filter_ownedPreviousPath hkept]
  split
  · rename_i hfilter
    refine ends_pure (exactly_none hnone fun path content hremoves => ?_)
    have hreached := hremoves.renameReached hupsert
    have howned : ownedPreviousPath event d.state decoded = some path := by
      unfold ownedPreviousPath
      rw [hreached.previous]
      exact Option.filter_some_pos (decide_eq_true ⟨hreached.operation, hreached.owner⟩)
    have hundone := Option.filter_eq_none_iff.mp hfilter path howned
    refine (hsettled path howned).stayed ?_ path content hremoves
    constructor
    · exact fun h => hundone (decide_eq_true ⟨hreached.moved, .inl h⟩)
    · exact fun h => hundone (decide_eq_true ⟨hreached.moved, .inr h⟩)
  · rename_i previousPath hfilter
    obtain ⟨howned, hdone⟩ := Option.filter_eq_some_iff.mp hfilter
    obtain ⟨hmoved, hdone⟩ := of_decide_eq_true hdone
    obtain ⟨hprevious, hfound⟩ := Option.filter_eq_some_iff.mp howned
    obtain ⟨hrename, howner⟩ := of_decide_eq_true hfound
    obtain ⟨harrives, hothers, hclear⟩ := (hsettled previousPath howned).arrived hdone
    have heditors : ∀ content, EditorsAgree ctx.toVaultPort d'.disk previousPath content ↔
        EditorsAgree ctx.toVaultPort d.disk previousPath content := by
      intro content
      unfold EditorsAgree editorTexts
      rw [hothers.editors]
    refine Ends.bind (Ends.mono (ends_takeFile hcalm (.inr ⟨hupsert, hprevious⟩) hnone ?_) ?_
      fun _ _ h => h)
    · intro path content
      rw [hothers.files previousPath content hmoved, heditors]
      constructor
      · intro hremoves
        have hreached := hremoves.renameReached hupsert
        have hpath := Option.some.inj (hprevious.symm.trans hreached.previous)
        subst hpath
        exact ⟨rfl, hreached.file, hreached.editors⟩
      · intro h
        obtain ⟨rfl, hfile, hagree⟩ := h
        exact ⟨.inr ⟨hrename, hprevious, hmoved, howner, hfile, hagree, harrives⟩,
          hclear content hfile⟩
    · exact fun _ _ h => ends_modify (h.of_eq rfl)

end
variable {bootstrap : Bool}

/-- The apply proper removes exactly what it reaches without seeing a local
edit. -/
theorem ends_attempt_exactly (hcalm : ∀ moment disk, ctx.edit moment disk = disk)
    (hnote : ctx.rules.isSyncableConfigPath decoded.path = false)
    (hnothing : NothingRemoved decoded d) :
    Ends (attempt (vaultPort ctx) ctx event decoded) d
      (fun _ d' => Exactly decoded (Removes ctx d.state event decoded d.disk) d')
      (fun _ d' => Exactly decoded (Removes ctx d.state event decoded d.disk) d') := by
  have hundo : ∀ e d', Exactly decoded (Removes ctx d.state event decoded d.disk) d' →
      Ends (do
        rollback (vaultPort ctx) ctx
        if e = .applyDeferred then return RemoteApplyOutcome.deferred else throw e) d'
        (fun _ d'' => Exactly decoded (Removes ctx d.state event decoded d.disk) d'')
        (fun _ d'' => Exactly decoded (Removes ctx d.state event decoded d.disk) d'') := by
    intro e d' h
    refine Ends.bind (ends_rollback.mono ?_ fun _ d'' hkept => h.of_eq hkept.2)
    intro _ d'' hkept
    split
    · exact ends_pure (h.of_eq hkept.2)
    · exact ends_throw (h.of_eq hkept.2)
  have hfinish : ∀ (result : RemoteApplyOutcome) d',
      Exactly decoded (Removes ctx d.state event decoded d.disk) d' →
      Ends (do
        if result = .conflict then rollback (vaultPort ctx) ctx else complete (vaultPort ctx) ctx
        return result) d'
        (fun _ d'' => Exactly decoded (Removes ctx d.state event decoded d.disk) d'')
        (fun _ d'' => Exactly decoded (Removes ctx d.state event decoded d.disk) d'') := by
    intro result d' h
    split
    · refine Ends.bind (ends_rollback.mono ?_ fun _ _ hkept => h.of_eq hkept.2)
      exact fun _ _ hkept => ends_pure (h.of_eq hkept.2)
    · refine Ends.bind (ends_complete.mono ?_ fun _ _ h => h)
      exact fun _ _ hkept => ends_pure (h.of_eq hkept.2)
  refine Ends.catching (Ends.bind ?_)
  unfold applyDecoded
  by_cases hdelete : decoded.operation = .delete
  · rw [if_pos hdelete]
    refine (ends_applyDelete hcalm hnote hdelete hnothing).mono ?_ hundo
    intro result d' h
    refine Ends.bind (ends_get_bind ?_)
    have hstay : ownedPreviousPath event d'.state decoded = none := by
      unfold ownedPreviousPath
      refine Option.filter_eq_none_iff.mpr fun previousPath _ hrename => ?_
      have hop := hdelete.symm.trans (of_decide_eq_true hrename).1
      cases hop
    rw [vaultPort_stateOf, hstay]
    exact ends_pure ((hfinish result d' h).mono (fun _ _ h => h) hundo)
  · rw [if_neg hdelete]
    have hupsert : Ends (applyUpsert (vaultPort ctx) ctx event decoded) d
        (fun result d' => NoRemoval decoded.path d d' ∧
          ∀ previousPath, ownedPreviousPath event d.state decoded = some previousPath →
            SourceSettled ctx event decoded d previousPath result d')
        (fun _ d' => NoRemoval decoded.path d d' ∧
          ∀ path content, ¬ Removes ctx d.state event decoded d.disk path content) := by
      cases howned : ownedPreviousPath event d.state decoded with
      | none =>
        have hrun : applyUpsert (vaultPort ctx) ctx event decoded d =
            applyContent (vaultPort ctx) ctx event decoded d := by
          unfold applyUpsert
          rw [get_bind, vaultPort_stateOf, howned]
        refine Ends.mono (Q := fun _ d' => NoRemoval decoded.path d d')
          (E := fun _ d' => NoRemoval decoded.path d d') ?_ ?_ ?_
        · have hcontent : Ends (applyContent (vaultPort ctx) ctx event decoded) d
              (fun _ d' => NoRemoval decoded.path d d') fun _ d' => NoRemoval decoded.path d d' :=
            preserves_applyContent hnote d
          unfold Ends at hcontent ⊢
          rw [hrun]
          exact hcontent
        · exact fun _ _ h => ⟨h, nofun⟩
        · refine fun _ _ h => ⟨h, fun path content hremoves => ?_⟩
          have hreached := hremoves.renameReached hdelete
          refine absurd howned (Option.ne_none_iff_exists'.mpr ⟨path, ?_⟩)
          unfold ownedPreviousPath
          rw [hreached.previous]
          exact Option.filter_some_pos (decide_eq_true ⟨hreached.operation, hreached.owner⟩)
      | some previousPath =>
        refine (ends_applyUpsert_settled hcalm hnote hdelete howned).mono ?_ fun _ _ h => h
        intro result d' h
        refine ⟨h.1, fun other hother => ?_⟩
        cases hother
        exact h.2
    refine hupsert.mono ?_ ?_
    · intro result d' h
      refine Ends.bind ((ends_vacate_exactly hcalm hdelete hnothing h.1 h.2).mono ?_ hundo)
      exact fun _ d'' hexact => (hfinish result d'' hexact).mono (fun _ _ h => h) hundo
    · intro e d' h
      exact hundo e d' (exactly_none (hnothing.of_noRemoval h.1) h.2)

/-- The state the apply decides in: older applies undone, this one journalled. -/
def journalledState (ctx : ApplyContext) (event : RemoteEvent) (decoded : DecodedRevisionPayload)
    (state : PersistedSyncState) : PersistedSyncState :=
  if ctx.producing then
    (checkpointApply state ctx.recordId event.revision.fileId (touchedPaths decoded)).getD state
  else state

/-- The apply of an event gets to its decision. -/
structure Entered (ctx : ApplyContext) (event : RemoteEvent) (decoded : DecodedRevisionPayload)
    (bootstrap : Bool) (d : Device) : Prop where
  known : ∃ accepted ∈ ctx.accepted, accepted.revision.revisionId = event.revision.revisionId
  inScope : pathsInScope ctx decoded = true
  saved : ∃ buffers, openBufferStates ctx.toVaultPort event.revision.fileId d = .ok buffers d ∧
    buffers.any id = false
  current : isObsolete ctx d.state event bootstrap = false
  unsettled : isSettled ctx d.state event = false
  recovers : ctx.producing = true →
    checkpointApply d.state ctx.recordId event.revision.fileId (touchedPaths decoded) ≠ none

/-- What an apply removes of the file the event is about. -/
def RemovedBy (ctx : ApplyContext) (event : RemoteEvent) (decoded : DecodedRevisionPayload)
    (bootstrap : Bool) (d : Device) (path : Path) (content : Content) : Prop :=
  Entered ctx event decoded bootstrap d ∧
    Removes ctx (journalledState ctx event decoded d.state) event decoded d.disk path content

theorem ends_applyLocked_exactly (hcalm : ∀ moment disk, ctx.edit moment disk = disk)
    (hnote : ctx.rules.isSyncableConfigPath decoded.path = false)
    (hknown : ∃ accepted ∈ ctx.accepted, accepted.revision.revisionId = event.revision.revisionId)
    (hscope : pathsInScope ctx decoded = true) (hnothing : NothingRemoved decoded d) :
    Ends (applyLocked (vaultPort ctx) ctx event decoded bootstrap) d
      (fun _ d' => Exactly decoded (RemovedBy ctx event decoded bootstrap d) d')
      (fun _ d' => Exactly decoded (RemovedBy ctx event decoded bootstrap d) d') := by
  have hstopped : ¬ Entered ctx event decoded bootstrap d →
      Exactly decoded (RemovedBy ctx event decoded bootstrap d) d :=
    fun h => exactly_none hnothing fun _ _ hremoved => h hremoved.1
  have hopened : Ends (openBufferStates ctx.toVaultPort event.revision.fileId) d
      (fun _ d' => d' = d) (fun _ d' => d' = d) := by
    refine ends_openBufferStates.mono ?_ ?_
    · exact fun _ _ h => h.trans (disturbed_of_calm hcalm)
    · exact fun _ _ h => h.trans (disturbed_of_calm hcalm)
  refine Ends.bind (ends_iff.mpr ⟨fun buffers d' hrun => ?_, fun e d' hrun => ?_⟩)
  · have hd := (ends_iff.mp hopened).1 buffers d' hrun
    subst hd
    refine ends_get_bind ?_
    split
    · rename_i hunsaved
      refine ends_pure (hstopped fun h => ?_)
      obtain ⟨found, hfound, hsaved⟩ := h.saved
      cases hrun.symm.trans hfound
      rw [hunsaved] at hsaved
      cases hsaved
    · rename_i hsaved
      split
      · rename_i hobsolete
        refine ends_pure (hstopped fun h => ?_)
        rw [vaultPort_stateOf, h.current] at hobsolete
        cases hobsolete
      · rename_i hcurrent
        split
        · rename_i hsettled
          refine ends_pure (hstopped fun h => ?_)
          rw [vaultPort_stateOf, h.unsettled] at hsettled
          cases hsettled
        · rename_i hunsettled
          rw [Bool.not_eq_true] at hsaved hcurrent hunsettled
          have hproceed : ∀ moved : Device, (ctx.producing = true → checkpointApply d'.state
                ctx.recordId event.revision.fileId (touchedPaths decoded) ≠ none) →
              moved.state = journalledState ctx event decoded d'.state →
              moved.disk = d'.disk → moved.writes = d'.writes →
              Ends (attempt (vaultPort ctx) ctx event decoded) moved
                (fun _ d'' => Exactly decoded (RemovedBy ctx event decoded bootstrap d') d'')
                (fun _ d'' => Exactly decoded (RemovedBy ctx event decoded bootstrap d') d'') := by
            intro moved hrecovers hstate hdisk hwrites
            have hentered : Entered ctx event decoded bootstrap d' :=
              ⟨hknown, hscope, ⟨buffers, hrun, hsaved⟩, hcurrent, hunsettled, hrecovers⟩
            have hsame : ∀ path content, RemovedBy ctx event decoded bootstrap d' path content ↔
                Removes ctx moved.state event decoded moved.disk path content := by
              intro path content
              rw [hstate, hdisk]
              exact ⟨fun h => h.2, fun h => ⟨hentered, h⟩⟩
            refine (ends_attempt_exactly hcalm hnote (hnothing.of_eq hwrites)).mono ?_ ?_
            · exact fun _ _ h path content htarget =>
                (h path content htarget).trans (hsame path content).symm
            · exact fun _ _ h path content htarget =>
                (h path content htarget).trans (hsame path content).symm
          refine Ends.bind ?_
          unfold checkpoint
          split
          · rename_i hproducing
            refine ends_trySetState_of ?_ ?_
            · intro state hstate
              refine hproceed _ (fun _ => by rw [hstate]; nofun) ?_ rfl rfl
              unfold journalledState
              rw [if_pos hproducing, hstate]
              rfl
            · exact fun hfailed => hstopped fun h => h.recovers hproducing hfailed
          · rename_i hidle
            refine ends_pure (hproceed _ (fun h => absurd h hidle) ?_ rfl rfl)
            unfold journalledState
            rw [if_neg hidle]
  · have hd := (ends_iff.mp hopened).2 e d' hrun
    subst hd
    refine hstopped fun h => ?_
    obtain ⟨found, hfound, _⟩ := h.saved
    cases hrun.symm.trans hfound

/-- What an event removes is exactly what it reaches without seeing a local edit
in it. -/
theorem ends_applyRemote_exactly (hcalm : ∀ moment disk, ctx.edit moment disk = disk)
    (hfetched : ctx.resolveRevision event.revision.revisionId = some decoded)
    (hnote : ctx.rules.isSyncableConfigPath decoded.path = false)
    (hnothing : NothingRemoved decoded d) :
    Ends (applyRemote (vaultPort ctx) ctx event bootstrap) d
      (fun _ d' => Exactly decoded (RemovedBy ctx event decoded bootstrap d) d')
      (fun _ d' => Exactly decoded (RemovedBy ctx event decoded bootstrap d) d') := by
  have hstopped : ¬ Entered ctx event decoded bootstrap d →
      Exactly decoded (RemovedBy ctx event decoded bootstrap d) d :=
    fun h => exactly_none hnothing fun _ _ hremoved => h hremoved.1
  by_cases hknown : ∃ accepted ∈ ctx.accepted,
      accepted.revision.revisionId = event.revision.revisionId
  · have hensure : (ensureEvent ctx event : Apply Unit) = pure () := if_pos hknown
    have happly : Ends (applyUnlessObsolete (vaultPort ctx) ctx event bootstrap) d
        (fun _ d' => Exactly decoded (RemovedBy ctx event decoded bootstrap d) d')
        (fun _ d' => Exactly decoded (RemovedBy ctx event decoded bootstrap d) d') := by
      refine ends_get_bind ?_
      split
      · rename_i hobsolete
        refine ends_pure (hstopped fun h => ?_)
        rw [vaultPort_stateOf, h.current] at hobsolete
        cases hobsolete
      · unfold applyFetched
        rw [hfetched, hensure]
        refine Ends.bind (ends_pure ?_)
        split
        · rename_i hscope
          refine ends_throw (hstopped fun h => ?_)
          rw [h.inScope] at hscope
          cases hscope
        · rename_i hscope
          rw [Bool.not_eq_false] at hscope
          exact ends_applyLocked_exactly hcalm hnote hknown hscope hnothing
    unfold applyRemote
    split
    · rw [hensure]
      exact Ends.bind (ends_pure happly)
    · exact happly
  · have hensure : (ensureEvent ctx event : Apply Unit) = throw .failure := if_neg hknown
    unfold applyRemote applyUnlessObsolete applyFetched
    rw [hfetched, hensure]
    split
    · exact Ends.bind (ends_throw (hstopped fun h => hknown h.known))
    · refine ends_get_bind ?_
      split
      · exact ends_pure (hstopped fun h => hknown h.known)
      · exact Ends.bind (ends_throw (hstopped fun h => hknown h.known))

section
variable (ctx : ApplyContext) (state : PersistedSyncState) (event : RemoteEvent)

/-- What the device knows of a revision's content: its payload, or the version
it holds itself. -/
def HasContent (revisionId : Id) (content : Content) : Prop :=
  (∃ payload, historyPayload ctx state revisionId = some payload ∧ payload.operation ≠ .delete ∧
      hash ctx.digests (incomingContent payload) = hash ctx.digests content) ∨
    localVersionFor ctx state event.revision.fileId = some (revisionId, hash ctx.digests content)

/-- The content is that of a revision in the event's ancestry. -/
def InAncestry (content : Content) : Prop :=
  ∃ revisionId, (revisionId ∈ event.revision.parentRevisionIds.getD [] ∨ revisionId ∈
      ancestors (historyOf ctx state event.revision.fileId) event.revision.revisionId) ∧
    HasContent ctx state event revisionId content

end

/-- No local edit is seen in the recorded base, and in a version the event was
built on. -/
theorem not_holdsLocalEdit {state : PersistedSyncState} {content : Content}
    (h : holdsLocalEdit ctx state event content = false) :
    state.baseHashes event.revision.fileId = some (hash ctx.digests content) ∨
      InAncestry ctx state event content := by
  have hnot := of_decide_eq_false h
  cases hclean : cleanCausalHash ctx state event (hash ctx.digests content) with
  | some clean =>
    obtain ⟨_, revisionId, hversion, hcause⟩ := cleanCausalHash_eq_some hclean
    exact .inr ⟨revisionId, hcause, .inr hversion⟩
  | none =>
    left
    by_contra hother
    exact hnot ⟨fun hsame => hother hsame.symm, hclean⟩

/-- On a disk nobody else works on, what an apply removes is in the event's
ancestry, unless the event reaches a file whose content merely is the recorded
base. -/
theorem removes_only_ancestry_iff (hcalm : ∀ moment disk, ctx.edit moment disk = disk)
    (hfetched : ctx.resolveRevision event.revision.revisionId = some decoded)
    (hnote : ctx.rules.isSyncableConfigPath decoded.path = false) (bootstrap : Bool)
    (hstart : d.writes = []) :
    (∀ path content, IsTarget decoded path →
      .removed path content ∈
          (storeAfter (applyRemote (vaultPort ctx) ctx event bootstrap) d).writes →
      InAncestry ctx (journalledState ctx event decoded d.state) event
        (viewed ctx decoded path content)) ↔
    ¬ ∃ path content, Entered ctx event decoded bootstrap d ∧
      Reached ctx (journalledState ctx event decoded d.state) event decoded d.disk path content ∧
      (journalledState ctx event decoded d.state).baseHashes event.revision.fileId =
        some (hash ctx.digests (viewed ctx decoded path content)) ∧
      ¬ InAncestry ctx (journalledState ctx event decoded d.state) event
        (viewed ctx decoded path content) := by
  have hnothing : NothingRemoved decoded d := by
    intro path content _ hw
    rw [hstart] at hw
    cases hw
  have hends : Ends (applyRemote (vaultPort ctx) ctx event bootstrap) d _ _ :=
    ends_applyRemote_exactly hcalm hfetched hnote hnothing
  have hexact := hends.storeAfter
  constructor
  · intro hsafe hfails
    obtain ⟨path, content, hentered, hreached, hbase, hforeign⟩ := hfails
    have htarget : IsTarget decoded path := by
      rcases hreached with hd | hr
      · exact .inl ⟨hd.operation, hd.target⟩
      · refine .inr ⟨fun hdelete => ?_, hr.previous⟩
        cases hdelete.symm.trans hr.operation
    refine hforeign (hsafe path content htarget ((hexact path content htarget).mpr ?_))
    exact ⟨hentered, hreached, decide_eq_false fun hedit => hedit.1 hbase.symm⟩
  · intro hnone path content htarget hw
    obtain ⟨hentered, hreached, hclear⟩ := (hexact path content htarget).mp hw
    by_contra hforeign
    rcases not_holdsLocalEdit hclear with hbase | hancestry
    · exact hnone ⟨path, content, hentered, hreached, hbase, hforeign⟩
    · exact hforeign hancestry

def deletedPayloads (revisionId : Id) : Option DecodedRevisionPayload :=
  if revisionId = 1 then some (notePayload .create 5 firstText)
  else if revisionId = 2 then some (notePayload .update 5 secondText)
  else if revisionId = 3 then some { notePayload .delete 5 [] with content := none }
  else none

/-- The server knows a note, an update of it, and a delete built on this parent. -/
def deletedContext (parent : Id) : ApplyContext :=
  quietContext [revisionEvent 1 1 [], revisionEvent 2 2 [1], revisionEvent 3 3 [parent]]
    deletedPayloads

/-- A delete that follows the head removes the note, whose text it was made for. -/
theorem removes_only_ancestry_iff_delete :
    (storeAfter (applyRemote (vaultPort (deletedContext 2)) (deletedContext 2)
        (revisionEvent 3 3 [2]) false) (noteDevice 2 secondText secondText)).writes =
      [.removed 5 (.text secondText)] ∧
      InAncestry (deletedContext 2) (journalledState (deletedContext 2) (revisionEvent 3 3 [2])
          { notePayload .delete 5 [] with content := none }
          (noteDevice 2 secondText secondText).state) (revisionEvent 3 3 [2])
        (viewed (deletedContext 2) { notePayload .delete 5 [] with content := none } 5
          (.text secondText)) := by
  refine ⟨rfl, (removes_only_ancestry_iff (fun _ _ => rfl) rfl rfl false rfl).mpr ?_ 5
    (.text secondText) (.inl ⟨rfl, rfl⟩) (mem_singleton_self _)⟩
  intro hforeign
  obtain ⟨path, content, _, hreached, _, hout⟩ := hforeign
  rcases hreached with hdelete | hrename
  · cases hdelete.target
    cases hdelete.file
    exact hout ⟨2, .inl (mem_singleton_self 2), .inr rfl⟩
  · cases hrename.operation

/-- A delete made before an update reached its device removes the update of a
third device, and keeps no copy of it. -/
theorem concurrent_delete_removes_update :
    (storeAfter (applyRemote (vaultPort (deletedContext 1)) (deletedContext 1)
        (revisionEvent 3 3 [1]) false) (noteDevice 2 secondText secondText)).writes =
      [.removed 5 (.text secondText)] ∧
      ¬ InAncestry (deletedContext 1) (noteDevice 2 secondText secondText).state
        (revisionEvent 3 3 [1]) (.text secondText) := by
  refine ⟨rfl, fun hancestry => ?_⟩
  obtain ⟨revisionId, hcause, hcontent⟩ := hancestry
  have hbefore : revisionId = 1 ∨ revisionId = 3 := by
    rcases hcause with hparent | hancestor
    · exact .inl (mem_singleton.mp hparent)
    · have hlisted : ancestors (historyOf (deletedContext 1)
          (noteDevice 2 secondText secondText).state 1) 3 = [1, 3] := by decide
      have hmem : revisionId ∈ [1, 3] := hlisted ▸ hancestor
      simpa using hmem
  rcases hcontent with ⟨payload, hpayload, hwritten, hsame⟩ | hlocal
  · rcases hbefore with rfl | rfl
    · cases hpayload
      exact absurd hsame (by decide)
    · cases hpayload
      exact hwritten rfl
  · have hhead : 2 = revisionId := congrArg Prod.fst (Option.some.inj hlocal)
    subst hhead
    exact absurd hbefore (by decide)

end Havemind.RemovalSafety
