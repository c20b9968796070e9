import Havemind.VaultCalls

/-!
What an incoming create, update or rename may do to the content at its path. A
content is replaced when it already is the incoming one, when the event descends
from this device's head and the content is the one this device last applied or
published, or when what is written is its merge with the incoming text.
Otherwise it stays, and the incoming content is kept as a copy or waits.
-/
namespace Havemind.OverwriteSafety

open Diff3 Endings JsText RevisionEnvelope RevisionHistory RevisionSchema SyncRunner SyncState
  RemoteApply VaultCalls VaultFilePort VaultPayload Option List

section
variable (ctx : ApplyContext) (state : PersistedSyncState) (event : RemoteEvent)
  (decoded : DecodedRevisionPayload)

/-- The event descends from this device's head of the file. -/
def Descends : Prop :=
  ∃ head, localHeadFor ctx state event.revision.fileId = some head ∧
    (head ∈ event.revision.parentRevisionIds.getD [] ∨
      head ∈ ancestors (historyOf ctx state event.revision.fileId) event.revision.revisionId)

/-- The producer holds this content hash for a file. -/
def Holds (fileId : Id) (contentHash : ContentHash) : Prop :=
  ∃ mapping ∈ state.producer.mappings, mapping.fileId = fileId ∧ mapping.contentHash = contentHash

/-- The content this device last applied to the file, or its current version. -/
def Recorded (content : Content) : Prop :=
  state.baseHashes event.revision.fileId = some (hash ctx.digests content) ∨
    Holds state event.revision.fileId (hash ctx.digests content)

/-- The history's one common ancestor of this device's head and the event held
this text at the path. -/
def SharedText (ancestor : JsString) : Prop :=
  ∃ head shared payload, localHeadFor ctx state event.revision.fileId = some head ∧
    commonAncestor (historyOf ctx state event.revision.fileId) head event.revision.revisionId =
      some shared ∧
    historyPayload ctx state shared.revision.revisionId = some payload ∧
    payload.kind = .markdown ∧ payload.operation ≠ .delete ∧ payload.path = decoded.path ∧
    payload.content = some ancestor

/-- `after` is what merging the note with the incoming text gives, from the text
both sides started from. -/
def MergeOf (before after : Content) : Prop :=
  ∃ current ancestor merged, before = .text current ∧
    incomingContent decoded = .text (decoded.content.getD []) ∧
    SharedText ctx state event decoded ancestor ∧
    mergeText ancestor current (decoded.content.getD []) = .ok (.merged merged) ∧
    after = .text merged

/-- Why a content at the path may be replaced. -/
def Justified (before after : Content) : Prop :=
  contentMatches before (incomingContent decoded) = true ∨
    (Descends ctx state event ∧ Recorded ctx state event before) ∨
      MergeOf ctx state event decoded before after

/-- A write the apply may make. -/
def Harmless (write : VaultWrite) : Prop :=
  match write with
  | .created _ _ => True
  | .replaced path before after =>
      path = decoded.path ∧
        Justified ctx state event decoded (seen ctx.toVaultPort decoded.kind decoded.path before)
          after
  | .removed _ _ => decoded.operation = .rename

end

/-- Every write since was of the allowed kind. -/
def Wrote (allowed : VaultWrite → Prop) (start : List VaultWrite) (d : Device) : Prop :=
  ∀ write ∈ d.writes, write ∈ start ∨ allowed write

def IsCreation (write : VaultWrite) : Prop := ∃ path content, write = .created path content

variable {ctx : ApplyContext} {s : PersistedSyncState} {event : RemoteEvent}
  {decoded : DecodedRevisionPayload} {start : List VaultWrite} {d d' : Device}
  {allowed : VaultWrite → Prop} {content : Content} {state : PersistedSyncState} {fileId : Id}
  {contentHash : ContentHash} {onDisk : Option Content} {write : VaultWrite} {revisionId : Id}
  {diskHash clean : ContentHash} {outcome : RemoteApplyOutcome} {path : Path}
  {f : PersistedSyncState → Option PersistedSyncState} {E : Thrown → Device → Prop}
  {cleanHash : Option ContentHash}

theorem Wrote.mono {allowed' : VaultWrite → Prop} (h : Wrote allowed start d)
    (himp : ∀ write, allowed write → allowed' write) : Wrote allowed' start d := by
  intro write hwrite
  rcases h write hwrite with hold | hnew
  · exact .inl hold
  · exact .inr (himp write hnew)

theorem Wrote.of_eq (h : Wrote allowed start d) (hsame : d'.writes = d.writes) :
    Wrote allowed start d' := by
  intro write hwrite
  exact h write (hsame ▸ hwrite)

theorem Wrote.append (h : Wrote allowed start d) (hnew : allowed write)
    (hwrites : d'.writes = d.writes ++ [write]) : Wrote allowed start d' := by
  intro other hother
  rw [hwrites] at hother
  rcases mem_append.mp hother with hold | hlast
  · exact h other hold
  · rw [mem_singleton.mp hlast]
    exact .inr hnew

theorem harmless_of_isCreation (h : IsCreation write) : Harmless ctx s event decoded write := by
  obtain ⟨path, content, rfl⟩ := h
  trivial

theorem CopyPlaced.wrote (h : CopyPlaced d d' content) (hbefore : Wrote IsCreation start d) :
    Wrote IsCreation start d' := by
  rcases h.writes with hsame | ⟨copy, hmade⟩
  · exact hbefore.of_eq hsame
  · exact hbefore.append ⟨copy, content, rfl⟩ hmade

/-- Nothing is decided yet: what the state says of the file is what the apply
began with, or forgotten. -/
structure Undecided (s : PersistedSyncState) (event : RemoteEvent) (d : Device) : Prop where
  base : d.state.baseHashes event.revision.fileId = s.baseHashes event.revision.fileId
  head : ∀ head, headFor d.state event.revision.fileId = some head →
    headFor s event.revision.fileId = some head
  mappings : ∀ mapping ∈ d.state.producer.mappings, mapping ∈ s.producer.mappings
  outbox : d.state.outbox = s.outbox

/-- How an apply of content may end. -/
structure SafeEnd (ctx : ApplyContext) (s : PersistedSyncState) (event : RemoteEvent)
    (decoded : DecodedRevisionPayload) (start : List VaultWrite) (outcome : RemoteApplyOutcome)
    (d : Device) : Prop where
  wrote : Wrote (Harmless ctx s event decoded) start d
  kept : outcome = .conflict → Wrote IsCreation start d ∧
    ∃ copy, d.disk.entryAt copy = some (.file (incomingContent decoded))

/-- A clean hash is that of the current version, which the event was built on. -/
theorem cleanCausalHash_eq_some (h : cleanCausalHash ctx state event diskHash = some clean) :
    clean = diskHash ∧ ∃ revisionId,
      localVersionFor ctx state event.revision.fileId = some (revisionId, diskHash) ∧
      (revisionId ∈ event.revision.parentRevisionIds.getD [] ∨ revisionId ∈
        ancestors (historyOf ctx state event.revision.fileId) event.revision.revisionId) := by
  unfold cleanCausalHash at h
  cases hversion : localVersionFor ctx state event.revision.fileId with
  | none => simp [hversion] at h
  | some version =>
    obtain ⟨revisionId, contentHash⟩ := version
    rw [hversion] at h
    dsimp only at h
    split at h
    · cases h
    · rename_i hsame
      rw [not_not] at hsame
      subst hsame
      split at h
      · rename_i hparent
        cases h
        exact ⟨rfl, revisionId, rfl, .inl hparent⟩
      · split at h
        · rename_i hancestor
          cases h
          exact ⟨rfl, revisionId, rfl, .inr hancestor⟩
        · cases h

theorem Undecided.localHead (h : Undecided s event d) {head : Id}
    (hhead : localHeadFor ctx d.state event.revision.fileId = some head) :
    localHeadFor ctx s event.revision.fileId = some head := by
  unfold localHeadFor at hhead ⊢
  split at hhead
  · rename_i hproducing
    rw [if_pos hproducing]
    exact h.head head hhead
  · cases hhead

/-- What the theorem asks of the event and of the others who act on the disk: a
note or an attachment with its parents, whose empty path nobody fills with the
base content between the first read and the second, and, for an attachment,
nobody touches between the second read and the write. -/
structure Ordinary (ctx : ApplyContext) (s : PersistedSyncState) (event : RemoteEvent)
    (decoded : DecodedRevisionPayload) : Prop where
  upsert : decoded.operation ≠ .delete
  note : ctx.rules.isSyncableConfigPath decoded.path = false
  parents : event.revision.parentRevisionIds ≠ none
  unfilled : ∀ (disk : Disk) (content : Content), disk.entryAt decoded.path = none →
    (ctx.edit .reread disk).entryAt decoded.path = some (.file content) →
    s.baseHashes event.revision.fileId ≠
      some (hash ctx.digests (seen ctx.toVaultPort decoded.kind decoded.path content))
  untouched : decoded.kind = .binary → ∀ disk : Disk,
    (ctx.edit .writeBinary disk).entryAt decoded.path = disk.entryAt decoded.path

theorem seen_markdown (ord : Ordinary ctx s event decoded) (content : Content) :
    seen ctx.toVaultPort .markdown decoded.path content =
      .text (canonicalizeMarkdown (ctx.asText content)) := by
  unfold seen readText
  rw [ord.note]
  rfl

theorem SafeEnd.of_created (h : Wrote IsCreation start d) (houtcome : outcome ≠ .conflict) :
    SafeEnd ctx s event decoded start outcome d where
  wrote := h.mono fun _ => harmless_of_isCreation
  kept hconflict := absurd hconflict houtcome

def FilesKept (d d' : Device) : Prop := d'.disk = d.disk ∧ d'.writes = d.writes

theorem ends_trySetState_of {Q : Unit → Device → Prop}
    (hsome : ∀ state, f d.state = some state → Q () { d with state })
    (hnone : f d.state = none → E .failure d) : Ends (trySetState (vaultPort ctx) f) d Q E := by
  refine ends_get_bind ?_
  rw [vaultPort_stateOf]
  cases hstate : f d.state with
  | none => exact ends_throw (hnone hstate)
  | some state => exact ends_modify (hsome state hstate)

theorem ends_trySetState :
    Ends (trySetState (vaultPort ctx) f) d (fun _ d' => FilesKept d d')
      (fun _ d' => FilesKept d d') :=
  ends_trySetState_of (fun _ _ => ⟨rfl, rfl⟩) fun _ => ⟨rfl, rfl⟩

/-- What the second read found, and that it may be replaced. -/
def Cleared (ctx : ApplyContext) (s : PersistedSyncState) (event : RemoteEvent)
    (decoded : DecodedRevisionPayload) (disk : Disk) : Option Content → Prop
  | none => disk.entryAt decoded.path = none
  | some onDisk => ∃ content, disk.entryAt decoded.path = some (.file content) ∧
      onDisk = seen ctx.toVaultPort decoded.kind decoded.path content ∧
      ∀ after, Justified ctx s event decoded onDisk after

theorem ends_writeText (ord : Ordinary ctx s event decoded) (hmarkdown : decoded.kind = .markdown)
    (hbefore : Wrote IsCreation start d) (hcleared : Cleared ctx s event decoded d.disk onDisk)
    {incoming : JsString} :
    Ends (writeByPath ctx.toVaultPort .writeText decoded.path incoming
        (some (onDisk.map ctx.asText))) d
      (fun _ d' => Wrote (Harmless ctx s event decoded) start d')
      (fun _ d' => Wrote IsCreation start d') := by
  have hfailed : ∀ d', OnlyFolders (disturbed ctx.toVaultPort .writeText d) d' →
      Wrote IsCreation start d' := fun d' hfolders => hbefore.of_eq hfolders.writes
  refine ends_writeByPath ord.note ?_ ?_ ?_ ?_ ?_ ?_ ?_
  · exact fun _ _ => hfailed _ .refl
  · exact fun d' _ _ hfolders _ => hfailed d' hfolders
  · exact fun d' _ _ hfolders _ => hfailed d' hfolders
  · intro d' _ _ hfolders _ _
    refine Wrote.mono ((hfailed d' hfolders).append ?_ rfl) fun _ => harmless_of_isCreation
    exact ⟨decoded.path, _, rfl⟩
  · exact fun _ => hfailed _ .refl
  · exact fun _ _ => hfailed _ .refl
  · intro current _ hexpected
    have hsame := hexpected _ rfl
    cases onDisk with
    | none => cases hsame
    | some found =>
      obtain ⟨content, _, hfound, hjust⟩ := hcleared
      have hview : seen ctx.toVaultPort decoded.kind decoded.path current = found := by
        rw [hfound, hmarkdown, seen_markdown ord, seen_markdown ord]
        rw [hfound, hmarkdown, seen_markdown ord, map_some, ctx.asText_text] at hsame
        rw [some.inj hsame]
      have hharmless : Harmless ctx s event decoded
          (.replaced decoded.path current (.text incoming)) := ⟨rfl, hview ▸ hjust _⟩
      exact ((hfailed _ .refl).mono fun _ => harmless_of_isCreation).append hharmless rfl

theorem ends_writeBytes (ord : Ordinary ctx s event decoded) (hbinary : decoded.kind = .binary)
    (hbefore : Wrote IsCreation start d) (hcleared : Cleared ctx s event decoded d.disk onDisk)
    {incoming : Bytes} :
    Ends (writeBinaryByPath ctx.toVaultPort .writeBinary decoded.path incoming) d
      (fun _ d' => Wrote (Harmless ctx s event decoded) start d')
      (fun _ d' => Wrote IsCreation start d') := by
  have hfailed : ∀ d', OnlyFolders (disturbed ctx.toVaultPort .writeBinary d) d' →
      Wrote IsCreation start d' := fun d' hfolders => hbefore.of_eq hfolders.writes
  refine ends_writeBinaryByPath ord.note ?_ ?_ ?_ ?_
  · exact fun d' _ hfolders _ => hfailed d' hfolders
  · intro d' _ hfolders _
    refine Wrote.mono ((hfailed d' hfolders).append ?_ rfl) fun _ => harmless_of_isCreation
    exact ⟨decoded.path, _, rfl⟩
  · exact fun _ => hfailed _ .refl
  · intro current hcurrent
    rw [ord.untouched hbinary] at hcurrent
    cases onDisk with
    | none =>
      have habsent : d.disk.entryAt decoded.path = none := hcleared
      rw [habsent] at hcurrent
      cases hcurrent
    | some found =>
      obtain ⟨content, hcontent, hfound, hjust⟩ := hcleared
      rw [hcontent] at hcurrent
      cases hcurrent
      have hharmless : Harmless ctx s event decoded
          (.replaced decoded.path current (.bytes incoming)) := ⟨rfl, hfound ▸ hjust _⟩
      exact ((hfailed _ .refl).mono fun _ => harmless_of_isCreation).append hharmless rfl

theorem ends_writeIncoming (ord : Ordinary ctx s event decoded)
    (hbefore : Wrote IsCreation start d) (hcleared : Cleared ctx s event decoded d.disk onDisk) :
    Ends (writeIncoming (vaultPort ctx) ctx decoded onDisk) d
      (fun _ d' => Wrote (Harmless ctx s event decoded) start d')
      (fun _ d' => Wrote IsCreation start d') := by
  unfold writeIncoming incomingContent lastWriterWins
  rw [ord.note]
  cases hkind : decoded.kind with
  | binary => exact ends_writeBytes ord hkind hbefore hcleared
  | markdown => exact ends_writeText ord hkind hbefore hcleared

theorem Undecided.of_eq (h : Undecided s event d) (hstate : d'.state = d.state) :
    Undecided s event d' := by
  obtain ⟨hbase, hhead, hversion, houtbox⟩ := h
  constructor
  · rw [hstate]
    exact hbase
  · rw [hstate]
    exact hhead
  · rw [hstate]
    exact hversion
  · rw [hstate]
    exact houtbox

/-- What was found is still on disk, or nothing is. -/
def Found (ctx : ApplyContext) (decoded : DecodedRevisionPayload) (disk : Disk) :
    Option Content → Prop
  | none => disk.entryAt decoded.path = none
  | some onDisk => ∃ content, onDisk = seen ctx.toVaultPort decoded.kind decoded.path content

/-- Forgetting a file on the producer's side keeps the other files' heads. -/
theorem Undecided.forgotten (h : Undecided s event d) :
    Undecided s event { d with state := RemoteApply.forgotten ctx fileId path d.state } := by
  unfold RemoteApply.forgotten
  split
  · exact h
  · split
    · refine ⟨h.base, ?_, ?_, h.outbox⟩
      · intro head hhead
        unfold headFor forgetRemoteMapping at hhead
        dsimp only at hhead
        split at hhead
        · cases hhead
        · exact h.head head hhead
      · intro mapping hmapping
        exact h.mappings mapping (mem_of_mem_filter hmapping)
    · exact h

theorem Undecided.forgetBaseHash (h : Undecided s event d)
    (hother : fileId ≠ event.revision.fileId) :
    Undecided s event { d with state := SyncState.forgetBaseHash d.state fileId } := by
  refine ⟨?_, h.head, h.mappings, h.outbox⟩
  unfold SyncState.forgetBaseHash
  dsimp only
  rw [if_neg hother.symm]
  exact h.base

theorem ends_rollback : Ends (rollback (vaultPort ctx) ctx) d (fun _ d' => FilesKept d d')
    (fun _ d' => FilesKept d d') := by
  unfold rollback
  split
  · exact ends_trySetState
  · exact ends_pure ⟨rfl, rfl⟩

theorem ends_complete : Ends (complete (vaultPort ctx) ctx) d (fun _ d' => FilesKept d d') E := by
  unfold complete
  split
  · exact ends_modify ⟨rfl, rfl⟩
  · exact ends_pure ⟨rfl, rfl⟩

theorem ends_openBufferStates {port : VaultPort} :
    Ends (openBufferStates port fileId) d
      (fun _ d' => d' = disturbed port .openBuffers d)
      (fun _ d' => d' = disturbed port .openBuffers d) := by
  refine ends_modify_bind (ends_get_bind ?_)
  split
  · exact ends_pure rfl
  · split
    · exact ends_pure rfl
    · split
      · exact ends_pure rfl
      · exact ends_throw rfl
      · exact ends_pure rfl

/-- A device on which nobody else is at work; `payloads` are the revisions the
server gives out. -/
def quietContext (accepted : List RemoteEvent) (payloads : Id → Option DecodedRevisionPayload) :
    ApplyContext where
  rules := noteRules
  asText := textIn
  asBytes := bytesIn
  asText_text _ := rfl
  asBytes_bytes _ := rfl
  normalizeConfigContent _ text := text
  mergeConfigContent _ _ text := text
  edit _ disk := disk
  digests := plainDigests
  encoder :=
    { protocol := { major := 1, minor := 0 }
      identity := { vaultId := 0, memberId := 0, deviceId := 0 }
      encode := fun _ _ => some (0, 0) }
  accepted
  resolveRevision := payloads
  producing := true
  recordId := 100
  mergeRevisionId := 101
  mergeKey := []
  conflictPath _ _ n := 1000 + n
  conflictPath_injective _ _ _ _ h := Nat.add_left_cancel h
  deletedMarkerBody := []

/-- A revision of file 1. -/
def revisionEvent (sequence revisionId : Id) (parents : List Id) : RemoteEvent where
  serverSequence := sequence
  revision :=
    { revisionId
      fileId := 1
      contentHash := 0
      parentRevisionIds := some parents
      authorMembershipId := none
      acceptedAt := none }

def notePayload (operation : RevisionOperation) (path : Path) (text : JsString) :
    DecodedRevisionPayload where
  operation
  path
  previousPath := none
  kind := .markdown
  content := some text
  binaryContent := none

/-- A device that holds file 1 at path 5, with this head, base and text. -/
def noteDevice (head : Id) (base text : JsString) : Device where
  state :=
    { outbox := []
      locallyAuthored := []
      quarantinedEnvelopes := []
      pathOwners := [(5, 1)]
      baseHashes := fun fileId => if fileId = 1 then some (.text base) else none
      conflictArtifacts := fun _ => none
      producer :=
        { mappings :=
            [{ fileId := 1
               path := 5
               collisionKey := 5
               contentHash := .text text
               contentKind := .markdown }]
          heads := fun fileId => if fileId = 1 then some head else none }
      producerRecovery := [] }
  disk :=
    { entries := AList.insert 5 (.file (.text text)) ∅
      editors := fun _ => [] }
  writes := []

def firstText : JsString := [97, 10]

def secondText : JsString := [98, 10]

def thirdText : JsString := [99, 10]

def shownPayloads (revisionId : Id) : Option DecodedRevisionPayload :=
  if revisionId = 1 then some (notePayload .create 5 firstText)
  else if revisionId = 2 then some (notePayload .update 5 secondText)
  else if revisionId = 3 then some (notePayload .update 5 thirdText)
  else none

end Havemind.OverwriteSafety
