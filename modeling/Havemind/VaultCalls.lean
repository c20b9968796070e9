import Havemind.RemoteApply

/-!
What each call of the vault port leaves, however it ends: who wrote what, and
that nothing else changed. The apply's proofs use these and not the calls
themselves.
-/
namespace Havemind.VaultCalls

open Endings JsText SyncRunner RemoteApply VaultFilePort List VaultPayload

variable {port : VaultPort} {moment : Moment} {path : Path} {d : Device}

def disturbed (port : VaultPort) (moment : Moment) (d : Device) : Device :=
  { d with disk := port.edit moment d.disk }

/-- A read's view of a file's content. -/
def seen (port : VaultPort) (kind : SyncContentKind) (path : Path) (content : Content) : Content :=
  match kind with
  | .binary => .bytes (port.asBytes content)
  | .markdown => .text (readText port path content)

section
variable {E : Thrown → Device → Prop}

theorem ends_readAs {α : Type} {read : Content → α} {Q : Option α → Device → Prop}
    (habsent : (port.edit moment d.disk).entryAt path = none → Q none (disturbed port moment d))
    (hfile : ∀ content, (port.edit moment d.disk).entryAt path = some (.file content) →
      Q (some (read content)) (disturbed port moment d))
    (hfolder : (port.edit moment d.disk).entryAt path = some .folder →
      E .failure (disturbed port moment d)) :
    Ends (do
      disturb port moment
      let device ← get
      match device.disk.entryAt path with
      | none => return none
      | some .folder => throw .failure
      | some (.file content) => return some (read content)) d Q E := by
  refine ends_modify_bind (ends_get_bind ?_)
  dsimp only
  cases hentry : (port.edit moment d.disk).entryAt path with
  | none => exact ends_pure (habsent hentry)
  | some entry =>
    cases entry with
    | folder => exact ends_throw (hfolder hentry)
    | file content => exact ends_pure (hfile content hentry)

theorem ends_readContent {ctx : ApplyContext} {kind : SyncContentKind}
    {Q : Option Content → Device → Prop}
    (habsent : (ctx.edit moment d.disk).entryAt path = none →
      Q none (disturbed ctx.toVaultPort moment d))
    (hfile : ∀ content, (ctx.edit moment d.disk).entryAt path = some (.file content) →
      Q (some (seen ctx.toVaultPort kind path content)) (disturbed ctx.toVaultPort moment d))
    (hfolder : (ctx.edit moment d.disk).entryAt path = some .folder →
      E .failure (disturbed ctx.toVaultPort moment d)) :
    Ends (readContent (vaultPort ctx) moment kind path) d Q E := by
  cases kind with
  | binary =>
    refine Ends.bind (ends_readAs (fun h => ?_) (fun content h => ?_) hfolder)
    · exact ends_pure (habsent h)
    · exact ends_pure (hfile content h)
  | markdown =>
    refine Ends.bind (ends_readAs (fun h => ?_) (fun content h => ?_) hfolder)
    · exact ends_pure (habsent h)
    · exact ends_pure (hfile content h)

end

/-- Only folders were made. -/
structure OnlyFolders (d d' : Device) : Prop where
  state : d'.state = d.state
  writes : d'.writes = d.writes
  kept : ∀ path, d.disk.entryAt path ≠ none → d'.disk.entryAt path = d.disk.entryAt path
  files : ∀ path content, d'.disk.entryAt path = some (.file content) →
    d.disk.entryAt path = some (.file content)
  editors : d'.disk.editors = d.disk.editors

theorem OnlyFolders.refl : OnlyFolders d d := ⟨rfl, rfl, fun _ _ => rfl, fun _ _ h => h, rfl⟩

theorem entryAt_put {disk : Disk} {entry : Entry} {other : Path} :
    (disk.put path entry).entryAt other =
      if other = path then some entry else disk.entryAt other := by
  unfold Disk.put Disk.entryAt
  dsimp only
  by_cases h : other = path
  · rw [if_pos h, h, AList.lookup_insert]
  · rw [if_neg h, AList.lookup_insert_ne h]

theorem onlyFolders_createFolder (hfree : d.disk.entryAt path = none) :
    OnlyFolders d { d with disk := d.disk.put path .folder } where
  state := rfl
  writes := rfl
  kept other hother := by
    have hne : other ≠ path := by
      intro h
      exact hother (h ▸ hfree)
    show (d.disk.put path .folder).entryAt other = _
    rw [entryAt_put, if_neg hne]
  files other content hfile := by
    have hput : (d.disk.put path .folder).entryAt other = some (.file content) := hfile
    rw [entryAt_put] at hput
    split at hput
    · cases hput
    · exact hput
  editors := rfl

theorem OnlyFolders.trans {d' d'' : Device} (h : OnlyFolders d d') (h' : OnlyFolders d' d'') :
    OnlyFolders d d'' where
  state := h'.state.trans h.state
  writes := h'.writes.trans h.writes
  kept path hpath := by
    have hsame := h.kept path hpath
    rw [h'.kept path (hsame ▸ hpath), hsame]
  files path content hfile := h.files path content (h'.files path content hfile)
  editors := h'.editors.trans h.editors

def HoldsFile (disk : Disk) (path : Path) : Prop := ∃ content, disk.entryAt path = some (.file content)

/-- The folders are made, unless a file is in the place of one. -/
theorem ends_ensureFolders {folders : List Path} :
    Ends (ensureFolders folders) d
      (fun _ d' => OnlyFolders d d' ∧ ∀ folder ∈ folders, ¬ HoldsFile d.disk folder)
      (fun e d' => OnlyFolders d d' ∧ e = .parentFolderOccupied ∧
        ∃ folder ∈ folders, HoldsFile d.disk folder) := by
  induction folders generalizing d with
  | nil => exact ends_pure ⟨.refl, fun _ h => absurd h not_mem_nil⟩
  | cons folder rest ih =>
    refine ends_get_bind ?_
    cases hentry : d.disk.entryAt folder with
    | none =>
      have hmade := onlyFolders_createFolder hentry
      have hsame : ∀ other, HoldsFile (d.disk.put folder .folder) other ↔ HoldsFile d.disk other := by
        intro other
        unfold HoldsFile
        rw [entryAt_put]
        by_cases h : other = folder
        · simp [h, hentry]
        · rw [if_neg h]
      refine ends_modify_bind (ih.mono ?_ ?_)
      · intro _ d' h
        refine ⟨hmade.trans h.1, ?_⟩
        intro other hother
        rcases mem_cons.mp hother with rfl | hrest
        · simp [HoldsFile, hentry]
        · exact fun hfile => h.2 other hrest ((hsame other).mpr hfile)
      · intro _ d' h
        obtain ⟨hfolders, he, other, hother, hfile⟩ := h
        exact ⟨hmade.trans hfolders, he, other, mem_cons_of_mem _ hother,
          (hsame other).mp hfile⟩
    | some entry =>
      cases entry with
      | folder =>
        refine ih.mono ?_ ?_
        · intro _ d' h
          refine ⟨h.1, ?_⟩
          intro other hother
          rcases mem_cons.mp hother with rfl | hrest
          · simp [HoldsFile, hentry]
          · exact h.2 other hrest
        · intro _ d' h
          obtain ⟨hfolders, he, other, hother, hfile⟩ := h
          exact ⟨hfolders, he, other, mem_cons_of_mem _ hother, hfile⟩
      | file content =>
        exact ends_throw ⟨.refl, rfl, folder, mem_cons_self, content, hentry⟩

section
variable {Q : Unit → Device → Prop} {E : Thrown → Device → Prop}

def createdIn (d : Device) (path : Path) (content : Content) : Device :=
  { d with
    disk := d.disk.put path (.file content)
    writes := d.writes ++ [.created path content] }

def replacedIn (d : Device) (path : Path) (before after : Content) : Device :=
  { d with
    disk := d.disk.put path (.file after)
    writes := d.writes ++ [.replaced path before after] }

/-- A note's write makes the file where none was expected, replaces a text that
was expected, or leaves the files alone. -/
theorem ends_writeByPath {content : JsString} {expected : Option (Option JsString)}
    (hnote : port.rules.isSyncableConfigPath path = false)
    (hgone : (port.edit moment d.disk).entryAt path = none → expected.any Option.isSome = true →
      E .applyDeferred (disturbed port moment d))
    (hoccupied : ∀ d', (port.edit moment d.disk).entryAt path = none →
      expected.any Option.isSome = false → OnlyFolders (disturbed port moment d) d' →
      (∃ folder ∈ port.rules.ancestorFolders path, HoldsFile (port.edit moment d.disk) folder) →
      E .parentFolderOccupied d')
    (hopen : ∀ d', (port.edit moment d.disk).entryAt path = none →
      expected.any Option.isSome = false → OnlyFolders (disturbed port moment d) d' →
      editorTexts d'.disk path ≠ [] → E .applyDeferred d')
    (hcreated : ∀ d', (port.edit moment d.disk).entryAt path = none →
      expected.any Option.isSome = false → OnlyFolders (disturbed port moment d) d' →
      (∀ folder ∈ port.rules.ancestorFolders path,
        ¬ HoldsFile (port.edit moment d.disk) folder) →
      editorTexts d'.disk path = [] → Q () (createdIn d' path (.text content)))
    (hfolder : (port.edit moment d.disk).entryAt path = some .folder →
      E .failure (disturbed port moment d))
    (hchanged : ∀ current, (port.edit moment d.disk).entryAt path = some (.file current) →
      E .applyDeferred (disturbed port moment d))
    (hreplaced : ∀ current, (port.edit moment d.disk).entryAt path = some (.file current) →
      (∀ text, expected = some text → text = some (canonicalizeMarkdown (port.asText current))) →
      Q () (replacedIn (disturbed port moment d) path current (.text content))) :
    Ends (writeByPath port moment path content expected) d Q E := by
  unfold writeByPath
  refine ends_modify_bind ?_
  rw [hnote]
  refine ends_get_bind ?_
  dsimp only
  cases hentry : (port.edit moment d.disk).entryAt path with
  | none =>
    dsimp only
    by_cases hexpected : expected.any Option.isSome = true
    · rw [if_pos hexpected]
      exact ends_throw (hgone hentry hexpected)
    · rw [if_neg hexpected]
      rw [Bool.not_eq_true] at hexpected
      refine Ends.bind (ends_ensureFolders.mono ?_ ?_)
      · intro _ d' h
        refine ends_get_bind ?_
        by_cases htexts : editorTexts d'.disk path = []
        · rw [if_neg (not_not.mpr htexts)]
          exact ends_modify (hcreated d' hentry hexpected h.1 h.2 htexts)
        · rw [if_pos htexts]
          exact ends_throw (hopen d' hentry hexpected h.1 htexts)
      · intro e d' h
        rw [h.2.1]
        exact hoccupied d' hentry hexpected h.1 h.2.2
  | some entry =>
    cases entry with
    | folder => exact ends_throw (hfolder hentry)
    | file current =>
      dsimp only
      split
      · exact ends_throw (hchanged current hentry)
      · rename_i hsame
        refine ends_modify (hreplaced current hentry ?_)
        intro text htext
        by_contra hne
        exact hsame (by simp [htext, hne])

theorem ends_writeBinaryByPath {bytes : Bytes}
    (hnote : port.rules.isSyncableConfigPath path = false)
    (hoccupied : ∀ d', (port.edit moment d.disk).entryAt path = none →
      OnlyFolders (disturbed port moment d) d' →
      (∃ folder ∈ port.rules.ancestorFolders path, HoldsFile (port.edit moment d.disk) folder) →
      E .parentFolderOccupied d')
    (hcreated : ∀ d', (port.edit moment d.disk).entryAt path = none →
      OnlyFolders (disturbed port moment d) d' →
      (∀ folder ∈ port.rules.ancestorFolders path,
        ¬ HoldsFile (port.edit moment d.disk) folder) →
      Q () (createdIn d' path (.bytes bytes)))
    (hfolder : (port.edit moment d.disk).entryAt path = some .folder →
      E .failure (disturbed port moment d))
    (hreplaced : ∀ current, (port.edit moment d.disk).entryAt path = some (.file current) →
      Q () (replacedIn (disturbed port moment d) path current (.bytes bytes))) :
    Ends (writeBinaryByPath port moment path bytes) d Q E := by
  unfold writeBinaryByPath
  refine ends_modify_bind ?_
  rw [hnote]
  refine ends_get_bind ?_
  dsimp only
  cases hentry : (port.edit moment d.disk).entryAt path with
  | none =>
    refine Ends.bind (ends_ensureFolders.mono ?_ ?_)
    · intro _ d' h
      exact ends_modify (hcreated d' hentry h.1 h.2)
    · intro e d' h
      rw [h.2.1]
      exact hoccupied d' hentry h.1 h.2.2
  | some entry =>
    cases entry with
    | folder => exact ends_throw (hfolder hentry)
    | file current => exact ends_modify (hreplaced current hentry)

/-- No editor holds another text than the file does. -/
def EditorsAgree (port : VaultPort) (disk : Disk) (path : Path) (current : Content) : Prop :=
  port.rules.isSyncableConfigPath path = false →
    ∀ text ∈ editorTexts disk path, text = canonicalizeMarkdown (port.asText current)

def removedIn (d : Device) (path : Path) (content : Content) : Device :=
  { d with
    disk := d.disk.drop path
    writes := d.writes ++ [.removed path content] }

/-- A removal takes the file that is there, or the folder with all it holds. -/
theorem ends_deleteByPath
    (habsent : (port.edit moment d.disk).entryAt path = none → Q () (disturbed port moment d))
    (hbusy : (port.edit moment d.disk).entryAt path = some .folder →
      E .failure (disturbed port moment d))
    (hfolder : ∀ d' removals, (port.edit moment d.disk).entryAt path = some .folder →
      d'.state = d.state → d'.writes = d.writes ++ removals →
      (∀ write ∈ removals, ∃ other content, write = .removed other content ∧
        (port.edit moment d.disk).entryAt other = some (.file content)) → Q () d')
    (hopen : ∀ current, (port.edit moment d.disk).entryAt path = some (.file current) →
      ¬ EditorsAgree port (port.edit moment d.disk) path current →
      E .applyDeferred (disturbed port moment d))
    (hfile : ∀ current, (port.edit moment d.disk).entryAt path = some (.file current) →
      EditorsAgree port (port.edit moment d.disk) path current →
      Q () (removedIn (disturbed port moment d) path current)) :
    Ends (deleteByPath port moment path) d Q E := by
  refine ends_modify_bind (ends_get_bind ?_)
  dsimp only
  cases hentry : (port.edit moment d.disk).entryAt path with
  | none => exact ends_pure (habsent hentry)
  | some entry =>
    cases entry with
    | folder =>
      dsimp only
      split
      · exact ends_throw (hbusy hentry)
      · refine ends_modify (hfolder _ _ hentry rfl rfl ?_)
        intro write hwrite
        obtain ⟨other, _, hremoved⟩ := mem_filterMap.mp hwrite
        split at hremoved
        · rename_i content hcontent
          exact ⟨other, content, (Option.some.inj hremoved).symm, hcontent⟩
        · cases hremoved
    | file current =>
      dsimp only
      split
      · rename_i hdiffers
        obtain ⟨hnote, text, htext, hne⟩ := hdiffers
        exact ends_throw (hopen current hentry fun hagree => hne (hagree hnote text htext))
      · rename_i hsame
        refine ends_modify (hfile current hentry ?_)
        intro hnote text htext
        by_contra hne
        exact hsame ⟨hnote, text, htext, hne⟩

end

/-- A copy of the content is on disk, and at most it was made. -/
structure CopyPlaced (d d' : Device) (content : Content) : Prop where
  writes : d'.writes = d.writes ∨ ∃ copy, d'.writes = d.writes ++ [.created copy content]
  placed : ∃ copy, d'.disk.entryAt copy = some (.file content)

variable {content : Content} {E : Thrown → Device → Prop}

theorem ends_ensureWritableConflictFolder {folder : Path} {Q : Option Path → Device → Prop}
    (h : ∀ resolved d', OnlyFolders d d' → Q resolved d') :
    Ends (ensureWritableConflictFolder port folder) d Q E := by
  refine ends_get_bind ?_
  dsimp only
  cases hentry : d.disk.entryAt folder with
  | none => exact ends_modify_bind (ends_pure (h _ _ (onlyFolders_createFolder hentry)))
  | some entry =>
    cases entry with
    | folder => exact ends_pure (h _ _ .refl)
    | file occupied =>
      dsimp only
      cases hfallback : d.disk.entryAt (port.rules.filesFolder folder) with
      | none => exact ends_modify_bind (ends_pure (h _ _ (onlyFolders_createFolder hfallback)))
      | some entry =>
        cases entry with
        | folder => exact ends_pure (h _ _ .refl)
        | file other => exact ends_pure (h _ _ .refl)

theorem ends_resolveConflictTarget {Q : Path → Device → Prop}
    (h : ∀ target d', OnlyFolders d d' → Q target d') :
    Ends (resolveConflictTarget port path) d Q E := by
  unfold resolveConflictTarget
  cases port.rules.parentFolder path with
  | none => exact ends_pure (h _ _ .refl)
  | some folder =>
    exact Ends.bind (ends_ensureWritableConflictFolder fun _ _ hmade => ends_pure (h _ _ hmade))

theorem ends_placeConflictArtifact :
    Ends (placeConflictArtifact port path content) d
      (fun _ d' => d'.state = d.state ∧ CopyPlaced d d' content) E := by
  refine ends_get_bind ?_
  dsimp only
  have hspec := firstName_spec d.disk (port.rules.numbered_injective path)
    (show takesCopy content none = true from rfl)
  split
  · exact ends_modify ⟨rfl, .inr ⟨_, rfl⟩, _, by rw [entryAt_put, if_pos rfl]⟩
  · rename_i htaken
    have hsame := (of_decide_eq_true hspec).resolve_left htaken
    exact ends_pure ⟨rfl, .inl rfl, _, hsame⟩

theorem ends_writeConflictArtifact :
    Ends (writeConflictArtifact port path content) d
      (fun _ d' => d'.state = d.state ∧ CopyPlaced d d' content) E := by
  refine ends_modify_bind (Ends.bind (ends_resolveConflictTarget fun target d' hmade => ?_))
  refine ends_placeConflictArtifact.mono ?_ fun _ _ h => h
  intro _ d'' h
  have hwrites : d'.writes = d.writes := hmade.writes
  have hstate : d'.state = d.state := hmade.state
  exact ⟨h.1.trans hstate, hwrites ▸ h.2.writes, h.2.placed⟩

/-- What a conflict copy of a revision holds. -/
def keptContent (ctx : ApplyContext) (decoded : DecodedRevisionPayload) : Content :=
  if decoded.operation = .delete then .text ctx.deletedMarkerBody else incomingContent decoded

theorem ends_writeConflict {ctx : ApplyContext} {event : RemoteEvent}
    {decoded : DecodedRevisionPayload} :
    Ends (writeConflict (vaultPort ctx) ctx event decoded) d
      (fun outcome d' => outcome = .conflict ∧ CopyPlaced d d' (keptContent ctx decoded)) E := by
  refine ends_get_bind (Ends.bind (ends_writeConflictArtifact.mono ?_ fun _ _ h => h))
  intro _ d' h
  split
  · exact ends_modify_bind (ends_pure ⟨rfl, h.2.writes, h.2.placed⟩)
  · exact ends_pure ⟨rfl, h.2⟩

end Havemind.VaultCalls
