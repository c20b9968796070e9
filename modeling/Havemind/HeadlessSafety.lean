import Havemind.FsVault
import Havemind.PortRelations
import Havemind.RemovalSafety
import Havemind.Runs

/-!
What a remote apply does to the bytes of a headless client's folder. Every byte
it replaces or removes was read by the same apply, or is under the trash
afterwards, at every operation that finds the disk as the index and the apply's
last look have it. Nothing makes sure that it does: the vault creates a file over
one the index does not know, writes over a change made since it read, and moves
a file to the trash over one that is there.
-/
namespace Havemind.HeadlessSafety

open Endings FsVault JsText PortRelations RemoteApply RevisionSchema Runs SyncRunner SyncState List
  VaultPayload Option OverwriteSafety
open VaultFilePort (Entry Thrown)

section
variable (rules : TrashRules) (earlier : List FsStep) (step : FsStep)

/-- The operation finds no other file where it creates one, the file it modifies
as the operation before left it, and no other file where it puts one into the
trash. -/
def Undisturbed : Prop :=
  match step.op with
  | .create path content =>
      ∀ found, onDisk step.before path = some (.file found) → found = content
  | .modify path content =>
      ∀ found, onDisk step.before path = some (.file found) → found ≠ content →
        ∃ last ∈ earlier.getLast?, onDisk last.after path = some (.file found)
  | .rename path target =>
      ∀ moved found, onDisk step.before path = some (.file moved) →
        onDisk step.before target = some (.file found) → found = moved
  | _ => True

def WasRead (path : Path) (content : Content) : Prop :=
  ∃ read ∈ earlier, read.op = .readFile path ∧ onDisk read.before path = some (.file content)

def HasCopy (path : Path) (content : Content) : Prop :=
  ∃ copy ∈ earlier, ∃ other, other ≠ path ∧ copy.op = .create other content ∧
    onDisk copy.after other = some (.file content)

/-- What the operation did to the files of the folder is accounted for. -/
structure Accounted : Prop where
  bytes : ∀ path content, rules.isSyncableConfigPath path = false →
    onDisk step.before path = some (.file content) → onDisk step.after path ≠ some (.file content) →
    WasRead earlier path content ∨ HasCopy earlier path content ∨
      onDisk step.after (rules.trashPath path) = some (.file content)
  trash : ∀ path target, step.op = .rename path target → ∀ other content entry,
    onDisk step.before other = some (.file content) → onDisk step.after other = some entry →
    entry = .file content

end

section
variable {rules : TrashRules} {earlier trace : List FsStep} {step : FsStep} {op : FsOp}
  {before after : FsDisk} {path : Path} {content : Content} {disk : FsDisk} {other : Path}

def Sound (rules : TrashRules) (trace : List FsStep) : Prop :=
  ∀ earlier step later, trace = earlier ++ step :: later → Undisturbed earlier step →
    Accounted rules earlier step

theorem sound_nil : Sound rules [] := by
  intro earlier step later hsplit
  have hlength := congrArg List.length hsplit
  rw [length_append, length_cons, length_nil] at hlength
  omega

theorem sound_append (h : Sound rules trace)
    (hstep : Undisturbed trace step → Accounted rules trace step) :
    Sound rules (trace ++ [step]) := by
  intro earlier other later hsplit hother
  rcases eq_nil_or_concat later with hlast | ⟨front, last, hlast⟩
  · rw [hlast] at hsplit
    obtain ⟨hearlier, hsame⟩ := append_inj' hsplit rfl
    obtain rfl := (List.cons.inj hsame).1
    rw [← hearlier] at hother ⊢
    exact hstep hother
  · rw [hlast, concat_eq_append, ← cons_append, ← append_assoc] at hsplit
    exact h earlier other front (append_inj' hsplit rfl).1 hother

theorem accounted_unchanged (h : ∀ other content, onDisk before other = some (.file content) →
    onDisk after other = some (.file content)) : Accounted rules earlier { op, before, after } where
  bytes other content _ hfound hgone := absurd (h other content hfound) hgone
  trash _ _ _ other content entry hfound hentry := by
    rw [h other content hfound] at hentry
    exact (some.inj hentry).symm

theorem onDisk_insert {entry : Entry} :
    onDisk (disk.insert path entry) other = if other = path then some entry else onDisk disk other := by
  unfold onDisk
  by_cases h : other = path
  · rw [if_pos h, h, AList.lookup_insert]
  · rw [if_neg h, AList.lookup_insert_ne h]

theorem onDisk_erase :
    onDisk (disk.erase path) other = if other = path then none else onDisk disk other := by
  unfold onDisk
  by_cases h : other = path
  · rw [if_pos h, h, AList.lookup_erase]
  · rw [if_neg h, AList.lookup_erase_ne h]

theorem onDisk_of_writeFileOn (h : writeFileOn rules path content before = some ((), after))
    (other : Path) : onDisk after other =
      if other = path then some (.file content) else onDisk before other := by
  unfold writeFileOn at h
  split at h
  · cases h
  · cases h
    exact onDisk_insert

theorem accounted_create (h : writeFileOn rules path content before = some ((), after))
    (hfree : Undisturbed earlier { op := .create path content, before, after }) :
    Accounted rules earlier { op := .create path content, before, after } := by
  refine accounted_unchanged ?_
  intro other found hfound
  rw [onDisk_of_writeFileOn h]
  by_cases hother : other = path
  · subst hother
    rw [if_pos rfl, hfree found hfound]
  · rw [if_neg hother]
    exact hfound

/-- A file written right after it was read. -/
theorem accounted_modify (h : writeFileOn rules path content before = some ((), after))
    (hlast : ∃ last ∈ earlier.getLast?, last.op = .readFile path ∧ last.after = last.before)
    (hkept : Undisturbed earlier { op := .modify path content, before, after }) :
    Accounted rules earlier { op := .modify path content, before, after } where
  bytes other found _ hfound hgone := by
    rw [onDisk_of_writeFileOn h] at hgone
    by_cases hother : other = path
    · subst hother
      rw [if_pos rfl] at hgone
      have hne : found ≠ content := by
        intro hsame
        exact hgone (by rw [hsame])
      obtain ⟨read, hread, hop, hsame⟩ := hlast
      obtain ⟨last, hmem, hcontent⟩ := hkept found hfound hne
      obtain rfl := Option.mem_unique hread hmem
      rw [hsame] at hcontent
      exact .inl ⟨read, mem_of_mem_getLast? hread, hop, hcontent⟩
    · rw [if_neg hother] at hgone
      exact absurd hfound hgone
  trash _ _ hop := by cases hop

theorem accounted_adapterWrite (hconfig : rules.isSyncableConfigPath path = true)
    (h : writeFileOn rules path content before = some ((), after)) :
    Accounted rules earlier { op := .adapterWrite path content, before, after } where
  bytes other found hnote hfound hgone := by
    rw [onDisk_of_writeFileOn h] at hgone
    by_cases hother : other = path
    · rw [hother, hconfig] at hnote
      cases hnote
    · rw [if_neg hother] at hgone
      exact absurd hfound hgone
  trash _ _ hop := by cases hop

theorem accounted_rm (hconfig : rules.isSyncableConfigPath path = true)
    (h : rmOn path before = some ((), after)) :
    Accounted rules earlier { op := .rm path, before, after } where
  bytes other found hnote hfound hgone := by
    unfold rmOn at h
    split at h
    · cases h
    · cases h
      rw [onDisk_erase] at hgone
      by_cases hother : other = path
      · rw [hother, hconfig] at hnote
        cases hnote
      · rw [if_neg hother] at hgone
        exact absurd hfound hgone
  trash _ _ hop := by cases hop

theorem file_of_mkdirOn (h : mkdirOn rules path before = some ((), after)) (other : Path)
    (found : Content) (hfound : onDisk before other = some (.file found)) :
    onDisk after other = some (.file found) := by
  unfold mkdirOn at h
  split at h
  · cases h
  · rename_i hfree
    cases h
    rw [onDisk_insert, if_neg]
    · exact hfound
    · intro hother
      rw [hother] at hfound
      exact hfree (.inl (by rw [hfound]; exact some_ne_none _))

theorem file_of_mkdirAllOn {folders : List Path} (h : mkdirAllOn folders before = some ((), after))
    (other : Path) (found : Content) (hfound : onDisk before other = some (.file found)) :
    onDisk after other = some (.file found) := by
  induction folders generalizing before with
  | nil =>
    cases h
    exact hfound
  | cons folder rest ih =>
    unfold mkdirAllOn at h
    split at h
    · rename_i hnone
      refine ih h ?_
      rw [onDisk_insert, if_neg]
      · exact hfound
      · intro hother
        rw [hother, hnone] at hfound
        cases hfound
    · exact ih h hfound
    · cases h

end

section
variable {rules : TrashRules} {earlier : List FsStep} {before after : FsDisk} {path : Path}
  {paths : List Path} {disk left : FsDisk} {entry : Entry} {other : Path}

theorem onDisk_foldl_erase :
    onDisk (paths.foldl (fun left path => left.erase path) disk) other =
      if other ∈ paths then none else onDisk disk other := by
  induction paths generalizing disk with
  | nil => rw [foldl_nil, if_neg not_mem_nil]
  | cons path rest ih =>
    rw [foldl_cons, ih, onDisk_erase]
    by_cases hrest : other ∈ rest
    · rw [if_pos hrest, if_pos (mem_cons_of_mem _ hrest)]
    · by_cases hother : other = path
      · rw [if_neg hrest, if_pos hother, if_pos (hother ▸ mem_cons_self)]
      · rw [if_neg hrest, if_neg hother, if_neg (not_mem_cons_of_ne_of_not_mem hother hrest)]

/-- The entries of `disk` at the paths, each put at its place under the trash. -/
def movedInto (rules : TrashRules) (disk : FsDisk) (paths : List Path) (left : FsDisk) : FsDisk :=
  paths.foldl
    (fun moved path =>
      match onDisk disk path with
      | some entry => moved.insert (rules.trashPath path) entry
      | none => moved)
    left

theorem movedInto_cons {rest : List Path} (hentry : onDisk disk path = some entry) :
    movedInto rules disk (path :: rest) left =
      movedInto rules disk rest (left.insert (rules.trashPath path) entry) := by
  unfold movedInto
  rw [foldl_cons, hentry]

theorem onDisk_movedInto_of_ne (hentries : ∀ path ∈ paths, ∃ entry, onDisk disk path = some entry)
    (hother : ∀ path ∈ paths, rules.trashPath path ≠ other) :
    onDisk (movedInto rules disk paths left) other = onDisk left other := by
  induction paths generalizing left with
  | nil => rfl
  | cons path rest ih =>
    obtain ⟨entry, hentry⟩ := hentries path mem_cons_self
    have hne := hother path mem_cons_self
    rw [movedInto_cons hentry, ih, onDisk_insert, if_neg hne.symm]
    · exact fun inside hinside => hentries inside (mem_cons_of_mem _ hinside)
    · exact fun inside hinside => hother inside (mem_cons_of_mem _ hinside)

theorem onDisk_movedInto_of_mem
    (hentries : ∀ path ∈ paths, ∃ entry, onDisk disk path = some entry)
    (hpath : path ∈ paths ∨ onDisk left (rules.trashPath path) = some entry)
    (hentry : onDisk disk path = some entry) :
    onDisk (movedInto rules disk paths left) (rules.trashPath path) = some entry := by
  induction paths generalizing left with
  | nil =>
    rcases hpath with hmem | hleft
    · exact absurd hmem not_mem_nil
    · exact hleft
  | cons first rest ih =>
    obtain ⟨found, hfound⟩ := hentries first mem_cons_self
    rw [movedInto_cons hfound]
    refine ih (fun inside hinside => hentries inside (mem_cons_of_mem _ hinside)) ?_
    by_cases hfirst : path = first
    · subst hfirst
      rw [hentry] at hfound
      obtain rfl := some.inj hfound
      right
      rw [onDisk_insert, if_pos rfl]
    · rcases hpath with hmem | hleft
      · exact .inl ((mem_cons.mp hmem).resolve_left hfirst)
      · right
        rw [onDisk_insert, if_neg (mt (@rules.trashPath_injective path first) hfirst)]
        exact hleft

theorem mem_keys_of_onDisk (h : onDisk disk path = some entry) : path ∈ disk.keys := by
  by_contra hmissing
  rw [onDisk, AList.lookup_eq_none.mpr (mt AList.mem_keys.mp hmissing)] at h
  cases h

theorem exists_of_mem_keys (h : path ∈ disk.keys) : ∃ entry, onDisk disk path = some entry :=
  isSome_iff_exists.mp (AList.lookup_isSome.mpr (AList.mem_keys.mpr h))

theorem isInside_trashPath {folder : Path} (h : isInside rules folder path = true) :
    isInside rules (rules.trashPath folder) (rules.trashPath path) = true := by
  have hcases : path = folder ∨ folder ∈ rules.ancestorFolders path := of_decide_eq_true h
  refine decide_eq_true ?_
  rcases hcases with hsame | habove
  · exact .inl (by rw [hsame])
  · exact .inr (rules.trashPath_under folder path habove)

/-- Everything in the folder is at its place under the trash, and nothing was in
that place. -/
theorem accounted_moveInside
    (hempty : ∀ other ∈ before.keys, isInside rules (rules.trashPath path) other = true →
      other = rules.trashPath path ∧ onDisk before other = some .folder) :
    Accounted rules earlier
      { op := .rename path (rules.trashPath path), before, after := moveInside rules path before } := by
  have hentries : ∀ inside ∈ before.keys.filter (isInside rules path),
      ∃ entry, onDisk before inside = some entry :=
    fun inside hinside => exists_of_mem_keys (mem_filter.mp hinside).1
  have hmoved : ∀ other entry, onDisk before other = some entry → isInside rules path other = true →
      onDisk (moveInside rules path before) (rules.trashPath other) = some entry := by
    intro other entry hentry hinside
    refine onDisk_movedInto_of_mem hentries (.inl ?_) hentry
    exact mem_filter.mpr ⟨mem_keys_of_onDisk hentry, hinside⟩
  have hother : ∀ other content, onDisk before other = some (.file content) →
      onDisk (moveInside rules path before) other =
        if other ∈ before.keys.filter (isInside rules path) then none
        else some (.file content) := by
    intro other content hfound
    have hplace : ∀ inside ∈ before.keys.filter (isInside rules path),
        rules.trashPath inside ≠ other := by
      intro inside hinside hsame
      have hunder := isInside_trashPath (mem_filter.mp hinside).2
      rw [hsame] at hunder
      have hfolder := (hempty other (mem_keys_of_onDisk hfound) hunder).2
      rw [hfound] at hfolder
      cases hfolder
    refine (onDisk_movedInto_of_ne hentries hplace).trans ?_
    rw [onDisk_foldl_erase, hfound]
  refine ⟨?_, ?_⟩
  · intro other content _ hfound hgone
    by_cases hinside : isInside rules path other = true
    · exact .inr (.inr (hmoved other _ hfound hinside))
    · refine absurd ?_ hgone
      rw [hother other content hfound, if_neg]
      exact fun hmem => hinside (mem_filter.mp hmem).2
  · intro _ _ _ other content entry hfound hentry
    rw [hother other content hfound] at hentry
    split at hentry
    · cases hentry
    · exact (some.inj hentry).symm

theorem accounted_moveFile {moved : Content} (hmoved : onDisk before path = some (.file moved))
    (hfree : ∀ found, onDisk before (rules.trashPath path) = some (.file found) → found = moved) :
    Accounted rules earlier
      { op := .rename path (rules.trashPath path), before
        after := (before.erase path).insert (rules.trashPath path) (.file moved) } := by
  have hafter : ∀ other, onDisk ((before.erase path).insert (rules.trashPath path) (.file moved))
      other = if other = rules.trashPath path then some (.file moved)
        else if other = path then none else onDisk before other := by
    intro other
    rw [onDisk_insert, onDisk_erase]
  refine ⟨?_, ?_⟩
  · intro other content _ hfound hgone
    rw [hafter] at hgone
    by_cases htarget : other = rules.trashPath path
    · rw [if_pos htarget] at hgone
      rw [htarget] at hfound
      exact absurd (by rw [hfree content hfound]) hgone
    · rw [if_neg htarget] at hgone
      by_cases hpath : other = path
      · subst hpath
        rw [hmoved] at hfound
        obtain rfl := Entry.file.inj (some.inj hfound)
        right
        right
        rw [hafter, if_pos rfl]
      · rw [if_neg hpath] at hgone
        exact absurd hfound hgone
  · intro _ _ _ other content entry hfound hentry
    rw [hafter] at hentry
    by_cases htarget : other = rules.trashPath path
    · rw [if_pos htarget] at hentry
      rw [htarget] at hfound
      rw [hfree content hfound]
      exact (some.inj hentry).symm
    · rw [if_neg htarget] at hentry
      by_cases hpath : other = path
      · rw [if_pos hpath] at hentry
        cases hentry
      · rw [if_neg hpath, hfound] at hentry
        exact (some.inj hentry).symm

theorem accounted_rename (h : renameOn rules path before = some ((), after))
    (hfree : Undisturbed earlier { op := .rename path (rules.trashPath path), before, after }) :
    Accounted rules earlier { op := .rename path (rules.trashPath path), before, after } := by
  unfold renameOn at h
  dsimp only at h
  split at h
  · cases h
  · rename_i moved hmoved
    split at h
    · cases h
    · cases h
      exact accounted_moveFile hmoved fun found hfound => hfree moved found hmoved hfound
  · split at h
    · cases h
    · rename_i hallowed
      cases h
      refine accounted_moveInside ?_
      intro other hother hinside
      by_contra hfull
      exact hallowed (.inr (.inl ⟨other, hother, hinside, hfull⟩))

end

section
variable {ctx : FsContext} {path : Path} {content : Content} {device : Headless} {op : FsOp}

/-- A trace that was sound stays so. -/
def KeepsSound (rules : TrashRules) (device after : Headless) : Prop :=
  Sound rules device.trace → Sound rules after.trace

instance {rules : TrashRules} : Std.Refl (KeepsSound rules) := ⟨fun _ h => h⟩

instance {rules : TrashRules} : IsTrans Headless (KeepsSound rules) :=
  ⟨fun _ _ _ h h' hsound => h' (h hsound)⟩

theorem ends_fsCall {α : Type} {act : FsDisk → Option (α × FsDisk)} {Q : α → Headless → Prop}
    {E : Thrown → Headless → Prop}
    (hfailed : ∀ before, act before = none → E .failure (device.did { op, before, after := before }))
    (hdone : ∀ before value after, act before = some (value, after) →
      Q value (device.did { op, before, after })) : Ends (fsCall ctx op act) device Q E := by
  refine ends_get_bind ?_
  dsimp only
  cases hact : act (ctx.others device.trace.length device.disk) with
  | none => exact ends_modify_bind (ends_throw (hfailed _ hact))
  | some result => exact ends_modify_bind (ends_pure (hdone _ _ _ hact))

theorem keepsSound_did {rules : TrashRules} {step : FsStep}
    (h : Undisturbed device.trace step → Accounted rules device.trace step) :
    KeepsSound rules device (device.did step) := fun hsound => sound_append hsound h

/-- A failed operation leaves the disk as it found it. -/
theorem ends_fsCall_sound {α : Type} {act : FsDisk → Option (α × FsDisk)}
    (h : ∀ before value after, act before = some (value, after) →
      Undisturbed device.trace { op, before, after } →
      Accounted ctx.rules device.trace { op, before, after }) :
    Ends (fsCall ctx op act) device (fun _ after => KeepsSound ctx.rules device after)
      (fun _ after => KeepsSound ctx.rules device after) := by
  refine ends_fsCall ?_ ?_
  · exact fun before _ => keepsSound_did fun _ => accounted_unchanged fun _ _ hfound => hfound
  · exact fun before value after hact => keepsSound_did (h before value after hact)

theorem preserves_index (f : Headless → AList fun _ : Path => FsEntry) :
    Preserves (KeepsSound ctx.rules)
      (modify fun device => { device with index := f device } : FsApply Unit) :=
  preserves_modify fun _ hsound => hsound

theorem readFileOn_eq {before after : FsDisk} (h : readFileOn path before = some (content, after)) :
    after = before ∧ onDisk before path = some (.file content) := by
  unfold readFileOn at h
  split at h
  · rename_i hfound
    cases h
    exact ⟨rfl, hfound⟩
  · cases h

/-- After a read the trace ends in it. -/
def JustRead (path : Path) (device : Headless) : Prop :=
  ∃ last ∈ device.trace.getLast?, last.op = .readFile path ∧ last.after = last.before

theorem ends_readFile : Ends (readFile ctx path) device
    (fun _ after => KeepsSound ctx.rules device after ∧ JustRead path after)
    (fun _ after => KeepsSound ctx.rules device after) := by
  refine ends_fsCall ?_ ?_
  · exact fun before _ => keepsSound_did fun _ => accounted_unchanged fun _ _ hfound => hfound
  · intro before content after hact
    obtain ⟨rfl, _⟩ := readFileOn_eq hact
    refine ⟨keepsSound_did fun _ => accounted_unchanged fun _ _ hfound => hfound, ?_⟩
    exact ⟨_, List.getLast?_concat, rfl, rfl⟩

theorem preserves_readFile : Preserves (KeepsSound ctx.rules) (readFile ctx path) :=
  fun _ => ends_readFile.mono (fun _ _ hread => hread.1) fun _ _ hr => hr

theorem preserves_create : Preserves (KeepsSound ctx.rules) (create ctx path content) := by
  refine Preserves.bind ?_ fun _ => preserves_index _
  exact fun _ => ends_fsCall_sound fun _ _ _ hact => accounted_create hact

theorem ends_modifyFile (hread : JustRead path device) :
    Ends (modifyFile ctx path content) device (fun _ after => KeepsSound ctx.rules device after)
      (fun _ after => KeepsSound ctx.rules device after) := by
  refine Ends.bind ((ends_fsCall_sound fun _ _ _ hact => accounted_modify hact hread).mono ?_ ?_)
  · exact fun _ written hwritten => (preserves_index _).after hwritten
  · exact fun _ _ hr => hr

theorem preserves_process {transform : JsString → Option JsString} :
    Preserves (KeepsSound ctx.rules) (process ctx path transform) := by
  intro device
  refine Ends.bind (ends_readFile.mono ?_ fun _ _ hr => hr)
  intro current read hread
  split
  · exact ends_throw hread.1
  · refine (ends_modifyFile hread.2).mono ?_ ?_
    · exact fun _ after hafter => IsTrans.trans device read after hread.1 hafter
    · exact fun _ after hafter => IsTrans.trans device read after hread.1 hafter

theorem preserves_createFolder : Preserves (KeepsSound ctx.rules) (createFolder ctx path) := by
  refine Preserves.bind ?_ fun _ => preserves_index _
  exact fun _ => ends_fsCall_sound fun _ _ _ hact _ => accounted_unchanged (file_of_mkdirOn hact)

theorem preserves_mkdirAll {folders : List Path} :
    Preserves (KeepsSound ctx.rules) (fsCall ctx (.mkdirAll folders) (mkdirAllOn folders)) :=
  fun _ => ends_fsCall_sound fun _ _ _ hact _ => accounted_unchanged (file_of_mkdirAllOn hact)

theorem preserves_trash : Preserves (KeepsSound ctx.rules) (trash ctx path) := by
  refine preserves_mkdirAll.bind fun _ => Preserves.bind ?_ fun _ => preserves_index _
  exact fun _ => ends_fsCall_sound fun _ _ _ hact => accounted_rename hact

theorem preserves_adapterExists : Preserves (KeepsSound ctx.rules) (adapterExists ctx path) := by
  intro device
  refine ends_fsCall_sound ?_
  intro before value after hact _
  cases hact
  exact accounted_unchanged fun _ _ hfound => hfound

theorem preserves_writeConfig (hconfig : ctx.rules.isSyncableConfigPath path = true) :
    Preserves (KeepsSound ctx.rules) (writeConfig ctx path content) := by
  have hfolders : ∀ folders, Preserves (KeepsSound ctx.rules) (ensureConfigParentDirs ctx folders) := by
    intro folders
    induction folders with
    | nil => exact preserves_pure
    | cons folder rest ih =>
      refine Preserves.bind (Preserves.catching ?_ fun _ => preserves_pure) fun _ => ih
      exact preserves_mkdirAll
  refine (hfolders _).bind fun _ => preserves_mkdirAll.bind fun _ => ?_
  exact fun _ => ends_fsCall_sound fun _ _ _ hact _ => accounted_adapterWrite hconfig hact

theorem preserves_removeConfig (hconfig : ctx.rules.isSyncableConfigPath path = true) :
    Preserves (KeepsSound ctx.rules) (removeConfig ctx path) := by
  refine preserves_adapterExists.bind fun found => ?_
  split
  · exact fun _ => ends_fsCall_sound fun _ _ _ hact _ => accounted_rm hconfig hact
  · exact preserves_pure

/-- A name up to the `n`th holds the copy. -/
def Landed (ctx : FsContext) (path : Path) (content : Content) (n : ℕ) (device : Headless) : Prop :=
  ∃ k ≤ n, ∃ found, onDisk device.disk (ctx.rules.numbered path k) = some (.file found) ∧
    holdsSame ctx content found = true

theorem ends_create : Ends (create ctx path content) device
    (fun _ after => onDisk after.disk path = some (.file content)) (fun _ _ => True) := by
  refine Ends.bind (ends_fsCall (fun _ _ => trivial) ?_)
  intro before _ after hact
  unfold writeFileOn at hact
  split at hact
  · cases hact
  · cases hact
    exact ends_modify (AList.lookup_insert before)

theorem landed_from {fuel attempt n : ℕ} (hfrom : attempt ≤ n) (hn : n < attempt + fuel)
    (hunknown : device.index.lookup (ctx.rules.numbered path n) = none) :
    Ends (placeConflictArtifact ctx path content fuel attempt) device
      (fun _ => Landed ctx path content n) (fun _ _ => True) := by
  induction fuel generalizing attempt device with
  | zero => omega
  | succ fuel ih =>
    refine ends_get_bind ?_
    cases hlookup : device.index.lookup (ctx.rules.numbered path attempt) with
    | none =>
      refine ends_create.mono (fun _ after hcreated => ⟨attempt, hfrom, content, hcreated, ?_⟩)
        fun _ _ h => h
      cases content with
      | text value => exact decide_eq_true (ctx.port.asText_text value)
      | bytes value => exact decide_eq_true (ctx.port.asBytes_bytes value)
    | some entry =>
      have hne : attempt ≠ n := by
        rintro rfl
        cases hlookup.symm.trans hunknown
      cases entry with
      | folder => exact ih (by omega) (by omega) hunknown
      | file =>
        refine Ends.bind (ends_fsCall (fun _ _ => trivial) ?_)
        intro before existing after hact
        obtain ⟨rfl, hfound⟩ := readFileOn_eq hact
        split
        · rename_i hsame
          exact ends_pure ⟨attempt, hfrom, existing, hfound, hsame⟩
        · exact ih (by omega) (by omega) hunknown

/-- The search for a name ends, and what it ends with is the copy, on the disk. -/
theorem placeConflictArtifact_lands (device : Headless) :
    Ends (placeConflictArtifact ctx path content (device.index.keys.length + 1) 0) device
      (fun _ => Landed ctx path content device.index.keys.length) fun _ _ => True := by
  obtain ⟨n, hn, hfree⟩ :=
    VaultFilePort.exists_free_name device.index.keys (ctx.rules.numbered_injective path)
  have hunknown := AList.lookup_eq_none.mpr (mt AList.mem_keys.mp hfree)
  refine (landed_from (Nat.zero_le n) (by omega) hunknown).mono ?_ fun _ _ h => h
  rintro _ after ⟨k, hk, hlanded⟩
  exact ⟨k, by omega, hlanded⟩

end

section
variable {ctx : FsContext} {path : Path} {device : Headless}

/-- The file at the path was just read, or the next write does not replace it
unread. -/
def Looked (rules : TrashRules) (path : Path) (device : Headless) : Prop :=
  rules.isSyncableConfigPath path = true ∨ device.index.lookup path = none ∨ JustRead path device

theorem preserves_readByPath : Preserves (KeepsSound ctx.rules) (readByPath ctx path) := by
  unfold readByPath
  split
  · refine preserves_adapterExists.bind fun found => ?_
    split
    · exact preserves_readFile.bind fun _ => preserves_pure
    · exact preserves_pure
  · refine preserves_get_bind fun device => ?_
    split
    · exact preserves_pure
    · exact preserves_readFile.bind fun _ => preserves_pure

theorem ends_readBinaryByPath : Ends (readBinaryByPath ctx path) device
    (fun _ after => KeepsSound ctx.rules device after ∧ Looked ctx.rules path after)
    (fun _ after => KeepsSound ctx.rules device after) := by
  unfold readBinaryByPath
  split
  · rename_i hconfig
    have hpass : Preserves (KeepsSound ctx.rules) (do
        if ← adapterExists ctx path then
          let content ← readFile ctx path
          return some (ctx.port.asBytes content)
        else return none) := by
      refine preserves_adapterExists.bind fun found => ?_
      split
      · exact preserves_readFile.bind fun _ => preserves_pure
      · exact preserves_pure
    exact (hpass device).mono (fun _ _ hr => ⟨hr, .inl hconfig⟩) fun _ _ hr => hr
  · refine ends_get_bind ?_
    split
    · rename_i hunknown
      exact ends_pure ⟨fun hsound => hsound, .inr (.inl hunknown)⟩
    · refine Ends.bind (ends_readFile.mono ?_ fun _ _ hr => hr)
      exact fun _ _ hread => ends_pure ⟨hread.1, .inr (.inr hread.2)⟩

theorem preserves_ensureFolders {folders : List Path} :
    Preserves (KeepsSound ctx.rules) (ensureFolders ctx folders) := by
  induction folders with
  | nil => exact preserves_pure
  | cons folder rest ih =>
    refine preserves_get_bind fun device => ?_
    split
    · exact preserves_createFolder.bind fun _ => ih
    · exact ih
    · exact preserves_throw

theorem preserves_writeByPath {content : JsString} {expected : Option (Option JsString)}
    (hexpected : expected = none → ctx.rules.isSyncableConfigPath path = true) :
    Preserves (KeepsSound ctx.rules) (writeByPath ctx path content expected) := by
  unfold writeByPath
  split
  · rename_i hconfig
    refine preserves_adapterExists.bind fun found => ?_
    split
    · exact preserves_readFile.bind fun _ => preserves_writeConfig hconfig
    · exact preserves_writeConfig hconfig
  · rename_i hnote
    refine preserves_get_bind fun device => ?_
    split
    · split
      · exact preserves_throw
      · exact preserves_ensureFolders.bind fun _ => preserves_create
    · split
      · exact preserves_process
      · exact absurd (hexpected rfl) hnote

theorem ends_writeBinaryByPath {bytes : Bytes} (hlooked : Looked ctx.rules path device) :
    Ends (writeBinaryByPath ctx path bytes) device
      (fun _ after => KeepsSound ctx.rules device after)
      (fun _ after => KeepsSound ctx.rules device after) := by
  unfold writeBinaryByPath
  split
  · rename_i hconfig
    exact preserves_writeConfig hconfig device
  · rename_i hnote
    refine ends_get_bind ?_
    split
    · exact (preserves_ensureFolders.bind fun _ => preserves_create) device
    · rename_i entry hknown
      rcases hlooked with hconfig | hunknown | hread
      · exact absurd hconfig hnote
      · rw [hknown] at hunknown
        cases hunknown
      · exact ends_modifyFile hread

theorem preserves_deleteByPath : Preserves (KeepsSound ctx.rules) (deleteByPath ctx path) := by
  unfold deleteByPath
  split
  · rename_i hconfig
    exact preserves_removeConfig hconfig
  · refine preserves_get_bind fun device => ?_
    split
    · exact preserves_pure
    · exact preserves_trash

theorem preserves_resolveConflictTarget :
    Preserves (KeepsSound ctx.rules) (resolveConflictTarget ctx path) := by
  unfold resolveConflictTarget
  split
  · exact preserves_pure
  · refine Preserves.bind ?_ fun _ => preserves_pure
    refine preserves_get_bind fun device => ?_
    split
    · exact preserves_createFolder.bind fun _ => preserves_pure
    · exact preserves_pure
    · dsimp only
      split
      · exact preserves_createFolder.bind fun _ => preserves_pure
      · exact preserves_pure
      · exact preserves_pure

theorem preserves_placeConflictArtifact {content : Content} {fuel attempt : ℕ} :
    Preserves (KeepsSound ctx.rules) (placeConflictArtifact ctx path content fuel attempt) := by
  induction fuel generalizing attempt with
  | zero => exact preserves_pure
  | succ fuel ih =>
    refine preserves_get_bind fun device => ?_
    split
    · exact preserves_create
    · exact ih
    · refine preserves_readFile.bind fun existing => ?_
      split
      · exact preserves_pure
      · exact ih

theorem portKeeps_fsPort :
    PortKeeps (fsPort ctx) ctx.rules.toPathRules (KeepsSound ctx.rules) (Looked ctx.rules) where
  withState _ _ hsound := hsound
  openBufferStates _ := preserves_pure
  readByPath _ _ := preserves_readByPath
  readBinaryByPath _ _ _ := ends_readBinaryByPath
  writeByPath _ _ _ _ hexpected := preserves_writeByPath hexpected
  writeBinaryByPath _ _ _ _ hlooked := ends_writeBinaryByPath hlooked
  deleteByPath _ _ := preserves_deleteByPath
  writeConflictArtifact _ _ :=
    preserves_resolveConflictTarget.bind fun _ =>
      preserves_get_bind fun _ => preserves_placeConflictArtifact

end

section
variable {rules : TrashRules}

/-- One remote apply, with what other processes do to the folder meanwhile. -/
structure HeadlessApply (rules : TrashRules) where
  ctx : ApplyContext
  sameRules : ctx.rules = rules.toPathRules
  others : ℕ → FsDisk → FsDisk
  event : RemoteEvent
  bootstrap : Bool

def HeadlessApply.context (apply : HeadlessApply rules) : FsContext where
  rules
  port := apply.ctx.toVaultPort
  others := apply.others

/-- The folder is opened, an event is applied, or something else is at work: the
rest of the client on its state, other processes on the disk. -/
inductive HeadlessAction (rules : TrashRules)
  | opened
  | elsewhere (state : PersistedSyncState) (disk : FsDisk)
  | applied (apply : HeadlessApply rules)

def headlessStep (rules : TrashRules) (device : Headless) : HeadlessAction rules → Option Headless
  | .opened => some (openFsVault rules device)
  | .elsewhere state disk => some { device with state, disk, trace := [] }
  | .applied apply =>
      some (storeAfter (applyRemote (fsPort apply.context) apply.ctx apply.event apply.bootstrap)
        { device with trace := [] })

theorem sound_applied (apply : HeadlessApply rules) (device : Headless) :
    Sound rules (storeAfter
      (applyRemote (fsPort apply.context) apply.ctx apply.event apply.bootstrap)
      { device with trace := [] }).trace := by
  have hkeeps : PortKeeps (fsPort apply.context) apply.ctx.rules (KeepsSound rules) (Looked rules) :=
    apply.sameRules ▸ @portKeeps_fsPort apply.context
  have happly : Preserves (KeepsSound rules)
      (applyRemote (fsPort apply.context) apply.ctx apply.event apply.bootstrap) :=
    preserves_applyRemote hkeeps
  exact (happly { device with trace := [] }).storeAfter sound_nil

theorem sound_step {device after : Headless} {action : HeadlessAction rules}
    (h : headlessStep rules device action = some after) : Sound rules after.trace := by
  cases action with
  | opened =>
    cases h
    exact sound_nil
  | elsewhere state disk =>
    cases h
    exact sound_nil
  | applied apply =>
    cases h
    exact sound_applied apply device

end

/-- In every run, whatever the disk, the other processes and the applied events
are, each operation of an apply that is undisturbed accounts for the bytes it
replaces and removes. -/
theorem headless_bytes_accounted {rules : TrashRules} {start device : Headless}
    {guard : Headless → HeadlessAction rules → Prop}
    (hrun : Reached (headlessStep rules) guard (openFsVault rules start) device)
    {earlier later : List FsStep} {step : FsStep} (hstep : device.trace = earlier ++ step :: later)
    (hfree : Undisturbed earlier step) : Accounted rules earlier step := by
  have hsound : Sound rules device.trace :=
    hrun.invariant (P := fun device => Sound rules device.trace) sound_nil
      fun _ _ _ _ _ taken => sound_step taken
  exact hsound earlier step later hstep hfree

section

/-- Notes at the root of a vault: `10000 * depth + name` is a name under so many
trash folders, 9999 the name of such a folder. -/
def trashedRules : PathRules :=
  { noteRules with
    ancestorFolders := fun path => (List.range (path / 10000)).map fun depth => 10000 * depth + 9999
    parentFolder := fun path => if path < 10000 then none else some (path / 10000 * 10000 - 1) }

theorem trashed_under (folder path : ℕ) (h : folder ∈ trashedRules.ancestorFolders path) :
    folder + 10000 ∈ trashedRules.ancestorFolders (path + 10000) := by
  obtain ⟨depth, hdepth, hfolder⟩ := mem_map.mp h
  have hdeeper : (path + 10000) / 10000 = path / 10000 + 1 := Nat.add_div_right path (by omega)
  have hname : 10000 * depth + 9999 = folder := hfolder
  refine mem_map.mpr ⟨depth + 1, mem_range.mpr ?_, ?_⟩
  · rw [hdeeper]
    exact Nat.succ_lt_succ (mem_range.mp hdepth)
  · have harith : ∀ d : ℕ, 10000 * (d + 1) + 9999 = 10000 * d + 9999 + 10000 := by
      intro d
      omega
    rw [← hname]
    exact harith depth

def flatTrash : TrashRules where
  toPathRules := trashedRules
  trashPath path := path + 10000
  trashPath_injective := add_left_injective 10000
  trashPath_under := trashed_under
  isHidden path := 9999 ≤ path

/-- One apply of an event while these others are at work. -/
def flatApply (accepted : List RemoteEvent) (payloads : Id → Option DecodedRevisionPayload)
    (others : ℕ → FsDisk → FsDisk) (event : RemoteEvent) : HeadlessApply flatTrash where
  ctx := { quietContext accepted payloads with rules := trashedRules }
  sameRules := rfl
  others
  event
  bootstrap := false

/-- A folder with these files, for a client that has this head and text of file 1. -/
def folderWith (head : Id) (text : JsString) (disk : FsDisk) : Headless where
  state := (noteDevice head text text).state
  disk
  index := ∅
  trace := []

open OverwriteSafety in
def createdApply : HeadlessApply flatTrash :=
  flatApply [revisionEvent 1 1 []] shownPayloads (fun _ disk => disk) (revisionEvent 1 1 [])

open OverwriteSafety in
def updatedApply (others : ℕ → FsDisk → FsDisk) : HeadlessApply flatTrash :=
  flatApply [revisionEvent 1 1 [], revisionEvent 2 2 [1]] shownPayloads others
    (revisionEvent 2 2 [1])

open OverwriteSafety in
def deletedApply : HeadlessApply flatTrash :=
  flatApply [revisionEvent 1 1 [], revisionEvent 2 2 [1], revisionEvent 3 3 [2]]
    RemovalSafety.deletedPayloads (fun _ disk => disk) (revisionEvent 3 3 [2])

end
variable {step : FsStep}

/-- A run from the opening of the folder, an operation of which does not account
for what it did. -/
def Loses (start : Headless) (actions : List (HeadlessAction flatTrash)) : Prop :=
  ∃ device earlier step later,
    run (headlessStep flatTrash) (openFsVault flatTrash start) actions = some device ∧
      device.trace = earlier ++ step :: later ∧ ¬ Accounted flatTrash earlier step

theorem split_at {steps : List FsStep} {n : ℕ} (h : steps[n]? = some step) :
    steps = steps.take n ++ step :: steps.drop (n + 1) := by
  obtain ⟨hlt, hstep⟩ := List.getElem?_eq_some_iff.mp h
  rw [← hstep, ← drop_eq_getElem_cons, take_append_drop]

/-- After reads that found another content, a write that leaves nothing of this
one at its path or its place under the trash does not account for it. -/
theorem not_accounted {rules : TrashRules} {earlier : List FsStep} (path : Path)
    (content : Content)
    (hreads : ∀ read ∈ earlier, read.op = .readFile path ∧
      onDisk read.before path ≠ some (.file content))
    (hnote : rules.isSyncableConfigPath path = false)
    (hfound : onDisk step.before path = some (.file content))
    (hgone : onDisk step.after path ≠ some (.file content))
    (htrash : onDisk step.after (rules.trashPath path) ≠ some (.file content)) :
    ¬ Accounted rules earlier step := by
  intro h
  rcases h.bytes path content hnote hfound hgone with hread | hcopy | hkept
  · obtain ⟨read, hmem, _, hother⟩ := hread
    exact (hreads read hmem).2 hother
  · obtain ⟨copy, hmem, other, _, hop, _⟩ := hcopy
    rw [(hreads copy hmem).1] at hop
    cases hop
  · exact htrash hkept

open OverwriteSafety in
/-- An update of a note the index knows finds it as it read it, and writes over
what it read. -/
theorem headless_bytes_accounted_update : ∃ device earlier step,
    run (headlessStep flatTrash)
        (openFsVault flatTrash
          (folderWith 1 firstText (AList.insert 5 (.file (.text firstText)) ∅)))
        [.applied (updatedApply fun _ disk => disk)] = some device ∧
      device.trace = earlier ++ [step] ∧ step.op = .modify 5 (.text secondText) ∧
      onDisk step.before 5 = some (.file (.text firstText)) ∧
      Accounted flatTrash earlier step := by
  refine ⟨_, _, _, rfl, split_at (n := 3) rfl, rfl, rfl, ?_⟩
  have hrun : Reached (headlessStep flatTrash) (fun _ _ => True)
      (openFsVault flatTrash
        (folderWith 1 firstText (AList.insert 5 (.file (.text firstText)) ∅))) _ :=
    .step .start trivial (rfl : headlessStep flatTrash _
      (.applied (updatedApply fun _ disk => disk)) = some _)
  refine headless_bytes_accounted hrun (split_at (n := 3) rfl) ?_
  intro found hfound _
  exact ⟨_, rfl, hfound⟩

open OverwriteSafety in
/-- A file that came after the folder was opened is written over unread, so is a
change made between the read and the write, and a deleted note takes the place of
the one deleted before it. -/
theorem headless_bytes_lost :
    Loses (folderWith 0 [] ∅)
        [.elsewhere (noteDevice 0 [] []).state (AList.insert 5 (.file (.text thirdText)) ∅),
          .applied createdApply] ∧
      Loses (folderWith 1 firstText (AList.insert 5 (.file (.text firstText)) ∅))
        [.applied (updatedApply fun n disk =>
          if n = 3 then disk.insert 5 (.file (.text thirdText)) else disk)] ∧
      Loses
        (folderWith 2 secondText
          (AList.insert 5 (.file (.text secondText))
            (AList.insert 10005 (.file (.text thirdText)) (AList.insert 9999 .folder ∅))))
        [.applied deletedApply] := by
  refine ⟨⟨_, _, _, _, rfl, split_at (n := 0) rfl, ?_⟩,
    ⟨_, _, _, _, rfl, split_at (n := 3) rfl, ?_⟩, ⟨_, _, _, _, rfl, split_at (n := 2) rfl, ?_⟩⟩
  · refine not_accounted 5 (.text thirdText) ?_ rfl rfl ?_ ?_
    · decide
    · decide
    · decide
  · refine not_accounted 5 (.text thirdText) ?_ rfl rfl ?_ ?_
    · decide
    · decide
    · decide
  · intro h
    have hsame := h.trash 5 10005 rfl 10005 (.text thirdText) (.file (.text secondText)) rfl rfl
    exact absurd hsame (by decide)

end Havemind.HeadlessSafety
