import Havemind.ProducerIndex
import Havemind.VaultMoves
import Havemind.VaultRules

/-!
The mappings follow the files through renames. They match where the files stood after the
events that have been handled; the events that wait lead from there to where the files are,
and the handling of one, whenever it comes, takes the mappings one step further.
-/
namespace Havemind.RenameChains

open Runs JsText JsonText RevisionSchema VaultPayload VaultPath DurableState List Option
  OutboxRepository ChangeObserver ProducerIndex VaultEvents VaultMoves VaultRules

/-- The mappings name files that are there, and every file that was mapped is mapped as it
was. -/
structure Matches (options : VaultOptions) (before : Standing)
    (mappings : List LocalFileMapping) : Prop where
  unique : UniqueMappings mappings
  placed : ∀ mapping ∈ mappings, keyOf options.rules mapping.path = some mapping.collisionKey
  there : ∀ mapping ∈ mappings, ∃ tag, before mapping.path = some tag ∧
    ∀ fileId, tag = some fileId → mapping.fileId = fileId
  held : ∀ path fileId, before path = some (some fileId) → ∃ mapping ∈ mappings, mapping.path = path

section
variable {options : VaultOptions} {before after : Standing} {mappings : List LocalFileMapping}
  {mapping placed : LocalFileMapping} {path : Path} {classified : ClassifiedPath}

variable (h : Matches options before mappings)
include h

theorem Matches.ne_none (hmem : mapping ∈ mappings) : before mapping.path ≠ none := by
  obtain ⟨tag, htag, -⟩ := h.there mapping hmem
  rw [htag]
  exact some_ne_none _

/-- A mapping with the key of a path that has a file is at that path. -/
theorem Matches.path_eq (hplain : Plain options before) (hmem : mapping ∈ mappings)
    (hpath : before path ≠ none) (hkey : keyOf options.rules path = some mapping.collisionKey) :
    mapping.path = path := by
  have hplaced := h.placed mapping hmem
  refine hplain.apart _ _ (h.ne_none hmem) hpath ?_ (hplaced.trans hkey.symm)
  rw [hplaced]
  exact some_ne_none _

theorem Matches.eq_of_path {other : LocalFileMapping} (hmem : mapping ∈ mappings)
    (hother : other ∈ mappings) (hpath : mapping.path = other.path) : mapping = other := by
  have hplaced := h.placed mapping hmem
  rw [hpath, h.placed other hother] at hplaced
  exact h.unique.eq_of_key hmem hother (some.inj hplaced).symm

/-- Files that no mapping names moved. -/
theorem Matches.move (hframe : ∀ mapping ∈ mappings, after mapping.path = before mapping.path)
    (hback : ∀ path fileId, after path = some (some fileId) →
      ∃ mapping ∈ mappings, mapping.path = path) : Matches options after mappings := by
  refine ⟨h.unique, h.placed, fun mapping hmem => ?_, hback⟩
  rw [hframe mapping hmem]
  exact h.there mapping hmem

/-- The file of a mapping went out of scope. -/
theorem Matches.remove {removed : Id}
    (hframe : ∀ mapping ∈ mappings, mapping.fileId ≠ removed →
      after mapping.path = before mapping.path)
    (hback : ∀ path fileId, after path = some (some fileId) →
      ∃ mapping ∈ mappings, mapping.path = path ∧ mapping.fileId ≠ removed) :
    Matches options after (mappings.filter fun mapping => mapping.fileId ≠ removed) := by
  refine ⟨h.unique.sublist filter_sublist, ?_, ?_, ?_⟩
  · exact fun mapping hmem => h.placed mapping (mem_filter.mp hmem).1
  · intro mapping hmem
    obtain ⟨hold, hkept⟩ := mem_filter.mp hmem
    rw [hframe mapping hold (of_decide_eq_true hkept)]
    exact h.there mapping hold
  · intro path fileId htag
    obtain ⟨mapping, hmem, hpath, hother⟩ := hback path fileId htag
    exact ⟨mapping, mem_filter.mpr ⟨hmem, decide_eq_true hother⟩, hpath⟩

/-- A mapping is put at the path of a file that is there. -/
theorem Matches.put (hplain : Plain options after) (tag : Option Id)
    (hplaced : keyOf options.rules placed.path = some placed.collisionKey)
    (hthere : after placed.path = some tag)
    (htag : ∀ fileId, tag = some fileId → placed.fileId = fileId)
    (hframe : ∀ mapping ∈ mappings, mapping.fileId ≠ placed.fileId →
      after mapping.path = before mapping.path)
    (hback : ∀ path fileId, after path = some (some fileId) → path ≠ placed.path →
      ∃ mapping ∈ mappings, mapping.path = path ∧ mapping.fileId ≠ placed.fileId) :
    Matches options after (upsertMapping mappings placed) := by
  have hcases : ∀ mapping ∈ upsertMapping mappings placed,
      (mapping ∈ mappings ∧ mapping.fileId ≠ placed.fileId) ∨ mapping = placed := by
    intro mapping hmem
    rcases mem_append.mp hmem with hkept | hnew
    · obtain ⟨hold, hother⟩ := mem_filter.mp hkept
      exact .inl ⟨hold, (of_decide_eq_true hother).1⟩
    · exact .inr (mem_singleton.mp hnew)
  refine ⟨h.unique.upsert placed, fun mapping hmem => ?_, fun mapping hmem => ?_, ?_⟩
  · rcases hcases mapping hmem with ⟨hold, -⟩ | rfl
    · exact h.placed mapping hold
    · exact hplaced
  · rcases hcases mapping hmem with ⟨hold, hother⟩ | rfl
    · rw [hframe mapping hold hother]
      exact h.there mapping hold
    · exact ⟨tag, hthere, htag⟩
  · intro path fileId hpath
    by_cases hsame : path = placed.path
    · exact ⟨placed, mem_append_right _ (mem_singleton_self _), hsame.symm⟩
    · obtain ⟨mapping, hmem, rfl, hother⟩ := hback path fileId hpath hsame
      refine ⟨mapping, mem_upsertMapping_of_ne hmem hother fun hkey => ?_, rfl⟩
      have hold := h.placed mapping hmem
      rw [hkey, ← hplaced] at hold
      refine hsame (hplain.apart _ _ ?_ ?_ ?_ hold)
      · rw [hpath]
        exact some_ne_none _
      · rw [hthere]
        exact some_ne_none _
      · rw [hold, hplaced]
        exact some_ne_none _

end

section
variable {options : VaultOptions} {before : Standing} {mappings : List LocalFileMapping}
  {mapping : LocalFileMapping} {files : Files} {ids : FreshIds} {path : Path}
  {classified : ClassifiedPath}

/-- The mappings after an observation. -/
def afterCommit (mappings : List LocalFileMapping) : Option LocalChangeCommit →
    List LocalFileMapping
  | none => mappings
  | some commit => nextMappings mappings commit

variable (h : Matches options before mappings)
include h

/-- The file of a mapping is committed where it is. -/
theorem Matches.update (hplain : Plain options before) (hmem : mapping ∈ mappings)
    (hclassified : options.rules.classifyVaultPath mapping.path = some classified)
    (ids : FreshIds) (kind : LocalChangeKind) (previousPath : Option Path) (read : ReadContent) :
    Matches options before (nextMappings mappings
      (contentCommit ids kind mapping.fileId classified previousPath read)) := by
  have hcanonical := hplain.canonical mapping.path (h.ne_none hmem) classified hclassified
  obtain ⟨tag, htag, hid⟩ := h.there mapping hmem
  refine h.put hplain tag ?_ ?_ hid (fun _ _ _ => rfl) ?_
  · exact (congrArg _ hcanonical).trans (keyOf_classified hclassified)
  · exact (congrArg before hcanonical).trans htag
  · intro path fileId hpath hother
    obtain ⟨found, hfound, rfl⟩ := h.held path fileId hpath
    refine ⟨found, hfound, rfl, fun hfile => hother ?_⟩
    rw [h.unique.eq_of_file hfound hmem hfile]
    exact hcanonical.symm

/-- A file that was not mapped at first is mapped under a fresh id. -/
theorem Matches.create (hplain : Plain options before)
    (hfresh : ∀ mapping ∈ mappings, mapping.fileId ≠ ids.fileId)
    (hthere : before path = some none)
    (hclassified : options.rules.classifyVaultPath path = some classified) (readPath : Path) :
    Matches options before
      (afterCommit mappings
        (commitCreate options.toObserverOptions files ids readPath classified)) := by
  unfold commitCreate
  cases readContentForKind options.toObserverOptions files classified.canonicalPath readPath
      classified.kind with
  | none => exact h
  | some read =>
    have hcanonical := hplain.canonical path (by rw [hthere]; exact some_ne_none _)
      classified hclassified
    refine h.put hplain none ?_ ?_ nofun (fun _ _ _ => rfl) ?_
    · exact (congrArg _ hcanonical).trans (keyOf_classified hclassified)
    · exact (congrArg before hcanonical).trans hthere
    · intro path fileId hpath _
      obtain ⟨found, hfound, hfoundPath⟩ := h.held path fileId hpath
      exact ⟨found, hfound, hfoundPath, hfresh found hfound⟩

/-- An observation at the path of a file that is there, whatever is on disk by now. -/
theorem Matches.modify (hplain : Plain options before)
    (hfresh : ∀ mapping ∈ mappings, mapping.fileId ≠ ids.fileId) (hthere : before path ≠ none) :
    Matches options before
      (afterCommit mappings
        (handleModify options.toObserverOptions files mappings ids path false)) := by
  unfold handleModify
  cases hclassified : options.rules.classifyVaultPath path with
  | none => exact h
  | some classified =>
    have hkey := keyOf_classified hclassified
    dsimp only
    cases hfound : findMapping mappings classified.collisionKey with
    | none =>
      refine h.create hplain hfresh ?_ hclassified path
      obtain ⟨tag, htag⟩ := ne_none_iff_exists'.mp hthere
      cases tag with
      | none => exact htag
      | some fileId =>
        obtain ⟨mapping, hmem, rfl⟩ := h.held path fileId htag
        rw [h.placed mapping hmem] at hkey
        rw [← some.inj hkey, findMapping_of_mem h.unique hmem] at hfound
        cases hfound
    | some mapping =>
      obtain ⟨hmem, hmapping⟩ := findMapping_some hfound
      rw [← hmapping] at hkey
      have hpath := h.path_eq hplain hmem hthere hkey
      rw [← hpath] at hclassified
      dsimp only
      unfold commitModify
      cases readContentForKind options.toObserverOptions files classified.canonicalPath path
          classified.kind with
      | none => exact h
      | some read =>
        dsimp only
        split_ifs with hsame
        · exact h
        · exact h.update hplain hmem hclassified ids .update none read

end

section
variable {options : VaultOptions} {before : Standing} {mappings : List LocalFileMapping}
  {mapping : LocalFileMapping} {files : Files} {ids : FreshIds} {previousPath nextPath : Path}

/-- If the path is in scope, what is there can be read. -/
def Readable (options : VaultOptions) (files : Files) (path : Path) : Prop :=
  ∀ classified, options.rules.classifyVaultPath path = some classified →
    readContentForKind options.toObserverOptions files classified.canonicalPath path
      classified.kind ≠ none

variable (h : Matches options before mappings)
include h

/-- No other file is mapped at the key a mapped file is renamed to. -/
theorem Matches.sole (hmem : mapping ∈ mappings) (hfree : before nextPath = none)
    (hplain : Plain options (moveOne options before mapping.path nextPath))
    {other : LocalFileMapping} (hother : other ∈ mappings)
    (hkey : keyOf options.rules nextPath = some other.collisionKey) : other = mapping := by
  by_contra hne
  have hprevious : other.path ≠ mapping.path := fun hpath =>
    hne (h.eq_of_path hother hmem hpath)
  have hnext : other.path ≠ nextPath := by
    intro hpath
    rw [← hpath] at hfree
    exact h.ne_none hother hfree
  have hplaced := h.placed other hother
  refine hnext (hplain.apart _ _ ?_ ?_ ?_ (hplaced.trans hkey.symm))
  · rw [moveOne_other hprevious hnext]
    exact h.ne_none hother
  · rw [moveOne_next]
    exact fun hnone => h.ne_none hmem (map_eq_none_iff.mp hnone)
  · rw [hplaced]
    exact some_ne_none _

/-- The rename of a mapped file, once what it was renamed to can be read. -/
theorem Matches.rename_mapped (ids : FreshIds) (hmem : mapping ∈ mappings)
    (hfree : before nextPath = none)
    (hplain : Plain options (moveOne options before mapping.path nextPath))
    (hread : Readable options files nextPath) :
    ∃ commit,
      handleRename options.toObserverOptions files mappings ids mapping.path nextPath =
        .ok (some commit) ∧
      Matches options (moveOne options before mapping.path nextPath)
        (nextMappings mappings commit) ∧
      (∀ other ∈ mappings, other ≠ mapping → other ∈ nextMappings mappings commit) ∧
      ∀ other ∈ nextMappings mappings commit, other ∈ mappings ∨ other.path = nextPath := by
  have hmoved : mapping.path ≠ nextPath := by
    intro hpath
    rw [← hpath] at hfree
    exact h.ne_none hmem hfree
  have hframe : ∀ other ∈ mappings, other.fileId ≠ mapping.fileId →
      moveOne options before mapping.path nextPath other.path = before other.path := by
    intro other hother hfile
    refine moveOne_other (fun hpath => hfile ?_) fun hpath => ?_
    · rw [h.eq_of_path hother hmem hpath]
    · rw [← hpath] at hfree
      exact h.ne_none hother hfree
  have hback : ∀ path fileId,
      moveOne options before mapping.path nextPath path = some (some fileId) → path ≠ nextPath →
      ∃ other ∈ mappings, other.path = path ∧ other.fileId ≠ mapping.fileId := by
    intro path fileId hpath hnext
    have hprevious : path ≠ mapping.path := by
      rintro rfl
      rw [moveOne_previous hnext] at hpath
      cases hpath
    rw [moveOne_other hprevious hnext] at hpath
    obtain ⟨other, hother, rfl⟩ := h.held path fileId hpath
    refine ⟨other, hother, rfl, fun hfile => hprevious ?_⟩
    rw [h.unique.eq_of_file hother hmem hfile]
  have hplaced := h.placed mapping hmem
  obtain ⟨tag, htag, hid⟩ := h.there mapping hmem
  unfold handleRename
  cases hsource : options.rules.classifyVaultPath mapping.path with
  | none =>
    rw [keyOf_ineligible hsource] at hplaced
    cases hplaced
  | some source =>
    rw [keyOf_classified hsource] at hplaced
    have hfound := findMapping_of_mem h.unique hmem
    rw [← some.inj hplaced] at hfound
    cases htarget : options.rules.classifyVaultPath nextPath with
    | none =>
      unfold commitDelete
      dsimp only
      rw [hfound]
      refine ⟨_, rfl, h.remove hframe fun path fileId hpath => ?_, ?_, ?_⟩
      · refine hback path fileId hpath ?_
        rintro rfl
        exact hplain.eligible path fileId hpath (keyOf_ineligible htarget)
      · intro other hother hne
        refine mem_filter.mpr ⟨hother, decide_eq_true fun hfile => hne ?_⟩
        exact h.unique.eq_of_file hother hmem hfile
      · exact fun other hother => .inl (mem_filter.mp hother).1
    | some target =>
      have hkey := keyOf_classified htarget
      have hcanonical : target.canonicalPath = nextPath := by
        refine hplain.canonical nextPath ?_ target htarget
        rw [moveOne_next, htag]
        exact some_ne_none _
      have hsole : ∀ other ∈ mappings, other.collisionKey = target.collisionKey →
          other = mapping := by
        intro other hother hsame
        rw [← hsame] at hkey
        exact h.sole hmem hfree hplain hother hkey
      have hoccupied : ¬ (findMapping mappings target.collisionKey).any fun occupant =>
          occupant.fileId ≠ mapping.fileId := by
        intro hoccupied
        obtain ⟨occupant, hoccupant, hother⟩ := (Option.any_eq_true _ _).mp hoccupied
        obtain ⟨hin, hsame⟩ := findMapping_some hoccupant
        rw [hsole occupant hin hsame] at hother
        exact of_decide_eq_true hother rfl
      obtain ⟨read, hcontent⟩ := ne_none_iff_exists'.mp (hread target htarget)
      dsimp only
      rw [hfound]
      dsimp only
      rw [if_neg hoccupied, hcontent]
      refine ⟨_, rfl, ?_, ?_, ?_⟩
      · refine h.put hplain tag ?_ ?_ hid hframe ?_
        · exact (congrArg _ hcanonical).trans hkey
        · refine (congrArg _ hcanonical).trans ?_
          rw [moveOne_next, htag, map_some, inScope_of_key]
          rw [hkey]
          exact some_ne_none _
        · intro path fileId hpath hother
          exact hback path fileId hpath fun hnext => hother (hnext.trans hcanonical.symm)
      · intro other hother hne
        refine mem_upsertMapping_of_ne hother (fun hfile => hne ?_) fun hsame => hne ?_
        · exact h.unique.eq_of_file hother hmem hfile
        · exact hsole other hother hsame
      · intro other hother
        rcases mem_upsertMapping hother with hold | rfl
        · exact .inl hold
        · exact .inr hcanonical

/-- A file that has no mapping moves. -/
theorem Matches.move_unmapped (hthere : before previousPath ≠ none)
    (hfree : before nextPath = none)
    (hunmapped : ∀ mapping ∈ mappings, mapping.path ≠ previousPath) :
    moveOne options before previousPath nextPath nextPath = some none ∧
      Matches options (moveOne options before previousPath nextPath) mappings := by
  have hnew : moveOne options before previousPath nextPath nextPath = some none := by
    obtain ⟨tag, htag⟩ := ne_none_iff_exists'.mp hthere
    cases tag with
    | none => rw [moveOne_next, htag, map_some, inScope_none]
    | some fileId =>
      obtain ⟨mapping, hmem, hpath⟩ := h.held previousPath fileId htag
      exact absurd hpath (hunmapped mapping hmem)
  refine ⟨hnew, h.move (fun mapping hmem => ?_) fun path fileId hpath => ?_⟩
  · refine moveOne_other (hunmapped mapping hmem) fun hpath => ?_
    rw [← hpath] at hfree
    exact h.ne_none hmem hfree
  · by_cases hnext : path = nextPath
    · rw [hnext, hnew] at hpath
      cases hpath
    · refine h.held path fileId ?_
      by_cases hprevious : path = previousPath
      · rw [hprevious] at hnext hpath
        rw [moveOne_previous hnext] at hpath
        cases hpath
      · rw [moveOne_other hprevious hnext] at hpath
        exact hpath

omit h in
/-- The rename of a file that has no mapping. -/
theorem Matches.rename_unmapped (h : Matches options before mappings) (hplain : Plain options before)
    (hfresh : ∀ mapping ∈ mappings, mapping.fileId ≠ ids.fileId)
    (hthere : before previousPath ≠ none) (hfree : before nextPath = none)
    (hplain' : Plain options (moveOne options before previousPath nextPath))
    (hunmapped : ∀ mapping ∈ mappings, mapping.path ≠ previousPath) :
    ∃ commit,
      handleRename options.toObserverOptions files mappings ids previousPath nextPath =
        .ok commit ∧
      Matches options (moveOne options before previousPath nextPath)
        (afterCommit mappings commit) := by
  obtain ⟨hnew, hmoved⟩ := h.move_unmapped hthere hfree hunmapped
  have hnext : moveOne options before previousPath nextPath nextPath ≠ none := by
    rw [hnew]
    exact some_ne_none _
  unfold handleRename
  cases hsource : options.rules.classifyVaultPath previousPath with
  | none =>
    cases htarget : options.rules.classifyVaultPath nextPath with
    | none => exact ⟨none, rfl, hmoved⟩
    | some target => exact ⟨_, rfl, hmoved.create hplain' hfresh hnew htarget nextPath⟩
  | some source =>
    have hnone : findMapping mappings source.collisionKey = none := by
      cases hfound : findMapping mappings source.collisionKey with
      | none => rfl
      | some mapping =>
        obtain ⟨hmem, hkey⟩ := findMapping_some hfound
        refine absurd (h.path_eq hplain hmem hthere ?_) (hunmapped mapping hmem)
        rw [hkey]
        exact keyOf_classified hsource
    cases htarget : options.rules.classifyVaultPath nextPath with
    | none =>
      unfold commitDelete
      dsimp only
      rw [hnone]
      exact ⟨none, rfl, hmoved⟩
    | some target =>
      dsimp only
      rw [hnone, handleCreate_eq]
      exact ⟨_, rfl, hmoved.modify hplain' hfresh hnext⟩

/-- The rename of a file that its folder's event has moved. -/
theorem Matches.renamed (hplain : Plain options before)
    (hfresh : ∀ mapping ∈ mappings, mapping.fileId ≠ ids.fileId) (hthere : before nextPath ≠ none)
    (honly : ∀ path, before path ≠ none → keyOf options.rules previousPath ≠ none →
      keyOf options.rules path = keyOf options.rules previousPath → path = nextPath)
    (hunmapped : keyOf options.rules previousPath = none → before nextPath = some none) :
    ∃ commit,
      handleRename options.toObserverOptions files mappings ids previousPath nextPath =
        .ok commit ∧
      Matches options before (afterCommit mappings commit) := by
  unfold handleRename
  cases hsource : options.rules.classifyVaultPath previousPath with
  | none =>
    cases htarget : options.rules.classifyVaultPath nextPath with
    | none => exact ⟨none, rfl, h⟩
    | some target =>
      exact ⟨_, rfl,
        h.create hplain hfresh (hunmapped (keyOf_ineligible hsource)) htarget nextPath⟩
  | some source =>
    have hkey := keyOf_classified hsource
    have hat : ∀ mapping ∈ mappings, mapping.collisionKey = source.collisionKey →
        mapping.path = nextPath := by
      intro mapping hmem hsame
      refine honly mapping.path (h.ne_none hmem) ?_ ?_
      · rw [hkey]
        exact some_ne_none _
      · rw [h.placed mapping hmem, hsame, hkey]
    cases htarget : options.rules.classifyVaultPath nextPath with
    | none =>
      cases hfound : findMapping mappings source.collisionKey with
      | none =>
        unfold commitDelete
        dsimp only
        rw [hfound]
        exact ⟨none, rfl, h⟩
      | some mapping =>
        obtain ⟨hmem, hsame⟩ := findMapping_some hfound
        have hplaced := h.placed mapping hmem
        rw [hat mapping hmem hsame, keyOf_ineligible htarget] at hplaced
        cases hplaced
    | some target =>
      dsimp only
      cases hfound : findMapping mappings source.collisionKey with
      | none =>
        dsimp only
        rw [handleCreate_eq]
        exact ⟨_, rfl, h.modify hplain hfresh hthere⟩
      | some mapping =>
        obtain ⟨hmem, hsame⟩ := findMapping_some hfound
        have hpath := hat mapping hmem hsame
        have hplaced := h.placed mapping hmem
        rw [hpath, keyOf_classified htarget] at hplaced
        have hoccupant := findMapping_of_mem h.unique hmem
        rw [← some.inj hplaced] at hoccupant
        dsimp only
        rw [hoccupant, if_neg (by simp)]
        refine ⟨_, rfl, ?_⟩
        cases readContentForKind options.toObserverOptions files target.canonicalPath nextPath
            target.kind with
        | none => exact h
        | some read =>
          rw [← hpath] at htarget
          exact h.update hplain hmem htarget ids .rename (some source.canonicalPath) read

end

section
variable {options : VaultOptions} {base : Standing} {previousFolder nextFolder : Path}
  {world : VaultWorld} {commit : Option LocalChangeCommit}

theorem committed_mappings :
    (committed world commit).mappings = afterCommit world.mappings commit := by
  cases commit <;> rfl

theorem committed_vault : (committed world commit).vault = world.vault := by
  cases commit <;> rfl

theorem committed_events : (committed world commit).events = world.events := by
  cases commit <;> rfl

/-- The mapped files below a folder, one after the other: every one that has not moved is still
to come, and once the last has, the folder has moved. -/
theorem renameChildren_matches (hplain : Plain options base)
    (hfolder : FolderMove options base previousFolder nextFolder) (ids : ℕ → FreshIds)
    (rest : List LocalFileMapping) (index : ℕ) (world : VaultWorld) (moved : Path → Bool)
    (hmatches : Matches options (moveSome options base previousFolder nextFolder moved)
      world.mappings)
    (hpaths : (rest.map LocalFileMapping.path).Nodup)
    (hcoming : ∀ mapping ∈ rest,
      rebased options previousFolder nextFolder mapping.path ≠ none → mapping ∈ world.mappings)
    (hall : ∀ mapping ∈ world.mappings,
      rebased options previousFolder nextFolder mapping.path ≠ none → mapping ∈ rest)
    (hread : ∀ mapping ∈ rest, ∀ next,
      rebased options previousFolder nextFolder mapping.path = some next →
      Readable options world.files next) :
    Matches options (moveAll options base previousFolder nextFolder)
      (renameChildren options ids previousFolder nextFolder index world rest).mappings := by
  induction rest generalizing index world moved with
  | nil =>
    have hout : ∀ mapping ∈ world.mappings,
        rebased options previousFolder nextFolder mapping.path = none := by
      intro mapping hmem
      by_contra hbelow
      exact absurd (hall mapping hmem hbelow) not_mem_nil
    refine hmatches.move (fun mapping hmem => ?_) fun path fileId hpath => ?_
    · obtain ⟨tag, htag, -⟩ := hmatches.there mapping hmem
      rw [htag]
      exact moveAll_of_moveSome hfolder htag (hout mapping hmem)
    · rcases moveSome_of_moveAll hfolder moved hpath with
        hfile | ⟨source, hbelow, hstays, hfile⟩
      · exact hmatches.held path fileId hfile
      · obtain ⟨tag, hsource, hscope⟩ := map_eq_some_iff.mp hfile
        rw [(inScope_eq_some hscope).1] at hsource
        obtain ⟨mapping, hmem, rfl⟩ := hmatches.held source fileId
          ((moveSome_eq_some hfolder).mpr
            (.inr ⟨hsource, fun hmoved => by rw [hstays] at hmoved; cases hmoved⟩))
        rw [hout mapping hmem] at hbelow
        cases hbelow
  | cons mapping rest ih =>
    obtain ⟨hfirst, hpaths⟩ := nodup_cons.mp hpaths
    have hread' : ∀ later ∈ rest, ∀ next,
        rebased options previousFolder nextFolder later.path = some next →
        Readable options world.files next :=
      fun later hlater => hread later (mem_cons_of_mem _ hlater)
    unfold renameChildren
    cases hbelow : rebased options previousFolder nextFolder mapping.path with
    | none =>
      refine ih index world moved hmatches hpaths
        (fun later hlater => hcoming later (mem_cons_of_mem _ hlater)) ?_ hread'
      intro later hlater hlaterBelow
      rcases mem_cons.mp (hall later hlater hlaterBelow) with rfl | hrest
      · exact absurd hbelow hlaterBelow
      · exact hrest
    | some next =>
      have hchild : rebased options previousFolder nextFolder mapping.path ≠ none := by
        rw [hbelow]
        exact some_ne_none _
      have hmem := hcoming mapping mem_cons_self hchild
      obtain ⟨hthere, hstays⟩ := moveSome_source hfolder hchild (hmatches.ne_none hmem)
      have hmove := moveOne_moveSome hfolder hthere hbelow hstays
      have hplain' := plain_moveSome hplain hfolder
        fun path => moved path || decide (path = mapping.path)
      rw [← hmove] at hplain'
      obtain ⟨commit, hcommit, hnext, hkept, honly⟩ :=
        hmatches.rename_mapped (ids index) hmem (moveSome_free hfolder hbelow hstays)
          hplain' (hread mapping mem_cons_self next hbelow)
      dsimp only
      rw [hcommit]
      refine ih (index + 1) (committed world (some commit)) _ (hmove ▸ hnext) hpaths ?_ ?_ hread'
      · intro later hlater hlaterBelow
        refine hkept later (hcoming later (mem_cons_of_mem _ hlater) hlaterBelow) ?_
        rintro rfl
        exact hfirst (mem_map_of_mem hlater)
      · intro later hlater hlaterBelow
        rcases honly later hlater with hold | hpath
        · rcases mem_cons.mp (hall later hold hlaterBelow) with rfl | hrest
          · refine absurd (moveOne_previous ?_) (hnext.ne_none hlater)
            intro hsame
            rw [← hsame] at hbelow
            rw [hfolder.out _ _ hthere hbelow] at hchild
            exact hchild rfl
          · exact hrest
        · rw [hpath] at hlaterBelow
          exact absurd (hfolder.out _ _ hthere hbelow) hlaterBelow

end

section
variable {options : VaultOptions} {before after : Standing} {world next : VaultWorld}
  {event : VaultEvent} {ids : ℕ → FreshIds} {action : VaultAction}

/-- What the handling of an event finds. The rename of a mapped file is not held back, and what
the file was renamed to can be read by then. -/
def Handled (options : VaultOptions) (world : VaultWorld) : VaultEvent → Prop
  | .modify _ => True
  | .rename previousPath nextPath =>
    ∀ mapping ∈ world.mappings, mapping.path = previousPath →
      (∀ path ∈ [previousPath, nextPath], ∀ key, keyOf options.rules path = some key →
        key ∉ world.blocked) ∧
      Readable options world.files nextPath
  | .renameFolder previousFolder nextFolder =>
    ∀ mapping ∈ world.mappings, ∀ nextPath,
      rebased options previousFolder nextFolder mapping.path = some nextPath →
      Readable options world.files nextPath

theorem onModify_matches {path : Path} (hplain : Plain options before)
    (h : Matches options before world.mappings)
    (hfresh : ∀ mapping ∈ world.mappings, mapping.fileId ≠ (ids 0).fileId)
    (hthere : before path ≠ none) :
    Matches options before (onModify options world (ids 0) path).mappings := by
  unfold onModify
  split_ifs
  · exact h
  · rw [committed_mappings]
    exact h.modify hplain hfresh hthere

/-- A rename of which no commit is refused. -/
theorem onRename_matches {previousPath nextPath : Path}
    (hheld : [previousPath, nextPath].any
      (fun path => (keyOf options.rules path).any world.blocked.contains) = true →
      Matches options after world.mappings)
    (hrename : [previousPath, nextPath].any
      (fun path => (keyOf options.rules path).any world.blocked.contains) ≠ true →
      ∃ commit, handleRename options.toObserverOptions world.files world.mappings (ids 0)
          previousPath nextPath = .ok commit ∧
        Matches options after (afterCommit world.mappings commit)) :
    Matches options after (onRename options world (ids 0) previousPath nextPath).mappings := by
  unfold onRename
  split_ifs with hblocked
  · exact hheld hblocked
  · obtain ⟨commit, hcommit, hmatches⟩ := hrename hblocked
    rw [hcommit]
    dsimp only
    rw [committed_mappings]
    exact hmatches

/-- The handling of an event takes the mappings as far as it tells of. -/
theorem handleEvent_matches (hplain : Plain options before)
    (h : Matches options before world.mappings)
    (hfresh : ∀ mapping ∈ world.mappings, ∀ index, mapping.fileId ≠ (ids index).fileId)
    (hstep : EventStep options before event after) (hhandled : Handled options world event) :
    Matches options after (handleEvent options world ids event).mappings := by
  have hfresh' : ∀ mapping ∈ world.mappings, mapping.fileId ≠ (ids 0).fileId :=
    fun mapping hmem => hfresh mapping hmem 0
  cases hstep with
  | modify there => exact onModify_matches hplain h hfresh' there
  | @rename previousPath nextPath there free plain =>
    by_cases hmapped : ∃ mapping ∈ world.mappings, mapping.path = previousPath
    · obtain ⟨mapping, hmem, rfl⟩ := hmapped
      obtain ⟨hunblocked, hread⟩ := hhandled mapping hmem rfl
      refine onRename_matches (fun hblocked => ?_) fun _ => ?_
      · obtain ⟨path, hpath, hkey⟩ := any_eq_true.mp hblocked
        obtain ⟨key, hkey, hin⟩ := (Option.any_eq_true _ _).mp hkey
        exact absurd (contains_iff_mem.mp hin) (hunblocked path hpath key hkey)
      · obtain ⟨commit, hcommit, hmatches, -⟩ := h.rename_mapped (ids 0) hmem free plain hread
        exact ⟨some commit, hcommit, hmatches⟩
    · have hunmapped : ∀ mapping ∈ world.mappings, mapping.path ≠ previousPath :=
        fun mapping hmem hpath => hmapped ⟨mapping, hmem, hpath⟩
      exact onRename_matches (fun _ => (h.move_unmapped there free hunmapped).2)
        fun _ => h.rename_unmapped hplain hfresh' there free plain hunmapped
  | renamed there only unmapped =>
    exact onRename_matches (fun _ => h) fun _ => h.renamed hplain hfresh' there only unmapped
  | renameFolder folder plain some_moved =>
    rw [some_moved] at h
    refine renameChildren_matches plain folder ids world.mappings 0 world _ h ?_ (fun _ hmem _ => hmem)
      (fun _ hmem _ => hmem) hhandled
    exact List.Nodup.map_on (fun _ hmem _ hother => h.eq_of_path hmem hother) h.unique.nodup

theorem renameChildren_kept (ids : ℕ → FreshIds) (previousFolder nextFolder : Path)
    (rest : List LocalFileMapping) (index : ℕ) (world : VaultWorld) :
    (renameChildren options ids previousFolder nextFolder index world rest).vault = world.vault ∧
      (renameChildren options ids previousFolder nextFolder index world rest).events =
        world.events := by
  induction rest generalizing index world with
  | nil => exact ⟨rfl, rfl⟩
  | cons mapping rest ih =>
    unfold renameChildren
    cases rebased options previousFolder nextFolder mapping.path with
    | none => exact ih index world
    | some nextPath =>
      dsimp only
      cases handleRename options.toObserverOptions world.files world.mappings (ids index)
          mapping.path nextPath with
      | error _ => exact ⟨rfl, rfl⟩
      | ok commit =>
        obtain ⟨hvault, hevents⟩ := ih (index + 1) (committed world commit)
        exact ⟨hvault.trans committed_vault, hevents.trans committed_events⟩

/-- No handler touches the files or the events that wait. -/
theorem handleEvent_kept (options : VaultOptions) (world : VaultWorld) (event : VaultEvent)
    (ids : ℕ → FreshIds) :
    (handleEvent options world ids event).vault = world.vault ∧
      (handleEvent options world ids event).events = world.events := by
  cases event with
  | modify path =>
    simp only [handleEvent, onModify]
    split_ifs
    · exact ⟨rfl, rfl⟩
    · exact ⟨committed_vault, committed_events⟩
  | rename previousPath nextPath =>
    simp only [handleEvent, onRename]
    split_ifs
    · exact ⟨rfl, rfl⟩
    · cases handleRename options.toObserverOptions world.files world.mappings (ids 0)
          previousPath nextPath with
      | error _ => exact ⟨rfl, rfl⟩
      | ok commit => exact ⟨committed_vault, committed_events⟩
  | renameFolder previousFolder nextFolder =>
    exact renameChildren_kept ids previousFolder nextFolder world.mappings 0 world

/-- A modification settles while its file is there; a file or a folder is renamed to where no
other file has its key; the events of a folder tell of all its files. -/
def Timely (options : VaultOptions) (world : VaultWorld) : VaultAction → Prop
  | .edit _ _ => True
  | .settle path => standing world.vault path ≠ none
  | .rename previousPath nextPath =>
    Canonical options nextPath ∧
      ∀ path, standing world.vault path ≠ none → path ≠ previousPath →
        keyOf options.rules nextPath ≠ none → keyOf options.rules path ≠ keyOf options.rules nextPath
  | .renameFolder previousFolder nextFolder events =>
    FolderMove options (standing world.vault) previousFolder nextFolder ∧
      (∀ event ∈ events,
        Belongs options (standing world.vault) previousFolder nextFolder event) ∧
      ∀ path, standing world.vault path ≠ none →
        rebased options previousFolder nextFolder path ≠ none → events.any (tells path) = true
  | .handle ids =>
    (∀ mapping ∈ world.mappings, ∀ index, mapping.fileId ≠ (ids index).fileId) ∧
      ∀ event ∈ world.events.head?, Handled options world event

/-- The events that wait lead from where the mappings are to where the files are. -/
structure Follows (options : VaultOptions) (world : VaultWorld) (before : Standing) : Prop where
  plain : Plain options before
  matched : Matches options before world.mappings
  chain : Chain options before world.events (standing world.vault)

theorem Chain.plain_after {events : List VaultEvent} (h : Chain options before events after)
    (hplain : Plain options before) : Plain options after := by
  induction h with
  | nil => exact hplain
  | cons step _ ih => exact ih (step.plain_after hplain)

/-- Each action keeps the mappings on the way to the files. -/
theorem follows_step (h : Follows options world before) (htimely : Timely options world action)
    (hstep : vaultStep options world action = some next) : ∃ after, Follows options next after := by
  have hdisk := Chain.plain_after h.chain h.plain
  cases action with
  | edit path content =>
    obtain ⟨file, hfile, rfl⟩ := map_eq_some_iff.mp hstep
    refine ⟨before, h.plain, h.matched, ?_⟩
    have hsame : standing (world.vault.set path { file with content }) = standing world.vault := by
      funext other
      unfold standing
      rw [JsObject.get_set]
      split_ifs with hpath
      · rw [hpath, hfile]
        rfl
      · rfl
    rw [hsame]
    exact h.chain
  | settle path =>
    simp only [vaultStep] at hstep
    split_ifs at hstep
    cases hstep
    exact ⟨before, h.plain, h.matched, h.chain.snoc (.modify htimely)⟩
  | rename previousPath nextPath =>
    simp only [vaultStep] at hstep
    split_ifs at hstep with hpaths
    cases hstep
    obtain ⟨hthere, hfree⟩ := hpaths
    have hthere' : standing world.vault previousPath ≠ none := by
      unfold standing
      rw [Ne, map_eq_none_iff]
      exact isSome_iff_ne_none.mp hthere
    have hfree' : standing world.vault nextPath = none := by
      unfold standing
      rw [hfree]
      rfl
    refine ⟨before, h.plain, h.matched, ?_⟩
    dsimp only
    rw [standing_moveFile hdisk hfree']
    exact h.chain.snoc (.rename hthere' hfree' (plain_moveOne hdisk htimely.1 htimely.2))
  | renameFolder previousFolder nextFolder events =>
    cases hstep
    obtain ⟨hfolder, hevents, htold⟩ := htimely
    refine ⟨before, h.plain, h.matched, ?_⟩
    dsimp only
    rw [standing_moveFolder hdisk hfolder]
    exact h.chain.append (chain_folder hdisk hfolder hevents htold)
  | handle ids =>
    obtain ⟨hfresh, hhandled⟩ := htimely
    simp only [vaultStep] at hstep
    cases hevents : world.events with
    | nil =>
      rw [hevents] at hstep
      cases hstep
    | cons event rest =>
      rw [hevents] at hstep hhandled
      cases hstep
      have hchain := h.chain
      rw [hevents] at hchain
      cases hchain with
      | @cons _ after _ _ _ step chain =>
        obtain ⟨hvault, hkept⟩ :=
          handleEvent_kept options { world with events := rest } event ids
        refine ⟨after, step.plain_after h.plain, ?_, ?_⟩
        · exact handleEvent_matches h.plain h.matched hfresh step (hhandled event rfl)
        · rw [hvault, hkept]
          exact chain

/-- Every file in scope is mapped where it is or is unknown to the sync, and nothing waits. -/
structure Tracked (options : VaultOptions) (world : VaultWorld) : Prop where
  plain : Plain options (standing world.vault)
  unique : UniqueMappings world.mappings
  placed : ∀ mapping ∈ world.mappings, keyOf options.rules mapping.path = some mapping.collisionKey ∧
    standing world.vault mapping.path = some (some mapping.fileId)
  mapped : ∀ path fileId, standing world.vault path = some (some fileId) →
    ∃ mapping ∈ world.mappings, mapping.path = path
  idle : world.events = []

theorem Tracked.follows (h : Tracked options world) :
    Follows options world (standing world.vault) := by
  refine ⟨h.plain, ⟨h.unique, fun mapping hmem => (h.placed mapping hmem).1, ?_, h.mapped⟩, ?_⟩
  · intro mapping hmem
    exact ⟨_, (h.placed mapping hmem).2, fun fileId hfile => some.inj hfile⟩
  · rw [h.idle]
    exact .nil _

/-- Files and folders are renamed and edited, and the events of it are handled whenever. Once
none waits, every file that was mapped and has stayed in scope is mapped where it is under the
id it had, and every mapping names a file that is there, under that id if it had one. -/
theorem identity_follows {start : VaultWorld} (hstart : Tracked options start)
    (hreached : Reached (vaultStep options) (Timely options) start world)
    (hidle : world.events = []) :
    (∀ path file fileId, world.vault.get path = some file → file.fileId = some fileId →
      ∃ mapping ∈ world.mappings, mapping.path = path ∧ mapping.fileId = fileId) ∧
    ∀ mapping ∈ world.mappings, ∃ file, world.vault.get mapping.path = some file ∧
      ∀ fileId, file.fileId = some fileId → mapping.fileId = fileId := by
  have hfollows : ∃ before, Follows options world before := by
    refine hreached.invariant (P := fun world => ∃ before, Follows options world before)
      ⟨_, hstart.follows⟩ ?_
    rintro world action next ⟨before, hbefore⟩ htimely hstep
    exact follows_step hbefore htimely hstep
  obtain ⟨before, hbefore⟩ := hfollows
  have hchain := hbefore.chain
  rw [hidle] at hchain
  cases hchain
  have hthere : ∀ mapping ∈ world.mappings, ∃ file, world.vault.get mapping.path = some file ∧
      ∀ fileId, file.fileId = some fileId → mapping.fileId = fileId := by
    intro mapping hmem
    obtain ⟨tag, htag, hid⟩ := hbefore.matched.there mapping hmem
    obtain ⟨file, hfile, rfl⟩ := map_eq_some_iff.mp htag
    exact ⟨file, hfile, hid⟩
  refine ⟨fun path file fileId hfile hid => ?_, hthere⟩
  obtain ⟨mapping, hmem, rfl⟩ := hbefore.matched.held path fileId
    (map_eq_some_iff.mpr ⟨file, hfile, hid⟩)
  obtain ⟨found, hfound, hsame⟩ := hthere mapping hmem
  rw [hfile] at hfound
  cases hfound
  exact ⟨mapping, hmem, rfl, hsame fileId hid⟩

end

variable {paths : List Path} {path : Path}

def pathOf (name : String) : Path := numberOf (ascii name)

/-- Notes end in `.md`, and the case of a letter makes no other key. -/
def namedRules : PathRules :=
  { noteRules with
    classifyVaultPath := fun path =>
      if (ascii ".md").isSuffixOf (pathText path) then
        some ⟨path, numberOf ((pathText path).map asciiLower), .markdown⟩
      else none }

def namedVault : VaultOptions where
  toObserverOptions := { noteObserver with rules := namedRules }
  normalizeWirePath := id
  text := pathText

def noteAt (fileId : Id) (path : Path) (value : JsString) : LocalFileMapping where
  collisionKey := numberOf ((pathText path).map asciiLower)
  contentHash := noteObserver.digests.hashText value
  contentKind := some .markdown
  fileId
  path

/-- A vault of synced notes, each with its path's text in it. -/
def notesAt (paths : List Path) : VaultWorld where
  vault := paths.foldl (fun vault path => vault.set path ⟨.text (pathText path), some path⟩) ∅
  mappings := paths.map fun path => noteAt path path (pathText path)

theorem canonical_named (path : Path) : Canonical namedVault path := by
  intro classified h
  obtain ⟨-, hclassified⟩ := Option.ite_none_right_eq_some.mp h
  rw [← some.inj hclassified]

theorem standing_notesAt (paths : List Path) (path : Path) :
    standing (notesAt paths).vault path = if path ∈ paths then some (some path) else none := by
  have hfold : ∀ vault : JsObject Path VaultFile,
      standing (paths.foldl (fun vault path => vault.set path ⟨.text (pathText path), some path⟩)
        vault) path = if path ∈ paths then some (some path) else standing vault path := by
    induction paths with
    | nil => exact fun vault => (if_neg not_mem_nil).symm
    | cons first rest ih =>
      intro vault
      rw [foldl_cons, ih]
      unfold standing
      rw [JsObject.get_set]
      by_cases hfirst : path = first
      · simp [hfirst]
      · simp [hfirst]
  exact hfold ∅

theorem notesAt_there (h : standing (notesAt paths).vault path ≠ none) : path ∈ paths := by
  rw [standing_notesAt] at h
  by_contra hnot
  exact h (if_neg hnot)

theorem tracked_notesAt (hkeys : (paths.map (keyOf namedVault.rules)).Nodup)
    (heligible : none ∉ paths.map (keyOf namedVault.rules)) : Tracked namedVault (notesAt paths) := by
  have hplaced : ∀ path ∈ paths, keyOf namedVault.rules path =
      some (numberOf ((pathText path).map asciiLower)) := by
    intro path hmem
    cases hkey : keyOf namedVault.rules path with
    | none => exact absurd (hkey ▸ mem_map_of_mem hmem) heligible
    | some key =>
      obtain ⟨classified, hclassified, rfl⟩ := map_eq_some_iff.mp hkey
      obtain ⟨-, hclassified⟩ := Option.ite_none_right_eq_some.mp hclassified
      rw [← some.inj hclassified]
  have hsame : paths.map (keyOf namedVault.rules) =
      (paths.map fun path => numberOf ((pathText path).map asciiLower)).map some := by
    rw [List.map_map]
    exact map_congr_left hplaced
  have hmapped : ∀ mapping ∈ (notesAt paths).mappings, ∃ path ∈ paths,
      noteAt path path (pathText path) = mapping := fun _ => mem_map.mp
  refine ⟨⟨?_, fun path _ => canonical_named path, ?_⟩, ⟨?_, ?_⟩, ?_, ?_, rfl⟩
  · intro path other hpath hother _ heq
    exact inj_on_of_nodup_map hkeys (notesAt_there hpath) (notesAt_there hother) heq
  · intro path fileId hfile
    rw [hplaced path (notesAt_there (by rw [hfile]; exact some_ne_none _))]
    exact some_ne_none _
  · refine List.Nodup.map_on ?_ (List.Nodup.map_on ?_ (List.Nodup.of_map _ hkeys))
    · intro mapping hmem other hother hfile
      obtain ⟨path, -, rfl⟩ := hmapped mapping hmem
      obtain ⟨path', -, rfl⟩ := hmapped other hother
      exact congrArg (fun path => noteAt path path (pathText path)) hfile
    · exact fun path _ other _ heq => congrArg LocalFileMapping.fileId heq
  · rw [hsame] at hkeys
    exact (map_map (l := paths)).symm ▸ List.Nodup.of_map _ hkeys
  · intro mapping hmem
    obtain ⟨path, hpath, rfl⟩ := hmapped mapping hmem
    refine ⟨hplaced path hpath, ?_⟩
    exact (standing_notesAt paths path).trans (if_pos hpath)
  · intro path fileId hfile
    have hmem : path ∈ paths := notesAt_there (by rw [hfile]; exact some_ne_none _)
    exact ⟨_, mem_map_of_mem hmem, rfl⟩

/-- The folder `a` becomes `b`; its note is edited before the events of it are handled, its own
after the note's. -/
def folderActions : List VaultAction :=
  [.renameFolder (pathOf "a") (pathOf "b")
      [.rename (pathOf "a/n.md") (pathOf "b/n.md"), .renameFolder (pathOf "a") (pathOf "b")],
    .edit (pathOf "b/n.md") (.text [1]), .handle fun _ => ⟨0, 0⟩, .handle fun _ => ⟨0, 0⟩]

theorem folder_move : FolderMove namedVault (standing (notesAt [pathOf "a/n.md"]).vault)
    (pathOf "a") (pathOf "b") := by
  have hthere : ∀ {path}, standing (notesAt [pathOf "a/n.md"]).vault path ≠ none →
      path = pathOf "a/n.md" := fun h => mem_singleton.mp (notesAt_there h)
  have hnext : rebased namedVault (pathOf "a") (pathOf "b") (pathOf "a/n.md") =
      some (pathOf "b/n.md") := by decide +kernel
  constructor
  · intro path source hbelow
    by_contra hpath
    rw [hthere hpath] at hbelow
    have hout : rebased namedVault (pathOf "b") (pathOf "a") (pathOf "a/n.md") = none := by
      decide +kernel
    rw [hout] at hbelow
    cases hbelow
  · intro path next hpath hbelow
    rw [hthere hpath, hnext] at hbelow
    rw [← some.inj hbelow]
    decide +kernel
  · exact fun _ next _ _ => canonical_named next
  · intro path next other hpath _ hother hne
    exact absurd ((hthere hother).trans (hthere hpath).symm) hne
  · intro path next other _ hpath hother _ _ hne
    exact absurd ((hthere hpath).trans (hthere hother).symm) hne

theorem readable_named {files : Files} (h : existsAt files path = true) :
    Readable namedVault files path := by
  intro classified hclassified
  obtain ⟨-, hclassified⟩ := Option.ite_none_right_eq_some.mp hclassified
  rw [← some.inj hclassified]
  unfold readContentForKind resolveReadPath
  rw [if_pos h]
  exact some_ne_none _

theorem folder_timely :
    Allowed (vaultStep namedVault) (Timely namedVault) (notesAt [pathOf "a/n.md"])
      folderActions := by
  have hnext : rebased namedVault (pathOf "a") (pathOf "b") (pathOf "a/n.md") =
      some (pathOf "b/n.md") := by decide +kernel
  have hthere : standing (notesAt [pathOf "a/n.md"]).vault (pathOf "a/n.md") ≠ none := by
    rw [standing_notesAt]
    exact some_ne_none _
  refine ⟨⟨folder_move, ?_, ?_⟩, fun moved hmoved => ⟨trivial, fun edited hedited => ?_⟩⟩
  · intro event hevent
    rcases mem_cons.mp hevent with rfl | hfolder
    · exact .child hthere hnext
    · rw [mem_singleton.mp hfolder]
      exact .folder
  · intro path _ _
    simp [tells]
  · cases hmoved
    cases hedited
    have hfresh : pathOf "a/n.md" ≠ 0 := by decide +kernel
    refine ⟨⟨?_, ?_⟩, fun handled hhandled => ?_⟩
    · intro mapping hmem _
      rw [mem_singleton.mp hmem]
      exact hfresh
    · intro event hevent
      cases hevent
      intro mapping _ _
      refine ⟨fun _ _ _ _ => not_mem_nil, readable_named ?_⟩
      decide +kernel
    have hseen := Option.mem_map_of_mem (fun world : VaultWorld =>
      (world.mappings.map fun mapping : LocalFileMapping => (mapping.fileId, mapping.path),
        world.events)) hhandled
    have hstate : (handled.mappings.map fun mapping => (mapping.fileId, mapping.path),
        handled.events) = ([(pathOf "a/n.md", pathOf "b/n.md")],
          [.renameFolder (pathOf "a") (pathOf "b")]) :=
      some.inj (hseen.symm.trans (by decide +kernel))
    obtain ⟨hlist, hevents⟩ := Prod.mk.inj hstate
    have hmappings : ∀ mapping ∈ handled.mappings,
        mapping.fileId = pathOf "a/n.md" ∧ mapping.path = pathOf "b/n.md" := by
      intro mapping hmem
      have hpair := mem_map_of_mem (f := fun mapping => (mapping.fileId, mapping.path)) hmem
      rw [hlist] at hpair
      exact Prod.mk.inj (mem_singleton.mp hpair)
    refine ⟨⟨?_, ?_⟩, fun _ _ => trivial⟩
    · intro mapping hmem _
      rw [(hmappings mapping hmem).1]
      exact hfresh
    · intro event hevent
      rw [hevents] at hevent
      cases hevent
      intro mapping hmem nextPath hbelow
      have hout : rebased namedVault (pathOf "a") (pathOf "b") (pathOf "b/n.md") = none := by
        decide +kernel
      rw [(hmappings mapping hmem).2, hout] at hbelow
      cases hbelow

theorem identity_follows_folder :
    ∃ world, run (vaultStep namedVault) (notesAt [pathOf "a/n.md"]) folderActions = some world ∧
      world.vault.keys = [pathOf "b/n.md"] ∧
      ∃ mapping ∈ world.mappings,
        mapping.path = pathOf "b/n.md" ∧ mapping.fileId = pathOf "a/n.md" := by
  have hstart : Tracked namedVault (notesAt [pathOf "a/n.md"]) :=
    tracked_notesAt (by decide +kernel) (by decide +kernel)
  obtain ⟨world, hrun⟩ := isSome_iff_exists.mp
    (show (run (vaultStep namedVault) (notesAt [pathOf "a/n.md"]) folderActions).isSome = true by
      decide +kernel)
  have hend : (run (vaultStep namedVault) (notesAt [pathOf "a/n.md"]) folderActions).map
      (fun world => (world.vault.keys, (world.vault.get (pathOf "b/n.md")).map VaultFile.fileId,
        world.events)) =
      some ([pathOf "b/n.md"], some (some (pathOf "a/n.md")), []) := by decide +kernel
  rw [hrun] at hend
  obtain ⟨hkeys, hrest⟩ := Prod.mk.inj (some.inj hend)
  obtain ⟨hfile, hidle⟩ := Prod.mk.inj hrest
  obtain ⟨file, hget, hid⟩ := map_eq_some_iff.mp hfile
  have hkept := identity_follows hstart (Reached.start.run folder_timely hrun) hidle
  exact ⟨world, hrun, hkeys, hkept.1 _ file _ hget hid⟩

/-- A note that is renamed out of scope is mapped no more. One that is renamed to where another
note has its key stays mapped where it was. -/
theorem rename_unmapped :
    Tracked namedVault (notesAt [pathOf "m.md", pathOf "n.md"]) ∧
    (run (vaultStep namedVault) (notesAt [pathOf "m.md", pathOf "n.md"])
      [.rename (pathOf "m.md") (pathOf "m.txt"), .handle fun _ => ⟨0, 0⟩]).map
      (fun world => (world.vault.keys, world.mappings.map LocalFileMapping.path, world.events)) =
      some ([pathOf "m.txt", pathOf "n.md"], [pathOf "n.md"], []) ∧
    (run (vaultStep namedVault) (notesAt [pathOf "m.md", pathOf "n.md"])
      [.rename (pathOf "m.md") (pathOf "N.md"), .handle fun _ => ⟨0, 0⟩]).map
      (fun world => (world.vault.keys, world.mappings.map LocalFileMapping.path, world.events)) =
      some ([pathOf "N.md", pathOf "n.md"], [pathOf "m.md", pathOf "n.md"], []) := by
  refine ⟨tracked_notesAt (by decide +kernel) (by decide +kernel), ?_, ?_⟩
  · decide +kernel
  · decide +kernel

end Havemind.RenameChains
