import Havemind.ChangeObserver
import Havemind.Runs
import Mathlib.Logic.Equiv.Defs

/-!
The vault's events and their handling. Edits and renames happen on disk at once; what they
tell the observer waits in line, a modification first until its file has settled, and is
handled against the files and the mappings there are by then.
-/
namespace Havemind.VaultEvents

open JsText RevisionSchema VaultPayload VaultPath DurableState OutboxRepository List Option
  ChangeObserver

/-- What follows the folder in the path of a file below it. -/
def pathUnderFolder (path folderPrefix : JsString) : Option JsString :=
  if (folderPrefix ++ [slash]).isPrefixOf path then some (path.drop folderPrefix.length) else none

/-- Where a file below a folder is once the folder is renamed. -/
def rebasedText (normalizeWirePath : JsString → JsString) (previousFolder nextFolder path : JsString) :
    Option JsString :=
  (pathUnderFolder path (normalizeWirePath previousFolder)).map fun suffix =>
    normalizeWirePath nextFolder ++ suffix

theorem pathUnderFolder_eq_some {path folder suffix : JsString} :
    pathUnderFolder path folder = some suffix ↔ path = folder ++ suffix ∧ [slash] <+: suffix := by
  unfold pathUnderFolder
  constructor
  · intro h
    split_ifs at h with hprefix
    obtain ⟨rest, rfl⟩ := isPrefixOf_iff_prefix.mp hprefix
    rw [append_assoc, drop_left] at h
    rw [← some.inj h]
    exact ⟨append_assoc _ _ _, rest, rfl⟩
  · rintro ⟨rfl, rest, rfl⟩
    rw [if_pos, drop_left]
    exact isPrefixOf_iff_prefix.mpr ⟨rest, append_assoc _ _ _⟩

/-- The folder renamed back brings each file back. -/
theorem rebasedText_back {normalizeWirePath : JsString → JsString}
    {previousFolder nextFolder path next : JsString}
    (h : rebasedText normalizeWirePath previousFolder nextFolder path = some next) :
    rebasedText normalizeWirePath nextFolder previousFolder next = some path := by
  obtain ⟨suffix, hsuffix, rfl⟩ := map_eq_some_iff.mp h
  obtain ⟨rfl, hslash⟩ := pathUnderFolder_eq_some.mp hsuffix
  exact map_eq_some_iff.mpr ⟨suffix, pathUnderFolder_eq_some.mpr ⟨rfl, hslash⟩, rfl⟩

section
variable {K V : Type*} [DecidableEq K]

/-- Every value under the key its key becomes. -/
def mapKeys (f : K → K) (object : JsObject K V) : JsObject K V :=
  object.entries.foldl (fun moved entry => moved.set (f entry.1) entry.2) ∅

theorem get_mapKeys {f : K → K} {object : JsObject K V} {key : K} {value : V}
    (h : ∀ a ∈ object.keys, ∀ b ∈ object.keys, f a = f b → a = b) :
    (mapKeys f object).get key = some value ↔ ∃ old, object.get old = some value ∧ f old = key := by
  have hentries : ∀ entries : List (K × V), (entries.map Prod.fst).Nodup →
      (∀ a ∈ entries.map Prod.fst, ∀ b ∈ entries.map Prod.fst, f a = f b → a = b) →
      ((entries.foldl (fun moved entry => moved.set (f entry.1) entry.2)
        (∅ : JsObject K V)).get key = some value ↔ ∃ old, (old, value) ∈ entries ∧ f old = key) := by
    intro entries
    induction entries using List.reverseRecOn with
    | nil =>
      intro _ _
      exact iff_of_false nofun (by simp)
    | append_singleton front last ih =>
      intro hnodup hinj
      rw [map_append] at hnodup hinj
      obtain ⟨hfront, -, hapart⟩ := nodup_append.mp hnodup
      have hbefore := ih hfront fun a ha b hb =>
        hinj a (mem_append_left _ ha) b (mem_append_left _ hb)
      have hlast : last.1 ∈ front.map Prod.fst ++ [last].map Prod.fst :=
        mem_append_right _ (mem_singleton_self _)
      rw [foldl_append, foldl_cons, foldl_nil, JsObject.get_set]
      split_ifs with hkey
      · constructor
        · intro hvalue
          refine ⟨last.1, mem_append_right _ ?_, hkey.symm⟩
          rw [← some.inj hvalue]
          exact mem_singleton_self _
        · rintro ⟨old, hmem, hold⟩
          rcases mem_append.mp hmem with hfound | hfound
          · have hin := mem_map_of_mem (f := Prod.fst) hfound
            have hsame := hinj old (mem_append_left _ hin) last.1 hlast (hold.trans hkey)
            exact absurd hsame (hapart old hin last.1 (mem_singleton_self _))
          · rw [← mem_singleton.mp hfound]
      · rw [hbefore]
        constructor
        · rintro ⟨old, hmem, hold⟩
          exact ⟨old, mem_append_left _ hmem, hold⟩
        · rintro ⟨old, hmem, hold⟩
          rcases mem_append.mp hmem with hfound | hfound
          · exact ⟨old, hfound, hold⟩
          · rw [← mem_singleton.mp hfound] at hkey
            exact absurd hold.symm hkey
  rw [mapKeys, hentries object.entries object.keys_nodup h]
  simp only [JsObject.get_eq_some]

end

/-- `text` is a path as a string. -/
structure VaultOptions extends ObserverOptions where
  normalizeWirePath : JsString → JsString
  text : Path ≃ JsString

def rebased (options : VaultOptions) (previousFolder nextFolder path : Path) : Option Path :=
  (rebasedText options.normalizeWirePath (options.text previousFolder) (options.text nextFolder)
    (options.text path)).map options.text.symm

theorem rebased_back {options : VaultOptions} {previousFolder nextFolder path next : Path}
    (h : rebased options previousFolder nextFolder path = some next) :
    rebased options nextFolder previousFolder next = some path := by
  obtain ⟨text, htext, rfl⟩ := map_eq_some_iff.mp h
  refine map_eq_some_iff.mpr ⟨options.text path, ?_, options.text.symm_apply_apply path⟩
  rw [options.text.apply_symm_apply]
  exact rebasedText_back htext

/-- A file on disk. `fileId` is the one it was mapped under when the run began, as long as the
file has stayed in the scope of the sync; no code reads it. -/
structure VaultFile where
  content : Content
  fileId : Option Id

/-- A modification that has settled, and a rename of a file or of a folder. -/
inductive VaultEvent
  | modify (path : Path)
  | rename (previousPath nextPath : Path)
  | renameFolder (previousFolder nextFolder : Path)
  deriving DecidableEq

/-- `debounced` are the paths whose modifications have not settled, `events` what waits to be
handled, and `blocked` the collision keys of the files held back. -/
structure VaultWorld where
  vault : JsObject Path VaultFile
  mappings : List LocalFileMapping
  blocked : List ℕ := []
  debounced : List Path := []
  events : List VaultEvent := []
  queued : List LocalChangeCommit := []

/-- An edit, the end of its settling window, a rename, and the handling of the next event.
With a folder come its own event and those of the files below it, as the vault gives them. -/
inductive VaultAction
  | edit (path : Path) (content : Content)
  | settle (path : Path)
  | rename (previousPath nextPath : Path)
  | renameFolder (previousFolder nextFolder : Path) (events : List VaultEvent)
  | handle (ids : ℕ → FreshIds)

variable (options : VaultOptions)

def VaultWorld.files (world : VaultWorld) : Files := world.vault.mapValues fun _ file => file.content

def committed (world : VaultWorld) : Option LocalChangeCommit → VaultWorld
  | none => world
  | some commit =>
    { world with
      mappings := nextMappings world.mappings commit
      queued := world.queued ++ [commit] }

/-- The mapped files below the folder, one after the other; an error ends it. -/
def renameChildren (ids : ℕ → FreshIds) (previousFolder nextFolder : Path) :
    ℕ → VaultWorld → List LocalFileMapping → VaultWorld
  | _, world, [] => world
  | index, world, mapping :: rest =>
    match rebased options previousFolder nextFolder mapping.path with
    | none => renameChildren ids previousFolder nextFolder index world rest
    | some nextPath =>
      match handleRename options.toObserverOptions world.files world.mappings (ids index)
          mapping.path nextPath with
      | .error _ => world
      | .ok commit =>
        renameChildren ids previousFolder nextFolder (index + 1) (committed world commit) rest

def handleFolderRename (world : VaultWorld) (ids : ℕ → FreshIds)
    (previousFolder nextFolder : Path) : VaultWorld :=
  renameChildren options ids previousFolder nextFolder 0 world world.mappings

/-- A file held back that has no mapping is not observed. -/
def onModify (world : VaultWorld) (ids : FreshIds) (path : Path) : VaultWorld :=
  if (keyOf options.rules path).any fun key =>
      world.blocked.contains key && (findMapping world.mappings key).isNone then world
  else committed world
    (handleModify options.toObserverOptions world.files world.mappings ids path false)

def onRename (world : VaultWorld) (ids : FreshIds) (previousPath nextPath : Path) : VaultWorld :=
  if [previousPath, nextPath].any fun path => (keyOf options.rules path).any world.blocked.contains then
    world
  else
    match handleRename options.toObserverOptions world.files world.mappings ids previousPath
        nextPath with
    | .error _ => world
    | .ok commit => committed world commit

def handleEvent (world : VaultWorld) (ids : ℕ → FreshIds) : VaultEvent → VaultWorld
  | .modify path => onModify options world (ids 0) path
  | .rename previousPath nextPath => onRename options world (ids 0) previousPath nextPath
  | .renameFolder previousFolder nextFolder =>
    handleFolderRename options world ids previousFolder nextFolder

/-- The files after a rename; one that leaves the scope of the sync is no more the one that
was mapped. -/
def movedFiles (f : Path → Path) (vault : JsObject Path VaultFile) : JsObject Path VaultFile :=
  (mapKeys f vault).mapValues fun path file =>
    { file with fileId := if (keyOf options.rules path).isSome then file.fileId else none }

def moveFile (previousPath nextPath path : Path) : Path :=
  if path = previousPath then nextPath else path

def moveFolder (previousFolder nextFolder path : Path) : Path :=
  (rebased options previousFolder nextFolder path).getD path

/-- Whether one of the events renames the file. -/
def cancels (path : Path) : VaultEvent → Bool
  | .rename previousPath _ => path = previousPath
  | _ => false

def vaultStep (world : VaultWorld) : VaultAction → Option VaultWorld
  | .edit path content =>
    (world.vault.get path).map fun file =>
      { world with
        vault := world.vault.set path { file with content }
        debounced := path :: world.debounced.filter fun other => other ≠ path }
  | .settle path =>
    if path ∈ world.debounced then
      some
        { world with
          debounced := world.debounced.filter fun other => other ≠ path
          events := world.events ++ [.modify path] }
    else none
  | .rename previousPath nextPath =>
    if (world.vault.get previousPath).isSome ∧ world.vault.get nextPath = none then
      some
        { world with
          vault := movedFiles options (moveFile previousPath nextPath) world.vault
          debounced := world.debounced.filter fun path => path ≠ previousPath
          events := world.events ++ [.rename previousPath nextPath] }
    else none
  | .renameFolder previousFolder nextFolder events =>
    some
      { world with
        vault := movedFiles options (moveFolder options previousFolder nextFolder) world.vault
        debounced := world.debounced.filter fun path => ¬ events.any (cancels path)
        events := world.events ++ events }
  | .handle ids =>
    match world.events with
    | [] => none
    | event :: rest => some (handleEvent options { world with events := rest } ids event)

end Havemind.VaultEvents
