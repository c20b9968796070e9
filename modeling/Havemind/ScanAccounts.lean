import Havemind.KeyedTable
import Havemind.ScanPlan

/-!
What the plan of a scan says of every file and every mapping: who is listed alone under a
key, whose mapping has no file, which pairs are renames, and that each takes part in one
disposal at most.
-/
namespace Havemind.ScanAccounts

open CallLogs JsObject VaultPayload DurableState List Option OutboxRepository VaultReconcile
  ScanPlan ScanSafety

section
variable {α β γ : Type} {l : List α}

/-- Where an item's image keeps the item's key, keys of images are keys of items. -/
theorem map_filterMap_sublist {g : α → Option β} {h : β → γ} {k : α → γ}
    (hkey : ∀ a ∈ l, ∀ b, g a = some b → h b = k a) :
    ((l.filterMap g).map h).Sublist (l.map k) := by
  induction l with
  | nil => exact List.Sublist.refl _
  | cons a rest ih =>
    obtain ⟨hfirst, hrest⟩ := forall_mem_cons.mp hkey
    cases hg : g a with
    | none =>
      rw [filterMap_cons_none hg, map_cons]
      exact (ih hrest).cons _
    | some b =>
      rw [filterMap_cons_some hg, map_cons, map_cons, hfirst b hg]
      exact (ih hrest).cons_cons _

/-- The first images of a list are those of its first items. -/
theorem exists_sublist_of_prefix {f : α → β} {images : List β} (h : images <+: l.map f) :
    ∃ part : List α, part.Sublist l ∧ images = part.map f := by
  refine ⟨l.take images.length, take_sublist _ _, ?_⟩
  rw [map_take]
  exact prefix_iff_eq_take.mp h

end

section
variable (options : ScanOptions)

/-- The listed paths with this key. -/
def listedUnder (key : ℕ) (paths : List Path) : List Path :=
  paths.filter fun path => keyOf options.rules path = some key

/-- What the sorting of a listing holds under each key: a file of its own is eligible,
several are a collision. -/
structure SortedOf (paths : List Path) (sorted : Sorted) : Prop where
  eligible : ∀ key file, sorted.eligible.get key = some file ↔
    listedUnder options key paths = [file.readPath] ∧
      (options.rules.classifyVaultPath file.readPath).map ClassifiedPath.kind = some file.kind
  collisions : ∀ key, (sorted.collisions.get key).isSome ↔
    2 ≤ (listedUnder options key paths).length

variable {options} {paths : List Path} {sorted : Sorted} {key : ℕ} {path : Path}

theorem listedUnder_snoc (path : Path) : listedUnder options key (paths ++ [path]) =
    listedUnder options key paths ++
      if keyOf options.rules path = some key then [path] else [] := by
  unfold listedUnder
  rw [filter_append, filter_singleton]
  by_cases h : keyOf options.rules path = some key <;> simp [h]

/-- A file of its own is found. -/
theorem SortedOf.eligible_isSome (h : SortedOf options paths sorted) (key : ℕ) :
    (sorted.eligible.get key).isSome ↔ (listedUnder options key paths).length = 1 := by
  rw [isSome_iff_exists, length_eq_one_iff]
  constructor
  · rintro ⟨file, hfile⟩
    exact ⟨file.readPath, ((h.eligible key file).mp hfile).1⟩
  · rintro ⟨path, hpath⟩
    have hmem : path ∈ listedUnder options key paths := by simp [hpath]
    have hkey : keyOf options.rules path = some key :=
      of_decide_eq_true (mem_filter.mp hmem).2
    obtain ⟨classified, hclassified, -⟩ := map_eq_some_iff.mp hkey
    refine ⟨⟨path, classified.kind⟩, (h.eligible key _).mpr ⟨hpath, ?_⟩⟩
    rw [hclassified]
    rfl

theorem sortedOf_snoc (h : SortedOf options paths sorted) (path : Path) :
    SortedOf options (paths ++ [path]) (sortPath options.rules sorted path) := by
  unfold sortPath
  cases hclassified : options.rules.classifyVaultPath path with
  | none =>
    have hkey : keyOf options.rules path = none := by
      rw [keyOf, hclassified]
      rfl
    have hsame : ∀ key, listedUnder options key (paths ++ [path]) =
        listedUnder options key paths := by
      intro key
      rw [listedUnder_snoc, hkey]
      exact append_nil _
    refine ⟨fun key file => ?_, fun key => ?_⟩
    · rw [hsame]
      exact h.eligible key file
    · rw [hsame]
      exact h.collisions key
  | some classified =>
    have hkey : keyOf options.rules path = some classified.collisionKey := by
      rw [keyOf, hclassified]
      rfl
    have hother : ∀ key, key ≠ classified.collisionKey →
        listedUnder options key (paths ++ [path]) = listedUnder options key paths := by
      intro key hne
      have hkey' : keyOf options.rules path ≠ some key := by
        rw [hkey]
        exact fun hsame => hne (some.inj hsame).symm
      rw [listedUnder_snoc, if_neg hkey', append_nil]
    have hself : listedUnder options classified.collisionKey (paths ++ [path]) =
        listedUnder options classified.collisionKey paths ++ [path] := by
      rw [listedUnder_snoc, if_pos hkey]
    dsimp only
    split_ifs with hshared
    · rw [h.eligible_isSome, h.collisions] at hshared
      constructor
      · intro key file
        rw [get_erase]
        split_ifs with hsame
        · rw [hsame, hself]
          refine iff_of_false (by simp) fun hone => ?_
          have hlength := congrArg List.length hone.1
          rw [length_append, length_singleton, length_singleton] at hlength
          omega
        · rw [hother key hsame]
          exact h.eligible key file
      · intro key
        rw [get_set]
        split_ifs with hsame
        · rw [hsame, hself, length_append, length_singleton]
          refine iff_of_true rfl ?_
          omega
        · rw [hother key hsame]
          exact h.collisions key
    · rw [h.eligible_isSome, h.collisions] at hshared
      have hnone : listedUnder options classified.collisionKey paths = [] := by
        rw [← length_eq_zero_iff]
        omega
      rw [hnone, nil_append] at hself
      constructor
      · intro key file
        rw [get_set]
        split_ifs with hsame
        · rw [hsame, hself, Option.some_inj, singleton_inj]
          obtain ⟨readPath, kind⟩ := file
          rw [EligibleFile.mk.injEq]
          refine and_congr_right fun hread => ?_
          rw [← hread, hclassified, map_some, Option.some_inj]
        · rw [hother key hsame]
          exact h.eligible key file
      · intro key
        by_cases hsame : key = classified.collisionKey
        · rw [hsame, hself, h.collisions, hnone]
          exact iff_of_false (by simp) (by simp)
        · rw [hother key hsame]
          exact h.collisions key

theorem sortedOf_sortPaths (paths : List Path) :
    SortedOf options paths (sortPaths options.rules paths) := by
  induction paths using List.reverseRecOn with
  | nil => exact ⟨fun key file => iff_of_false nofun (by simp [listedUnder]),
      fun key => iff_of_false nofun (by simp [listedUnder])⟩
  | append_singleton paths path ih =>
    have hstep : sortPaths options.rules (paths ++ [path]) =
        sortPath options.rules (sortPaths options.rules paths) path := by
      unfold sortPaths
      rw [foldl_append]
      rfl
    rw [hstep]
    exact sortedOf_snoc ih path

end

section
variable (options : ScanOptions) (disk : Disk)

/-- The mapping a table of the mappings by key holds: the last one. -/
def mappingUnder (mappings : List LocalFileMapping) (key : ℕ) : Option LocalFileMapping :=
  mappings.reverse.find? fun mapping => mapping.collisionKey = key

/-- The mapping of a key, unless it is of the settings folder and that was not listed. -/
structure Known (key : ℕ) (mapping : LocalFileMapping) : Prop where
  mapped : mappingUnder disk.mappings key = some mapping
  told : disk.listing.configListingFailed = true →
    options.rules.isSyncableConfigPath mapping.path = false

/-- A mapping no listed file has the key of. -/
structure Lost (mapping : LocalFileMapping) : Prop where
  known : Known options disk mapping.collisionKey mapping
  unlisted : listedUnder options mapping.collisionKey disk.listing.paths = []

/-- A file listed alone under its key that can be read and has no mapping. -/
structure Unmapped (file : EligibleVaultFile) : Prop where
  alone : listedUnder options file.collisionKey disk.listing.paths = [file.readPath]
  kind : (options.rules.classifyVaultPath file.readPath).map ClassifiedPath.kind = some file.kind
  content : disk.content file.readPath file.kind = some file.contentHash
  unknown : ∀ mapping, ¬ Known options disk file.collisionKey mapping

variable {options disk} {key : ℕ} {mapping : LocalFileMapping} {entry : ℕ × EligibleFile}
  {file : EligibleVaultFile}

theorem get_foldl_set (mappings : List LocalFileMapping) (key : ℕ) :
    (mappings.foldl (fun table mapping => table.set mapping.collisionKey mapping)
      (∅ : JsObject ℕ LocalFileMapping)).get key = mappingUnder mappings key := by
  induction mappings using List.reverseRecOn with
  | nil => rfl
  | append_singleton mappings mapping ih =>
    rw [foldl_append, foldl_cons, foldl_nil, get_set, ih, mappingUnder,
      mappingUnder, reverse_append, reverse_singleton, singleton_append,
      List.find?_cons]
    split_ifs with hkey
    · rw [decide_eq_true hkey.symm]
    · rw [decide_eq_false (Ne.symm hkey)]

theorem mappingsByCollision_eq_some :
    (mappingsByCollision options.rules disk.mappings disk.listing.configListingFailed).get key =
      some mapping ↔ Known options disk key mapping := by
  unfold mappingsByCollision
  dsimp only
  split_ifs with hfailed
  · rw [get_filterEntries, get_foldl_set, filter_eq_some_iff]
    constructor
    · exact fun h => ⟨h.1, fun _ => of_decide_eq_true h.2⟩
    · exact fun h => ⟨h.mapped, decide_eq_true (h.told hfailed)⟩
  · rw [get_foldl_set]
    exact ⟨fun h => ⟨h, fun htrue => absurd htrue hfailed⟩, fun h => h.mapped⟩

theorem sorted_eligible {file : EligibleFile} :
    (key, file) ∈ (sorted options disk).eligible.entries ↔
      listedUnder options key disk.listing.paths = [file.readPath] ∧
        (options.rules.classifyVaultPath file.readPath).map ClassifiedPath.kind = some file.kind := by
  rw [← get_eq_some]
  exact (sortedOf_sortPaths disk.listing.paths).eligible key file

theorem sorted_eligible_keys : key ∈ (sorted options disk).eligible.keys ↔
    (listedUnder options key disk.listing.paths).length = 1 := by
  rw [← (sortedOf_sortPaths disk.listing.paths).eligible_isSome, isSome_iff_ne_none, Ne,
    get_eq_none, not_not]
  rfl

theorem compared_eq_some : (compared options disk).get key = some mapping ↔
    (listedUnder options key disk.listing.paths).length < 2 ∧ Known options disk key mapping := by
  have hcollisions : key ∈ (sorted options disk).collisions.keys ↔
      2 ≤ (listedUnder options key disk.listing.paths).length := by
    rw [← (sortedOf_sortPaths disk.listing.paths).collisions, isSome_iff_ne_none, Ne,
      get_eq_none, not_not]
    rfl
  unfold compared
  rw [eraseAll_keys, get_filterEntries, filter_eq_some_iff,
    mappingsByCollision_eq_some, and_comm, decide_eq_true_iff, contains_iff_mem, hcollisions,
    not_le]

theorem key_of_known (h : Known options disk key mapping) : mapping.collisionKey = key :=
  of_decide_eq_true (List.find?_some h.mapped :)

theorem mem_unmatchedMappings :
    mapping ∈ unmatchedMappings options disk ↔ Lost options disk mapping := by
  have hget : ∀ key, ((compared options disk).filterEntries fun entry =>
      ¬ (sorted options disk).eligible.keys.contains entry.1).get key = some mapping ↔
      Known options disk key mapping ∧ listedUnder options key disk.listing.paths = [] := by
    intro key
    rw [get_filterEntries, filter_eq_some_iff, compared_eq_some, decide_eq_true_iff,
      contains_iff_mem, sorted_eligible_keys, ← length_eq_zero_iff]
    dsimp only
    constructor
    · rintro ⟨⟨hfew, hknown⟩, halone⟩
      exact ⟨hknown, by omega⟩
    · rintro ⟨hknown, hnone⟩
      exact ⟨⟨by omega, hknown⟩, by omega⟩
  unfold unmatchedMappings
  rw [mem_values]
  constructor
  · rintro ⟨key, hfound⟩
    obtain ⟨hknown, hunlisted⟩ := (hget key).mp hfound
    have hkey := key_of_known hknown
    exact ⟨by rwa [hkey], by rwa [hkey]⟩
  · intro h
    exact ⟨mapping.collisionKey, (hget _).mpr ⟨h.known, h.unlisted⟩⟩

theorem findingAt_unmapped {contentHash : ContentHash} :
    findingAt options disk entry = .unmapped contentHash ↔
      (compared options disk).get entry.1 = none ∧
        disk.content entry.2.readPath entry.2.kind = some contentHash := by
  unfold findingAt finding
  cases (compared options disk).get entry.1 with
  | none =>
    cases disk.content entry.2.readPath entry.2.kind with
    | none => simp [statOf]
    | some hash => simp [statOf]
  | some mapping =>
    refine iff_of_false ?_ nofun
    split_ifs
    · exact nofun
    · cases disk.content entry.2.readPath entry.2.kind with
      | none => exact nofun
      | some hash =>
        dsimp only
        split_ifs <;> exact nofun

theorem findingAt_changed (h : findingAt options disk entry = .changed mapping) :
    (compared options disk).get entry.1 = some mapping ∧
      ∃ contentHash, disk.content entry.2.readPath entry.2.kind = some contentHash ∧
        contentHash ≠ mapping.contentHash := by
  unfold findingAt finding at h
  split at h
  · cases h
  · split at h
    · cases h
    · cases h
    · next contentHash known hcontent hknown =>
      split at h
      · cases h
      · next hne =>
        cases h
        exact ⟨hknown, contentHash, hcontent, Ne.symm hne⟩

theorem unmappedOf_eq_some :
    unmappedOf options disk entry = some file ↔
      findingAt options disk entry = .unmapped file.contentHash ∧
        entry = (file.collisionKey, ⟨file.readPath, file.kind⟩) := by
  obtain ⟨key, readPath, kind⟩ := entry
  obtain ⟨fileKey, contentHash, fileKind, filePath⟩ := file
  unfold unmappedOf
  cases findingAt options disk (key, ⟨readPath, kind⟩) with
  | unmapped hash =>
    simp only [Option.some_inj, EligibleVaultFile.mk.injEq, Finding.unmapped.injEq, Prod.mk.injEq,
      EligibleFile.mk.injEq]
    tauto
  | unchanged | tooLarge | changed mapping => exact iff_of_false nofun nofun

theorem mem_unmatchedVault : file ∈ unmatchedVault options disk ↔ Unmapped options disk file := by
  unfold unmatchedVault
  rw [mem_filterMap]
  constructor
  · rintro ⟨entry, hentry, hfile⟩
    obtain ⟨hfinding, rfl⟩ := unmappedOf_eq_some.mp hfile
    obtain ⟨hnone, hcontent⟩ := findingAt_unmapped.mp hfinding
    obtain ⟨halone, hkind⟩ := sorted_eligible.mp hentry
    refine ⟨halone, hkind, hcontent, fun mapping hknown => ?_⟩
    have hfew : (listedUnder options file.collisionKey disk.listing.paths).length < 2 := by
      rw [halone]
      exact Nat.one_lt_two
    have hsome := compared_eq_some.mpr ⟨hfew, hknown⟩
    rw [hnone] at hsome
    cases hsome
  · intro h
    refine ⟨(file.collisionKey, ⟨file.readPath, file.kind⟩),
      sorted_eligible.mpr ⟨h.alone, h.kind⟩, unmappedOf_eq_some.mpr ⟨?_, rfl⟩⟩
    refine findingAt_unmapped.mpr ⟨?_, h.content⟩
    refine Option.eq_none_iff_forall_ne_some.mpr fun mapping hsome => ?_
    exact h.unknown mapping (compared_eq_some.mp hsome).2

end

section
variable {vault : List EligibleVaultFile} {mappings : List LocalFileMapping}
  {file : EligibleVaultFile} {mapping : LocalFileMapping}

def contentOf (file : EligibleVaultFile) : SyncContentKind × ContentHash :=
  (file.kind, file.contentHash)

def contentOfMapping (mapping : LocalFileMapping) : SyncContentKind × ContentHash :=
  (mapping.contentKind.getD .markdown, mapping.contentHash)

/-- The pair with this content, when both sides are the only ones that have it. -/
def pairWith (vault : List EligibleVaultFile) (mappings : List LocalFileMapping)
    (content : SyncContentKind × ContentHash) : Option (EligibleVaultFile × LocalFileMapping) :=
  match vault.filter fun file => (file.kind, file.contentHash) = content,
    mappings.filter fun mapping =>
      (mapping.contentKind.getD .markdown, mapping.contentHash) = content with
  | [file], [mapping] => some (file, mapping)
  | _, _ => none

theorem pairWith_eq_some {content : SyncContentKind × ContentHash} :
    pairWith vault mappings content = some (file, mapping) ↔
      (vault.filter fun file => contentOf file = content) = [file] ∧
        (mappings.filter fun mapping => contentOfMapping mapping = content) = [mapping] := by
  unfold pairWith contentOf contentOfMapping
  split
  · next only only' hvault hmappings =>
    rw [hvault, hmappings, Option.some_inj, Prod.mk.injEq, singleton_inj, singleton_inj]
  · next hneither =>
    exact iff_of_false nofun fun hboth => hneither _ _ hboth.1 hboth.2

/-- The files of the pairs differ, and so do their mappings. -/
theorem nodup_renamePairs : ((renamePairs vault mappings).map Prod.fst).Nodup ∧
    ((renamePairs vault mappings).map Prod.snd).Nodup := by
  have hcontents := KeyedTable.nodup_eraseDups (vault.map fun file => (file.kind, file.contentHash))
  have hpair : ∀ content pair, pairWith vault mappings content = some pair →
      contentOf pair.1 = content ∧ contentOfMapping pair.2 = content := by
    rintro content ⟨file, mapping⟩ hpair
    obtain ⟨hfile, hmapping⟩ := pairWith_eq_some.mp hpair
    have hfile' : file ∈ vault.filter fun file => contentOf file = content := by simp [hfile]
    have hmapping' : mapping ∈ mappings.filter fun mapping =>
        contentOfMapping mapping = content := by simp [hmapping]
    exact ⟨of_decide_eq_true (mem_filter.mp hfile').2,
      of_decide_eq_true (mem_filter.mp hmapping').2⟩
  have hfiles := map_filterMap_sublist (k := id)
    (l := (vault.map fun file => (file.kind, file.contentHash)).eraseDups)
    fun content _ pair h => (hpair content pair h).1
  have hmappings := map_filterMap_sublist (k := id)
    (l := (vault.map fun file => (file.kind, file.contentHash)).eraseDups)
    fun content _ pair h => (hpair content pair h).2
  rw [List.map_id] at hfiles hmappings
  constructor
  · refine List.Nodup.of_map contentOf ?_
    rw [List.map_map]
    exact hcontents.sublist hfiles
  · refine List.Nodup.of_map contentOfMapping ?_
    rw [List.map_map]
    exact hcontents.sublist hmappings

theorem mem_renamePairs : (file, mapping) ∈ renamePairs vault mappings ↔
    (vault.filter fun other => contentOf other = contentOf file) = [file] ∧
      (mappings.filter fun other => contentOfMapping other = contentOf file) = [mapping] := by
  have hrename : (file, mapping) ∈ renamePairs vault mappings ↔
      ∃ content ∈ (vault.map fun file => (file.kind, file.contentHash)).eraseDups,
        pairWith vault mappings content = some (file, mapping) := mem_filterMap
  rw [hrename]
  constructor
  · rintro ⟨content, -, hpair⟩
    obtain ⟨hfile, hmapping⟩ := pairWith_eq_some.mp hpair
    have hmem : file ∈ vault.filter fun file => contentOf file = content := by simp [hfile]
    have hcontent : contentOf file = content := of_decide_eq_true (mem_filter.mp hmem).2
    rw [hcontent]
    exact ⟨hfile, hmapping⟩
  · rintro ⟨hfile, hmapping⟩
    have hmem : file ∈ vault.filter fun other => contentOf other = contentOf file := by simp [hfile]
    refine ⟨contentOf file, ?_, pairWith_eq_some.mpr ⟨hfile, hmapping⟩⟩
    rw [mem_eraseDups]
    exact mem_map.mpr ⟨file, (mem_filter.mp hmem).1, rfl⟩

end

section
variable (options : ScanOptions) (disk : Disk)

/-- The mappings the breaker counts: without a file, and not renamed. -/
def Held (mapping : LocalFileMapping) : Prop :=
  Lost options disk mapping ∧ ∀ file, (file, mapping) ∉ renames options disk

variable {options disk} {mapping : LocalFileMapping} {file : EligibleVaultFile} {path : Path}
  {key : ℕ} {allowBulkDeletes : Bool} {disposal : Disposal}

theorem mem_pending : mapping ∈ pending options disk ↔ Held options disk mapping := by
  unfold pending Held
  rw [mem_filter, mem_unmatchedMappings, decide_eq_true_iff, contains_iff_mem]
  refine and_congr_right fun _ => ⟨fun hnot file hmem => ?_, fun hnone hmem => ?_⟩
  · exact hnot (mem_map.mpr ⟨(file, mapping), hmem, rfl⟩)
  · obtain ⟨⟨file, _⟩, hpair, rfl⟩ := mem_map.mp hmem
    exact hnone file hpair

theorem nodup_unmatchedMappings : (unmatchedMappings options disk).Nodup := by
  refine List.Nodup.of_map LocalFileMapping.collisionKey ?_
  have hkeys : (unmatchedMappings options disk).map LocalFileMapping.collisionKey =
      ((compared options disk).filterEntries fun entry =>
        ¬ (sorted options disk).eligible.keys.contains entry.1).keys := by
    unfold unmatchedMappings JsObject.values JsObject.keys
    rw [List.map_map]
    refine map_congr_left fun entry hentry => ?_
    have hget := get_eq_some.mpr (mem_filter.mp hentry).1
    exact key_of_known (compared_eq_some.mp hget).2
  rw [hkeys]
  exact JsObject.keys_nodup _

theorem nodup_pending : (pending options disk).Nodup := nodup_unmatchedMappings.filter _

theorem mem_deletions (h : mapping ∈ deletions options disk allowBulkDeletes) :
    Held options disk mapping ∧ breakerTrips (breakerTotal allowBulkDeletes disk.mappings.length)
      (pending options disk).length = false := by
  unfold deletions at h
  split at h
  · cases h
  · next hlets => exact ⟨mem_pending.mp h, Bool.eq_false_of_not_eq_true hlets⟩

theorem keyOf_of_alone (h : listedUnder options key disk.listing.paths = [path]) :
    keyOf options.rules path = some key := by
  have hmem : path ∈ listedUnder options key disk.listing.paths := by simp [h]
  exact of_decide_eq_true (mem_filter.mp hmem).2

/-- A mapped file listed alone whose content is not the one mapped. -/
structure Changed (options : ScanOptions) (disk : Disk) (mapping : LocalFileMapping) (path : Path) :
    Prop where
  known : Known options disk mapping.collisionKey mapping
  alone : listedUnder options mapping.collisionKey disk.listing.paths = [path]
  content : ∃ kind contentHash, disk.content path kind = some contentHash ∧
    contentHash ≠ mapping.contentHash

theorem updateOf_eq_some {entry : ℕ × EligibleFile}
    (hentry : entry ∈ (sorted options disk).eligible.entries)
    (h : updateOf options disk entry = some disposal) :
    ∃ mapping, disposal = .update mapping entry.2.readPath ∧ mapping.collisionKey = entry.1 ∧
      Changed options disk mapping entry.2.readPath := by
  unfold updateOf at h
  split at h
  · next mapping hfinding =>
    obtain ⟨hget, contentHash, hcontent, hne⟩ := findingAt_changed hfinding
    have hknown := (compared_eq_some.mp hget).2
    have hkey := key_of_known hknown
    refine ⟨mapping, (some.inj h).symm, hkey, ?_, ?_, _, contentHash, hcontent, hne⟩
    · rwa [hkey]
    · rw [hkey]
      exact (sorted_eligible.mp hentry).1
  · cases h

def updates (options : ScanOptions) (disk : Disk) : List Disposal :=
  (sorted options disk).eligible.entries.filterMap (updateOf options disk)

theorem mem_updates (h : disposal ∈ updates options disk) :
    ∃ mapping path, disposal = .update mapping path ∧ Changed options disk mapping path := by
  obtain ⟨entry, hentry, hupdate⟩ := mem_filterMap.mp h
  obtain ⟨mapping, rfl, -, hchanged⟩ := updateOf_eq_some hentry hupdate
  exact ⟨mapping, _, rfl, hchanged⟩

theorem nodup_updates_mapping : ((updates options disk).filterMap Disposal.mapping).Nodup := by
  refine List.Nodup.of_map LocalFileMapping.collisionKey ?_
  unfold updates
  rw [filterMap_filterMap]
  refine List.Nodup.sublist ?_ (sorted options disk).eligible.keys_nodup
  refine map_filterMap_sublist fun entry hentry mapping hmapping => ?_
  obtain ⟨disposal, hupdate, hof⟩ := bind_eq_some_iff.mp hmapping
  obtain ⟨changed, rfl, hkey, -⟩ := updateOf_eq_some hentry hupdate
  cases hof
  exact hkey

theorem nodup_eligible_keys (options : ScanOptions) (disk : Disk) :
    ((sorted options disk).eligible.entries.map fun entry => some entry.1).Nodup := by
  have hsome := (sorted options disk).eligible.keys_nodup.map (Option.some_injective ℕ)
  rwa [List.map_map] at hsome

theorem nodup_updates_path : ((updates options disk).filterMap Disposal.path).Nodup := by
  refine List.Nodup.of_map (keyOf options.rules) ?_
  unfold updates
  rw [filterMap_filterMap]
  refine List.Nodup.sublist ?_ (nodup_eligible_keys options disk)
  refine map_filterMap_sublist fun entry hentry path hpath => ?_
  obtain ⟨disposal, hupdate, hof⟩ := bind_eq_some_iff.mp hpath
  obtain ⟨changed, rfl, -, -⟩ := updateOf_eq_some hentry hupdate
  cases hof
  exact keyOf_of_alone (sorted_eligible.mp hentry).1

theorem nodup_unmatchedVault_path :
    ((unmatchedVault options disk).map EligibleVaultFile.readPath).Nodup := by
  refine List.Nodup.of_map (keyOf options.rules) ?_
  rw [List.map_map]
  refine List.Nodup.sublist ?_ (nodup_eligible_keys options disk)
  refine map_filterMap_sublist fun entry hentry file hfile => ?_
  obtain ⟨-, rfl⟩ := unmappedOf_eq_some.mp hfile
  exact keyOf_of_alone (sorted_eligible.mp hentry).1

theorem plan_mappings : (plan options disk allowBulkDeletes).filterMap Disposal.mapping =
    (updates options disk).filterMap Disposal.mapping ++
      ((renames options disk).map Prod.snd ++ deletions options disk allowBulkDeletes) := by
  have hcreated : ((creations options disk).map Disposal.create).filterMap Disposal.mapping = [] :=
    filterMap_eq_nil_iff.mpr fun disposal hmem => by
      obtain ⟨file, -, rfl⟩ := mem_map.mp hmem
      rfl
  unfold plan
  rw [filterMap_append, filterMap_append, filterMap_append, hcreated,
    append_nil, append_assoc, filterMap_map, filterMap_map]
  have hrenamed : (renames options disk).filterMap (Disposal.mapping ∘ fun pair =>
      .rename pair.2 pair.1) = (renames options disk).map Prod.snd :=
    congrFun filterMap_eq_map' _
  have hdeleted : (deletions options disk allowBulkDeletes).filterMap
      (Disposal.mapping ∘ .delete) = deletions options disk allowBulkDeletes :=
    filterMap_some
  rw [hrenamed, hdeleted]
  rfl

theorem plan_paths : (plan options disk allowBulkDeletes).filterMap Disposal.path =
    (updates options disk).filterMap Disposal.path ++
      ((renames options disk).map Prod.fst ++ creations options disk).map
        EligibleVaultFile.readPath := by
  have hdeleted : ((deletions options disk allowBulkDeletes).map Disposal.delete).filterMap
      Disposal.path = [] :=
    filterMap_eq_nil_iff.mpr fun disposal hmem => by
      obtain ⟨mapping, -, rfl⟩ := mem_map.mp hmem
      rfl
  have hrenamed : (renames options disk).filterMap (Disposal.path ∘ fun pair =>
      .rename pair.2 pair.1) = (renames options disk).map fun pair => pair.1.readPath :=
    congrFun filterMap_eq_map' _
  have hcreated : (creations options disk).filterMap (Disposal.path ∘ .create) =
      (creations options disk).map EligibleVaultFile.readPath :=
    congrFun filterMap_eq_map' _
  unfold plan
  rw [filterMap_append, filterMap_append, filterMap_append, hdeleted,
    append_nil, append_assoc, filterMap_map, filterMap_map, hrenamed, hcreated,
    map_append, List.map_map]
  rfl

theorem renamed_unmapped (h : (file, mapping) ∈ renames options disk) :
    Unmapped options disk file ∧ Lost options disk mapping := by
  obtain ⟨hfile, hmapping⟩ := mem_renamePairs.mp h
  have hfile' : file ∈ (unmatchedVault options disk).filter fun other =>
      contentOf other = contentOf file := by simp [hfile]
  have hmapping' : mapping ∈ (unmatchedMappings options disk).filter fun other =>
      contentOfMapping other = contentOf file := by simp [hmapping]
  exact ⟨mem_unmatchedVault.mp (mem_filter.mp hfile').1,
    mem_unmatchedMappings.mp (mem_filter.mp hmapping').1⟩

theorem nodup_plan_mappings :
    ((plan options disk allowBulkDeletes).filterMap Disposal.mapping).Nodup := by
  have hdeletions : (deletions options disk allowBulkDeletes).Nodup := by
    unfold deletions
    split
    · exact nodup_nil
    · exact nodup_pending
  rw [plan_mappings]
  refine nodup_updates_mapping.append (nodup_renamePairs.2.append hdeletions ?_) ?_
  · intro mapping hrenamed hdeleted
    obtain ⟨⟨file, _⟩, hpair, rfl⟩ := mem_map.mp hrenamed
    exact (mem_deletions hdeleted).1.2 file hpair
  · intro mapping hupdated hlost
    obtain ⟨disposal, hdisposal, hof⟩ := mem_filterMap.mp hupdated
    obtain ⟨changed, path, rfl, hchanged⟩ := mem_updates hdisposal
    cases hof
    have hunlisted : listedUnder options mapping.collisionKey disk.listing.paths = [] := by
      rcases mem_append.mp hlost with hrenamed | hdeleted
      · obtain ⟨⟨file, _⟩, hpair, rfl⟩ := mem_map.mp hrenamed
        exact (renamed_unmapped hpair).2.unlisted
      · exact (mem_deletions hdeleted).1.1.unlisted
    rw [hchanged.alone] at hunlisted
    cases hunlisted

theorem nodup_plan_paths :
    ((plan options disk allowBulkDeletes).filterMap Disposal.path).Nodup := by
  have hfiles : ∀ file ∈ (renames options disk).map Prod.fst ++ creations options disk,
      file ∈ unmatchedVault options disk := by
    intro file hfile
    rcases mem_append.mp hfile with hrenamed | hcreated
    · obtain ⟨⟨_, mapping⟩, hpair, rfl⟩ := mem_map.mp hrenamed
      exact mem_unmatchedVault.mpr (renamed_unmapped hpair).1
    · exact (mem_filter.mp hcreated).1
  have hnodup : (unmatchedVault options disk).Nodup :=
    List.Nodup.of_map EligibleVaultFile.readPath nodup_unmatchedVault_path
  rw [plan_paths]
  refine nodup_updates_path.append (List.Nodup.map_on ?_ (nodup_renamePairs.1.append
    (hnodup.filter _) ?_)) ?_
  · intro file hfile other hother hsame
    exact inj_on_of_nodup_map nodup_unmatchedVault_path (hfiles file hfile)
      (hfiles other hother) hsame
  · intro file hrenamed hcreated
    have hnot := of_decide_eq_true (mem_filter.mp hcreated).2
    exact hnot (contains_iff_mem.mpr hrenamed)
  · intro path hupdated hunmapped
    obtain ⟨disposal, hdisposal, hof⟩ := mem_filterMap.mp hupdated
    obtain ⟨mapping, changed, rfl, hchanged⟩ := mem_updates hdisposal
    cases hof
    obtain ⟨file, hfile, rfl⟩ := mem_map.mp hunmapped
    have hmissing := mem_unmatchedVault.mp (hfiles file hfile)
    have hkey := (keyOf_of_alone hchanged.alone).symm.trans (keyOf_of_alone hmissing.alone)
    refine hmissing.unknown mapping ?_
    rw [← some.inj hkey]
    exact hchanged.known

/-- What holds of the disposals of a scan. -/
structure RightAbout (options : ScanOptions) (disk : Disk) (allowBulkDeletes : Bool)
    (disposals : List Disposal) : Prop where
  updates : ∀ mapping path, .update mapping path ∈ disposals → Changed options disk mapping path
  renames : ∀ mapping file, .rename mapping file ∈ disposals →
    Lost options disk mapping ∧ Unmapped options disk file ∧
    contentOfMapping mapping = contentOf file ∧
    (∀ other, Lost options disk other → contentOfMapping other = contentOfMapping mapping →
      other = mapping) ∧
    ∀ other, Unmapped options disk other → contentOf other = contentOf file → other = file
  creates : ∀ file, .create file ∈ disposals → Unmapped options disk file
  deletes : ∀ mapping, .delete mapping ∈ disposals →
    Missing options.rules disk.listing disk.mappings mapping ∧
    Held options disk mapping ∧
    ∀ held : List LocalFileMapping, held.Nodup → (∀ other, other ∈ held ↔ Held options disk other) →
      breakerTrips (breakerTotal allowBulkDeletes disk.mappings.length) held.length = false
  mappings : (disposals.filterMap Disposal.mapping).Nodup
  paths : (disposals.filterMap Disposal.path).Nodup
  alone : ∀ path ∈ disposals.filterMap Disposal.path,
    ∃ key, listedUnder options key disk.listing.paths = [path]

theorem missing_of_lost (h : Lost options disk mapping) :
    Missing options.rules disk.listing disk.mappings mapping := by
  refine ⟨mem_reverse.mp (mem_of_find?_eq_some h.known.mapped), ?_, h.known.told⟩
  intro path hpath classified hclassified hsame
  have hkey : keyOf options.rules path = some mapping.collisionKey := by
    rw [keyOf, hclassified, map_some, hsame]
  have hmem : path ∈ listedUnder options mapping.collisionKey disk.listing.paths :=
    mem_filter.mpr ⟨hpath, decide_eq_true hkey⟩
  rw [h.unlisted] at hmem
  cases hmem

theorem renamed_only (h : (file, mapping) ∈ renames options disk) :
    contentOfMapping mapping = contentOf file ∧
    (∀ other, Lost options disk other → contentOfMapping other = contentOfMapping mapping →
      other = mapping) ∧
    ∀ other, Unmapped options disk other → contentOf other = contentOf file → other = file := by
  obtain ⟨hfile, hmapping⟩ := mem_renamePairs.mp h
  have hmem : mapping ∈ (unmatchedMappings options disk).filter fun other =>
      contentOfMapping other = contentOf file := by simp [hmapping]
  have hcontent : contentOfMapping mapping = contentOf file :=
    of_decide_eq_true (mem_filter.mp hmem).2
  refine ⟨hcontent, fun other hlost hsame => ?_, fun other hunmapped hsame => ?_⟩
  · have hother : other ∈ (unmatchedMappings options disk).filter fun other =>
        contentOfMapping other = contentOf file :=
      mem_filter.mpr ⟨mem_unmatchedMappings.mpr hlost, decide_eq_true (hsame.trans hcontent)⟩
    rw [hmapping] at hother
    exact mem_singleton.mp hother
  · have hother : other ∈ (unmatchedVault options disk).filter fun other =>
        contentOf other = contentOf file :=
      mem_filter.mpr ⟨mem_unmatchedVault.mpr hunmapped, decide_eq_true hsame⟩
    rw [hfile] at hother
    exact mem_singleton.mp hother

theorem mem_plan (h : disposal ∈ plan options disk allowBulkDeletes) :
    disposal ∈ updates options disk ∨
    (∃ pair ∈ renames options disk, .rename pair.2 pair.1 = disposal) ∨
    (∃ file ∈ creations options disk, .create file = disposal) ∨
    ∃ mapping ∈ deletions options disk allowBulkDeletes, .delete mapping = disposal := by
  unfold plan at h
  rw [append_assoc, append_assoc] at h
  refine (mem_append.mp h).imp id fun hrest => ?_
  refine (mem_append.mp hrest).imp mem_map.mp fun hlast => ?_
  exact (mem_append.mp hlast).imp mem_map.mp mem_map.mp

theorem rightAbout_plan : RightAbout options disk allowBulkDeletes
    (plan options disk allowBulkDeletes) where
  updates := by
    intro mapping path hmem
    rcases mem_plan hmem with hupdate | ⟨_, _, h⟩ | ⟨_, _, h⟩ | ⟨_, _, h⟩
    · obtain ⟨changed, path, hsame, hchanged⟩ := mem_updates hupdate
      cases hsame
      exact hchanged
    all_goals cases h
  renames := by
    intro mapping file hmem
    rcases mem_plan hmem with hupdate | ⟨⟨renamed, from'⟩, hpair, h⟩ | ⟨_, _, h⟩ | ⟨_, _, h⟩
    · obtain ⟨_, _, h, -⟩ := mem_updates hupdate
      cases h
    · cases h
      obtain ⟨hunmapped, hlost⟩ := renamed_unmapped hpair
      exact ⟨hlost, hunmapped, renamed_only hpair⟩
    all_goals cases h
  creates := by
    intro file hmem
    rcases mem_plan hmem with hupdate | ⟨_, _, h⟩ | ⟨_, hcreated, h⟩ | ⟨_, _, h⟩
    · obtain ⟨_, _, h, -⟩ := mem_updates hupdate
      cases h
    · cases h
    · cases h
      exact mem_unmatchedVault.mp (mem_filter.mp hcreated).1
    · cases h
  deletes := by
    intro mapping hmem
    rcases mem_plan hmem with hupdate | ⟨_, _, h⟩ | ⟨_, _, h⟩ | ⟨_, hdeleted, h⟩
    · obtain ⟨_, _, h, -⟩ := mem_updates hupdate
      cases h
    · cases h
    · cases h
    · cases h
      obtain ⟨hheld, hlets⟩ := mem_deletions hdeleted
      refine ⟨missing_of_lost hheld.1, hheld, fun held hnodup hall => ?_⟩
      have hperm : held.Perm (pending options disk) :=
        (perm_ext_iff_of_nodup hnodup nodup_pending).mpr fun other =>
          (hall other).trans mem_pending.symm
      rw [hperm.length_eq]
      exact hlets
  mappings := nodup_plan_mappings
  paths := nodup_plan_paths
  alone := by
    intro path hmem
    obtain ⟨disposal, hdisposal, hof⟩ := mem_filterMap.mp hmem
    rcases mem_plan hdisposal with hupdate | ⟨⟨file, _⟩, hpair, rfl⟩ | ⟨file, hcreated, rfl⟩ |
      ⟨_, _, rfl⟩
    · obtain ⟨mapping, _, rfl, hchanged⟩ := mem_updates hupdate
      cases hof
      exact ⟨mapping.collisionKey, hchanged.alone⟩
    · cases hof
      exact ⟨file.collisionKey, (renamed_unmapped hpair).1.alone⟩
    · cases hof
      exact ⟨file.collisionKey, (mem_unmatchedVault.mp (mem_filter.mp hcreated).1).alone⟩
    · cases hof

theorem RightAbout.sublist {disposals all : List Disposal}
    (h : RightAbout options disk allowBulkDeletes all) (hsub : disposals.Sublist all) :
    RightAbout options disk allowBulkDeletes disposals where
  updates mapping path hmem := h.updates mapping path (hsub.mem hmem)
  renames mapping file hmem := h.renames mapping file (hsub.mem hmem)
  creates file hmem := h.creates file (hsub.mem hmem)
  deletes mapping hmem := h.deletes mapping (hsub.mem hmem)
  mappings := h.mappings.sublist (hsub.filterMap _)
  paths := h.paths.sublist (hsub.filterMap _)
  alone path hmem := h.alone path ((hsub.filterMap _).mem hmem)

end

/-- However the awaits of a scan of an unchanging vault end, its observations are disposals
that are right about every file and every mapping, each taking part in one of them at most. -/
theorem scan_rightAbout (options : ScanOptions) (allowBulkDeletes : Bool) (disk : Disk)
    (replies : List Reply) :
    ∃ disposals : List Disposal,
      (logOf (S := scanCalls) disk.reply (reconcileVaultState options allowBulkDeletes) ()
        replies).filter isObservation = disposals.map Disposal.call ∧
      RightAbout options disk allowBulkDeletes disposals := by
  obtain ⟨result, hlogs⟩ : ∃ result, Logs disk.reply (reconcileVaultState options allowBulkDeletes)
      (logOf (S := scanCalls) disk.reply (reconcileVaultState options allowBulkDeletes) () replies)
      result := logs_logOf (S := scanCalls) _ () replies
  have hfollows : Follows disk (plan options disk allowBulkDeletes) (fun _ => True)
      (reconcileVaultState options allowBulkDeletes) := follows_reconcile allowBulkDeletes
  obtain ⟨hfront, -⟩ := hfollows _ _ hlogs
  obtain ⟨disposals, hsub, hcalls⟩ := exists_sublist_of_prefix hfront
  exact ⟨disposals, hcalls, rightAbout_plan.sublist hsub⟩

end Havemind.ScanAccounts
