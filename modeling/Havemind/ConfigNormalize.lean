import Havemind.ParsedValue
import Havemind.VaultPayload

/-!
The machine-local keys of the graph settings stay out of what is synced. A peer's settings
are written over the local ones but for these keys, and what is then read back for syncing
is what the peer sent, so that an apply is never pushed back.
-/
namespace Havemind.ConfigNormalize

open JsText JsonText JsonLayout PropertyOrder ParsedValue VaultPayload List

def graphSettingsPath : JsString := ascii ".obsidian/graph.json"

def graphVolatileKeys : List JsString :=
  ["scale", "close", "collapse-filter", "collapse-color-groups", "collapse-display",
    "collapse-forces"].map ascii

def jsonIndent : ℕ := 2

/-- A reverse solidus becomes a solidus. -/
def normalizeSeparators (path : JsString) : JsString :=
  path.map fun unit => if unit = 92 then 47 else unit

def hasVolatileConfigFields (path : JsString) : Bool :=
  normalizeSeparators path = graphSettingsPath

abbrev Members := List (JsString × Value)

/-- A byte order mark in front is tolerated; anything but an object is `none`. -/
def parseConfigObject (text : JsString) : Option Members :=
  match parseValue (dropByteOrderMark text) with
  | some (.object members) => some members
  | _ => none

/-- `result[key] = value` on a plain object: the one inherited setter takes the value as a
prototype, or drops it, and no property of its own is made. -/
def assign (result : Members) (key : JsString) (value : Value) : Members :=
  if key = ascii "__proto__" then result else define rank result key value

def pickKeys (source : Members) (keep : JsString → Bool) : Members :=
  source.foldl (fun result member =>
    if keep member.1 then assign result member.1 member.2 else result) []

def isVolatile (key : JsString) : Bool := graphVolatileKeys.contains key

def normalizeConfigContent (path text : JsString) : JsString :=
  if hasVolatileConfigFields path then
    match parseConfigObject text with
    | none => text
    | some parsed =>
        stringifyValue jsonIndent (.object (pickKeys parsed fun key => !isVolatile key))
  else text

def mergeConfigContent (path : JsString) (localText : Option JsString) (remoteText : JsString) :
    JsString :=
  if hasVolatileConfigFields path then
    match parseConfigObject remoteText with
    | none => remoteText
    | some remote =>
        let localVolatile := match localText.bind parseConfigObject with
          | none => []
          | some found => pickKeys found isVolatile
        let remoteSemantic := pickKeys remote fun key => !isVolatile key
        stringifyValue jsonIndent
          (.object (defineAll rank (defineAll rank [] localVolatile) remoteSemantic)) ++ [lineFeed]
  else remoteText

section
variable {members : Members}

/-- The own properties a rebuilt object keeps. -/
def keptBy (keep : JsString → Bool) (key : JsString) : Bool := keep key && key != ascii "__proto__"

/-- Of an object that is in order the kept properties stay as they stand. -/
theorem pickKeys_eq (h : Ordered rank members) (keep : JsString → Bool) :
    pickKeys members keep = members.filter fun member => keptBy keep member.1 := by
  have hfold : ∀ (source result : Members),
      source.foldl (fun result member =>
        if keep member.1 then assign result member.1 member.2 else result) result =
      defineAll rank result (source.filter fun member => keptBy keep member.1) := by
    intro source
    induction source with
    | nil => intro result; rfl
    | cons member rest ih =>
      intro result
      rw [foldl_cons, ih]
      unfold keptBy assign
      by_cases hkeep : keep member.1 = true
      · by_cases hproto : member.1 = ascii "__proto__"
        · simp [hproto]
        · simp [hkeep, hproto, defineAll]
      · simp [hkeep]
  unfold pickKeys
  rw [hfold, defineAll_ordered]
  · rfl
  · exact h.sublist filter_sublist

theorem ordered_pickKeys (h : Ordered rank members) (keep : JsString → Bool) :
    Ordered rank (pickKeys members keep) := by
  rw [pickKeys_eq h]
  exact h.sublist filter_sublist

theorem mem_pickKeys (h : Ordered rank members) {keep : JsString → Bool}
    {member : JsString × Value} : member ∈ pickKeys members keep ↔
      member ∈ members ∧ keptBy keep member.1 = true := by
  rw [pickKeys_eq h, mem_filter]

end

section
variable {members : Members} {text behind : JsString}

theorem wellFormed_of_parse (h : parseConfigObject text = some members) :
    WellFormed (.object members) := by
  unfold parseConfigObject parseValue at h
  cases hparse : parse (dropByteOrderMark text) with
  | none => simp [hparse] at h
  | some json =>
    have hwell := wellFormed_valueOf json
    cases hvalue : valueOf json <;> simp [hparse, hvalue] at h
    rw [hvalue, h] at hwell
    exact hwell

theorem ordered_of_wellFormed (h : WellFormed (.object members)) : Ordered rank members := by
  cases h with
  | object hordered _ => exact hordered

/-- A member as it comes back from its text. -/
def reparsed (member : JsString × Value) : JsString × Value :=
  (member.1, valueOf (form member.2))

theorem map_reparsed (h : Ordered rank members) : Ordered rank (members.map reparsed) := by
  apply h.congr
  rw [map_map]
  rfl

/-- The settings that were written are parsed again, the blanks behind them left out. -/
theorem parse_written (h : Ordered rank members) (indent : ℕ) (hbehind : Blank behind) :
    parseConfigObject (stringifyValue indent (.object members) ++ behind) =
      some (members.map reparsed) := by
  have hmark : dropByteOrderMark (stringifyValue indent (.object members) ++ behind) =
      stringifyValue indent (.object members) ++ behind := by
    unfold stringifyValue
    rw [form, write, cons_append, dropByteOrderMark, if_neg (by decide)]
  unfold parseConfigObject
  rw [hmark, parseValue_stringifyValue indent _ hbehind, form, valueOf]
  exact congrArg some (defineAll_members h)

/-- What comes back is written as before. -/
theorem written_reparsed (h : WellFormed (.object members)) (indent : ℕ) :
    stringifyValue indent (.object (members.map reparsed)) =
      stringifyValue indent (.object members) := by
  have hform := form_valueOf_form h
  rw [form, valueOf, defineAll_members (ordered_of_wellFormed h)] at hform
  unfold stringifyValue
  rw [form]
  exact congrArg (write indent 0) hform

theorem filter_reparsed (keep : JsString → Bool) (members : Members) :
    (members.map reparsed).filter (fun member => keep member.1) =
      (members.filter fun member => keep member.1).map reparsed := by
  rw [filter_map]
  rfl

theorem wellFormed_sublist {others : Members} (h : WellFormed (.object members))
    (hsub : others.Sublist members) : WellFormed (.object others) := by
  cases h with
  | object hordered hmembers =>
    exact .object (hordered.sublist hsub) fun member hmem => hmembers member (hsub.subset hmem)

end

section
variable {path text behind : JsString} {members : Members}

/-- What the source calls the semantic keys. -/
def semantic (members : Members) : Members := pickKeys members fun key => !isVolatile key

theorem pickKeys_reparsed (h : Ordered rank members) (keep : JsString → Bool) :
    pickKeys (members.map reparsed) keep = (pickKeys members keep).map reparsed := by
  rw [pickKeys_eq h, pickKeys_eq (map_reparsed h), filter_reparsed]

theorem wellFormed_pickKeys (h : WellFormed (.object members)) (keep : JsString → Bool) :
    WellFormed (.object (pickKeys members keep)) := by
  rw [pickKeys_eq (ordered_of_wellFormed h)]
  exact wellFormed_sublist h filter_sublist

theorem normalize_of_parse (hpath : hasVolatileConfigFields path = true)
    (h : parseConfigObject text = some members) :
    normalizeConfigContent path text = stringifyValue jsonIndent (.object (semantic members)) := by
  unfold normalizeConfigContent
  rw [if_pos hpath, h]
  rfl

/-- Settings that were written are normalised to their semantic keys. -/
theorem normalize_written (hpath : hasVolatileConfigFields path = true)
    (h : WellFormed (.object members)) (hbehind : Blank behind) :
    normalizeConfigContent path (stringifyValue jsonIndent (.object members) ++ behind) =
      stringifyValue jsonIndent (.object (semantic members)) := by
  have hordered := ordered_of_wellFormed h
  have hsemantic : semantic (members.map reparsed) = (semantic members).map reparsed :=
    pickKeys_reparsed hordered _
  rw [normalize_of_parse hpath (parse_written hordered jsonIndent hbehind), hsemantic]
  exact written_reparsed (wellFormed_pickKeys h _) jsonIndent

theorem semantic_semantic (h : Ordered rank members) : semantic (semantic members) =
    semantic members := by
  unfold semantic
  rw [pickKeys_eq (ordered_pickKeys h _), filter_eq_self]
  intro member hmem
  exact ((mem_pickKeys h).mp hmem).2

theorem normalize_normalize (path text : JsString) :
    normalizeConfigContent path (normalizeConfigContent path text) =
      normalizeConfigContent path text := by
  by_cases hpath : hasVolatileConfigFields path = true
  · cases hparse : parseConfigObject text with
    | none =>
      have hsame : normalizeConfigContent path text = text := by
        unfold normalizeConfigContent
        rw [if_pos hpath, hparse]
      rw [hsame, hsame]
    | some members =>
      have hwell := wellFormed_of_parse hparse
      have hagain := normalize_written hpath (wellFormed_pickKeys hwell fun key => !isVolatile key)
        blank_nil
      rw [append_nil] at hagain
      rw [normalize_of_parse hpath hparse]
      refine hagain.trans ?_
      exact congrArg (fun kept => stringifyValue jsonIndent (.object kept))
        (semantic_semantic (ordered_of_wellFormed hwell))
  · have hsame : ∀ other, normalizeConfigContent path other = other := fun _ => if_neg hpath
    rw [hsame, hsame]

end

variable {path remoteText : JsString} {localText : Option JsString} {remote found : Members}
  {key : JsString}

/-- The properties of the file on this machine, none where there is no object to be read. -/
def localMembers (localText : Option JsString) : Members :=
  (localText.bind parseConfigObject).getD []

/-- The object of the merge: what is kept of the local one, and the peer's over it. -/
def merged (found remote : Members) : Members :=
  defineAll rank (defineAll rank [] (pickKeys found isVolatile)) (semantic remote)

theorem blank_lineFeed : Blank [lineFeed] := by
  intro unit hunit
  rw [mem_singleton.mp hunit]
  decide

theorem wellFormed_localMembers (localText : Option JsString) :
    WellFormed (.object (localMembers localText)) := by
  unfold localMembers
  cases hparse : localText.bind parseConfigObject with
  | none => exact .object ordered_nil (by simp)
  | some members =>
    obtain ⟨text, -, htext⟩ := Option.bind_eq_some_iff.mp hparse
    exact wellFormed_of_parse htext

theorem merge_of_parse (hpath : hasVolatileConfigFields path = true)
    (h : parseConfigObject remoteText = some remote) :
    mergeConfigContent path localText remoteText =
      stringifyValue jsonIndent (.object (merged (localMembers localText) remote)) ++
        [lineFeed] := by
  unfold mergeConfigContent localMembers
  rw [if_pos hpath, h]
  cases localText.bind parseConfigObject <;> rfl

theorem isVolatile_of_keptBy (h : keptBy isVolatile key = true) :
    isVolatile key = true := (Bool.and_eq_true_iff.mp h).1

theorem not_isVolatile_of_keptBy (h : keptBy (fun key => !isVolatile key) key = true) :
    isVolatile key = false := by
  simpa using (Bool.and_eq_true_iff.mp h).1

theorem wellFormed_merged (hfound : WellFormed (.object found))
    (hremote : WellFormed (.object remote)) : WellFormed (.object (merged found remote)) := by
  have hkept := wellFormed_pickKeys hfound isVolatile
  have hsemantic := wellFormed_pickKeys hremote fun key => !isVolatile key
  refine .object (ordered_defineAll (ordered_defineAll ordered_nil _) _) fun member hmem => ?_
  rcases mem_defineAll hmem with hlocal | hpeer
  · cases hkept with
    | object _ hmembers => exact hmembers member ((mem_defineAll hlocal).resolve_left (by simp))
  · cases hsemantic with
    | object _ hmembers => exact hmembers member hpeer

/-- The semantic keys of the merge are the peer's, in the peer's order. -/
theorem semantic_merged (hfound : Ordered rank found) (hremote : Ordered rank remote) :
    semantic (merged found remote) = semantic remote := by
  have hkept : Ordered rank (pickKeys found isVolatile) := ordered_pickKeys hfound _
  have hpeer : Ordered rank (semantic remote) := ordered_pickKeys hremote _
  have hlocal : Ordered rank (defineAll rank [] (pickKeys found isVolatile)) :=
    ordered_defineAll ordered_nil _
  have hnone : ∀ member ∈ pickKeys found isVolatile,
      keptBy (fun key => !isVolatile key) member.1 = false := by
    intro member hmem
    have hvolatile := isVolatile_of_keptBy ((mem_pickKeys hfound).mp hmem).2
    simp [keptBy, hvolatile]
  have hall : ∀ member ∈ semantic remote, keptBy (fun key => !isVolatile key) member.1 = true :=
    fun member hmem => ((mem_pickKeys hremote).mp hmem).2
  have hbare : defineAll rank [] (semantic remote) = semantic remote := defineAll_ordered hpeer
  unfold semantic at hbare hall ⊢
  unfold merged
  rw [pickKeys_eq (ordered_defineAll hlocal _)]
  unfold semantic
  rw [filter_defineAll hlocal hall, filter_defineAll_of_not hnone, filter_nil, hbare]

/-- The machine-local keys of the merge are those of the file on this machine. -/
theorem volatile_merged (hfound : Ordered rank found) (hremote : Ordered rank remote) :
    (merged found remote).filter (fun member => isVolatile member.1) =
      found.filter fun member => isVolatile member.1 := by
  have hkept : Ordered rank (pickKeys found isVolatile) := ordered_pickKeys hfound _
  have hnone : ∀ member ∈ semantic remote, isVolatile member.1 = false :=
    fun member hmem => not_isVolatile_of_keptBy ((mem_pickKeys hremote).mp hmem).2
  have hbare : defineAll rank [] (pickKeys found isVolatile) = pickKeys found isVolatile :=
    defineAll_ordered hkept
  have hproto : isVolatile (ascii "__proto__") = false := by decide
  unfold merged
  rw [filter_defineAll_of_not hnone, hbare, pickKeys_eq hfound, filter_filter]
  apply filter_congr
  intro member _
  unfold keptBy
  by_cases hkey : member.1 = ascii "__proto__"
  · simp [hkey, hproto]
  · simp [hkey]

/-- What a remote apply of the settings does to them, once they are synced again. -/
structure NeverEchoes (path : JsString) (localText : Option JsString) (remoteText : JsString) :
    Prop where
  unchanged : canonicalizeMarkdown
      (normalizeConfigContent path (mergeConfigContent path localText remoteText)) =
    canonicalizeMarkdown (normalizeConfigContent path remoteText)
  machineLocal : hasVolatileConfigFields path = true → ∀ remote,
    parseConfigObject remoteText = some remote → Finite (.object (localMembers localText)) →
    ∃ result, parseConfigObject (mergeConfigContent path localText remoteText) = some result ∧
      ∀ key value, key ∈ graphVolatileKeys →
        ((key, value) ∈ result ↔ (key, value) ∈ localMembers localText)
  idempotent : normalizeConfigContent path (normalizeConfigContent path remoteText) =
    normalizeConfigContent path remoteText

theorem normalize_merge (path : JsString) (localText : Option JsString) (remoteText : JsString) :
    normalizeConfigContent path (mergeConfigContent path localText remoteText) =
      normalizeConfigContent path remoteText := by
  by_cases hpath : hasVolatileConfigFields path = true
  · cases hparse : parseConfigObject remoteText with
    | none =>
      unfold mergeConfigContent
      rw [if_pos hpath, hparse]
    | some remote =>
      have hlocal := wellFormed_localMembers localText
      have hremote := wellFormed_of_parse hparse
      rw [merge_of_parse hpath hparse, normalize_of_parse hpath hparse,
        normalize_written hpath (wellFormed_merged hlocal hremote) blank_lineFeed,
        semantic_merged (ordered_of_wellFormed hlocal) (ordered_of_wellFormed hremote)]
  · unfold mergeConfigContent
    rw [if_neg hpath]

theorem mem_merged (hfound : Ordered rank found) (hremote : Ordered rank remote)
    {member : JsString × Value} (hvolatile : isVolatile member.1 = true) :
    member ∈ merged found remote ↔ member ∈ found := by
  have hfilter := volatile_merged hfound hremote
  have hmem : ∀ {members : Members},
      member ∈ members ↔ member ∈ members.filter fun member => isVolatile member.1 := by
    intro members
    rw [mem_filter, and_iff_left hvolatile]
  rw [hmem, hfilter, ← hmem]

/-- A machine-local key without an infinity behind it comes back as it is on this machine. -/
theorem mem_reparsed_merged (hfound : WellFormed (.object found)) (hremote : Ordered rank remote)
    (hfinite : Finite (.object found)) {value : Value} (hvolatile : isVolatile key = true) :
    (key, value) ∈ (merged found remote).map reparsed ↔ (key, value) ∈ found := by
  have hordered := ordered_of_wellFormed hfound
  have hsame : ∀ member ∈ found, reparsed member = member := by
    intro member hmem
    cases hfound with
    | object _ hwell =>
      cases hfinite with
      | object hnone =>
        unfold reparsed
        rw [valueOf_form (hwell member hmem) (hnone member hmem)]
  constructor
  · intro hmem
    obtain ⟨member, hmerged, hmember⟩ := mem_map.mp hmem
    have hkey : member.1 = key := congrArg Prod.fst hmember
    have hold : member ∈ found := (mem_merged hordered hremote (hkey ▸ hvolatile)).mp hmerged
    rw [← hmember, hsame member hold]
    exact hold
  · intro hmem
    have hmerged : (key, value) ∈ merged found remote :=
      (mem_merged hordered hremote hvolatile).mpr hmem
    exact mem_map.mpr ⟨(key, value), hmerged, hsame _ hmem⟩

/-- A config apply never echoes: whatever text is here and whatever comes in, the file that is
written is synced as what came in, and the machine-local keys stay those of this machine. -/
theorem apply_never_echoes (path : JsString) (localText : Option JsString)
    (remoteText : JsString) : NeverEchoes path localText remoteText := by
  refine ⟨congrArg canonicalizeMarkdown (normalize_merge path localText remoteText), ?_,
    normalize_normalize path remoteText⟩
  intro hpath remote hparse hfinite
  have hlocal := wellFormed_localMembers localText
  have hremote := wellFormed_of_parse hparse
  have hmerged := wellFormed_merged hlocal hremote
  refine ⟨(merged (localMembers localText) remote).map reparsed, ?_, ?_⟩
  · rw [merge_of_parse hpath hparse]
    exact parse_written (ordered_of_wellFormed hmerged) jsonIndent blank_lineFeed
  · intro key value hkey
    exact mem_reparsed_merged hlocal (ordered_of_wellFormed hremote) hfinite
      (contains_iff_mem.mpr hkey)

end Havemind.ConfigNormalize
