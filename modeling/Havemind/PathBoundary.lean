import Havemind.PayloadCodec
import Havemind.Transaction

/-!
The vault path boundary: what an accepted path may look like. Most checks are
made on the normalised path and hold of it; the drive check, the backslash and
the control characters are looked for before the normalisation, so whether
they hold after it depends on what the normalisation can bring in. It brings
in one thing, the letter of a drive, from the Kelvin sign.
-/
namespace Havemind.PathBoundary

open JsText JsonText Utf16 VaultPath PayloadCodec List Transaction

/-- A Kelvin sign and a colon in front. -/
def kelvinDrivePath : JsString → Bool
  | sign :: next :: _ => sign = kelvinSign && next = driveColon
  | _ => false

/-- What is documented of the two methods, as far as the checks rest on it:
the lower case of ASCII texts, and which ASCII characters canonical
composition can produce. The Kelvin sign is the only character with a letter
as its canonical decomposition, and no colon, backslash or control character
is the composition of anything. -/
structure Documented (unicode : UnicodeMethods) : Prop where
  toLowerCase_ascii : ∀ text : JsString, (∀ unit ∈ text, unit.toNat < 128) →
    unicode.toLowerCase text = text.map asciiLower
  nfc_control : ∀ text, containsControlCharacter text = false →
    containsControlCharacter (unicode.normalizeNfc text) = false
  nfc_backslash : ∀ text, backslash ∉ text → backslash ∉ unicode.normalizeNfc text
  nfc_drive : ∀ text, windowsDrivePath (unicode.normalizeNfc text) = true →
    windowsDrivePath text = true ∨ kelvinDrivePath text = true
  nfc_kelvin : ∀ text, kelvinDrivePath text = true →
    windowsDrivePath (unicode.normalizeNfc text) = true

def configFolder : JsString := ascii ".obsidian"

def trashFolder : JsString := ascii ".trash"

def pluginsFolder : JsString := ascii "plugins"

/-- The first segment names the folder, in any case. -/
def RootIs (unicode : UnicodeMethods) (path folder : JsString) : Prop :=
  ∃ root rest, segmentsOf path = root :: rest ∧
    unicode.toLowerCase root = unicode.toLowerCase folder

/-- What the boundary promises of a path. -/
structure Boundary (unicode : UnicodeMethods) (path : JsString) : Prop where
  no_slash : path.head? ≠ some slash
  no_drive : windowsDrivePath path = false
  segments : ∀ segment ∈ segmentsOf path,
    segment ≠ [] ∧ segment ≠ ascii "." ∧ segment ≠ ascii ".."
  no_backslash : backslash ∉ path
  no_control : containsControlCharacter path = false
  reserved : ∀ folder ∈ [configFolder, trashFolder, conflictFolder], RootIs unicode path folder →
    isSyncableConfigPath unicode path = true
  no_plugins : ∀ root next rest, segmentsOf path = root :: next :: rest →
    unicode.toLowerCase root = unicode.toLowerCase configFolder →
    unicode.toLowerCase next ≠ unicode.toLowerCase pluginsFolder
  no_secrets : RootIs unicode path configFolder → secretStoreSegment ∉ segmentsOf path

section
variable {path : JsString}

theorem segmentsOf_cons {segment : JsString} (hsegment : slash ∉ segment) (rest : JsString) :
    segmentsOf (segment ++ slash :: rest) = segment :: segmentsOf rest :=
  splitOn_append_cons_self_of_not_mem hsegment rest

theorem head?_ne_slash (h : ∀ segment ∈ segmentsOf path, segment ≠ []) :
    path.head? ≠ some slash := by
  intro hhead
  cases path with
  | nil => cases hhead
  | cons unit rest =>
    obtain rfl : unit = slash := by simpa using hhead
    have hsegments : segmentsOf ([] ++ slash :: rest) = [] :: segmentsOf rest :=
      segmentsOf_cons (by simp) rest
    rw [nil_append] at hsegments
    exact h [] (by rw [hsegments]; exact mem_cons_self) rfl

theorem normalizeSeparators_eq (h : backslash ∉ path) : normalizeSeparators path = path := by
  unfold normalizeSeparators
  conv_rhs => rw [← map_id path]
  apply map_congr_left
  intro unit hunit
  have hne : unit ≠ backslash := fun heq => h (heq ▸ hunit)
  simp [hne]

/-- A path the allowlist lets through, by its second segment. -/
theorem segments_of_syncable {unicode : UnicodeMethods} (hbackslash : backslash ∉ path)
    (h : isSyncableConfigPath unicode path = true) :
    (∃ second rest, segmentsOf path = configFolder :: second :: rest ∧
      second ∈ [ascii "appearance.json", ascii "app.json", ascii "core-plugins.json",
        ascii "graph.json", ascii "hotkeys.json", ascii "snippets", ascii "themes"]) ∧
      secretStoreSegment ∉ segmentsOf path := by
  unfold isSyncableConfigPath at h
  rw [normalizeSeparators_eq hbackslash] at h
  dsimp only at h
  have hfolder : ∀ folder : JsString, slash ∉ folder → ∀ rest,
      segmentsOf (obsidianPrefix ++ folder ++ slash :: rest) =
        configFolder :: folder :: segmentsOf rest := by
    intro folder hfree rest
    have hshape : obsidianPrefix ++ folder ++ slash :: rest =
        configFolder ++ slash :: (folder ++ slash :: rest) := by
      rw [append_assoc]
      rfl
    rw [hshape, segmentsOf_cons (by decide), segmentsOf_cons hfree]
  split at h
  · cases h
  · split at h
    · cases h
    · rename_i hblocked
      refine ⟨?_, ?_⟩
      · split at h
        · rename_i hexact
          simp only [allowExact, mem_cons, not_mem_nil, or_false] at hexact
          rcases hexact with rfl | rfl | rfl | rfl | rfl
          · exact ⟨ascii "appearance.json", [], by decide +kernel, by decide⟩
          · exact ⟨ascii "app.json", [], by decide +kernel, by decide⟩
          · exact ⟨ascii "core-plugins.json", [], by decide +kernel, by decide⟩
          · exact ⟨ascii "graph.json", [], by decide +kernel, by decide⟩
          · exact ⟨ascii "hotkeys.json", [], by decide +kernel, by decide⟩
        · split at h
          · rename_i hsnippets
            obtain ⟨rest, rfl⟩ := isPrefixOf_iff_prefix.mp hsnippets
            exact ⟨ascii "snippets", segmentsOf rest, hfolder (ascii "snippets") (by decide) rest,
              by decide⟩
          · split at h
            · rename_i hthemes
              obtain ⟨rest, rfl⟩ := isPrefixOf_iff_prefix.mp hthemes
              exact ⟨ascii "themes", segmentsOf rest, hfolder (ascii "themes") (by decide) rest,
                by decide⟩
            · cases h
      · intro hmem
        apply hblocked
        apply any_eq_true.mpr
        exact ⟨secretStoreSegment, hmem, by simp⟩

end

section
variable {unicode : UnicodeMethods} {path result : JsString}

variable (D : Documented unicode)
include D

theorem toLowerCase_eq {text : JsString}
    (h : text.all fun unit => unit.toNat < 128 && asciiLower unit = unit) :
    unicode.toLowerCase text = text := by
  have hunits : ∀ unit ∈ text, unit.toNat < 128 ∧ asciiLower unit = unit := by
    intro unit hunit
    simpa using all_eq_true.mp h unit hunit
  rw [D.toLowerCase_ascii text fun unit hunit => (hunits unit hunit).1]
  conv_rhs => rw [← map_id text]
  exact map_congr_left fun unit hunit => (hunits unit hunit).2

omit D in
/-- What the checks say of an accepted path. -/
theorem canonicalizeVaultPath_ok (h : canonicalizeVaultPath unicode path = .ok result) :
    result = unicode.normalizeNfc path ∧ backslash ∉ path ∧ windowsDrivePath path = false ∧
      containsControlCharacter path = false ∧
      (∀ segment ∈ segmentsOf result, segment ≠ [] ∧ segment ≠ ascii "." ∧ segment ≠ ascii "..") ∧
      reservedRoot unicode result = false := by
  unfold canonicalizeVaultPath at h
  split at h
  · cases h
  · rename_i normalized hnormalized
    split at h
    · cases h
    · rename_i hreserved
      cases h
      unfold normalizedVaultPath at hnormalized
      split at hnormalized
      · cases hnormalized
      · split at hnormalized
        · cases hnormalized
        · rename_i hrelative
          split at hnormalized
          · cases hnormalized
          · rename_i hcontrol
            dsimp only at hnormalized
            split at hnormalized
            · cases hnormalized
            · rename_i hsegments
              cases hnormalized
              refine ⟨rfl, fun hmem => hrelative (Or.inr (Or.inl hmem)), ?_,
                Bool.not_eq_true _ ▸ hcontrol, ?_, Bool.not_eq_true _ ▸ hreserved⟩
              · rw [← Bool.not_eq_true]
                exact fun hdrive => hrelative (Or.inr (Or.inr hdrive))
              · intro segment hsegment
                have hclear : ¬ (segment.length = 0 ∨ segment = ascii "." ∨ segment = ascii "..") := by
                  intro hbad
                  apply hsegments
                  exact any_eq_true.mpr ⟨segment, hsegment, decide_eq_true hbad⟩
                refine ⟨fun hnil => hclear (Or.inl (by rw [hnil]; rfl)),
                  fun hdot => hclear (Or.inr (Or.inl hdot)),
                  fun hdots => hclear (Or.inr (Or.inr hdots))⟩

theorem syncable_of_reserved (h : reservedRoot unicode result = false) {folder : JsString}
    (hfolder : folder ∈ [configFolder, trashFolder, conflictFolder])
    (hroot : RootIs unicode result folder) : isSyncableConfigPath unicode result = true := by
  obtain ⟨root, rest, hsegments, hlower⟩ := hroot
  have hmem : unicode.toLowerCase root ∈ reservedRoots unicode := by
    rw [hlower]
    have hconfig : unicode.toLowerCase configFolder = configFolder := toLowerCase_eq D (by decide)
    have htrash : unicode.toLowerCase trashFolder = trashFolder := toLowerCase_eq D (by decide)
    simp only [mem_cons, not_mem_nil, or_false] at hfolder
    rcases hfolder with rfl | rfl | rfl
    · rw [hconfig]
      exact mem_cons_self
    · rw [htrash]
      exact mem_cons_of_mem _ mem_cons_self
    · exact mem_cons_of_mem _ (mem_cons_of_mem _ mem_cons_self)
  unfold reservedRoot at h
  rw [hsegments] at h
  dsimp only at h
  rw [if_neg (by simpa using hmem)] at h
  split at h
  · assumption
  · cases h

/-- The boundary of an accepted path, up to the drive. -/
theorem boundary_of_no_drive (h : canonicalizeVaultPath unicode path = .ok result)
    (hdrive : windowsDrivePath result = false) : Boundary unicode result := by
  obtain ⟨hresult, hbackslash, _, hcontrol, hsegments, hreserved⟩ := canonicalizeVaultPath_ok h
  have hclean : backslash ∉ result := hresult ▸ D.nfc_backslash path hbackslash
  have hconfig : ∀ root rest, segmentsOf result = root :: rest →
      unicode.toLowerCase root = unicode.toLowerCase configFolder →
      isSyncableConfigPath unicode result = true := fun root rest hroot hlower =>
    syncable_of_reserved D hreserved mem_cons_self ⟨root, rest, hroot, hlower⟩
  refine ⟨head?_ne_slash fun segment hsegment => (hsegments segment hsegment).1, hdrive, hsegments,
    hclean, hresult ▸ D.nfc_control path hcontrol,
    fun folder hfolder hroot => syncable_of_reserved D hreserved hfolder hroot, ?_, ?_⟩
  · intro root next rest hsplit hlower
    obtain ⟨⟨second, rest', hsplit', hsecond⟩, _⟩ :=
      segments_of_syncable hclean (hconfig root _ hsplit hlower)
    rw [hsplit] at hsplit'
    injection hsplit' with _ htail
    injection htail with hnext _
    subst hnext
    have hplugins : unicode.toLowerCase pluginsFolder = pluginsFolder :=
      toLowerCase_eq D (by decide)
    have hsame : unicode.toLowerCase next = next := by
      apply toLowerCase_eq D
      simp only [mem_cons, not_mem_nil, or_false] at hsecond
      rcases hsecond with rfl | rfl | rfl | rfl | rfl | rfl | rfl <;> decide
    rw [hsame, hplugins]
    rintro rfl
    exact absurd hsecond (by decide)
  · rintro ⟨root, rest, hsplit, hlower⟩
    exact (segments_of_syncable hclean (hconfig root rest hsplit hlower)).2

theorem boundary_iff (h : canonicalizeVaultPath unicode path = .ok result) :
    Boundary unicode result ↔ kelvinDrivePath path = false := by
  obtain ⟨hresult, _, hraw, _⟩ := canonicalizeVaultPath_ok h
  constructor
  · intro B
    by_contra hkelvin
    have hdrive := D.nfc_kelvin path (by simpa using hkelvin)
    rw [← hresult, B.no_drive] at hdrive
    cases hdrive
  · intro hkelvin
    apply boundary_of_no_drive D h
    by_contra hdrive
    rw [Bool.not_eq_false, hresult] at hdrive
    rcases D.nfc_drive path hdrive with hdrive' | hkelvin'
    · rw [hraw] at hdrive'
      cases hdrive'
    · rw [hkelvin] at hkelvin'
      cases hkelvin'

/-- A path that is its own canonical form has passed the drive check as it is. -/
theorem boundary_of_fixed (h : canonicalizeVaultPath unicode path = .ok path) :
    Boundary unicode path :=
  boundary_of_no_drive D h (canonicalizeVaultPath_ok h).2.2.1

omit D in
/-- What the checks ask of a path that is in normal form. -/
theorem canonicalizeVaultPath_fixed
    (hclear : ∀ segment ∈ segmentsOf path,
      segment ≠ [] ∧ segment ≠ ascii "." ∧ segment ≠ ascii "..")
    (hreserved : reservedRoot unicode path = false) (hnormal : unicode.normalizeNfc path = path)
    (hbackslash : backslash ∉ path) (hcontrol : containsControlCharacter path = false)
    (hdrive : windowsDrivePath path = false) : canonicalizeVaultPath unicode path = .ok path := by
  have hhead : path.head? ≠ some slash :=
    head?_ne_slash fun segment hsegment => (hclear segment hsegment).1
  have hne : path ≠ [] := by
    rintro rfl
    exact (hclear [] (by decide)).1 rfl
  have hlength : ¬ path.length = 0 := fun hzero => hne (length_eq_zero_iff.mp hzero)
  have hrelative : ¬ (path.head? = some slash ∨ backslash ∈ path ∨
      windowsDrivePath path = true) := by
    rintro (hslash | hback | hletter)
    · exact hhead hslash
    · exact hbackslash hback
    · rw [hdrive] at hletter
      cases hletter
  have hsegments : ¬ ((segmentsOf path).any fun segment =>
      segment.length = 0 ∨ segment = ascii "." ∨ segment = ascii "..") = true := by
    intro hany
    obtain ⟨segment, hsegment, hbad⟩ := any_eq_true.mp hany
    obtain ⟨hnil, hdot, hdots⟩ := hclear segment hsegment
    rcases of_decide_eq_true hbad with hzero | hbad | hbad
    · exact hnil (length_eq_zero_iff.mp hzero)
    · exact hdot hbad
    · exact hdots hbad
  have hnormalized : normalizedVaultPath unicode path = .ok path := by
    unfold normalizedVaultPath
    rw [if_neg hlength, if_neg hrelative, hcontrol, if_neg (by decide)]
    dsimp only
    rw [hnormal, if_neg hsegments]
  unfold canonicalizeVaultPath
  rw [hnormalized]
  dsimp only
  rw [hreserved, if_neg (by decide)]

end

section
variable {unicode : UnicodeMethods} {path : JsString} {decoded : DecodedRevisionPayload}
  {json : Json} {operation : RevisionOperation} {previousPath : Option JsString}

theorem assertCanonicalPath_ok {value : Option Json} {field : String}
    (h : assertCanonicalPath unicode value field = .ok path) :
    canonicalizeVaultPath unicode path = .ok path := by
  unfold assertCanonicalPath at h
  split at h
  · split at h
    · cases h
    · rename_i text canonical hcanonical
      split at h
      · cases h
      · rename_i hfixed
        cases h
        rw [hcanonical, not_not.mp hfixed]
  · cases h

theorem decodeText_paths
    (h : decodeContent.decodeText json operation path previousPath = .ok decoded) :
    decoded.path = path ∧ decoded.previousPath = previousPath := by
  unfold decodeContent.decodeText at h
  dsimp only at h
  split at h
  · split at h
    · cases h
      exact ⟨rfl, rfl⟩
    · cases h
      exact ⟨rfl, rfl⟩
    · cases h
  · split at h
    · cases h
      exact ⟨rfl, rfl⟩
    · cases h

theorem decodeContent_paths (h : decodeContent json operation path previousPath = .ok decoded) :
    decoded.path = path ∧ decoded.previousPath = previousPath := by
  unfold decodeContent at h
  split at h
  · split at h
    · split at h
      · cases h
      · split at h
        · obtain ⟨binaryContent, _, rfl⟩ := except_map_eq_ok.mp h
          exact ⟨rfl, rfl⟩
        · cases h
    · exact decodeText_paths h
  · exact decodeText_paths h

/-- The paths a decoded payload carries are canonical as they are. -/
theorem decodeRevisionPayload_paths {input : PayloadInput}
    (h : decodeRevisionPayload unicode input = .ok decoded) :
    canonicalizeVaultPath unicode decoded.path = .ok decoded.path ∧
      ∀ previousPath, decoded.previousPath = some previousPath →
        canonicalizeVaultPath unicode previousPath = .ok previousPath := by
  unfold decodeRevisionPayload at h
  dsimp only at h
  split at h
  · cases h
  · unfold decodeFields at h
    split at h
    · split at h
      · cases h
      · split at h
        · cases h
        · obtain ⟨path, hpath, h⟩ := except_bind_eq_ok.mp h
          have hpath := assertCanonicalPath_ok hpath
          dsimp only at h
          split at h
          · obtain ⟨hsame, hnone⟩ := decodeContent_paths h
            exact ⟨hsame ▸ hpath, fun previous hsome => by rw [hnone] at hsome; cases hsome⟩
          · obtain ⟨hsame, hnone⟩ := decodeContent_paths h
            exact ⟨hsame ▸ hpath, fun previous hsome => by rw [hnone] at hsome; cases hsome⟩
          · obtain ⟨previousPath, hprevious, h⟩ := except_bind_eq_ok.mp h
            obtain ⟨value, hvalue, rfl⟩ := except_map_eq_ok.mp hprevious
            obtain ⟨hsame, hvalue'⟩ := decodeContent_paths h
            refine ⟨hsame ▸ hpath, ?_⟩
            intro previous hsome
            rw [hvalue'] at hsome
            cases hsome
            exact assertCanonicalPath_ok hvalue
    · cases h

end

/-- The boundary holds of what is accepted exactly when no Kelvin sign stood in
for the letter of a drive; of what is decoded it always holds. -/
theorem canonicalizeVaultPath_boundary (unicode : UnicodeMethods) (D : Documented unicode) :
    (∀ path result, canonicalizeVaultPath unicode path = .ok result →
      (Boundary unicode result ↔ kelvinDrivePath path = false)) ∧
    ∀ input decoded, decodeRevisionPayload unicode input = .ok decoded →
      Boundary unicode decoded.path ∧
      ∀ previousPath, decoded.previousPath = some previousPath → Boundary unicode previousPath := by
  refine ⟨fun path result h => boundary_iff D h, ?_⟩
  intro input decoded h
  obtain ⟨hpath, hprevious⟩ := decodeRevisionPayload_paths h
  exact ⟨boundary_of_fixed D hpath, fun previousPath hsome =>
    boundary_of_fixed D (hprevious previousPath hsome)⟩

theorem isControl_scalarOfUnit (unit : CodeUnit) :
    isControl (scalarOfUnit unit).toNat = isControl unit.toNat := by
  have hlt := unit.toNat_lt
  by_cases hunit : isSurrogate unit = true
  · have hrange : 0xD800 ≤ unit.toNat ∧ unit.toNat < 0xE000 := by simpa [isSurrogate] using hunit
    have hunit' : isControl unit.toNat = false := by
      rw [isControl, decide_eq_false_iff_not]
      omega
    rw [scalarOfUnit, if_pos hunit, hunit']
    decide
  · have hrange : ¬ (0xD800 ≤ unit.toNat ∧ unit.toNat < 0xE000) := by
      simpa [isSurrogate] using hunit
    rw [scalarOfUnit, if_neg hunit, toNat_ofNat_of_valid (by omega)]

theorem isControl_pair {high low : CodeUnit} (h : isHighSurrogate high = true)
    (hl : isLowSurrogate low = true) :
    isControl (scalarOfPair high low).toNat = false ∧ isControl high.toNat = false ∧
      isControl low.toNat = false := by
  have hhigh : 0xD800 ≤ high.toNat ∧ high.toNat < 0xDC00 := by simpa [isHighSurrogate] using h
  have hlow : 0xDC00 ≤ low.toNat ∧ low.toNat < 0xE000 := by simpa [isLowSurrogate] using hl
  have hnat : (scalarOfPair high low).toNat =
      0x10000 + (high.toNat - 0xD800) * 0x400 + (low.toNat - 0xDC00) :=
    toNat_ofNat_of_valid (by omega)
  simp only [isControl, decide_eq_false_iff_not]
  omega

/-- No pair of surrogates is a control character: the units can be read one by one. -/
theorem containsControlCharacter_eq (text : JsString) :
    containsControlCharacter text = text.any fun unit => isControl unit.toNat := by
  unfold containsControlCharacter
  induction text using scalars.induct with
  | case1 => rfl
  | case2 unit => rw [scalars, any_cons, any_cons, isControl_scalarOfUnit]; rfl
  | case3 unit next rest hpair ih =>
    obtain ⟨hscalar, hhigh, hlow⟩ := isControl_pair hpair.1 hpair.2
    rw [scalars, if_pos hpair, any_cons, any_cons, any_cons, hscalar, hhigh, hlow, ih]
    simp only [Bool.false_or]
  | case4 unit next rest hpair ih =>
    rw [scalars, if_neg hpair, any_cons, any_cons, isControl_scalarOfUnit, ih]

/-- The two methods on texts whose only character beyond ASCII that they change
is the Kelvin sign. -/
def kelvinMethods : UnicodeMethods where
  normalizeNfc := List.map fun unit => if unit = kelvinSign then 75 else unit
  toLowerCase := List.map fun unit => if unit = kelvinSign then 107 else asciiLower unit

theorem kelvinMethods_documented : Documented kelvinMethods where
  toLowerCase_ascii text h := by
    apply map_congr_left
    intro unit hunit
    have hne : unit ≠ kelvinSign := by
      rintro rfl
      exact absurd (h _ hunit) (by decide)
    rw [if_neg hne]
  nfc_control text h := by
    rw [containsControlCharacter_eq] at h ⊢
    rw [any_eq_false] at h ⊢
    intro unit hunit
    obtain ⟨source, hsource, rfl⟩ := mem_map.mp hunit
    split
    · decide
    · exact h source hsource
  nfc_backslash text h hmem := by
    obtain ⟨source, hsource, heq⟩ := mem_map.mp hmem
    split at heq
    · exact absurd heq (by decide)
    · exact h (heq ▸ hsource)
  nfc_drive text h := by
    rcases text with _ | ⟨letter, _ | ⟨next, rest⟩⟩
    · cases h
    · cases h
    · have hcolon : next = driveColon := by
        have hnext := (Bool.and_eq_true_iff.mp h).2
        simp only [decide_eq_true_eq] at hnext
        split at hnext
        · exact absurd hnext (by decide)
        · exact hnext
      subst hcolon
      by_cases hletter : letter = kelvinSign
      · right
        subst hletter
        rfl
      · left
        have hascii := (Bool.and_eq_true_iff.mp h).1
        dsimp only at hascii
        rw [if_neg hletter] at hascii
        simp [windowsDrivePath, hascii]
  nfc_kelvin text h := by
    rcases text with _ | ⟨sign, _ | ⟨next, rest⟩⟩
    · cases h
    · cases h
    · obtain ⟨rfl, rfl⟩ : sign = kelvinSign ∧ next = driveColon := by
        simpa [kelvinDrivePath] using h
      rfl

theorem canonicalizeVaultPath_boundary_kelvin :
    (∀ path result, canonicalizeVaultPath kelvinMethods path = .ok result →
      (Boundary kelvinMethods result ↔ kelvinDrivePath path = false)) ∧
    ∀ input decoded, decodeRevisionPayload kelvinMethods input = .ok decoded →
      Boundary kelvinMethods decoded.path ∧
      ∀ previousPath, decoded.previousPath = some previousPath →
        Boundary kelvinMethods previousPath :=
  canonicalizeVaultPath_boundary kelvinMethods kelvinMethods_documented

/-- A Kelvin sign, a colon and a path behind it are accepted as a path on drive K. -/
theorem canonicalizeVaultPath_drive :
    Documented kelvinMethods ∧
      canonicalizeVaultPath kelvinMethods (kelvinSign :: ascii ":/x.md") =
        .ok (ascii "K:/x.md") ∧
      ¬ Boundary kelvinMethods (ascii "K:/x.md") := by
  refine ⟨kelvinMethods_documented, by decide +kernel, ?_⟩
  intro B
  exact absurd B.no_drive (by decide)

end Havemind.PathBoundary
