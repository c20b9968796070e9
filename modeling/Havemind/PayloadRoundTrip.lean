import Havemind.Base64Slices
import Havemind.EnvelopeBytes

/-!
A payload comes back as it was built. The bytes of a built envelope survive
base64, UTF-8 and JSON, the parsed object is the one that was validated, and
the decoder's checks are among those the schema has made.
-/
namespace Havemind.PayloadRoundTrip

open JsText JsonText Utf16 VaultPath PayloadCodec Base64Slices RevisionSchema RevisionPayload List
  Transaction
open EnvelopeBytes
open VaultPayload (SyncContentKind canonicalizeMarkdown)
open RevisionEnvelope (headerParents)

section
variable {platform : Platform} {input : BuildRevisionEnvelopeInput}
  {members : List (JsString × Json)} {path : JsString} {payload : Json}

theorem written_legacyRecipe (content : Option Json) : Written (legacyRecipe content) := by
  unfold legacyRecipe
  split
  · rename_i text
    refine .object ?_
    intro member hmember
    simp only [mem_cons, not_mem_nil, or_false] at hmember
    rcases hmember with rfl | rfl
    · exact .number isNatural_one
    · refine .array ?_
      intro item hitem
      split at hitem
      · cases hitem
      · obtain rfl := mem_singleton.mp hitem
        refine .object ?_
        intro member hmember
        simp only [mem_cons, not_mem_nil, or_false] at hmember
        rcases hmember with rfl | rfl <;> exact .string _
  · exact .null

theorem previousPathMembers_cases (h : previousPathMembers platform input = .ok members) :
    (input.operation ≠ .rename ∧ members = []) ∨
      ∃ previousPath canonical, input.operation = .rename ∧ input.previousPath = some previousPath ∧
        canonicalizeVaultPath platform.toUnicodeMethods previousPath = .ok canonical ∧
        members = [(ascii "previousPath", .string canonical)] := by
  unfold previousPathMembers at h
  split at h
  · rename_i hrename
    split at h
    · cases h
    · rename_i previousPath hprevious
      unfold canonicalize at h
      cases hcanonical : canonicalizeVaultPath platform.toUnicodeMethods previousPath with
      | error message => rw [hcanonical] at h; cases h
      | ok canonical =>
        rw [hcanonical] at h
        cases h
        exact Or.inr ⟨previousPath, canonical, hrename, hprevious, hcanonical, rfl⟩
  · rename_i hother
    cases h
    exact Or.inl ⟨hother, rfl⟩

/-- The three shapes of a payload. -/
inductive Shape (platform : Platform) (input : BuildRevisionEnvelopeInput) (path : JsString) :
    List (JsString × Json) → Prop
  | tombstone : input.operation = .delete → Shape platform input path
      [(ascii "schemaVersion", .number (ascii "1")), (ascii "operation", .string (ascii "delete")),
        (ascii "path", .string path), (ascii "content", .null), (ascii "plaintextHash", .null)]
  | binary {previous : List (JsString × Json)} {bytes : List Byte} : input.operation ≠ .delete →
      input.kind = some .binary → previousPathMembers platform input = .ok previous →
      base64ToBytes (input.binaryContentBase64.getD []) = some bytes → Shape platform input path
      ([(ascii "schemaVersion", .number (ascii "1")),
        (ascii "operation", .string input.operation.toRevision.text),
        (ascii "kind", .string (ascii "binary")), (ascii "path", .string path)] ++ previous ++
        [(ascii "contentBase64", .string (input.binaryContentBase64.getD [])),
          (ascii "blobByteHash", .string (hashBlob platform bytes))])
  | markdown {previous : List (JsString × Json)} : input.operation ≠ .delete →
      input.kind ≠ some .binary → previousPathMembers platform input = .ok previous →
      Shape platform input path
      ([(ascii "schemaVersion", .number (ascii "1")),
        (ascii "operation", .string input.operation.toRevision.text),
        (ascii "path", .string path)] ++ previous ++
        [(ascii "content", .string (canonicalizeMarkdown (input.content.getD []))),
          (ascii "plaintextHash", .string
            (hashPlaintext platform (canonicalizeMarkdown (input.content.getD []))))])

theorem buildInnerPayload_shape (h : buildInnerPayload platform input path = .ok members) :
    Shape platform input path members := by
  unfold buildInnerPayload at h
  dsimp only at h
  split at h
  · rename_i hdelete
    cases h
    rw [hdelete]
    exact .tombstone hdelete
  · rename_i hdelete
    split at h
    · rename_i hkind
      cases hprevious : previousPathMembers platform input with
      | error thrown => rw [hprevious] at h; cases h
      | ok previous =>
        rw [hprevious, Except.bind] at h
        split at h
        · cases h
        · rename_i bytes hbytes
          cases h
          exact .binary hdelete hkind hprevious hbytes
    · rename_i hkind
      cases hprevious : previousPathMembers platform input with
      | error thrown => rw [hprevious] at h; cases h
      | ok previous =>
        rw [hprevious] at h
        cases h
        exact .markdown hdelete hkind hprevious

/-- The recipe member of a payload: absent, or the last one. -/
def recipeMembers (input : BuildRevisionEnvelopeInput) (members : List (JsString × Json)) :
    List (JsString × Json) :=
  if (headerParents input.parentRevisionIds).length ≥ 2 then
    [(ascii "recipe", legacyRecipe ((Json.object members).get (ascii "content")))]
  else []

/-- Everything `buildRevisionEnvelope` has checked when it answers. -/
structure Built (platform : Platform) (input : BuildRevisionEnvelopeInput)
    (env : BuiltRevisionEnvelope) (path : JsString) (members : List (JsString × Json)) : Prop where
  path_eq : canonicalizeVaultPath platform.toUnicodeMethods input.path = .ok path
  inner : buildInnerPayload platform input path = .ok members
  header_eq : env.header = envelopeHeader input
  valid : validateRevisionPayloadAgainstHeader platform.toUnicodeMethods platform.isIdentifier
    (envelopeHeader input) (.object (members ++ recipeMembers input members)) =
      .ok (envelopeHeader input, .object (members ++ recipeMembers input members))
  payload_eq : env.payloadBase64 =
    bytesToBase64 (encodeUtf8 (stringify (.object (members ++ recipeMembers input members))))
  hash_eq : env.contentHash =
    sha256HexOf platform (encodeUtf8 (stringify (.object (members ++ recipeMembers input members))))

theorem validate_ok {header : ProtectedRevisionHeader} {value : ProtectedRevisionHeader × Json}
    (h : validateRevisionPayloadAgainstHeader platform.toUnicodeMethods platform.isIdentifier
      header payload = .ok value) :
    value = (header, payload) ∧
      innerRevisionPayloadSchema platform.toUnicodeMethods payload = true := by
  unfold validateRevisionPayloadAgainstHeader at h
  split at h
  · cases h
  · split at h
    · cases h
    · rename_i hschema
      split at h
      · cases h
      · repeat' split at h
        all_goals cases h
        exact ⟨rfl, by simpa using hschema⟩

theorem payloadObject_ok (h : payloadObject platform input path = .ok payload) :
    ∃ members, buildInnerPayload platform input path = .ok members ∧
      payload = .object (members ++ recipeMembers input members) := by
  unfold payloadObject at h
  cases hinner : buildInnerPayload platform input path with
  | error thrown => rw [hinner] at h; cases h
  | ok members =>
    rw [hinner] at h
    refine ⟨members, rfl, ?_⟩
    simp only [Except.map, Except.ok.injEq] at h
    rw [← h]
    unfold recipeMembers
    split
    · rfl
    · rw [append_nil]

theorem buildRevisionEnvelope_built {env : BuiltRevisionEnvelope}
    (h : buildRevisionEnvelope platform input = .ok env) :
    ∃ path members, Built platform input env path members := by
  obtain ⟨path, hpath, h⟩ := except_bind_eq_ok.mp h
  obtain ⟨payload, hpayload, h⟩ := except_bind_eq_ok.mp h
  obtain ⟨value, hvalid, h⟩ := except_bind_eq_ok.mp h
  obtain ⟨members, hinner, rfl⟩ := payloadObject_ok hpayload
  obtain ⟨rfl, _⟩ := validate_ok hvalid
  have hcanonical : canonicalizeVaultPath platform.toUnicodeMethods input.path = .ok path := by
    unfold canonicalize at hpath
    split at hpath
    · cases hpath
    · rename_i canonical heq
      cases hpath
      exact heq
  refine ⟨path, members, ?_⟩
  dsimp only at h
  split at h
  · cases h
  · cases h
    exact ⟨hcanonical, hinner, rfl, hvalid, rfl, rfl⟩

end

section
variable {unicode : UnicodeMethods} {json : Json} {path : JsString} {operation : RevisionOperation}
  {previousPath : Option JsString}

theorem get_of_onlyKeys {keys : List JsString} {key : JsString} (h : onlyKeys keys json = true)
    (hkey : key ∉ keys) : json.get key = none := by
  cases json with
  | object members =>
    rw [Json.get, Option.map_eq_none_iff, List.find?_eq_none]
    intro member hmember
    have hin := all_eq_true.mp h member (mem_reverse.mp hmember)
    simp only [decide_eq_true_eq] at hin ⊢
    rintro rfl
    exact hkey (contains_iff_mem.mp hin)
  | _ => rfl

theorem schema_path (h : innerRevisionPayloadSchema unicode json = true) :
    stringField (canonicalPath unicode) (json.get (ascii "path")) = true := by
  unfold innerRevisionPayloadSchema contentRevisionPayloadSchema binaryRevisionPayloadSchema
    tombstoneRevisionPayloadSchema at h
  simp only [Bool.or_eq_true, Bool.and_eq_true] at h
  rcases h with (h | h) | h
  · exact h.1.1.1.1.2
  · exact h.1.1.1.1.2
  · exact h.1.1.2

theorem schema_previousPath (h : innerRevisionPayloadSchema unicode json = true)
    (hdelete : stringField (· = ascii "delete") (json.get (ascii "operation")) = false) :
    optionalStringField (canonicalPath unicode) (json.get (ascii "previousPath")) = true := by
  unfold innerRevisionPayloadSchema contentRevisionPayloadSchema binaryRevisionPayloadSchema
    tombstoneRevisionPayloadSchema at h
  simp only [Bool.or_eq_true, Bool.and_eq_true] at h
  rcases h with (h | h) | h
  · exact h.1.1.1.2
  · exact h.1.1.1.2
  · rw [h.1.1.1.2] at hdelete
    cases hdelete

theorem schema_base64 (h : innerRevisionPayloadSchema unicode json = true)
    (hkind : json.get (ascii "kind") ≠ none) :
    stringField isCanonicalBase64 (json.get (ascii "contentBase64")) = true := by
  unfold innerRevisionPayloadSchema contentRevisionPayloadSchema binaryRevisionPayloadSchema
    tombstoneRevisionPayloadSchema at h
  simp only [Bool.or_eq_true, Bool.and_eq_true] at h
  rcases h with (h | h) | h
  · exact absurd (get_of_onlyKeys h.1.1.1.1.1.1.1 (by decide)) hkind
  · exact h.1.1.2
  · exact absurd (get_of_onlyKeys h.1.1.1.1.1 (by decide)) hkind

theorem assertCanonicalPath_of_schema (h : canonicalPath unicode path = true) (field : String) :
    assertCanonicalPath unicode (some (.string path)) field = .ok path := by
  unfold canonicalPath at h
  unfold assertCanonicalPath
  cases hcanonical : canonicalizeVaultPath unicode path with
  | error message => rw [hcanonical] at h; cases h
  | ok canonical =>
    rw [hcanonical] at h
    have hsame : canonical = path := by simpa using h
    dsimp only
    rw [hcanonical]
    exact if_neg fun hne => hne hsame

/-- The decoder reaches the content once the fields before it are as the schema
wants them. -/
theorem decodeFields_eq {members : List (JsString × Json)}
    (hversion : (Json.object members).get (ascii "schemaVersion") = some (.number (ascii "1")))
    (hoperation : (Json.object members).get (ascii "operation") = some (.string operation.text))
    (hpath : (Json.object members).get (ascii "path") = some (.string path))
    (hcanonical : canonicalPath unicode path = true)
    (hprevious : (Json.object members).get (ascii "previousPath") = previousPath.map .string)
    (hcanonical' : ∀ p ∈ previousPath, canonicalPath unicode p = true) :
    decodeFields unicode (.object members) =
      decodeContent (.object members) operation path previousPath := by
  have hone : isVersionOne (some (.number (ascii "1"))) = true := by decide
  have hop : operationOf (some (.string operation.text)) = some operation :=
    operationOfText_text operation
  rw [decodeFields, hversion, hone, hoperation, hop, hpath,
    assertCanonicalPath_of_schema hcanonical, hprevious]
  cases previousPath with
  | none => rfl
  | some previousPath =>
    have hassert := assertCanonicalPath_of_schema (hcanonical' previousPath rfl) "previousPath"
    simp only [Option.map_some, hassert]
    rfl

theorem decodeContent_tombstone (hkind : json.get (ascii "kind") = none)
    (hcontent : json.get (ascii "content") = some .null) :
    decodeContent json .delete path previousPath =
      .ok ⟨.delete, path, previousPath, .markdown, none, none⟩ := by
  rw [decodeContent, hkind]
  dsimp only
  rw [decodeContent.decodeText, if_pos rfl, hcontent]

theorem decodeContent_text {content : JsString} (hoperation : operation ≠ .delete)
    (hkind : json.get (ascii "kind") = none)
    (hcontent : json.get (ascii "content") = some (.string content)) :
    decodeContent json operation path previousPath =
      .ok ⟨operation, path, previousPath, .markdown, some content, none⟩ := by
  rw [decodeContent, hkind]
  dsimp only
  rw [decodeContent.decodeText, if_neg hoperation, hcontent]

theorem decodeContent_binary {base64 : JsString} {bytes : List Byte}
    (hoperation : operation ≠ .delete)
    (hkind : json.get (ascii "kind") = some (.string (ascii "binary")))
    (hcontent : json.get (ascii "contentBase64") = some (.string base64))
    (hcanonical : isCanonicalBase64 base64 = true) (hbytes : base64ToBytes base64 = some bytes) :
    decodeContent json operation path previousPath =
      .ok ⟨operation, path, previousPath, .binary, none, some bytes⟩ := by
  have hdecode : decodeBase64 base64 = .ok bytes := by
    rw [decodeBase64, hcanonical, hbytes]
    rfl
  rw [decodeContent, hkind]
  dsimp only
  rw [if_pos rfl, if_neg hoperation, hcontent]
  dsimp only
  rw [hdecode]
  rfl

end

section
variable {platform : Platform} {input : BuildRevisionEnvelopeInput} {path : JsString}
  {members : List (JsString × Json)} {unicode : UnicodeMethods} {previousPath : Option JsString}

/-- What decoding a built payload gives back. -/
structure Decodes (platform : Platform) (input : BuildRevisionEnvelopeInput)
    (decoded : DecodedRevisionPayload) : Prop where
  operation : decoded.operation = input.operation.toRevision
  path : canonicalizeVaultPath platform.toUnicodeMethods input.path = .ok decoded.path
  previousPath : input.operation = .rename → ∃ previousPath canonical,
    input.previousPath = some previousPath ∧
    canonicalizeVaultPath platform.toUnicodeMethods previousPath = .ok canonical ∧
    decoded.previousPath = some canonical
  no_previousPath : input.operation ≠ .rename → decoded.previousPath = none
  kind : decoded.kind =
    if input.operation = .delete then .markdown else input.kind.getD .markdown
  content : decoded.content =
    if input.operation = .delete ∨ input.kind = some .binary then none
    else some (canonicalizeMarkdown (input.content.getD []))
  binaryContent : decoded.binaryContent =
    if input.operation ≠ .delete ∧ input.kind = some .binary then
      base64ToBytes (input.binaryContentBase64.getD [])
    else none

theorem get_recipe {key : JsString} (hkey : key ≠ ascii "recipe") :
    (Json.object (members ++ recipeMembers input members)).get key =
      (Json.object members).get key := by
  unfold recipeMembers
  split
  · rw [Json.get, reverse_append, reverse_singleton, singleton_append,
      List.find?_cons_of_neg (by simpa using Ne.symm hkey)]
    rfl
  · rw [append_nil]

/-- The previous path a payload carries, as its member and as its value. -/
theorem exists_previousPath {previous : List (JsString × Json)}
    (h : previousPathMembers platform input = .ok previous) : ∃ previousPath : Option JsString,
      previous = (previousPath.map fun p => (ascii "previousPath", Json.string p)).toList ∧
      (input.operation = .rename → ∃ given canonical, input.previousPath = some given ∧
        canonicalizeVaultPath platform.toUnicodeMethods given = .ok canonical ∧
        previousPath = some canonical) ∧
      (input.operation ≠ .rename → previousPath = none) := by
  rcases previousPathMembers_cases h with ⟨hother, rfl⟩ | ⟨given, canonical, hrename, hgiven, hok, rfl⟩
  · exact ⟨none, rfl, fun h => absurd h hother, fun _ => rfl⟩
  · exact ⟨some canonical, rfl, fun _ => ⟨given, canonical, hgiven, hok, rfl⟩,
      fun h => absurd hrename h⟩

theorem operation_ne_delete (h : input.operation ≠ .delete) :
    input.operation.toRevision ≠ .delete ∧ input.operation.toRevision.text ≠ ascii "delete" := by
  cases hop : input.operation with
  | delete => exact absurd hop h
  | _ => exact ⟨by decide, by decide⟩

/-- The schema has checked the previous path a payload carries. -/
theorem canonicalPath_of_optional
    (h : optionalStringField (canonicalPath unicode) (previousPath.map .string) = true) :
    ∀ p ∈ previousPath, canonicalPath unicode p = true := by
  rintro p hp
  obtain rfl : previousPath = some p := hp
  exact h

theorem decodeFields_tombstone (hdelete : input.operation = .delete)
    (hpath : canonicalizeVaultPath platform.toUnicodeMethods input.path = .ok path)
    (hmembers : members = [(ascii "schemaVersion", .number (ascii "1")),
      (ascii "operation", .string (ascii "delete")), (ascii "path", .string path),
      (ascii "content", .null), (ascii "plaintextHash", .null)])
    (hschema : innerRevisionPayloadSchema platform.toUnicodeMethods
      (.object (members ++ recipeMembers input members)) = true) :
    ∃ decoded, decodeFields platform.toUnicodeMethods
      (.object (members ++ recipeMembers input members)) = .ok decoded ∧
        Decodes platform input decoded := by
  have hpathField := schema_path hschema
  have hget : ∀ key, key ≠ ascii "recipe" →
      (Json.object (members ++ recipeMembers input members)).get key =
        (Json.object members).get key := fun key => get_recipe
  rw [hget _ (by decide)] at hpathField
  subst hmembers
  have hcanonical : canonicalPath platform.toUnicodeMethods path = true := hpathField
  have hoperation : (Json.object (_ ++ recipeMembers input _)).get (ascii "operation") =
      some (.string RevisionOperation.delete.text) := hget _ (by decide)
  have hpathMember : (Json.object (_ ++ recipeMembers input _)).get (ascii "path") =
      some (.string path) := hget _ (by decide)
  have hpreviousMember : (Json.object (_ ++ recipeMembers input _)).get (ascii "previousPath") =
      (none : Option JsString).map .string := hget _ (by decide)
  refine ⟨⟨.delete, path, none, .markdown, none, none⟩, ?_, ?_⟩
  · rw [decodeFields_eq (hget _ (by decide)) hoperation hpathMember hcanonical hpreviousMember
      (fun p hp => by cases hp)]
    exact decodeContent_tombstone (hget _ (by decide)) (hget _ (by decide))
  · refine ⟨?_, hpath, ?_, fun _ => rfl, ?_, ?_, ?_⟩
    · rw [hdelete]
      rfl
    · intro hrename
      rw [hdelete] at hrename
      cases hrename
    · rw [if_pos hdelete]
    · rw [if_pos (Or.inl hdelete)]
    · rw [if_neg fun h => h.1 hdelete]

/-- What the schema has checked of the paths of a payload that is no tombstone. -/
theorem schema_paths {json : Json} {operation : JsString}
    (hschema : innerRevisionPayloadSchema unicode json = true)
    (hoperation : json.get (ascii "operation") = some (.string operation))
    (htext : operation ≠ ascii "delete") (hpath : json.get (ascii "path") = some (.string path))
    (hprevious : json.get (ascii "previousPath") = previousPath.map .string) :
    canonicalPath unicode path = true ∧ ∀ p ∈ previousPath, canonicalPath unicode p = true := by
  have hpathField := schema_path hschema
  have hprevField := schema_previousPath hschema (by
    rw [hoperation]
    exact decide_eq_false htext)
  rw [hpath] at hpathField
  rw [hprevious] at hprevField
  exact ⟨hpathField, canonicalPath_of_optional hprevField⟩

/-- The members a payload has that is no tombstone, whatever its kind. -/
structure Carries (json : Json) (operation : RevisionOperation) (path : JsString)
    (previousPath : Option JsString) : Prop where
  version : json.get (ascii "schemaVersion") = some (.number (ascii "1"))
  operation : json.get (ascii "operation") = some (.string operation.text)
  path : json.get (ascii "path") = some (.string path)
  previousPath : json.get (ascii "previousPath") = previousPath.map .string

theorem decodeFields_shape
    (hpath : canonicalizeVaultPath platform.toUnicodeMethods input.path = .ok path)
    (hshape : Shape platform input path members)
    (hschema : innerRevisionPayloadSchema platform.toUnicodeMethods
      (.object (members ++ recipeMembers input members)) = true) :
    ∃ decoded, decodeFields platform.toUnicodeMethods
      (.object (members ++ recipeMembers input members)) = .ok decoded ∧
        Decodes platform input decoded := by
  have hget : ∀ key, key ≠ ascii "recipe" →
      (Json.object (members ++ recipeMembers input members)).get key =
        (Json.object members).get key := fun key => get_recipe
  generalize hjson : members ++ recipeMembers input members = all at *
  cases hshape with
  | tombstone hdelete =>
    subst hjson
    exact decodeFields_tombstone hdelete hpath rfl hschema
  | @binary previous bytes hdelete hkind hprevious hbytes =>
    obtain ⟨previousPath, rfl, hrename, hother⟩ := exists_previousPath hprevious
    obtain ⟨hop, htext⟩ := operation_ne_delete hdelete
    have carried : Carries (.object all) input.operation.toRevision path previousPath := by
      constructor <;> rw [hget _ (by decide)] <;> cases previousPath <;> rfl
    have hkindMember : (Json.object all).get (ascii "kind") =
        some (.string (ascii "binary")) := by
      rw [hget _ (by decide)]
      cases previousPath <;> rfl
    have hbase64 : (Json.object all).get (ascii "contentBase64") =
        some (.string (input.binaryContentBase64.getD [])) := by
      rw [hget _ (by decide)]
      cases previousPath <;> rfl
    obtain ⟨hcanonical, hcanonical'⟩ :=
      schema_paths hschema carried.operation htext carried.path carried.previousPath
    have hbase64Field := schema_base64 hschema (by rw [hkindMember]; simp)
    rw [hbase64] at hbase64Field
    refine ⟨⟨input.operation.toRevision, path, previousPath, .binary, none, some bytes⟩, ?_, ?_⟩
    · rw [decodeFields_eq carried.version carried.operation carried.path hcanonical
          carried.previousPath hcanonical',
        decodeContent_binary hop hkindMember hbase64 hbase64Field hbytes]
    · refine ⟨rfl, hpath, hrename, hother, ?_, ?_, ?_⟩
      · rw [if_neg hdelete, hkind]
        rfl
      · rw [if_pos (Or.inr hkind)]
      · rw [if_pos ⟨hdelete, hkind⟩, hbytes]
  | @markdown previous hdelete hkind hprevious =>
    obtain ⟨previousPath, rfl, hrename, hother⟩ := exists_previousPath hprevious
    obtain ⟨hop, htext⟩ := operation_ne_delete hdelete
    have carried : Carries (.object all) input.operation.toRevision path previousPath := by
      constructor <;> rw [hget _ (by decide)] <;> cases previousPath <;> rfl
    have hkindMember : (Json.object all).get (ascii "kind") = none := by
      rw [hget _ (by decide)]
      cases previousPath <;> rfl
    have hcontent : (Json.object all).get (ascii "content") =
        some (.string (canonicalizeMarkdown (input.content.getD []))) := by
      rw [hget _ (by decide)]
      cases previousPath <;> rfl
    obtain ⟨hcanonical, hcanonical'⟩ :=
      schema_paths hschema carried.operation htext carried.path carried.previousPath
    have hmarkdown : input.kind.getD .markdown = .markdown := by
      cases hinput : input.kind with
      | none => rfl
      | some kind =>
        cases kind with
        | markdown => rfl
        | binary => exact absurd hinput hkind
    refine ⟨⟨input.operation.toRevision, path, previousPath, .markdown,
      some (canonicalizeMarkdown (input.content.getD [])), none⟩, ?_, ?_⟩
    · rw [decodeFields_eq carried.version carried.operation carried.path hcanonical
          carried.previousPath hcanonical',
        decodeContent_text hop hkindMember hcontent]
    · refine ⟨rfl, hpath, hrename, hother, ?_, ?_, ?_⟩
      · rw [if_neg hdelete, hmarkdown]
      · rw [if_neg fun h => h.elim hdelete hkind]
      · rw [if_neg fun h => hkind h.2]

theorem written_members (hshape : Shape platform input path members) :
    Written (.object (members ++ recipeMembers input members)) := by
  have hprevious : ∀ {previous : List (JsString × Json)},
      previousPathMembers platform input = .ok previous → ∀ m ∈ previous, Written m.2 := by
    intro previous h m hm
    obtain ⟨previousPath, rfl, _⟩ := exists_previousPath h
    cases previousPath with
    | none => simp at hm
    | some p =>
      obtain rfl : m = (ascii "previousPath", Json.string p) := by simpa using hm
      exact .string _
  refine .object ?_
  intro m hm
  rcases mem_append.mp hm with hmember | hrecipe
  · cases hshape with
    | tombstone hdelete =>
      simp only [mem_cons, not_mem_nil, or_false] at hmember
      rcases hmember with rfl | rfl | rfl | rfl | rfl
      · exact .number isNatural_one
      · exact .string _
      · exact .string _
      · exact .null
      · exact .null
    | binary hdelete hkind hprev hbytes =>
      simp only [mem_append, mem_cons, not_mem_nil, or_false] at hmember
      rcases hmember with ((rfl | rfl | rfl | rfl) | hmem) | rfl | rfl
      · exact .number isNatural_one
      · exact .string _
      · exact .string _
      · exact .string _
      · exact hprevious hprev m hmem
      · exact .string _
      · exact .string _
    | markdown hdelete hkind hprev =>
      simp only [mem_append, mem_cons, not_mem_nil, or_false] at hmember
      rcases hmember with ((rfl | rfl | rfl) | hmem) | rfl | rfl
      · exact .number isNatural_one
      · exact .string _
      · exact .string _
      · exact hprevious hprev m hmem
      · exact .string _
      · exact .string _
  · unfold recipeMembers at hrecipe
    split at hrecipe
    · obtain rfl := mem_singleton.mp hrecipe
      exact written_legacyRecipe _
    · cases hrecipe

end

/-- The decoder on the payload of a built envelope. -/
theorem Built.decodes {platform : Platform} {input : BuildRevisionEnvelopeInput}
    {env : BuiltRevisionEnvelope} {path : JsString} {members : List (JsString × Json)}
    (B : Built platform input env path members) :
    ∃ bytes decoded, base64ToBytes env.payloadBase64 = some bytes ∧
      decodeRevisionPayload platform.toUnicodeMethods (.bytes bytes) = .ok decoded ∧
      Decodes platform input decoded ∧
      (decodeUtf8 bytes).bind parse = some (.object (members ++ recipeMembers input members)) := by
  have hshape := buildInnerPayload_shape B.inner
  have hparse := parse_decodeUtf8_stringify (written_members hshape)
  obtain ⟨decoded, hdecoded, hmatch⟩ :=
    decodeFields_shape B.path_eq hshape (validate_ok B.valid).2
  refine ⟨_, decoded, ?_, ?_, hmatch, hparse⟩
  · rw [B.payload_eq, base64ToBytes_bytesToBase64]
  · rw [decodeRevisionPayload]
    simp only [hparse]
    exact hdecoded

/-- A built payload decodes to what was built, and header and payload still
pass the producer's check. -/
theorem decodeRevisionPayload_build (platform : Platform) (input : BuildRevisionEnvelopeInput)
    (env : BuiltRevisionEnvelope) (h : buildRevisionEnvelope platform input = .ok env) :
    ∃ bytes decoded payload, base64ToBytes env.payloadBase64 = some bytes ∧
      decodeRevisionPayload platform.toUnicodeMethods (.bytes bytes) = .ok decoded ∧
      Decodes platform input decoded ∧ (decodeUtf8 bytes).bind parse = some payload ∧
      validateRevisionPayloadAgainstHeader platform.toUnicodeMethods platform.isIdentifier
        env.header payload = .ok (env.header, payload) := by
  obtain ⟨path, members, B⟩ := buildRevisionEnvelope_built h
  obtain ⟨bytes, decoded, hbytes, hdecoded, hmatch, hparse⟩ := B.decodes
  refine ⟨bytes, decoded, _, hbytes, hdecoded, hmatch, hparse, ?_⟩
  rw [B.header_eq]
  exact B.valid

/-- The digests of the texts below, told apart by their lengths. -/
def sampleDigest (bytes : List Byte) : List Byte :=
  if bytes.length = 2 then
    [115, 203, 56, 88, 166, 135, 168, 73, 76, 163, 50, 48, 83, 1, 98, 130, 243, 218, 211, 157, 66,
      207, 98, 202, 78, 121, 221, 162, 170, 199, 217, 172]
  else if bytes.length = 90 then
    [195, 180, 139, 71, 101, 88, 203, 102, 67, 74, 205, 169, 29, 215, 237, 250, 57, 237, 227, 33,
      2, 32, 131, 218, 142, 24, 181, 136, 137, 52, 7, 196]
  else if bytes.length = 153 then
    [244, 124, 172, 103, 174, 89, 108, 30, 210, 53, 150, 148, 75, 28, 125, 145, 93, 69, 163, 21,
      201, 80, 216, 154, 151, 174, 158, 168, 150, 219, 196, 17]
  else
    [217, 242, 199, 18, 107, 53, 139, 190, 179, 33, 25, 18, 215, 218, 48, 198, 88, 28, 137, 130,
      255, 144, 146, 166, 206, 191, 145, 125, 97, 176, 153, 208]

def samplePlatform : Platform :=
  { plainMethods with
    digest := sampleDigest
    isIdentifier := fun _ => true }

def sampleInput (operation : RevisionEnvelopeOperation) (parents : List Id)
    (kind : Option SyncContentKind) (revisionId : Id) : BuildRevisionEnvelopeInput :=
  { identity := ⟨1, 2, 3, 4⟩
    revisionId
    parentRevisionIds := parents
    operation
    path := ascii "a.md"
    kind
    content := some (ascii "x")
    idempotencyKey := ascii "k" }

theorem sample_create_builds :
    ∃ env, buildRevisionEnvelope samplePlatform (sampleInput .create [] none 9) = .ok env := by
  apply exists_of_isOk
  unfold buildRevisionEnvelope envelopeHeader payloadObject
  have hparents : headerParents (sampleInput .create [] none 9).parentRevisionIds = [] := by
    simp [sampleInput, headerParents]
  rw [hparents]
  decide +kernel

theorem decodeRevisionPayload_build_create :
    ∃ env bytes decoded payload,
      buildRevisionEnvelope samplePlatform (sampleInput .create [] none 9) = .ok env ∧
      base64ToBytes env.payloadBase64 = some bytes ∧
      decodeRevisionPayload samplePlatform.toUnicodeMethods (.bytes bytes) = .ok decoded ∧
      Decodes samplePlatform (sampleInput .create [] none 9) decoded ∧
      (decodeUtf8 bytes).bind parse = some payload ∧
      validateRevisionPayloadAgainstHeader samplePlatform.toUnicodeMethods
        samplePlatform.isIdentifier env.header payload = .ok (env.header, payload) := by
  obtain ⟨env, henv⟩ := sample_create_builds
  obtain ⟨bytes, decoded, payload, h⟩ := decodeRevisionPayload_build _ _ env henv
  exact ⟨env, bytes, decoded, payload, henv, h⟩

theorem sample_delete_builds :
    ∃ env, buildRevisionEnvelope samplePlatform (sampleInput .delete [7] (some .binary) 9) =
      .ok env := by
  apply exists_of_isOk
  unfold buildRevisionEnvelope envelopeHeader payloadObject
  have hparents : headerParents (sampleInput .delete [7] (some .binary) 9).parentRevisionIds =
      [7] := by
    simp [sampleInput, headerParents]
  rw [hparents]
  decide +kernel

/-- A tombstone does not say of which kind the file was. -/
theorem decodeRevisionPayload_build_binary_delete :
    ∃ env bytes decoded,
      buildRevisionEnvelope samplePlatform (sampleInput .delete [7] (some .binary) 9) = .ok env ∧
      base64ToBytes env.payloadBase64 = some bytes ∧
      decodeRevisionPayload samplePlatform.toUnicodeMethods (.bytes bytes) = .ok decoded ∧
      decoded.kind ≠ (sampleInput .delete [7] (some .binary) 9).kind.getD .markdown := by
  obtain ⟨env, henv⟩ := sample_delete_builds
  obtain ⟨path, members, B⟩ := buildRevisionEnvelope_built henv
  obtain ⟨bytes, decoded, hbytes, hdecoded, hmatch, _⟩ := B.decodes
  refine ⟨env, bytes, decoded, henv, hbytes, hdecoded, ?_⟩
  have hkind : decoded.kind = .markdown := hmatch.kind
  rw [hkind]
  decide

end Havemind.PayloadRoundTrip
