import Havemind.CanonicalMerge
import Havemind.OverwriteSafety
import Havemind.PayloadRoundTrip
import Havemind.ScanSafety

/-!
The canonical form of a note. Taking it again changes a text only where a second byte
order mark follows the first, and on every other text the observer, the scan, the
apply side and the payload hash one and the same string, however often each of them
takes the form.
-/
namespace Havemind.CanonicalForm

open JsText JsonText VaultPayload ChangeObserver VaultReconcile CanonicalMerge ScanSafety List
  Option EnvelopeBytes
open VaultFilePort (VaultPort)

section

/-- A byte order mark that is left when the first is taken off. -/
def StartsWithTwoMarks (text : JsString) : Prop :=
  ∃ rest, text = byteOrderMark :: byteOrderMark :: rest

variable (text : JsString)
include text

theorem head?_dropByteOrderMark :
    (dropByteOrderMark text).head? = some byteOrderMark ↔ StartsWithTwoMarks text := by
  cases text with
  | nil =>
    constructor
    · intro hhead
      exact absurd hhead (some_ne_none _).symm
    · rintro ⟨rest, hrest⟩
      exact absurd hrest (cons_ne_nil _ _).symm
  | cons unit rest =>
    by_cases hunit : unit = byteOrderMark
    · rw [dropByteOrderMark, if_pos hunit]
      constructor
      · intro hhead
        obtain ⟨later, hlater⟩ := List.head?_eq_some_iff.mp hhead
        exact ⟨later, by rw [hunit, hlater]⟩
      · rintro ⟨later, hlater⟩
        rw [(List.cons.inj hlater).2]
        rfl
    · rw [dropByteOrderMark, if_neg hunit]
      constructor
      · intro hhead
        exact absurd (some.inj hhead) hunit
      · rintro ⟨later, hlater⟩
        exact absurd (List.cons.inj hlater).1 hunit

theorem head?_unixNewlines :
    (unixNewlines text).head? = some byteOrderMark ↔ text.head? = some byteOrderMark := by
  have hreturn : carriageReturn ≠ byteOrderMark := by decide
  have hfeed : lineFeed ≠ byteOrderMark := by decide
  induction text using unixNewlines.induct with
  | case1 => rw [unixNewlines]
  | case2 unit =>
    rw [unixNewlines, List.head?_cons, List.head?_cons]
    by_cases hunit : unit = carriageReturn
    · rw [if_pos hunit, hunit]
      exact ⟨fun h => absurd (some.inj h) hfeed, fun h => absurd (some.inj h) hreturn⟩
    · rw [if_neg hunit]
  | case3 rest ih =>
    rw [unixNewlines, if_pos rfl, if_pos rfl, List.head?_cons, List.head?_cons]
    exact ⟨fun h => absurd (some.inj h) hfeed, fun h => absurd (some.inj h) hreturn⟩
  | case4 next rest hnext ih =>
    rw [unixNewlines, if_pos rfl, if_neg hnext, List.head?_cons, List.head?_cons]
    exact ⟨fun h => absurd (some.inj h) hfeed, fun h => absurd (some.inj h) hreturn⟩
  | case5 unit next rest hunit ih =>
    rw [unixNewlines, if_neg hunit, List.head?_cons, List.head?_cons]

/-- A mark in front is no newline at the end, so it stays in front. -/
theorem head?_canonicalizeMarkdown :
    (canonicalizeMarkdown text).head? = some byteOrderMark ↔ StartsWithTwoMarks text := by
  have hfeed : byteOrderMark ≠ lineFeed := by decide
  rw [← head?_dropByteOrderMark, ← head?_unixNewlines (dropByteOrderMark text)]
  unfold canonicalizeMarkdown
  dsimp only
  generalize unixNewlines (dropByteOrderMark text) = lines
  have hfront : dropTrailingNewlines lines <+: lines := rdropWhile_prefix _ _
  by_cases hempty : dropTrailingNewlines lines = []
  · rw [hempty, if_pos length_nil]
    constructor
    · intro hhead
      exact absurd hhead (some_ne_none _).symm
    · intro hhead
      obtain ⟨rest, hrest⟩ := List.head?_eq_some_iff.mp hhead
      rw [dropTrailingNewlines_eq, rdropWhile_eq_nil_iff] at hempty
      have hmark := hempty byteOrderMark (hrest ▸ mem_cons_self)
      exact absurd (of_decide_eq_true hmark) hfeed
  · rw [if_neg (mt length_eq_zero_iff.mp hempty), List.head?_append_of_ne_nil _ hempty]
    obtain ⟨rest, hrest⟩ := hfront
    have hlines : lines.head? = (dropTrailingNewlines lines).head? := by
      conv_lhs => rw [← hrest]
      rw [List.head?_append_of_ne_nil _ hempty]
    rw [hlines]

theorem carriageReturn_notMem_canonicalizeMarkdown :
    carriageReturn ∉ canonicalizeMarkdown text := by
  have hreturn := carriageReturn_notMem_unixNewlines (dropByteOrderMark text)
  have hfront : dropTrailingNewlines (unixNewlines (dropByteOrderMark text)) <+:
      unixNewlines (dropByteOrderMark text) := rdropWhile_prefix _ _
  unfold canonicalizeMarkdown
  dsimp only
  split
  · exact not_mem_nil
  · rw [mem_append, not_or]
    exact ⟨fun hmem => hreturn (hfront.subset hmem), by decide⟩

theorem canonicalizeMarkdown_shape :
    canonicalizeMarkdown text = [] ∨ EndsWithOneNewline (canonicalizeMarkdown text) := by
  unfold canonicalizeMarkdown
  dsimp only
  split
  · exact Or.inl rfl
  · rename_i hlength
    exact Or.inr ⟨_, fun hnil => hlength (length_eq_zero_iff.mpr hnil),
      getLast?_dropTrailingNewlines _, rfl⟩

theorem canonicalizeMarkdown_again_iff :
    canonicalizeMarkdown (canonicalizeMarkdown text) = canonicalizeMarkdown text ↔
      ¬ StartsWithTwoMarks text := by
  rw [canonicalizeMarkdown_eq_self_iff, ← head?_canonicalizeMarkdown]
  exact ⟨fun h => h.1, fun h => ⟨h, carriageReturn_notMem_canonicalizeMarkdown text,
    canonicalizeMarkdown_shape text⟩⟩

end

section
variable (scan : ScanOptions) (port : VaultPort) (platform : Platform)
  (files : Files) (path : Path) (content : Content) (text : JsString)

/-- The reads of the file give this text to the observer, the scan and the apply side, the
machine's own settings taken out of it. -/
structure ReadAs : Prop where
  file : files.get path = some content
  observed : scan.normalizeConfigContent path (scan.asText content) = text
  applied : (if port.rules.isSyncableConfigPath path then
    port.normalizeConfigContent path (port.asText content) else port.asText content) = text

/-- What is committed, compared and sent of a note is one text and its hash. -/
structure OneHash (canonical : JsString) : Prop where
  observed : readContentForKind scan.toObserverOptions files path path .markdown =
    some ⟨canonical, scan.digests.hashText canonical⟩
  scanned : readEligibleContent scan files path .markdown = some (scan.digests.hashText canonical)
  applied : hash scan.digests (.text (VaultFilePort.readText port path content)) =
    scan.digests.hashText canonical
  sent : ∀ input revisionPath members, input.operation ≠ .delete → input.kind ≠ some .binary →
    input.content = some canonical →
    buildInnerPayload platform input revisionPath = .ok members →
    (ascii "content", .string canonical) ∈ members ∧
      (ascii "plaintextHash",
        .string (sha256HexOf platform (Utf16.encodeUtf8 canonical))) ∈ members

variable {scan port platform files path content text}

variable (h : ReadAs scan port files path content text)
include h

theorem readContentForKind_eq :
    readContentForKind scan.toObserverOptions files path path .markdown =
      some ⟨canonicalizeMarkdown text, scan.digests.hashText (canonicalizeMarkdown text)⟩ := by
  have hthere : existsAt files path = true := by
    rw [existsAt, h.file]
    rfl
  have hread : readText scan.toObserverOptions files path = scan.asText content := by
    rw [readText, h.file]
    rfl
  unfold readContentForKind resolveReadPath
  rw [if_pos hthere]
  dsimp only
  rw [hread, h.observed]

theorem readEligibleContent_eq :
    readEligibleContent scan files path .markdown =
      some (scan.digests.hashText (canonicalizeMarkdown (canonicalizeMarkdown text))) := by
  have hread : readText scan.toObserverOptions files path = scan.asText content := by
    rw [readText, h.file]
    rfl
  unfold readEligibleContent
  dsimp only
  rw [hread, h.observed]

theorem hash_readText :
    hash scan.digests (.text (VaultFilePort.readText port path content)) =
      scan.digests.hashText (canonicalizeMarkdown (canonicalizeMarkdown text)) := by
  rw [VaultPayload.hash, VaultFilePort.readText, h.applied]

omit h in
theorem members_of_buildInnerPayload {input : BuildRevisionEnvelopeInput}
    {revisionPath : JsString} {members : List (JsString × Json)} {canonical : JsString}
    (hstable : canonicalizeMarkdown canonical = canonical)
    (hdelete : input.operation ≠ .delete) (hbinary : input.kind ≠ some .binary)
    (hcontent : input.content = some canonical)
    (hmembers : buildInnerPayload platform input revisionPath = .ok members) :
    (ascii "content", .string canonical) ∈ members ∧
      (ascii "plaintextHash",
        .string (sha256HexOf platform (Utf16.encodeUtf8 canonical))) ∈ members := by
  have htext : canonicalizeMarkdown (input.content.getD []) = canonical := by
    rw [hcontent, getD_some, hstable]
  have hhash : hashPlaintext platform canonical =
      sha256HexOf platform (Utf16.encodeUtf8 canonical) := by
    rw [hashPlaintext, hstable]
  cases PayloadRoundTrip.buildInnerPayload_shape hmembers with
  | tombstone hoperation => exact absurd hoperation hdelete
  | binary _ hkind => exact absurd hkind hbinary
  | markdown =>
    rw [htext, hhash]
    refine ⟨mem_append_right _ mem_cons_self, mem_append_right _ ?_⟩
    exact mem_cons_of_mem _ mem_cons_self

omit h in
/-- The form of a note's text is that of its form, and the sides that take the form once
and those that take it twice hash the same text, exactly where not two marks start the
text. -/
theorem note_hashes_agree_iff (h : ReadAs scan port files path content text) :
    (canonicalizeMarkdown (canonicalizeMarkdown text) = canonicalizeMarkdown text ↔
      ¬ StartsWithTwoMarks text) ∧
    ((∃ canonical, OneHash scan port platform files path content canonical) ↔
      ¬ StartsWithTwoMarks text) := by
  refine ⟨canonicalizeMarkdown_again_iff text, ?_⟩
  rw [← canonicalizeMarkdown_again_iff]
  constructor
  · rintro ⟨canonical, hone⟩
    have hobserved := (readContentForKind_eq h).symm.trans hone.observed
    have hscanned := (readEligibleContent_eq h).symm.trans hone.scanned
    have hcanonical : canonicalizeMarkdown text = canonical :=
      (ReadContent.mk.inj (some.inj hobserved)).1
    rw [← hcanonical] at hscanned
    exact scan.digests.text_injective (some.inj hscanned)
  · intro hstable
    have htwice := congrArg scan.digests.hashText hstable
    refine ⟨canonicalizeMarkdown text, readContentForKind_eq h, ?_, ?_, ?_⟩
    · rw [readEligibleContent_eq h, htwice]
    · rw [hash_readText h, htwice]
    · intro input revisionPath members hdelete hbinary hcontent hmembers
      exact members_of_buildInnerPayload hstable hdelete hbinary hcontent hmembers

end

/-- A note saved with two marks in front of an `x`. -/
def markedNote : JsString := [byteOrderMark, byteOrderMark, 120]

/-- A vault port on which nobody else is at work. -/
def quietPort : VaultPort := (OverwriteSafety.quietContext [] fun _ => none).toVaultPort

theorem readAs_text (text : JsString) :
    ReadAs noteScan quietPort (JsObject.empty.set 1 (.text text)) 1 (.text text) text := by
  refine ⟨?_, rfl, rfl⟩
  rw [JsObject.get_set, if_pos rfl]

theorem note_hashes_agree_x :
    (canonicalizeMarkdown (canonicalizeMarkdown [120]) = canonicalizeMarkdown [120] ↔
      ¬ StartsWithTwoMarks [120]) ∧
    ((∃ canonical, OneHash noteScan quietPort PayloadRoundTrip.samplePlatform
      (JsObject.empty.set 1 (.text [120])) 1 (.text [120]) canonical) ↔
      ¬ StartsWithTwoMarks [120]) :=
  note_hashes_agree_iff (readAs_text [120])

/-- The scan takes the note that was just committed for a changed one: it takes the second
mark off, which the observer left. -/
theorem marked_note_hashes_differ :
    canonicalizeMarkdown (canonicalizeMarkdown markedNote) ≠ canonicalizeMarkdown markedNote ∧
      (readContentForKind noteScan.toObserverOptions (JsObject.empty.set 1 (.text markedNote)) 1 1
        .markdown).map (·.contentHash) = some (.text [byteOrderMark, 120, lineFeed]) ∧
      readEligibleContent noteScan (JsObject.empty.set 1 (.text markedNote)) 1 .markdown =
        some (.text [120, lineFeed]) ∧
      hash noteScan.digests (.text (VaultFilePort.readText quietPort 1 (.text markedNote))) =
        .text [120, lineFeed] := by
  have hagain := (canonicalizeMarkdown_again_iff markedNote).not.mpr (not_not.mpr ⟨[120], rfl⟩)
  exact ⟨hagain, rfl, rfl, rfl⟩

end Havemind.CanonicalForm
