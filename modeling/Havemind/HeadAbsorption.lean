import Havemind.DurableRuns
import Havemind.HeadReconciliation
import Havemind.RepositoryMethods

/-!
What a committed head resolution keeps. It records the note on disk, names every head the
server has and discards the file's queued revisions and nothing else. Every head is in the
text, on its own, when that is so of all the merged heads but the last: the text the others
leave is then the one the last is merged into.
-/
namespace Havemind.HeadAbsorption

open JsText RevisionSchema SyncRunner VaultPayload Diff3 RevisionEnvelope RevisionHistory
  DurableState OutboxRepository RepositoryMethods HeadReconciliation List Option

section
variable (ports : Ports) (state : PersistedSyncState) (mapping : LocalFileMapping)

/-- The heads the fold merges, each behind its tip. -/
def foldedHeads (tip : Tip) : List RemoteEvent → List (Tip × RemoteEvent)
  | [] => []
  | head :: rest =>
    if head.revision.revisionId ∈ tip.lineage then foldedHeads tip rest
    else
      (tip, head) ::
        foldedHeads (tip.extend ports.reconcileTip mapping.fileId head.revision.revisionId) rest

/-- A head's text is the note's, or merging it into the note against its base changes
nothing. -/
def Absorbed (text : JsString) (folded : Tip × RemoteEvent) : Prop :=
  ∃ remote, textOf ports state mapping folded.2 = .ok (some remote) ∧
    (remote = text ∨
      ∃ base ancestor, baseOf folded.1 folded.2 = some base ∧
        textOf ports state mapping base = .ok (some ancestor) ∧
        mergeText ancestor text remote = .ok (.merged text))

variable {ports state mapping} {tip : Tip} {head : RemoteEvent} {heads : List RemoteEvent}
  {content merged text remote : JsString}

theorem mergeHead_spec (h : mergeHead ports state mapping tip head content remote =
    .ok (some merged)) :
    (remote = content ∧ merged = content) ∨
      ∃ base ancestor, baseOf tip head = some base ∧
        textOf ports state mapping base = .ok (some ancestor) ∧
        mergeText ancestor content remote = .ok (.merged merged) := by
  unfold mergeHead at h
  split_ifs at h with hsame
  · have hmerged : content = merged := by simpa using h
    exact Or.inl ⟨hsame, hmerged.symm⟩
  · cases hbase : baseOf tip head with
    | none => simp [hbase] at h
    | some base =>
      simp only [hbase] at h
      rcases htext : textOf ports state mapping base with error | ancestor
      · simp [htext] at h
      cases ancestor with
      | none => simp [htext] at h
      | some ancestor =>
        simp only [htext] at h
        rcases hmerge : mergeText ancestor content remote with error | result
        · simp [hmerge] at h
        cases result with
        | conflict => simp [hmerge] at h
        | merged final =>
          have hfinal : final = merged := by simpa [hmerge] using h
          subst hfinal
          exact Or.inr ⟨base, ancestor, rfl, htext, hmerge⟩

/-- A head that is absorbed by the running text leaves it as it is. -/
theorem mergeHead_of_absorbed (h : Absorbed ports state mapping content (tip, head))
    (hremote : textOf ports state mapping head = .ok (some remote))
    (hmerge : mergeHead ports state mapping tip head content remote = .ok (some merged)) :
    merged = content := by
  obtain ⟨remote', htext, hcase⟩ := h
  have hsame : remote' = remote := by
    rw [hremote] at htext
    simpa using htext.symm
  subst hsame
  rcases mergeHead_spec hmerge with ⟨-, hkept⟩ | ⟨base, ancestor, hbase, hancestor, hmerged⟩
  · exact hkept
  rcases hcase with heq | ⟨base', ancestor', hbase', hancestor', hself⟩
  · rw [mergeHead, if_pos heq] at hmerge
    simpa using hmerge.symm
  · have hbases : base' = base := by
      dsimp only at hbase'
      rw [hbase] at hbase'
      exact (some.inj hbase').symm
    subst hbases
    have hancestors : ancestor' = ancestor := by
      rw [hancestor] at hancestor'
      simpa using hancestor'.symm
    subst hancestors
    rw [hmerged] at hself
    simpa using hself

theorem absorbed_of_mergeHead (hremote : textOf ports state mapping head = .ok (some remote))
    (hmerge : mergeHead ports state mapping tip head content remote = .ok (some content)) :
    Absorbed ports state mapping content (tip, head) := by
  refine ⟨remote, hremote, ?_⟩
  rcases mergeHead_spec hmerge with ⟨hsame, -⟩ | hbase
  · exact Or.inl hsame
  · exact Or.inr hbase

/-- One turn of the fold. -/
theorem foldHeads_cons (h : foldHeads ports state mapping tip content (head :: heads) =
    .ok (some text)) (hfree : head.revision.revisionId ∉ tip.lineage) :
    ∃ remote merged, textOf ports state mapping head = .ok (some remote) ∧
      mergeHead ports state mapping tip head content remote = .ok (some merged) ∧
      foldHeads ports state mapping
        (tip.extend ports.reconcileTip mapping.fileId head.revision.revisionId) merged heads =
          .ok (some text) := by
  rw [foldHeads, if_neg hfree] at h
  rcases htext : textOf ports state mapping head with error | remote
  · simp [htext] at h
  cases remote with
  | none => simp [htext] at h
  | some remote =>
    simp only [htext] at h
    rcases hmerge : mergeHead ports state mapping tip head content remote with error | merged
    · simp [hmerge] at h
    cases merged with
    | none => simp [hmerge] at h
    | some merged =>
      simp only [hmerge] at h
      exact ⟨remote, merged, rfl, hmerge, h⟩

/-- Heads the device descends from leave the text as it is. -/
theorem foldHeads_of_nil (h : foldHeads ports state mapping tip content heads = .ok (some text))
    (hnone : foldedHeads ports mapping tip heads = []) : text = content := by
  induction heads with
  | nil =>
    rw [foldHeads] at h
    simpa using h.symm
  | cons head rest ih =>
    rw [foldedHeads] at hnone
    split_ifs at hnone with hmem
    · rw [foldHeads, if_pos hmem] at h
      exact ih h hnone

/-- When the fold gives its text back and all the merged heads but the last are absorbed by
it, the last is as well. -/
theorem foldHeads_absorbed (h : foldHeads ports state mapping tip content heads =
    .ok (some content))
    (hbut : ∀ folded ∈ (foldedHeads ports mapping tip heads).dropLast,
      Absorbed ports state mapping content folded) :
    ∀ folded ∈ foldedHeads ports mapping tip heads, Absorbed ports state mapping content folded := by
  induction heads generalizing tip with
  | nil => intro folded hmem; simp [foldedHeads] at hmem
  | cons head rest ih =>
    by_cases hmem : head.revision.revisionId ∈ tip.lineage
    · rw [foldHeads, if_pos hmem] at h
      rw [foldedHeads, if_pos hmem] at hbut ⊢
      exact ih h hbut
    · obtain ⟨remote, merged, hremote, hmerge, hrest⟩ := foldHeads_cons h hmem
      rw [foldedHeads, if_neg hmem] at hbut ⊢
      cases hlater : foldedHeads ports mapping
          (tip.extend ports.reconcileTip mapping.fileId head.revision.revisionId) rest with
      | nil =>
        have hkept : content = merged := foldHeads_of_nil hrest hlater
        intro folded hfolded
        rw [mem_singleton.mp hfolded]
        rw [← hkept] at hmerge
        exact absorbed_of_mergeHead hremote hmerge
      | cons next later =>
        rw [hlater, dropLast_cons_cons] at hbut
        have hfirst : Absorbed ports state mapping content (tip, head) :=
          hbut _ mem_cons_self
        have hkept : merged = content := mergeHead_of_absorbed hfirst hremote hmerge
        rw [hkept] at hrest
        intro folded hfolded
        rcases mem_cons.mp hfolded with rfl | hin
        · exact hfirst
        · rw [← hlater] at hin
          refine ih hrest (fun other hother => ?_) folded hin
          rw [hlater] at hother
          exact hbut other (mem_cons_of_mem _ hother)

end

section
variable {ports : Ports} {reads : FileReads} {state next : PersistedSyncState}
  {input : ResolutionInput} {resolution : Resolution} {mapping : LocalFileMapping}

theorem startOf_spec {localHead : Id} {text : JsString}
    (h : startOf ports reads state mapping = some (localHead, text)) :
    ports.digests.hashText text = mapping.contentHash ∧
      ∀ envelope ∈ pendingOf state mapping.fileId, envelope.revisionId ∈
        ancestors (graphOf ports.accepted state mapping.fileId) localHead := by
  unfold startOf at h
  dsimp only at h
  split at h
  · split_ifs at h with hrefused
    obtain ⟨rfl, rfl⟩ := Prod.mk.inj (some.inj h)
    simp only [not_or] at hrefused
    obtain ⟨-, -, -, -, -, hlineage, hhash⟩ := hrefused
    refine ⟨not_not.mp hhash, fun envelope hmem => ?_⟩
    by_contra hout
    exact hlineage (any_eq_true.mpr ⟨envelope, hmem, decide_eq_true hout⟩)
  · cases h

/-- What the body of the loop asks the producer to commit. -/
structure Asked (ports : Ports) (reads : FileReads) (state : PersistedSyncState)
    (mapping : LocalFileMapping) (input : ResolutionInput) : Prop where
  sameFile : input.mapping = mapping
  pendingIds : input.pendingIds = (pendingOf state mapping.fileId).map OutboxEnvelope.revisionId
  parents : input.parents =
    (heads ports.accepted mapping.fileId).map fun head => head.revision.revisionId
  folded : foldHeads ports state mapping
    ⟨graphOf ports.accepted state mapping.fileId, input.expectedHead⟩ input.content
    (heads ports.accepted mapping.fileId) = .ok (some input.content)
  disk : reads.disk.map canonicalizeMarkdown = some input.content
  contentHash : ports.digests.hashText input.content = mapping.contentHash
  lineage : ∀ envelope ∈ pendingOf state mapping.fileId, envelope.revisionId ∈
    ancestors (graphOf ports.accepted state mapping.fileId) input.expectedHead
  existing : existingRevision ports state mapping input.content = .ok input.existingRevisionId

theorem reconcileFile_asked (h : reconcileFile ports reads state mapping = .ok (some input)) :
    Asked ports reads state mapping input := by
  unfold reconcileFile at h
  dsimp only at h
  cases hstart : startOf ports reads state mapping with
  | none => simp [hstart] at h
  | some start =>
    obtain ⟨localHead, initialContent⟩ := start
    simp only [hstart] at h
    rcases hfold : foldHeads ports state mapping
        ⟨graphOf ports.accepted state mapping.fileId, localHead⟩ initialContent
        (heads ports.accepted mapping.fileId) with error | folded
    · simp [hfold] at h
    cases folded with
    | none => simp [hfold] at h
    | some content =>
      simp only [hfold] at h
      split_ifs at h with hchanged
      · simp at h
      · simp only [not_or, not_not] at hchanged
        obtain ⟨rfl, hdisk, -⟩ := hchanged
        rcases hexisting : existingRevision ports state mapping initialContent with error | existing
        · simp [hexisting] at h
        simp only [hexisting] at h
        have hinput := (some.inj (Except.ok.inj h)).symm
        obtain ⟨hhash, hlineage⟩ := startOf_spec hstart
        subst hinput
        exact
          { sameFile := rfl
            pendingIds := rfl
            parents := rfl
            folded := hfold
            disk := hdisk
            contentHash := hhash
            lineage := hlineage
            existing := hexisting }

/-- A resolution the loop committed: from what it asked for to the document it left. -/
structure Committed (ports : Ports) (resolution : Resolution) : Prop extends
    Resolved ports.options ports.builder resolution.reads.now resolution.reads.revisionId
      resolution.reads.recordId resolution.input resolution.toTransaction where
  asked : reconcileFile ports resolution.reads resolution.before resolution.input.mapping =
    .ok (some resolution.input)

theorem reconcileEach_committed {reads : ℕ → FileReads} {queued : List Id} {turn : ℕ}
    {mappings : List LocalFileMapping} (hsettled : Settled ports.activeApplies state) :
    ∀ resolution ∈ reconcileEach ports reads queued turn state mappings,
      Committed ports resolution := by
  induction mappings generalizing turn state with
  | nil => intro resolution hmem; simp [reconcileEach] at hmem
  | cons mapping rest ih =>
    intro resolution hmem
    rw [reconcileEach] at hmem
    split_ifs at hmem
    · rcases hasked : reconcileFile ports (reads turn) state mapping with error | asked
      · simp [hasked] at hmem
      cases asked with
      | none =>
        simp only [hasked] at hmem
        exact ih hsettled resolution hmem
      | some input =>
        simp only [hasked] at hmem
        rcases hcommit : resolve ports (reads turn) state input with error | result
        · simp [hcommit] at hmem
        obtain ⟨next, found⟩ := result
        simp only [hcommit, mem_append, Option.mem_toList, map_eq_some_iff] at hmem
        have hmapping : input.mapping = mapping := (reconcileFile_asked hasked).sameFile
        obtain ⟨hnext, hfound⟩ := commitHeadResolution_spec hsettled hcommit
        rcases hmem with ⟨transaction, hthis, rfl⟩ | hlater
        · obtain ⟨hresolved, hbefore⟩ := hfound transaction hthis
          refine ⟨hresolved, ?_⟩
          dsimp only
          rw [hbefore, hmapping]
          exact hasked
        · exact ih hnext resolution hlater
    · exact ih hsettled resolution hmem

theorem reconcileHeads_committed {reads : ℕ → FileReads} {now : Timestamp} :
    ∀ resolution ∈ reconcileHeads ports reads now state, Committed ports resolution := by
  intro resolution hmem
  unfold reconcileHeads at hmem
  cases hrecover : recoverLocked ports.options now ports.activeApplies state with
  | none => simp [hrecover] at hmem
  | some current =>
    simp only [hrecover] at hmem
    exact reconcileEach_committed (recoverLocked_settled hrecover) resolution hmem

end

section
variable (ports : Ports) (resolution : Resolution)

/-- The text recorded for the note, and the revision's, are the canonical text on disk. -/
def RecordsDisk : Prop :=
  ∃ disk, resolution.reads.disk = some disk ∧
    resolution.record.state.mappings =
      [⟨resolution.input.mapping, some (canonicalizeMarkdown disk)⟩] ∧
    resolution.input.mapping.contentHash = hash ports.digests (.text disk) ∧
    match resolution.replacement with
    | some envelope =>
      buildEnvelope ports.builder
        { fileId := resolution.fileId
          revisionId := resolution.reads.revisionId
          parentRevisionIds := resolution.input.parents
          operation := .update
          path := resolution.input.mapping.path
          content := some (canonicalizeMarkdown disk)
          idempotencyKey := ports.builder.idText resolution.reads.revisionId }
        resolution.reads.revisionId = some envelope
    | none => ∃ head ∈ heads ports.accepted resolution.fileId,
        textOf ports resolution.before resolution.input.mapping head =
          .ok (some (canonicalizeMarkdown disk))

/-- Every head is the file's new head or one of its parents. -/
def NamesEveryHead : Prop :=
  ∃ newHead, resolution.after.producerState.heads.get resolution.fileId = some newHead ∧
    ∀ head ∈ heads ports.accepted resolution.fileId,
      head.revision.revisionId = newHead ∨ ∃ envelope ∈ resolution.replacement,
        envelope.revisionId = newHead ∧ head.revision.revisionId ∈ envelope.parents

/-- The heads the reconciliation merged, each behind its tip. -/
def mergedHeads : List (Tip × RemoteEvent) :=
  foldedHeads ports resolution.input.mapping
    ⟨graphOf ports.accepted resolution.before resolution.fileId, resolution.input.expectedHead⟩
    (heads ports.accepted resolution.fileId)

/-- A head the note on disk contains. -/
def OnDisk (folded : Tip × RemoteEvent) : Prop :=
  ∃ disk, resolution.reads.disk = some disk ∧
    Absorbed ports resolution.before resolution.input.mapping (canonicalizeMarkdown disk) folded

/-- Exactly the file's queued revisions leave the queue, and nothing names one of them. -/
structure DiscardsQueue : Prop where
  discarded : ∀ envelope ∈ resolution.before.outbox,
    (envelope.revisionId ∈ resolution.record.discardRevisionIds ↔
      envelope.fileId = resolution.fileId)
  queue : resolution.after.outbox =
    (resolution.before.outbox.filter fun envelope => envelope.fileId ≠ resolution.fileId) ++
      resolution.replacement.toList.map fun envelope =>
        { envelope with enqueuedAt := some resolution.reads.now }
  formerHead : resolution.before.producerState.heads.get resolution.fileId =
    some resolution.input.expectedHead
  lineage : ∀ id ∈ resolution.record.discardRevisionIds, id ∈
    ancestors (graphOf ports.accepted resolution.before resolution.fileId)
      resolution.input.expectedHead
  unnamed : ∀ envelope ∈ resolution.after.envelopes,
    envelope.revisionId ∉ resolution.record.discardRevisionIds →
      ∀ id ∈ envelope.parents, id ∉ resolution.record.discardRevisionIds

structure DropsNoBranch : Prop where
  disk : RecordsDisk ports resolution
  heads : NamesEveryHead ports resolution
  absorbed : ∀ folded ∈ mergedHeads ports resolution, OnDisk ports resolution folded
  queue : DiscardsQueue ports resolution

variable {ports resolution}

variable (h : Committed ports resolution)
include h

theorem Committed.asks :
    Asked ports resolution.reads resolution.before resolution.input.mapping resolution.input :=
  reconcileFile_asked h.asked

theorem Committed.disk :
    ∃ disk, resolution.reads.disk = some disk ∧
      canonicalizeMarkdown disk = resolution.input.content :=
  map_eq_some_iff.mp h.asks.disk

omit h in
theorem existingRevision_spec {state : PersistedSyncState} {mapping : LocalFileMapping}
    {content : JsString} {id : Id}
    (h : existingRevision ports state mapping content = .ok (some id)) :
    ∃ head, heads ports.accepted mapping.fileId = [head] ∧
      head.revision.revisionId = id ∧ textOf ports state mapping head = .ok (some content) := by
  unfold existingRevision at h
  split at h
  · rename_i onlyHead honly
    rcases htext : textOf ports state mapping onlyHead with error | text
    · simp [htext] at h
    simp only [htext] at h
    split_ifs at h with hsame
    · have hid : onlyHead.revision.revisionId = id := by simpa using h
      exact ⟨onlyHead, honly, hid, hsame ▸ htext⟩
    · simp at h
  · simp at h

theorem Committed.recordsDisk : RecordsDisk ports resolution := by
  obtain ⟨disk, hdisk, htext⟩ := h.disk
  refine ⟨disk, hdisk, ?_, ?_, ?_⟩
  · rw [h.record, htext]
    rfl
  · rw [← h.asks.contentHash, ← htext]
    rfl
  · rcases resolutionEnvelope_spec h.envelope with ⟨hnone, id, hid⟩ | ⟨envelope, hsome, -, hbuilt⟩
    · rw [hnone]
      have hexisting := h.asks.existing
      rw [hid] at hexisting
      obtain ⟨head, honly, -, hhead⟩ := existingRevision_spec hexisting
      refine ⟨head, ?_, ?_⟩
      · rw [Resolution.fileId, honly]
        exact mem_singleton_self head
      · rw [htext]
        exact hhead
    · rw [hsome, htext]
      exact hbuilt

theorem get_heads_after :
    resolution.after.producerState.heads.get resolution.fileId =
      some (resolution.input.existingRevisionId.getD resolution.reads.revisionId) := by
  have hfile : resolution.record.state.heads.get resolution.fileId =
      some (resolution.input.existingRevisionId.getD resolution.reads.revisionId) := by
    rw [h.record, Resolution.fileId, resolutionRecord, JsObject.get_set, if_pos rfl]
  have hheads : resolution.after.producerState.heads =
      (withProducerFiles resolution.before.producerState resolution.record).heads := by
    rw [h.after, trimmed_eq]
    rfl
  rw [hheads, withProducerFiles, JsObject.get_assign, hfile]
  rfl

theorem Committed.namesEveryHead : NamesEveryHead ports resolution := by
  refine ⟨_, get_heads_after h, fun head hmem => ?_⟩
  rcases resolutionEnvelope_spec h.envelope with ⟨-, id, hid⟩ | ⟨envelope, hsome, hid, hbuilt⟩
  · have hexisting := h.asks.existing
    rw [hid] at hexisting
    obtain ⟨only, honly, honlyId, -⟩ := existingRevision_spec hexisting
    rw [Resolution.fileId, honly] at hmem
    rw [mem_singleton.mp hmem, honlyId, hid]
    exact Or.inl rfl
  · obtain ⟨hrevision, hparents⟩ := buildEnvelope_spec hbuilt
    refine Or.inr ⟨envelope, hsome, ?_, ?_⟩
    · rw [hrevision, hid]
      rfl
    · rw [hparents, mem_headerParents]
      dsimp only
      rw [h.asks.parents]
      exact mem_map_of_mem hmem

theorem Committed.discardIds :
    resolution.record.discardRevisionIds =
      (pendingOf resolution.before resolution.fileId).map OutboxEnvelope.revisionId := by
  rw [h.record]
  exact h.asks.pendingIds

/-- The queue's envelopes with one of the discarded ids are the file's. -/
theorem Committed.discarded :
    ∀ envelope ∈ resolution.before.outbox,
      (envelope.revisionId ∈ resolution.record.discardRevisionIds ↔
        envelope.fileId = resolution.fileId) := by
  have hids := h.discardIds
  have hof : ∀ envelope ∈ resolution.before.outbox, envelope.fileId = resolution.fileId →
      envelope.revisionId ∈ resolution.record.discardRevisionIds := by
    intro envelope hmem hfile
    rw [hids]
    exact mem_map_of_mem (mem_filter.mpr ⟨hmem, decide_eq_true hfile⟩)
  have hcount : (resolution.before.outbox.filter fun envelope =>
      envelope.revisionId ∈ resolution.record.discardRevisionIds).length =
        resolution.record.discardRevisionIds.dedup.length := by
    by_contra hne
    have hswap := h.swap
    simp [swapRefused, hne] at hswap
  have hsplit : (resolution.before.outbox.filter fun envelope =>
      envelope.revisionId ∈ resolution.record.discardRevisionIds).filter
        (fun envelope => envelope.fileId = resolution.fileId) =
      pendingOf resolution.before resolution.fileId := by
    rw [List.filter_filter, pendingOf]
    refine filter_congr fun envelope hmem => ?_
    by_cases hfile : envelope.fileId = resolution.fileId
    · simp [hfile, hof envelope hmem hfile]
    · simp [hfile]
  have hle : resolution.record.discardRevisionIds.dedup.length ≤
      (pendingOf resolution.before resolution.fileId).length := by
    rw [hids]
    refine (List.Sublist.length_le (dedup_sublist _)).trans ?_
    rw [length_map]
  have hall : (resolution.before.outbox.filter fun envelope =>
      envelope.revisionId ∈ resolution.record.discardRevisionIds).filter
        (fun envelope => envelope.fileId = resolution.fileId) =
      resolution.before.outbox.filter fun envelope =>
        envelope.revisionId ∈ resolution.record.discardRevisionIds := by
    refine List.Sublist.eq_of_length_le filter_sublist ?_
    rw [hsplit, hcount]
    exact hle
  intro envelope hmem
  refine ⟨fun hid => ?_, hof envelope hmem⟩
  have hin : envelope ∈ resolution.before.outbox.filter fun envelope =>
      envelope.revisionId ∈ resolution.record.discardRevisionIds :=
    mem_filter.mpr ⟨hmem, decide_eq_true hid⟩
  exact of_decide_eq_true (filter_eq_self.mp hall envelope hin)

theorem Committed.outbox_after : resolution.after.outbox =
    (resolution.before.outbox.filter fun envelope =>
      envelope.revisionId ∉ resolution.record.discardRevisionIds) ++
        resolution.replacement.toList.map fun envelope =>
          { envelope with enqueuedAt := some resolution.reads.now } := by
  rw [h.after, trimmed_eq]
  rfl

theorem Committed.envelopes_after {envelope : OutboxEnvelope}
    (hmem : envelope ∈ resolution.after.envelopes) :
    envelope ∈ resolution.before.envelopes ∨
      ∃ queued ∈ resolution.replacement, envelope.parents = queued.parents := by
  rcases mem_append.mp hmem with hqueue | hstash
  · rw [h.outbox_after] at hqueue
    rcases mem_append.mp hqueue with hkept | hnew
    · exact Or.inl (mem_append_left _ (mem_filter.mp hkept).1)
    · obtain ⟨queued, hqueued, rfl⟩ := mem_map.mp hnew
      exact Or.inr ⟨queued, Option.mem_toList.mp hqueued, rfl⟩
  · refine Or.inl (mem_append_right _ ?_)
    have hsame : resolution.after.quarantinedEnvelopes =
        resolution.before.quarantinedEnvelopes := by
      rw [h.after, trimmed_eq]
      rfl
    rw [hsame] at hstash
    exact hstash

theorem Committed.discardsQueue :
    DiscardsQueue ports resolution where
  discarded := h.discarded
  queue := by
    rw [h.outbox_after]
    congr 1
    refine filter_congr fun envelope hmem => ?_
    have hfile := h.discarded envelope hmem
    by_cases hin : envelope.fileId = resolution.fileId
    · simp [hin, hfile.mpr hin]
    · simp [hin, hfile.not.mpr hin]
  formerHead := h.expected
  lineage := by
    intro id hid
    rw [h.discardIds] at hid
    obtain ⟨envelope, hmem, rfl⟩ := mem_map.mp hid
    exact h.asks.lineage envelope hmem
  unnamed := by
    have hswap := h.swap
    simp only [swapRefused, decide_eq_false_iff_not, not_or, Bool.not_eq_true] at hswap
    obtain ⟨-, hchildren, hreplacement⟩ := hswap
    intro envelope hmem hkept id hparent hid
    rcases h.envelopes_after hmem with hbefore | ⟨queued, hqueued, hparents⟩
    · have hcovered := any_eq_false.mp hchildren envelope hbefore
      refine hcovered ?_
      exact decide_eq_true ⟨hkept, any_eq_true.mpr ⟨id, hparent, decide_eq_true hid⟩⟩
    · rw [hparents] at hparent
      rw [Option.mem_def.mp hqueued, Option.any_some, decide_eq_false_iff_not] at hreplacement
      exact hreplacement (Or.inr (any_eq_true.mpr ⟨id, hparent, decide_eq_true hid⟩))

omit h in
/-- A committed resolution drops no branch exactly when every head it merged, save the last,
is in the note on disk by itself. -/
theorem dropsNoBranch_iff {reads : ℕ → FileReads} {now : Timestamp} {state : PersistedSyncState}
    (h : resolution ∈ reconcileHeads ports reads now state) :
    DropsNoBranch ports resolution ↔
      ∀ folded ∈ (mergedHeads ports resolution).dropLast, OnDisk ports resolution folded := by
  have C := reconcileHeads_committed resolution h
  constructor
  · intro hkept folded hmem
    exact hkept.absorbed folded (mem_of_mem_dropLast hmem)
  · intro hbut
    refine ⟨C.recordsDisk, C.namesEveryHead, ?_, C.discardsQueue⟩
    obtain ⟨disk, hdisk, htext⟩ := C.disk
    intro folded hmem
    refine ⟨disk, hdisk, ?_⟩
    rw [htext]
    refine foldHeads_absorbed C.asks.folded (fun other hother => ?_) folded hmem
    obtain ⟨disk', hdisk', habsorbed⟩ := hbut other hother
    rw [hdisk] at hdisk'
    rw [← some.inj hdisk', htext] at habsorbed
    exact habsorbed

end

/-- An update of the note at the path 0. -/
def updatePayload (text : JsString) : DecodedRevisionPayload where
  operation := .update
  path := 0
  previousPath := none
  kind := .markdown
  content := some text
  binaryContent := none

def plainBuilder : EnvelopeBuilder where
  protocol := ⟨1, 0⟩
  identity := ⟨1, 1, 1⟩
  idText := fun id => [UInt16.ofNat id]
  encode := fun header decoded => some (header.revisionId, decoded.content.getD [])

/-- An accepted revision of the file 7 with its text's number. -/
def acceptedEvent (revisionId : Id) (parents : List Id) (contentHash : BlobHash) :
    RemoteEvent where
  serverSequence := revisionId
  revision :=
    { revisionId
      fileId := 7
      contentHash
      parentRevisionIds := some parents
      authorMembershipId := none
      acceptedAt := none }

/-- A note of one line, and the same with a second one. -/
def oneLine : JsString := [97, 10]

def twoLines : JsString := [97, 10, 98, 10]

def branchPorts (accepted : List RemoteEvent) : Ports where
  options := DurableRuns.plainOptions
  digests := plainDigests
  builder := plainBuilder
  decodePayload := fun base64 => some (updatePayload base64)
  resolveRevision := fun event =>
    some (updatePayload (if event.revision.contentHash = 1 then oneLine else twoLines))
  reconcileTip := fun tip head => 100 * tip + head
  accepted
  activeApplies := []

def reading (disk : JsString) : FileReads where
  unsaved := false
  initialDisk := some disk
  disk := some disk
  unsavedSince := false
  revisionId := 50
  recordId := 60
  now := 0

def sampleMapping (text : JsString) : LocalFileMapping where
  collisionKey := 0
  contentHash := .text text
  fileId := 7
  path := 0

def headState (text : JsString) (head : Id) (outbox : List OutboxEnvelope) :
    PersistedSyncState where
  producer := some ⟨[sampleMapping text], JsObject.empty.set 7 head⟩
  outbox := outbox

/-- A reconciliation of the only file. -/
theorem reconcileHeads_single (now : Timestamp) {ports : Ports} {state : PersistedSyncState}
    {mapping : LocalFileMapping} {reads : FileReads} {input : ResolutionInput}
    {transaction : Transaction} (hsettled : Settled ports.activeApplies state)
    (hlisted : state.producerState.mappings = [mapping])
    (hcandidate : candidate ports (state.outbox.map OutboxEnvelope.fileId) mapping = true)
    (hasked : reconcileFile ports reads state mapping = .ok (some input))
    (hresolved : resolve ports reads state input = .ok (transaction.after, some transaction)) :
    reconcileHeads ports (fun _ => reads) now state = [⟨transaction, reads, input⟩] := by
  rw [reconcileHeads, recoverLocked_of_settled hsettled]
  dsimp only
  rw [hlisted, reconcileEach, if_pos hcandidate]
  simp only [hasked, hresolved]
  rfl

/-- Two devices merged the same two branches: the own merge 4 is queued, the other's, 6, was
accepted. A third device saved the first text once more, as 5. -/
def twinMerges : Ports :=
  branchPorts [acceptedEvent 1 [] 1, acceptedEvent 2 [1] 2, acceptedEvent 3 [1] 2,
    acceptedEvent 5 [1] 1, acceptedEvent 6 [2, 3] 2]

def twinState : PersistedSyncState :=
  headState twoLines 4 [{ DurableRuns.plainEnvelope 4 7 [2, 3] twoLines with contentHash := 2 }]

def twinInput : ResolutionInput where
  mapping := sampleMapping twoLines
  content := twoLines
  expectedHead := 4
  pendingIds := [4]
  parents := [5, 6]
  existingRevisionId := none

theorem twinMerges_dropsNoBranch :
    (reconcileHeads twinMerges (fun _ => reading twoLines) 0 twinState).map (fun resolution =>
        (mergedHeads twinMerges resolution).map fun folded => folded.2.revision.revisionId) =
      [[5, 6]] ∧
      ∀ resolution ∈ reconcileHeads twinMerges (fun _ => reading twoLines) 0 twinState,
        DropsNoBranch twinMerges resolution := by
  have hasked : reconcileFile twinMerges (reading twoLines) twinState (sampleMapping twoLines) =
      .ok (some twinInput) := by decide +kernel
  have hsettled : Settled twinMerges.activeApplies twinState := by
    intro record hmem
    exact absurd hmem not_mem_nil
  obtain ⟨transaction, hcommit, hbefore⟩ : ∃ transaction, resolve twinMerges (reading twoLines)
      twinState twinInput = .ok (transaction.after, some transaction) ∧
        transaction.before = twinState := by
    refine commitHeadResolution_of hsettled rfl rfl rfl rfl
      (swapRefused_of_leaf rfl rfl (by decide) (by decide) fun hqueued => ?_)
    have hheads : 4 ∈ [5, 6] := mem_headerParents.mp hqueued
    exact absurd hheads (by decide)
  have hone := reconcileHeads_single 0 hsettled rfl (by decide) hasked hcommit
  obtain ⟨last, hmerged⟩ : ∃ last,
      mergedHeads twinMerges ⟨transaction, reading twoLines, twinInput⟩ =
        [(⟨graphOf twinMerges.accepted twinState 7, 4⟩, acceptedEvent 5 [1] 1),
          (last, acceptedEvent 6 [2, 3] 2)] := by
    rw [mergedHeads, Resolution.fileId]
    dsimp only
    rw [hbefore]
    exact ⟨_, rfl⟩
  refine ⟨by rw [hone, map_singleton, hmerged]; rfl, fun resolution hmem =>
    (dropsNoBranch_iff hmem).mpr fun folded hfolded => ?_⟩
  rw [hone, mem_singleton] at hmem
  subst hmem
  rw [hmerged] at hfolded
  obtain rfl := mem_singleton.mp hfolded
  -- merging the head 5 from the revision 1 keeps the second line
  refine ⟨twoLines, rfl, ?_⟩
  dsimp only
  rw [hbefore]
  exact absorbed_of_mergeHead (rfl : _ = Except.ok (some oneLine)) (by decide +kernel)

/-- The head 3 added a line to the note, the local head 4 and the head 5 removed the same
line from a revision that had it as well. -/
def undoneBranch : Ports :=
  branchPorts [acceptedEvent 1 [] 1, acceptedEvent 2 [1] 2, acceptedEvent 3 [1] 2,
    acceptedEvent 4 [2] 1, acceptedEvent 5 [2] 1]

def undoneInput : ResolutionInput where
  mapping := sampleMapping oneLine
  content := oneLine
  expectedHead := 4
  pendingIds := []
  parents := [3, 4, 5]
  existingRevisionId := none

/-- The merge of the head 3 adds its line, the one of the head 5 takes it away, and the
resolution names 3 as a parent of a note without it. -/
theorem undoneBranch_dropped :
    ∃ resolution ∈ reconcileHeads undoneBranch (fun _ => reading oneLine) 0
      (headState oneLine 4 []), ¬ DropsNoBranch undoneBranch resolution := by
  have hasked : reconcileFile undoneBranch (reading oneLine) (headState oneLine 4 [])
      (sampleMapping oneLine) = .ok (some undoneInput) := by decide +kernel
  have hsettled : Settled undoneBranch.activeApplies (headState oneLine 4 []) := by
    intro record hmem
    exact absurd hmem not_mem_nil
  obtain ⟨transaction, hcommit, hbefore⟩ : ∃ transaction, resolve undoneBranch (reading oneLine)
      (headState oneLine 4 []) undoneInput = .ok (transaction.after, some transaction) ∧
        transaction.before = headState oneLine 4 [] :=
    commitHeadResolution_of hsettled rfl rfl rfl rfl (swapRefused_of_nil rfl)
  refine ⟨⟨transaction, reading oneLine, undoneInput⟩, ?_, fun hkept => ?_⟩
  · rw [reconcileHeads_single _ hsettled rfl (by decide) hasked hcommit]
    exact mem_singleton_self _
  · have hmerged : ((⟨graphOf undoneBranch.accepted (headState oneLine 4 []) 7, 4⟩ : Tip),
        acceptedEvent 3 [1] 2) ∈ mergedHeads undoneBranch
          ⟨transaction, reading oneLine, undoneInput⟩ := by
      rw [mergedHeads, Resolution.fileId]
      dsimp only
      rw [hbefore]
      decide +kernel
    obtain ⟨disk, hdisk, habsorbed⟩ := hkept.absorbed _ hmerged
    dsimp only at habsorbed
    rw [hbefore, ← some.inj hdisk] at habsorbed
    have hremote : textOf undoneBranch (headState oneLine 4 []) undoneInput.mapping
        (acceptedEvent 3 [1] 2) = .ok (some twoLines) := rfl
    have hkeeps : twoLines = canonicalizeMarkdown oneLine :=
      mergeHead_of_absorbed habsorbed hremote (by decide +kernel)
    exact absurd hkeeps (by decide)

end Havemind.HeadAbsorption
