import Havemind.RemoteApply

/-!
What every call of a port keeps, a whole apply keeps. An attachment's write asks
more of the store than the other calls: the apply makes it only when its last
look at the file has just been taken.
-/
namespace Havemind.PortRelations

open Endings JsText RemoteApply RevisionEnvelope SyncRunner SyncState VaultFilePort VaultPayload

/-- Each call keeps `R`. `Looked path` says that the file at the path is as the
last read found it; an attachment is written only then, and a note without
expectation only at a settings path. -/
structure PortKeeps {σ : Type} (port : FilePort σ) (rules : PathRules) (R : σ → σ → Prop)
    (Looked : Path → σ → Prop) : Prop where
  withState : ∀ state device, R device (port.withState state device)
  openBufferStates : ∀ fileId, Preserves R (port.openBufferStates fileId)
  readByPath : ∀ moment path, Preserves R (port.readByPath moment path)
  readBinaryByPath : ∀ moment path device, Ends (port.readBinaryByPath moment path) device
    (fun _ after => R device after ∧ Looked path after) (fun _ after => R device after)
  writeByPath : ∀ moment path content expected,
    (expected = none → rules.isSyncableConfigPath path = true) →
    Preserves R (port.writeByPath moment path content expected)
  writeBinaryByPath : ∀ moment path bytes device, Looked path device →
    Ends (port.writeBinaryByPath moment path bytes) device (fun _ after => R device after)
      (fun _ after => R device after)
  deleteByPath : ∀ moment path, Preserves R (port.deleteByPath moment path)
  writeConflictArtifact : ∀ path content, Preserves R (port.writeConflictArtifact path content)

variable {σ : Type} {port : FilePort σ} {ctx : ApplyContext} {event : RemoteEvent}
  {decoded : DecodedRevisionPayload} {R : σ → σ → Prop} {Looked : Path → σ → Prop}

variable (h : PortKeeps port ctx.rules R Looked)
include h

theorem preserves_setState {f : PersistedSyncState → PersistedSyncState} :
    Preserves R (setState port f) :=
  preserves_modify fun device => h.withState (f (port.stateOf device)) device

theorem ends_readContent {moment : Moment} {kind : SyncContentKind} {path : Path} {device : σ} :
    Ends (readContent port moment kind path) device
      (fun _ after => R device after ∧ (kind = .binary → Looked path after))
      (fun _ after => R device after) := by
  cases kind with
  | binary =>
    refine Ends.bind ((h.readBinaryByPath moment path device).mono ?_ fun _ _ hr => hr)
    intro bytes after hafter
    exact ends_pure ⟨hafter.1, fun _ => hafter.2⟩
  | markdown =>
    refine Ends.bind ((h.readByPath moment path device).mono ?_ fun _ _ hr => hr)
    intro text after hafter
    refine ends_pure ⟨hafter, ?_⟩
    intro hkind
    cases hkind

theorem preserves_readContent {moment : Moment} {kind : SyncContentKind} {path : Path} :
    Preserves R (readContent port moment kind path) :=
  fun _ => (ends_readContent h).mono (fun _ _ hread => hread.1) fun _ _ hr => hr

theorem ends_writeIncoming {onDisk : Option Content} {device : σ}
    (hlooked : decoded.kind = .binary → Looked decoded.path device) :
    Ends (writeIncoming port ctx decoded onDisk) device (fun _ after => R device after)
      (fun _ after => R device after) := by
  unfold writeIncoming incomingContent
  cases hkind : decoded.kind with
  | markdown =>
    refine h.writeByPath _ _ _ _ ?_ device
    by_cases hconfig : lastWriterWins ctx decoded.path = true
    · exact fun _ => hconfig
    · rw [if_neg hconfig]
      intro hnone
      cases hnone
  | binary => exact h.writeBinaryByPath _ _ _ device (hlooked hkind)

variable [Std.Refl R]

theorem preserves_trySetState {f : PersistedSyncState → Option PersistedSyncState} :
    Preserves R (trySetState port f) := by
  refine preserves_get_bind fun device => ?_
  split
  · exact preserves_throw
  · exact preserves_setState h

omit h in
theorem preserves_ensureEvent :
    Preserves R (ensureEvent ctx event : EStateM Thrown σ Unit) := by
  unfold ensureEvent
  split
  · exact preserves_pure
  · exact preserves_throw

omit h in
theorem preserves_mergeAncestor {path : Path} :
    Preserves R (mergeAncestor port ctx event path) := by
  refine preserves_get_bind fun device => ?_
  dsimp only
  split
  · exact preserves_pure
  · split
    · exact preserves_pure
    · split
      · exact preserves_throw
      · split
        · exact preserves_pure
        · exact preserves_pure

theorem preserves_rollback : Preserves R (rollback port ctx) := by
  unfold rollback
  split
  · exact preserves_trySetState h
  · exact preserves_pure

theorem preserves_complete : Preserves R (complete port ctx) := by
  unfold complete
  split
  · exact preserves_setState h
  · exact preserves_pure

variable [IsTrans σ R]

theorem preserves_writeConflict : Preserves R (writeConflict port ctx event decoded) := by
  refine preserves_get_bind fun device => (h.writeConflictArtifact _ _).bind fun _ => ?_
  split
  · exact (preserves_setState h).bind fun _ => preserves_pure
  · exact preserves_pure

theorem preserves_onMergedWrite {content : JsString} :
    Preserves R (onMergedWrite port ctx event decoded content) := by
  unfold onMergedWrite
  split
  · exact preserves_pure
  · split
    · refine preserves_get_bind fun device => ?_
      dsimp only
      split
      · exact preserves_pure
      · split
        · exact preserves_pure
        · split
          · exact preserves_throw
          · refine (preserves_trySetState h).bind fun _ => ?_
            exact (preserves_setState h).bind fun _ => preserves_pure
    · exact preserves_pure

/-- A merge is written only over the text it was made from. -/
theorem preserves_tryMergeApply {onDisk : Content} :
    Preserves R (tryMergeApply port ctx event decoded onDisk) := by
  unfold tryMergeApply
  cases onDisk with
  | bytes value => exact preserves_pure
  | text current =>
    refine preserves_mergeAncestor.bind fun found => ?_
    split
    · exact preserves_pure
    · split
      · exact preserves_throw
      · exact preserves_pure
      · refine (preserves_onMergedWrite h).bind fun queued => ?_
        split
        · split
          · exact (preserves_setState h).bind fun _ => preserves_pure
          · refine Preserves.bind ?_ fun _ => (preserves_setState h).bind fun _ => preserves_pure
            refine h.writeByPath _ _ _ _ ?_
            intro hnone
            cases hnone
        · exact preserves_pure

theorem preserves_mergeOrConflict {onDisk : Content} :
    Preserves R (mergeOrConflict port ctx event decoded onDisk) := by
  refine (preserves_tryMergeApply h).bind fun merged => ?_
  split
  · exact preserves_pure
  · exact preserves_writeConflict h

theorem preserves_publish {cleanHash : Option ContentHash} :
    Preserves R (publish port ctx event decoded cleanHash) := by
  refine Preserves.bind (preserves_setState h) fun _ => ?_
  intro device
  have hhandler : ∀ e failed, R device failed → Ends
      (if e = .parentFolderOccupied ∧ lastWriterWins ctx decoded.path = false then do
        onRemoteDelete port ctx event.revision.fileId decoded.path
        writeConflict port ctx event decoded
      else throw e) failed (fun _ after => R device after) (fun _ after => R device after) := by
    intro e failed hfailed
    split
    · exact ((preserves_setState h).bind fun _ => preserves_writeConflict h).after hfailed
    · exact ends_throw hfailed
  refine Ends.bind ((ends_readContent h).mono ?_ fun _ _ hr => hr)
  intro onDisk reread hreread
  refine ends_get_bind ?_
  split
  · exact ((preserves_setState h).bind fun _ => preserves_mergeOrConflict h).after hreread.1
  · refine Ends.catching (Ends.bind ((ends_writeIncoming h hreread.2).mono ?_ ?_))
    · intro _ written hwritten
      have hbefore := IsTrans.trans device reread written hreread.1 hwritten
      refine Ends.bind (((preserves_setState h).after hbefore).mono ?_ ?_)
      · exact fun _ after hafter => ends_pure hafter
      · exact fun e failed hfailed => hhandler e failed hfailed
    · exact fun e failed hfailed =>
        hhandler e failed (IsTrans.trans device reread failed hreread.1 hfailed)

theorem preserves_settle {onDisk : Option Content} :
    Preserves R (settle port ctx event decoded onDisk) := by
  unfold settle
  split
  · exact (preserves_setState h).bind fun _ => (preserves_setState h).bind fun _ => preserves_pure
  · refine preserves_get_bind fun device => ?_
    split
    · exact preserves_publish h
    · refine (preserves_tryMergeApply h).bind fun merged => ?_
      split
      · exact preserves_pure
      · split
        · exact preserves_publish h
        · exact preserves_writeConflict h

theorem preserves_applyContent : Preserves R (applyContent port ctx event decoded) := by
  refine (preserves_readContent h).bind fun onDisk => preserves_get_bind fun device => ?_
  split
  · exact preserves_writeConflict h
  · split
    · exact preserves_settle h
    · split
      · exact preserves_pure
      · split
        · exact preserves_writeConflict h
        · refine (preserves_setState h).bind fun _ => ?_
          exact (preserves_setState h).bind fun _ => preserves_settle h

theorem preserves_renameBlocked {previousPath : Path} :
    Preserves R (renameBlocked port ctx event decoded previousPath) := by
  refine (preserves_readContent h).bind fun found => preserves_get_bind fun device => ?_
  split
  · exact preserves_pure
  · split
    · exact preserves_pure
    · exact (preserves_readContent h).bind fun destination => preserves_pure

theorem preserves_applyUpsert : Preserves R (applyUpsert port ctx event decoded) := by
  refine preserves_get_bind fun device => ?_
  split
  · exact preserves_applyContent h
  · refine (preserves_renameBlocked h).bind fun blocked => ?_
    split
    · exact preserves_writeConflict h
    · exact (preserves_setState h).bind fun _ => preserves_applyContent h

theorem preserves_removeFound {onDisk : Option Content} :
    Preserves R (removeFound port ctx event decoded onDisk) := by
  refine preserves_get_bind fun device => ?_
  split
  · exact preserves_writeConflict h
  · refine (preserves_setState h).bind fun _ => (h.deleteByPath _ _).bind fun _ => ?_
    exact (preserves_setState h).bind fun _ => (preserves_setState h).bind fun _ => preserves_pure

theorem preserves_applyDelete : Preserves R (applyDelete port ctx event decoded) := by
  refine preserves_get_bind fun device => ?_
  split
  · exact preserves_pure
  · dsimp only
    split
    · exact preserves_pure.bind fun onDisk => preserves_removeFound h
    · exact (preserves_readContent h).bind fun onDisk => preserves_removeFound h

theorem preserves_applyDecoded : Preserves R (applyDecoded port ctx event decoded) := by
  unfold applyDecoded
  split
  · exact preserves_applyDelete h
  · exact preserves_applyUpsert h

theorem preserves_vacate {result : RemoteApplyOutcome} :
    Preserves R (vacate port event decoded result) := by
  refine preserves_get_bind fun device => ?_
  split
  · exact preserves_pure
  · exact (h.deleteByPath _ _).bind fun _ => preserves_setState h

theorem preserves_attempt : Preserves R (attempt port ctx event decoded) := by
  refine Preserves.catching ?_ fun e => (preserves_rollback h).bind fun _ => ?_
  · refine (preserves_applyDecoded h).bind fun result => (preserves_vacate h).bind fun _ => ?_
    split
    · exact (preserves_rollback h).bind fun _ => preserves_pure
    · exact (preserves_complete h).bind fun _ => preserves_pure
  · split
    · exact preserves_pure
    · exact preserves_throw

theorem preserves_applyLocked {bootstrap : Bool} :
    Preserves R (applyLocked port ctx event decoded bootstrap) := by
  refine (h.openBufferStates _).bind fun buffers => preserves_get_bind fun device => ?_
  split
  · exact preserves_pure
  · split
    · exact preserves_pure
    · split
      · exact preserves_pure
      · refine Preserves.bind ?_ fun _ => preserves_attempt h
        unfold checkpoint
        split
        · exact preserves_trySetState h
        · exact preserves_pure

theorem preserves_applyUnlessObsolete {bootstrap : Bool} :
    Preserves R (applyUnlessObsolete port ctx event bootstrap) := by
  refine preserves_get_bind fun device => ?_
  split
  · exact preserves_pure
  · unfold applyFetched
    split
    · exact preserves_throw
    · refine preserves_ensureEvent.bind fun _ => ?_
      split
      · exact preserves_throw
      · exact preserves_applyLocked h

/-- The whole apply keeps what every call keeps. -/
theorem preserves_applyRemote {bootstrap : Bool} :
    Preserves R (applyRemote port ctx event bootstrap) := by
  unfold applyRemote
  split
  · exact preserves_ensureEvent.bind fun _ => preserves_applyUnlessObsolete h
  · exact preserves_applyUnlessObsolete h

end Havemind.PortRelations
