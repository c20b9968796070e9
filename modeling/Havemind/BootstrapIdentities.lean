import Havemind.ScanCreates

/-!
A device that connects with files in its vault takes over the identities the server has for
them. An untracked path of a live file of the server is adopted when the content here is that
of the file's one head; otherwise it is held back from the upload, and the scan that follows
leaves it out.
-/
namespace Havemind.BootstrapIdentities

open Runs JsText RevisionSchema SyncRunner VaultPayload DurableState DurableOperations List
  DurableSections OutboxRepository ChangeObserver VaultReconcile HeadReconciliation ScanSafety
  ProducerIndex ScanCreates Option

/-- `localeLe` orders the ids of files; not every vault reads bytes. -/
structure BootstrapOptions where
  scan : ScanOptions
  history : HeadReconciliation.Ports
  localeLe : Id → Id → Bool
  readsBinary : Bool

/-- How far the loop over the heads has come. -/
structure Adoption where
  state : PersistedSyncState
  mapped : List ℕ
  blocked : List ℕ

section
variable (options : BootstrapOptions) (files : Files)

def heads : List RemoteEvent := allHeads options.history.accepted

def headCount (fileId : Id) : ℕ :=
  ((heads options).filter fun head => head.revision.fileId = fileId).length

def candidates : List RemoteEvent :=
  (heads options).insertionSort fun a b =>
    options.localeLe a.revision.fileId b.revision.fileId = true

/-- The local file's text, a binary one has none, and its hash, when they are the head's. -/
def sameContent (remote : DecodedRevisionPayload) : Option (Option JsString × ContentHash) :=
  match remote.kind with
  | .binary =>
    if options.readsBinary then
      let contentHash := options.scan.digests.hashBlob
        (readBinary options.scan.toObserverOptions files remote.path)
      if remote.binaryContent.map options.scan.digests.hashBlob = some contentHash then
        some (none, contentHash)
      else none
    else none
  | .markdown =>
    let content := canonicalizeMarkdown (options.scan.normalizeConfigContent remote.path
      (readText options.scan.toObserverOptions files remote.path))
    if remote.content = some content then
      some (some content, options.scan.digests.hashText (canonicalizeMarkdown content))
    else none

def saved (operation : Operation) (state : PersistedSyncState) : PersistedSyncState :=
  (performed options.history.options 0 operation state).getD state

def newMapping (head : RemoteEvent) (remote : DecodedRevisionPayload) (path : ClassifiedPath)
    (contentHash : ContentHash) : LocalFileMapping where
  collisionKey := path.collisionKey
  contentHash
  contentKind := if remote.kind = .binary then some .binary else none
  fileId := head.revision.fileId
  path := path.canonicalPath

/-- The path's owner and the base of its content, written before the mapping. -/
def recorded (state : PersistedSyncState) (fileId : Id) (path : Path) (content : Option JsString)
    (contentHash : ContentHash) : PersistedSyncState :=
  let hashed := saved options (.recordBaseHash fileId contentHash)
    (saved options (.recordPathOwner fileId path) state)
  match content with
  | none => hashed
  | some content => saved options (.recordBaseContent fileId content) hashed

def adoptedState (state : PersistedSyncState) (head : RemoteEvent) (remote : DecodedRevisionPayload)
    (path : ClassifiedPath) (content : Option JsString) (contentHash : ContentHash) :
    PersistedSyncState :=
  let based := recorded options state head.revision.fileId path.canonicalPath content contentHash
  saved options (.saveProducer (adopted based.producerState
    (newMapping head remote path contentHash) head.revision.revisionId)) based

/-- One turn of the loop; `none` when the head's payload cannot be read. -/
def adoptHead (mappedFileIds : List Id) (pending : List OutboxEnvelope) (adoption : Adoption)
    (head : RemoteEvent) : Option Adoption :=
  if head.revision.fileId ∈ mappedFileIds then some adoption
  else
    (payload options.history adoption.state head).map fun remote =>
      if remote.operation = .delete then adoption
      else
        match options.scan.rules.classifyVaultPath remote.path with
        | none => adoption
        | some path =>
          if path.collisionKey ∈ adoption.mapped ∨ existsAt files remote.path = false then adoption
          else
            let held := { adoption with blocked := path.collisionKey :: adoption.blocked }
            if pending.length > 0 ∨ headCount options head.revision.fileId ≠ 1 then held
            else
              match sameContent options files remote with
              | none => held
              | some (content, contentHash) =>
                { state := adoptedState options adoption.state head remote path content contentHash
                  mapped := path.collisionKey :: adoption.mapped
                  blocked := held.blocked.filter fun key => key ≠ path.collisionKey }

/-- The document after the loop and the keys held back; a throw keeps what was adopted. -/
def adoptHeads (mappedFileIds : List Id) (pending : List OutboxEnvelope) (adoption : Adoption) :
    List RemoteEvent → PersistedSyncState × Option (List ℕ)
  | [] => (adoption.state, some adoption.blocked)
  | head :: rest =>
    match adoptHead options files mappedFileIds pending adoption head with
    | none => (adoption.state, none)
    | some next => adoptHeads mappedFileIds pending next rest

/-- Whether a listed file has no mapping. -/
def untracked (listed : List Path) (mapped : List ℕ) : Bool :=
  listed.any fun path => (keyOf options.scan.rules path).any fun key => ¬ mapped.contains key

/-- `listed` is what the vault lists, `files` what it holds. The producer finishes its
transactions first. -/
def bootstrapIdentities (listed : List Path) (now : Timestamp) (state : PersistedSyncState) :
    PersistedSyncState × Option (List ℕ) :=
  match recoverLocked options.history.options now options.history.activeApplies state with
  | none => (state, none)
  | some current =>
    let mapped := current.producerState.mappings.map LocalFileMapping.collisionKey
    if untracked options listed mapped then
      adoptHeads options files (current.producerState.mappings.map LocalFileMapping.fileId)
        current.outbox ⟨current, mapped, []⟩ (candidates options)
    else (current, some [])

end

section
variable (options : BootstrapOptions) (files : Files) (current : PersistedSyncState)

/-- A head of a file that has no mapping here and is not deleted, and the path it is at. -/
structure Live (head : RemoteEvent) (remote : DecodedRevisionPayload) (path : ClassifiedPath) :
    Prop where
  accepted : head ∈ heads options
  decoded : payload options.history current head = some remote
  operation : remote.operation ≠ .delete
  unmapped : head.revision.fileId ∉ current.producerState.mappings.map LocalFileMapping.fileId
  classified : options.scan.rules.classifyVaultPath remote.path = some path

/-- The local file has the head's content, whose hash this is. -/
def Agrees (remote : DecodedRevisionPayload) (contentHash : ContentHash) : Prop :=
  match remote.kind with
  | .binary =>
      let bytes := readBinary options.scan.toObserverOptions files remote.path
      remote.binaryContent = some bytes ∧ contentHash = options.scan.digests.hashBlob bytes
  | .markdown =>
      let content := canonicalizeMarkdown (options.scan.normalizeConfigContent remote.path
        (readText options.scan.toObserverOptions files remote.path))
      remote.content = some content ∧
        contentHash = options.scan.digests.hashText (canonicalizeMarkdown content)

/-- A mapping to a live file of the server with one head, whose content the local file has. -/
structure Adopted (mapping : LocalFileMapping) (head : RemoteEvent)
    (remote : DecodedRevisionPayload) (path : ClassifiedPath) (contentHash : ContentHash) :
    Prop where
  live : Live options current head remote path
  single : headCount options head.revision.fileId = 1
  there : existsAt files remote.path = true
  agrees : Agrees options files remote contentHash
  mapping : mapping = newMapping head remote path contentHash

/-- What a turn of the loop does: it passes a head with no untracked path here, holds the path
back, or adopts it. -/
inductive Turns (adoption : Adoption) (head : RemoteEvent) (next : Adoption) : Prop
  | passed (after : next = adoption)
      (settled : ∀ remote path, Live options current head remote path →
        existsAt files remote.path = true → path.collisionKey ∈ adoption.mapped)
  | held (remote : DecodedRevisionPayload) (path : ClassifiedPath)
      (live : Live options current head remote path) (free : path.collisionKey ∉ adoption.mapped)
      (after : next = { adoption with blocked := path.collisionKey :: adoption.blocked })
  | adopted (remote : DecodedRevisionPayload) (path : ClassifiedPath) (content : Option JsString)
      (contentHash : ContentHash) (live : Live options current head remote path)
      (free : path.collisionKey ∉ adoption.mapped) (there : existsAt files remote.path = true)
      (single : headCount options head.revision.fileId = 1)
      (agrees : Agrees options files remote contentHash)
      (after : next =
        { state := adoptedState options adoption.state head remote path content contentHash
          mapped := path.collisionKey :: adoption.mapped
          blocked := (path.collisionKey :: adoption.blocked).filter fun key =>
            key ≠ path.collisionKey })

variable {options files current} {adoption next : Adoption} {head : RemoteEvent}
  {remote : DecodedRevisionPayload} {path : ClassifiedPath} {content : Option JsString}
  {contentHash : ContentHash} {state : PersistedSyncState}

theorem agrees_of_sameContent
    (h : sameContent options files remote = some (content, contentHash)) :
    Agrees options files remote contentHash := by
  unfold sameContent at h
  unfold Agrees
  cases hkind : remote.kind with
  | binary =>
    rw [hkind] at h
    dsimp only at h ⊢
    split_ifs at h with hreads hsame
    obtain ⟨bytes, hbytes, hhash⟩ := map_eq_some_iff.mp hsame
    rw [hbytes, options.scan.digests.blob_injective hhash]
    exact ⟨rfl, (Prod.mk.inj (some.inj h)).2.symm⟩
  | markdown =>
    rw [hkind] at h
    dsimp only at h ⊢
    split_ifs at h with hsame
    exact ⟨hsame, (Prod.mk.inj (some.inj h)).2.symm⟩

theorem Live.eq {remote' : DecodedRevisionPayload} {path' : ClassifiedPath}
    (h : Live options current head remote path) (h' : Live options current head remote' path') :
    remote' = remote ∧ path' = path := by
  have hremote : remote' = remote := some.inj (h'.decoded.symm.trans h.decoded)
  refine ⟨hremote, ?_⟩
  have hpath := h'.classified
  rw [hremote, h.classified] at hpath
  exact (some.inj hpath).symm

theorem payload_outbox (h : state.outbox = current.outbox) (head : RemoteEvent) :
    payload options.history state head = payload options.history current head := by
  unfold payload
  rw [h]

theorem turns_adoptHead {pending : List OutboxEnvelope}
    (houtbox : adoption.state.outbox = current.outbox) (hhead : head ∈ heads options)
    (h : adoptHead options files (current.producerState.mappings.map LocalFileMapping.fileId)
      pending adoption head = some next) : Turns options files current adoption head next := by
  unfold adoptHead at h
  by_cases hmapped : head.revision.fileId ∈
      current.producerState.mappings.map LocalFileMapping.fileId
  · rw [if_pos hmapped] at h
    refine .passed (some.inj h).symm fun remote path hlive _ => ?_
    exact absurd hmapped hlive.unmapped
  rw [if_neg hmapped] at h
  obtain ⟨remote, hremote, hnext⟩ := map_eq_some_iff.mp h
  rw [payload_outbox houtbox] at hremote
  by_cases hdelete : remote.operation = .delete
  · rw [if_pos hdelete] at hnext
    refine .passed hnext.symm fun remote' path hlive _ => ?_
    rw [some.inj (hlive.decoded.symm.trans hremote)] at hlive
    exact absurd hdelete hlive.operation
  rw [if_neg hdelete] at hnext
  cases hclassified : options.scan.rules.classifyVaultPath remote.path with
  | none =>
    rw [hclassified] at hnext
    refine .passed hnext.symm fun remote' path hlive _ => ?_
    have hpath := hlive.classified
    rw [some.inj (hlive.decoded.symm.trans hremote), hclassified] at hpath
    cases hpath
  | some path =>
    have hlive : Live options current head remote path :=
      ⟨hhead, hremote, hdelete, hmapped, hclassified⟩
    rw [hclassified] at hnext
    dsimp only at hnext
    split_ifs at hnext with htaken hqueued
    · refine .passed hnext.symm fun remote' path' hlive' hthere => ?_
      obtain ⟨rfl, rfl⟩ := hlive.eq hlive'
      rw [hthere] at htaken
      exact htaken.resolve_right (by simp)
    · exact .held remote path hlive (not_or.mp htaken).1 hnext.symm
    · cases hsame : sameContent options files remote with
      | none =>
        rw [hsame] at hnext
        exact .held remote path hlive (not_or.mp htaken).1 hnext.symm
      | some found =>
        rw [hsame] at hnext
        exact .adopted remote path found.1 found.2 hlive (not_or.mp htaken).1
          (Bool.eq_true_of_not_eq_false (not_or.mp htaken).2) (not_not.mp (not_or.mp hqueued).2)
          (agrees_of_sameContent hsame) hnext.symm

theorem saved_eq (options : BootstrapOptions) (state : PersistedSyncState) (operation : Operation)
    {after : PersistedSyncState}
    (h : nextState options.history.options 0 operation state = some after) :
    (saved options operation state).producerState = after.producerState ∧
      (saved options operation state).outbox = after.outbox := by
  unfold saved performed
  rw [h, map_some, getD_some, trimmed_eq]
  exact ⟨rfl, rfl⟩

theorem recorded_eq (options : BootstrapOptions) (state : PersistedSyncState) (fileId : Id)
    (path : Path) (content : Option JsString) (contentHash : ContentHash) :
    (recorded options state fileId path content contentHash).producerState = state.producerState ∧
      (recorded options state fileId path content contentHash).outbox = state.outbox := by
  have howned := saved_eq options state (.recordPathOwner fileId path) rfl
  have hhashed := saved_eq options (saved options (.recordPathOwner fileId path) state)
    (.recordBaseHash fileId contentHash) rfl
  have hsame := And.intro (hhashed.1.trans howned.1) (hhashed.2.trans howned.2)
  cases content with
  | none => exact hsame
  | some content =>
    have hbased := saved_eq options (saved options (.recordBaseHash fileId contentHash)
      (saved options (.recordPathOwner fileId path) state)) (.recordBaseContent fileId content) rfl
    exact ⟨hbased.1.trans hsame.1, hbased.2.trans hsame.2⟩

/-- An adoption writes one mapping, and queues nothing. -/
theorem adoptedState_eq (options : BootstrapOptions) (state : PersistedSyncState)
    (head : RemoteEvent) (remote : DecodedRevisionPayload) (path : ClassifiedPath)
    (content : Option JsString) (contentHash : ContentHash) :
    (adoptedState options state head remote path content contentHash).producerState.mappings =
      upsertMapping state.producerState.mappings (newMapping head remote path contentHash) ∧
    (adoptedState options state head remote path content contentHash).outbox = state.outbox := by
  obtain ⟨hproducer, houtbox⟩ := recorded_eq options state head.revision.fileId
    path.canonicalPath content contentHash
  unfold adoptedState
  dsimp only
  obtain ⟨hsaved, hsaved'⟩ := saved_eq options
    (recorded options state head.revision.fileId path.canonicalPath content contentHash)
    (.saveProducer (adopted (recorded options state head.revision.fileId path.canonicalPath content
      contentHash).producerState (newMapping head remote path contentHash)
      head.revision.revisionId)) rfl
  rw [hsaved, hsaved', houtbox]
  refine ⟨?_, rfl⟩
  rw [← hproducer]
  rfl

end

section
variable (options : BootstrapOptions) (files : Files) (current : PersistedSyncState)

/-- What holds once the loop has passed some of the heads. -/
structure Adopting (passed : List RemoteEvent) (adoption : Adoption) : Prop where
  unique : UniqueMappings adoption.state.producerState.mappings
  consistent : AllConsistent options.scan adoption.state.producerState.mappings
  outbox : adoption.state.outbox = current.outbox
  keys : ∀ key, key ∈ adoption.mapped ↔ Mapped adoption.state.producerState.mappings key
  free : ∀ key ∈ adoption.blocked, key ∉ adoption.mapped
  kept : ∀ mapping ∈ current.producerState.mappings,
    mapping ∈ adoption.state.producerState.mappings
  origin : ∀ mapping ∈ adoption.state.producerState.mappings,
    mapping ∈ current.producerState.mappings ∨ ∃ head ∈ passed, ∃ remote path contentHash,
      Adopted options files current mapping head remote path contentHash
  settled : ∀ head ∈ passed, ∀ remote path, Live options current head remote path →
    existsAt files remote.path = true →
    path.collisionKey ∈ adoption.mapped ∨ path.collisionKey ∈ adoption.blocked

variable {options files current} {passed rest : List RemoteEvent} {adoption next : Adoption}
  {head : RemoteEvent}

theorem candidates_perm (options : BootstrapOptions) :
    (candidates options).Perm (heads options) := perm_insertionSort _ _

theorem mem_heads (hsplit : candidates options = passed ++ head :: rest) :
    head ∈ heads options := by
  apply (candidates_perm options).mem_iff.mp
  rw [hsplit]
  exact mem_append_right _ mem_cons_self

/-- The one head of a file is not among the heads passed. -/
theorem fileId_ne_of_single (hsplit : candidates options = passed ++ head :: rest)
    (hsingle : headCount options head.revision.fileId = 1) :
    ∀ earlier ∈ passed, earlier.revision.fileId ≠ head.revision.fileId := by
  intro earlier hearlier hsame
  have hlength := ((candidates_perm options).filter fun other =>
    other.revision.fileId = head.revision.fileId).length_eq
  rw [hsplit, filter_append, length_append] at hlength
  have hbefore : earlier ∈ passed.filter fun other =>
      other.revision.fileId = head.revision.fileId :=
    mem_filter.mpr ⟨hearlier, decide_eq_true hsame⟩
  have hself : head ∈ (head :: rest).filter fun other =>
      other.revision.fileId = head.revision.fileId :=
    mem_filter.mpr ⟨mem_cons_self, decide_eq_true rfl⟩
  have hbefore' := length_pos_of_mem hbefore
  have hself' := length_pos_of_mem hself
  unfold headCount at hsingle
  omega

variable (h : Adopting options files current passed adoption)
include h

/-- A turn that writes nothing. -/
theorem adopting_same {blocked : List ℕ} (hfree : ∀ key ∈ blocked, key ∉ adoption.mapped)
    (hkept : ∀ key ∈ adoption.blocked, key ∈ blocked)
    (hsettled : ∀ remote path, Live options current head remote path →
      existsAt files remote.path = true →
      path.collisionKey ∈ adoption.mapped ∨ path.collisionKey ∈ blocked) :
    Adopting options files current (passed ++ [head]) { adoption with blocked } := by
  refine ⟨h.unique, h.consistent, h.outbox, h.keys, hfree, h.kept, ?_, ?_⟩
  · intro mapping hmem
    refine (h.origin mapping hmem).imp id ?_
    rintro ⟨earlier, hearlier, hadopted⟩
    exact ⟨earlier, mem_append_left _ hearlier, hadopted⟩
  · intro earlier hearlier remote path hlive hthere
    rcases mem_append.mp hearlier with hbefore | hnow
    · exact (h.settled earlier hbefore remote path hlive hthere).imp id (hkept _)
    · rw [mem_singleton.mp hnow] at hlive
      exact hsettled remote path hlive hthere

theorem adopting_turn (hsplit : candidates options = passed ++ head :: rest)
    (hturns : Turns options files current adoption head next) :
    Adopting options files current (passed ++ [head]) next := by
  cases hturns with
  | passed after settled =>
    rw [after]
    exact adopting_same h h.free (fun _ => id) fun remote path hlive hthere =>
      .inl (settled remote path hlive hthere)
  | held remote path live free after =>
    rw [after]
    refine adopting_same h ?_ (fun _ => mem_cons_of_mem _) ?_
    · exact forall_mem_cons.mpr ⟨free, h.free⟩
    · intro remote' path' live' _
      rw [(live.eq live').2]
      exact .inr mem_cons_self
  | adopted remote path content contentHash live free there single agrees after =>
    obtain ⟨hmappings, houtbox⟩ := adoptedState_eq options adoption.state head remote path content
      contentHash
    have hplaced : Consistent options.scan (newMapping head remote path contentHash) :=
      consistent_classified live.classified rfl rfl
    have hkept : ∀ mapping ∈ adoption.state.producerState.mappings, mapping ∈ upsertMapping
        adoption.state.producerState.mappings (newMapping head remote path contentHash) := by
      intro mapping hmem
      apply mem_upsertMapping_of_ne hmem
      · rcases h.origin mapping hmem with hbefore | ⟨earlier, hearlier, _, _, _, hadopted⟩
        · intro hfile
          have hmapped := mem_map_of_mem (f := LocalFileMapping.fileId) hbefore
          rw [hfile] at hmapped
          exact live.unmapped hmapped
        · rw [hadopted.mapping]
          exact fileId_ne_of_single hsplit single earlier hearlier
      · exact fun hkey => free ((h.keys _).mpr ⟨mapping, hmem, hkey⟩)
    rw [after]
    refine ⟨?_, ?_, houtbox.trans h.outbox, fun key => ?_, fun key hblocked => ?_, ?_, ?_, ?_⟩
    · rw [hmappings]
      exact h.unique.upsert _
    · rw [hmappings]
      exact allConsistent_upsert h.consistent hplaced
    · rw [hmappings, mem_cons, h.keys]
      constructor
      · rintro (rfl | ⟨mapping, hmem, hkey⟩)
        · exact ⟨_, mem_append_right _ (mem_singleton_self _), rfl⟩
        · exact ⟨mapping, hkept mapping hmem, hkey⟩
      · rintro ⟨mapping, hmem, hkey⟩
        rcases mem_upsertMapping hmem with hold | rfl
        · exact .inr ⟨mapping, hold, hkey⟩
        · exact .inl hkey.symm
    · obtain ⟨hmem, hne⟩ := mem_filter.mp hblocked
      have hother : key ≠ path.collisionKey := of_decide_eq_true hne
      rw [mem_cons]
      exact not_or.mpr ⟨hother, h.free key ((mem_cons.mp hmem).resolve_left hother)⟩
    · intro mapping hmem
      rw [hmappings]
      exact hkept mapping (h.kept mapping hmem)
    · intro mapping hmem
      rw [hmappings] at hmem
      rcases mem_upsertMapping hmem with hold | hnew
      · refine (h.origin mapping hold).imp id ?_
        rintro ⟨earlier, hearlier, hadopted⟩
        exact ⟨earlier, mem_append_left _ hearlier, hadopted⟩
      · exact .inr ⟨head, mem_append_right _ (mem_singleton_self _), remote, path,
          contentHash, live, single, there, agrees, hnew.symm⟩
    · intro earlier hearlier remote' path' live' hthere
      by_cases hsame : path'.collisionKey = path.collisionKey
      · exact .inl (hsame ▸ mem_cons_self)
      rcases mem_append.mp hearlier with hbefore | hnow
      · refine (h.settled earlier hbefore remote' path' live' hthere).imp
          (mem_cons_of_mem _) fun hblocked => ?_
        exact mem_filter.mpr ⟨mem_cons_of_mem _ hblocked, decide_eq_true hsame⟩
      · rw [mem_singleton.mp hnow] at live'
        rw [(live.eq live').2] at hsame
        exact absurd rfl hsame

/-- What holds once the loop has passed all the heads. -/
theorem adopting_heads {pending : List OutboxEnvelope} {state : PersistedSyncState}
    {blocked : List ℕ} (hsplit : candidates options = passed ++ rest)
    (hresult : adoptHeads options files
      (current.producerState.mappings.map LocalFileMapping.fileId) pending adoption rest =
        (state, some blocked)) :
    ∃ last, Adopting options files current (candidates options) last ∧ last.state = state ∧
      last.blocked = blocked := by
  induction rest generalizing passed adoption with
  | nil =>
    rw [append_nil] at hsplit
    obtain ⟨hstate, hblocked⟩ := Prod.mk.inj hresult
    exact ⟨adoption, hsplit ▸ h, hstate, some.inj hblocked⟩
  | cons head rest ih =>
    unfold adoptHeads at hresult
    cases hnext : adoptHead options files
        (current.producerState.mappings.map LocalFileMapping.fileId) pending adoption head with
    | none =>
      rw [hnext] at hresult
      cases (Prod.mk.inj hresult).2
    | some next =>
      rw [hnext] at hresult
      have hturns := turns_adoptHead h.outbox (mem_heads hsplit) hnext
      refine ih (adopting_turn h hsplit hturns) ?_ hresult
      rw [hsplit, append_assoc, singleton_append]

end

section
variable {options : BootstrapOptions} {files : Files} {listed : List Path} {now : Timestamp}
  {state current after : PersistedSyncState} {blocked : List ℕ} {start world : ScanWorld}

/-- A key whose files no scan lists. -/
def HeldBack (options : ScanOptions) (world : ScanWorld) (key : ℕ) : Prop :=
  key ∈ world.blocked ∧ ∀ paths, ∀ path ∈ pathsToScan options world.blocked
    (world.mappings.map LocalFileMapping.collisionKey) paths, keyOf options.rules path ≠ some key

/-- The files of a key got no second identity: none was created, and the key is held back, or
the mapping it had when the scan started is there until the file is renamed or deleted. -/
structure Sole (options : ScanOptions) (start world : ScanWorld) (key : ℕ) : Prop where
  uncreated : ∀ commit ∈ world.queued, commit.operation.kind = .create →
    keyOf options.rules commit.operation.path ≠ some key
  settled : HeldBack options world key ∨ ∃ mapping ∈ start.mappings, mapping.collisionKey = key ∧
    ((∃ kept ∈ world.mappings, kept.fileId = mapping.fileId ∧ kept.collisionKey = key) ∨
      ∃ commit ∈ world.queued, commit.operation.fileId = mapping.fileId ∧
        (commit.operation.kind = .rename ∨ commit.operation.kind = .delete))

theorem sole_of_kept {key : ℕ} {options : ScanOptions} (h : Kept options start key world)
    (hkey : Mapped start.mappings key ∨ key ∈ start.blocked) : Sole options start world key := by
  refine ⟨h.uncreated, ?_⟩
  by_cases hmapped : Mapped start.mappings key
  · obtain ⟨mapping, hmem, hmapping⟩ := hmapped
    exact .inr ⟨mapping, hmem, hmapping, h.mapped mapping hmem hmapping⟩
  · have hblocked : key ∈ world.blocked := by
      rw [h.blocked]
      exact hkey.resolve_left hmapped
    refine .inl ⟨hblocked, fun paths => not_scanned hblocked fun hmem => ?_⟩
    exact h.unmapped hmapped (mem_map.mp hmem)

/-- The loop's invariant before its first turn. -/
theorem adopting_start (hunique : UniqueMappings current.producerState.mappings)
    (hconsistent : AllConsistent options.scan current.producerState.mappings) :
    Adopting options files current []
      ⟨current, current.producerState.mappings.map LocalFileMapping.collisionKey, []⟩ := by
  refine ⟨hunique, hconsistent, rfl, fun key => mem_map, ?_, fun _ => id, fun _ => .inl, ?_⟩
  · exact forall_mem_nil _
  · exact forall_mem_nil _

/-- A device that connects gives no file of the server a second identity: of a live file that
had no mapping, whose path is in the vault, nothing is created by the scan that follows, and
the path is mapped or held back. A mapping that is new is to the one head of a live file,
whose content the local file has, and no two mappings are of one file. -/
theorem connect_sole (hrecovered : recoverLocked options.history.options now
      options.history.activeApplies state = some current)
    (hunique : UniqueMappings current.producerState.mappings)
    (hconsistent : AllConsistent options.scan current.producerState.mappings)
    (hbootstrap : bootstrapIdentities options files listed now state = (after, some blocked)) :
    (∀ mapping ∈ after.producerState.mappings, mapping ∈ current.producerState.mappings ∨
      ∃ head remote path contentHash,
        Adopted options files current mapping head remote path contentHash) ∧
    ∀ later world, Reached (scanStep options.scan) OwnStep
        { files := later, mappings := after.producerState.mappings, blocked } world →
      (world.mappings.map LocalFileMapping.fileId).Nodup ∧
      ∀ head remote path, Live options current head remote path →
        existsAt files remote.path = true →
        untracked options listed
          (current.producerState.mappings.map LocalFileMapping.collisionKey) = true →
        Sole options.scan { files := later, mappings := after.producerState.mappings, blocked }
          world path.collisionKey := by
  unfold bootstrapIdentities at hbootstrap
  rw [hrecovered] at hbootstrap
  dsimp only at hbootstrap
  split_ifs at hbootstrap with huntracked
  · obtain ⟨last, hlast, rfl, rfl⟩ := adopting_heads (adopting_start hunique hconsistent)
      (nil_append _).symm hbootstrap
    refine ⟨fun mapping hmem => (hlast.origin mapping hmem).imp id ?_, fun later world hreached =>
      ⟨(unique_reached hlast.unique hreached).files, ?_⟩⟩
    · rintro ⟨head, -, hadopted⟩
      exact ⟨head, hadopted⟩
    · intro head remote path hlive hthere _
      have hmem : head ∈ candidates options := (candidates_perm options).mem_iff.mpr hlive.accepted
      have hkey := hlast.settled head hmem remote path hlive hthere
      rw [hlast.keys] at hkey
      exact sole_of_kept (scan_keeps hlast.unique hlast.consistent rfl rfl hkey hreached) hkey
  · obtain ⟨rfl, -⟩ := Prod.mk.inj hbootstrap
    refine ⟨fun mapping hmem => .inl hmem, fun later world hreached =>
      ⟨(unique_reached hunique hreached).files, ?_⟩⟩
    intro head remote path _ _ hlisted
    exact absurd hlisted huntracked

end

/-- Two spellings of a path are next to each other and share a key; from 100 on lie the
settings. -/
def spelledRules : PathRules :=
  { noteRules with
    classifyVaultPath := fun path => some ⟨path, path / 2, .markdown⟩
    isSyncableConfigPath := fun path => 100 ≤ path }

theorem spelled_listed (path : Path) (classified : ClassifiedPath)
    (_ : spelledRules.classifyVaultPath path = some classified) :
    (decide (path < 100) = true ∧ true = true) ∨ spelledRules.isSyncableConfigPath path = true := by
  rcases Nat.lt_or_ge path 100 with hnote | hsettings
  · exact .inl ⟨decide_eq_true hnote, rfl⟩
  · exact .inr (decide_eq_true hsettings)

theorem spelled_canonical (path : Path) (classified : ClassifiedPath)
    (h : spelledRules.classifyVaultPath path = some classified) :
    spelledRules.classifyVaultPath classified.canonicalPath = some classified := by
  cases h
  rfl

def spelledScan : ScanOptions where
  toObserverOptions := { noteObserver with rules := spelledRules }
  visible path := path < 100
  syncableExtension _ := true
  canRecord := false
  listed_of_classified := spelled_listed
  classify_canonical := spelled_canonical

def aLine : JsString := [97, lineFeed]

/-- The first revision of a file, the file's id its path. -/
def birth (fileId : Id) (path : Path) : RemoteEvent where
  serverSequence := fileId
  revision :=
    { revisionId := fileId
      fileId
      contentHash := path
      parentRevisionIds := none
      authorMembershipId := none
      acceptedAt := none }

/-- Every note of the server has the same line. -/
def served (accepted : List RemoteEvent) : BootstrapOptions where
  scan := spelledScan
  history :=
    { options := DurableRuns.plainOptions
      digests := noteObserver.digests
      builder := HeadAbsorption.plainBuilder
      decodePayload := fun _ => none
      resolveRevision := fun event =>
        some ⟨.create, event.revision.contentHash, none, .markdown, some aLine, none⟩
      reconcileTip := fun tip _ => tip
      accepted
      activeApplies := [] }
  localeLe a b := a ≤ b
  readsBinary := true

def filesAt (paths : List Path) (text : JsString) : Files :=
  paths.foldl (fun files path => files.set path (.text text)) JsObject.empty

/-- A device with two notes that the server has too. -/
def twoNotes : PersistedSyncState × Option (List ℕ) :=
  bootstrapIdentities (served [birth 7 2, birth 9 4]) ((filesAt [2] aLine).set 4 (.text [122]))
    [2, 4] 0 emptyState

theorem live_birth (accepted : List RemoteEvent) (fileId : Id) (path : Path)
    (h : birth fileId path ∈ heads (served accepted)) :
    Live (served accepted) emptyState (birth fileId path)
      ⟨.create, path, none, .markdown, some aLine, none⟩ ⟨path, path / 2, .markdown⟩ :=
  ⟨h, rfl, nofun, not_mem_nil, rfl⟩

/-- The note with the server's content is adopted, the other one is held back. -/
theorem connect_sole_notes : twoNotes.2 = some [2] ∧
    twoNotes.1.producerState.mappings.map LocalFileMapping.fileId = [7] ∧
    ∀ later world, Reached (scanStep spelledScan) OwnStep
      { files := later, mappings := twoNotes.1.producerState.mappings, blocked := [2] } world →
      ∀ key ∈ [1, 2], Sole spelledScan
        { files := later, mappings := twoNotes.1.producerState.mappings, blocked := [2] } world
        key := by
  refine ⟨rfl, rfl, fun later world hreached => ?_⟩
  have hbootstrap : bootstrapIdentities (served [birth 7 2, birth 9 4])
      ((filesAt [2] aLine).set 4 (.text [122])) [2, 4] 0 emptyState =
        (twoNotes.1, some [2]) := rfl
  have hunique : UniqueMappings emptyState.producerState.mappings :=
    ⟨nodup_nil, nodup_nil⟩
  have hconsistent : AllConsistent spelledScan emptyState.producerState.mappings :=
    forall_mem_nil _
  have hsole := ((connect_sole rfl hunique hconsistent hbootstrap).2 later world hreached).2
  have hfirst := hsole _ _ _ (live_birth [birth 7 2, birth 9 4] 7 2 (by decide)) rfl rfl
  have hsecond := hsole _ _ _ (live_birth [birth 7 2, birth 9 4] 9 4 (by decide)) rfl rfl
  exact forall_mem_cons.mpr ⟨hfirst, forall_mem_singleton.mpr hsecond⟩

/-- A scan in which nothing fails, up to its first observation. -/
def sixAnswers : List ScanAction :=
  [.reconcile false, .answer {}, .answer {}, .answer {}, .answer {}, .answer {}, .answer {}]

/-- What a scan creates after the identities were looked up with this listing. -/
def createdAfter (options : BootstrapOptions) (files : Files) (listed : List Path) :
    Option (List (LocalChangeKind × Path)) :=
  let found := bootstrapIdentities options files listed 0 emptyState
  (run (scanStep spelledScan)
    { files, mappings := found.1.producerState.mappings, blocked := found.2.getD [] }
      sixAnswers).map fun world =>
        world.queued.map fun commit => (commit.operation.kind, commit.operation.path)

/-- A device with a note that the server has twice. -/
def noteTwice : PersistedSyncState × Option (List ℕ) :=
  bootstrapIdentities (served [birth 7 2, birth 8 2]) (filesAt [2] aLine) [2] 0 emptyState

/-- Of two live files with one path only the first is adopted: the path is neither mapped to
the other nor held back for it. A live file at another spelling of the path, or one whose path
the first listing left out, is created a second time. -/
theorem connect_second_identity :
    (Live (served [birth 7 2, birth 8 2]) emptyState (birth 8 2)
        ⟨.create, 2, none, .markdown, some aLine, none⟩ ⟨2, 1, .markdown⟩ ∧
      noteTwice.2 = some [] ∧
      noteTwice.1.producerState.mappings.map (fun mapping => (mapping.fileId, mapping.path)) =
        [(7, 2)]) ∧
    (Live (served [birth 9 4]) emptyState (birth 9 4)
        ⟨.create, 4, none, .markdown, some aLine, none⟩ ⟨4, 2, .markdown⟩ ∧
      keyOf spelledScan.rules 5 = some 2 ∧
      createdAfter (served [birth 9 4]) (filesAt [5] aLine) [5] = some [(.create, 5)]) ∧
    Live (served [birth 10 100]) emptyState (birth 10 100)
        ⟨.create, 100, none, .markdown, some aLine, none⟩ ⟨100, 50, .markdown⟩ ∧
      createdAfter (served [birth 10 100]) (filesAt [100] aLine) [] = some [(.create, 100)] := by
  have hpath := live_birth [birth 7 2, birth 8 2] 8 2 (by decide)
  have hspelled := live_birth [birth 9 4] 9 4 (by decide)
  have hsettings := live_birth [birth 10 100] 10 100 (by decide)
  exact ⟨⟨hpath, rfl, rfl⟩, ⟨hspelled, rfl, rfl⟩, hsettings, rfl⟩

end Havemind.BootstrapIdentities
