import Havemind.HistoryRefresh

/-!
The cached log is one epoch's log, as long as no page is added to events of
another epoch. Pages are compared with the recorded epoch only where they
confirm a stored log; the guard of the runs here is that comparison made for
every page behind the first event.
-/
namespace Havemind.HistoryEpochs

open JsText RevisionSchema SyncRunner HistoryRefresh Runs List Option

/-- The events are a prefix of the log of the epoch they were read under. -/
def LogOf (server : Server) (epoch : Option JsString) (events : List RemoteEvent) : Prop :=
  events = [] ∨ ∃ e ∈ server.known, epoch = some e ∧ events <+: server.log e

section
variable {server : Server} {log : List RemoteEvent} {e : JsString} {fresh : JsString}
  {epoch : Option JsString} {events : List RemoteEvent}

theorem commit_log_current (server : Server) (revision : RemoteRevision) :
    (server.commit revision).log server.current = server.log server.current ++
      [⟨(server.log server.current).length + 1, revision⟩] := Function.update_self ..

theorem commit_log_of_ne (h : e ≠ server.current) (revision : RemoteRevision) :
    (server.commit revision).log e = server.log e := Function.update_of_ne h ..

theorem replace_log_self (server : Server) (e : JsString) (log : List RemoteEvent) :
    (server.replace e log).log e = log := Function.update_self ..

theorem replace_log_of_ne (h : e ≠ fresh) (log : List RemoteEvent) :
    (server.replace fresh log).log e = server.log e := Function.update_of_ne h ..

theorem sequenced_get (h : sequenced log = true) (k : ℕ) (hk : k < log.length) :
    log[k].serverSequence = k + 1 := by
  have hmem : (log[k], k) ∈ log.zipIdx := mk_mem_zipIdx_iff_getElem?.mpr (by simp [hk])
  simpa using all_eq_true.mp h _ hmem

theorem sequenced_append (h : sequenced log = true) (revision : RemoteRevision) :
    sequenced (log ++ [⟨log.length + 1, revision⟩]) = true := by
  unfold sequenced at h ⊢
  rw [zipIdx_append, all_append, h]
  simp

theorem LogOf.commit (h : LogOf server epoch events) (revision : RemoteRevision) :
    LogOf (server.commit revision) epoch events := by
  rcases h with hnil | ⟨e, hknown, hepoch, hprefix⟩
  · exact Or.inl hnil
  · refine Or.inr ⟨e, hknown, hepoch, ?_⟩
    by_cases he : e = server.current
    · subst he
      rw [commit_log_current]
      exact hprefix.trans (prefix_append _ _)
    · rw [commit_log_of_ne he]
      exact hprefix

theorem LogOf.replace (h : LogOf server epoch events) (hfresh : fresh ∉ server.known)
    (log : List RemoteEvent) : LogOf (server.replace fresh log) epoch events := by
  rcases h with hnil | ⟨e, hknown, hepoch, hprefix⟩
  · exact Or.inl hnil
  · refine Or.inr ⟨e, mem_cons_of_mem _ hknown, hepoch, ?_⟩
    have hne : e ≠ fresh := fun heq => hfresh (heq ▸ hknown)
    rw [replace_log_of_ne hne]
    exact hprefix

end

section
variable {cached : CachedHistory} {log events : List RemoteEvent} {after : ℕ}

/-- What is cached of the log, with the cursor at its end. -/
structure Cached (log : List RemoteEvent) (cached : CachedHistory) : Prop where
  cursor : cached.cursor = cached.ordered.length
  taken : cached.ordered <+: log

theorem Cached.append (C : Cached log cached) (h : sequenced log = true) {event : RemoteEvent}
    (hevent : log[cached.cursor]? = some event) : Cached log (cached.append event) := by
  obtain ⟨hlt, hget⟩ := List.getElem?_eq_some_iff.mp hevent
  have hseq := sequenced_get h cached.cursor hlt
  obtain ⟨rest, hrest⟩ := C.taken
  have hcursor := C.cursor
  constructor
  · have hlength : (cached.append event).ordered.length = cached.ordered.length + 1 := by
      simp [CachedHistory.append]
    rw [hlength, ← C.cursor, ← hseq, hget]
    rfl
  · have htake : cached.ordered ++ [event] = log.take (cached.cursor + 1) := by
      have hordered : cached.ordered = log.take cached.cursor := by
        rw [← hrest, hcursor, take_left]
      rw [take_succ_eq_append_getElem hlt, ← hordered, hget]
    change cached.ordered ++ [event] <+: log
    rw [htake]
    exact take_prefix _ _

/-- Appending a page's events: what the page overlaps is skipped, and there is no gap. -/
theorem appendEvents_cached (h : sequenced log = true) (C : Cached log cached)
    (hafter : after ≤ cached.cursor) (hevents : events <+: log.drop after) :
    ∃ read, CachedHistory.appendEvents cached events = (read, false) ∧ Cached log read ∧
      cached.cursor ≤ read.cursor ∧
      read = { cached with ordered := read.ordered, cursor := read.cursor } := by
  induction events generalizing cached after with
  | nil => exact ⟨cached, rfl, C, Nat.le_refl _, rfl⟩
  | cons event rest ih =>
    obtain ⟨later, hlater⟩ := hevents
    have hevent : log[after]? = some event := by
      have hhead : (log.drop after)[0]? = some event := by rw [← hlater]; rfl
      rwa [List.getElem?_drop, Nat.add_zero] at hhead
    have hrest : rest <+: log.drop (after + 1) := by
      refine ⟨later, ?_⟩
      rw [← tail_drop, ← hlater]
      rfl
    obtain ⟨hlt, hget⟩ := List.getElem?_eq_some_iff.mp hevent
    have hseq := sequenced_get h after hlt
    rw [hget] at hseq
    unfold CachedHistory.appendEvents
    by_cases hskip : event.serverSequence ≤ cached.cursor
    · rw [if_pos hskip]
      exact ih C (by omega) hrest
    · have hcursor : after = cached.cursor := by omega
      subst hcursor
      rw [if_neg hskip, if_neg (by omega)]
      have hlast : (cached.append event).cursor = event.serverSequence := rfl
      obtain ⟨read, hread, hcached, hadvanced, hsame⟩ := ih (C.append h hevent) (by omega) hrest
      exact ⟨read, hread, hcached, by omega, hsame⟩

/-- The log after a page, however the page ended. -/
def outcomeCached : PageOutcome → CachedHistory
  | .threw cached => cached
  | .more cached _ => cached
  | .done cached => cached

/-- The log reads on under the server's epoch; nothing else of it changes. -/
structure ReadOn (server : Server) (cached read : CachedHistory) : Prop where
  taken : Cached (server.log server.current) read
  epoch : read.epoch = some server.current
  unconfirmed : read.unconfirmed = cached.unconfirmed
  restoreAttempted : read.restoreAttempted = cached.restoreAttempted
  loaded : read.loaded = cached.loaded
  persisted : read.persistedCursor = cached.persistedCursor
  advanced : cached.cursor ≤ read.cursor

theorem takePage_readOn {server : Server} (h : sequenced (server.log server.current) = true)
    (C : Cached (server.log server.current) cached) (target : Option ℕ) {limit : ℕ}
    (hafter : after ≤ cached.cursor) {page : PullResult}
    (hpage : server.page after limit = some page) :
    ReadOn server cached (outcomeCached (takePage cached target page)) := by
  unfold Server.page at hpage
  split at hpage
  · cases hpage
  · cases hpage
    have hopened : Cached (server.log server.current)
        { cached with epoch := some server.current } := ⟨C.cursor, C.taken⟩
    obtain ⟨read, hread, hcached, hadvanced, hsame⟩ :=
      appendEvents_cached h hopened hafter ( take_prefix limit _)
    have hreadOn : ReadOn server cached read :=
      ⟨hcached, (congrArg CachedHistory.epoch hsame).trans rfl,
        (congrArg CachedHistory.unconfirmed hsame).trans rfl,
        (congrArg CachedHistory.restoreAttempted hsame).trans rfl,
        (congrArg CachedHistory.loaded hsame).trans rfl,
        (congrArg CachedHistory.persistedCursor hsame).trans rfl, hadvanced⟩
    unfold takePage
    dsimp only
    rw [hread]
    dsimp only
    split_ifs
    · exact hreadOn
    · exact hreadOn
    · exact hreadOn

end

section

/-- A log some refresh has confirmed. -/
structure Settled (server : Server) (cached : CachedHistory) : Prop where
  confirmed : cached.unconfirmed = false
  restored : cached.restoreAttempted = true
  epoch : ∃ e ∈ server.known, cached.epoch = some e

/-- What each phase knows of the log. -/
def PhaseInv (server : Server) (cached : CachedHistory) : Phase → Prop
  | .idle => (cached.loaded = true → Settled server cached) ∧
      (cached.restoreAttempted = false → cached.ordered = [])
  | .restoring =>
      cached.loaded = false ∧ cached.ordered = [] ∧ cached.restoreAttempted = true
  | .pulling mode _ => cached.restoreAttempted = true ∧
      (mode = .plain → cached.loaded = true → Settled server cached) ∧
      (mode ≠ .plain → cached.loaded = false)
  | .saving => Settled server cached

structure Inv (world : World) : Prop where
  sequenced : ∀ e ∈ world.server.known, sequenced (world.server.log e) = true
  cursor : world.cached.cursor = world.cached.ordered.length
  persisted : world.cached.persistedCursor ≤ world.cached.cursor
  log : LogOf world.server world.cached.epoch world.cached.ordered
  anchored : world.cached.unconfirmed = true → world.cached.ordered ≠ []
  phase : PhaseInv world.server world.cached world.phase
  records : ∀ found ∈ world.records, found.history.cursor = found.history.events.length ∧
    LogOf world.server found.history.epoch found.history.events

variable {world next : World} {server : Server} {cached : CachedHistory} {mode : Mode}
  {hasStore : Bool}

/-- Every page behind the first event comes under the epoch the device recorded. -/
def UnderRecordedEpoch (world : World) : Action → Prop
  | .page _ => world.cached.unconfirmed = false → world.cached.ordered ≠ [] →
      world.cached.epoch = some world.server.current
  | _ => True

theorem Settled.known {server' : Server} (h : Settled server cached)
    (hknown : ∀ e ∈ server.known, e ∈ server'.known) : Settled server' cached := by
  obtain ⟨e, he, hepoch⟩ := h.epoch
  exact ⟨h.confirmed, h.restored, e, hknown e he, hepoch⟩

theorem PhaseInv.known {server' : Server} {phase : Phase} (h : PhaseInv server cached phase)
    (hknown : ∀ e ∈ server.known, e ∈ server'.known) : PhaseInv server' cached phase := by
  cases phase with
  | idle => exact ⟨fun hloaded => (h.1 hloaded).known hknown, h.2⟩
  | restoring => exact h
  | pulling mode target =>
    exact ⟨h.1, fun hmode hloaded => (h.2.1 hmode hloaded).known hknown, h.2.2⟩
  | saving => exact Settled.known h hknown

variable (I : Inv world)
include I

theorem Inv.commit (revision : RemoteRevision) :
    Inv { world with server := world.server.commit revision } := by
  refine ⟨?_, I.cursor, I.persisted, I.log.commit revision, I.anchored, I.phase.known fun e he => he, ?_⟩
  · intro e he
    by_cases hcurrent : e = world.server.current
    · subst hcurrent
      rw [commit_log_current]
      exact sequenced_append (I.sequenced _ he) revision
    · rw [commit_log_of_ne hcurrent]
      exact I.sequenced e he
  · intro found hfound
    exact ⟨(I.records found hfound).1, (I.records found hfound).2.commit revision⟩

theorem Inv.replace {epoch : JsString} (hfresh : epoch ∉ world.server.known)
    {log : List RemoteEvent} (hlog : HistoryRefresh.sequenced log = true) :
    Inv { world with server := world.server.replace epoch log } := by
  refine ⟨?_, I.cursor, I.persisted, I.log.replace hfresh log, I.anchored,
    I.phase.known fun e he => mem_cons_of_mem _ he, ?_⟩
  · intro e he
    rcases mem_cons.mp he with rfl | hold
    · rw [replace_log_self]
      exact hlog
    · have hne : e ≠ epoch := fun heq => hfresh (heq ▸ hold)
      rw [replace_log_of_ne hne]
      exact I.sequenced e hold
  · intro found hfound
    exact ⟨(I.records found hfound).1, (I.records found hfound).2.replace hfresh log⟩

omit I in
theorem inv_fresh {records : Option HistoryRecords}
    (hsequenced : ∀ e ∈ server.known, HistoryRefresh.sequenced (server.log e) = true)
    (hrecords : ∀ found ∈ records, found.history.cursor = found.history.events.length ∧
      LogOf server found.history.epoch found.history.events) :
    Inv { server := server, records := records } := by
  refine ⟨hsequenced, rfl, Nat.le_refl _, Or.inl rfl, ?_, ⟨?_, fun _ => rfl⟩, hrecords⟩
  · intro h
    cases h
  · intro h
    cases h

theorem Inv.startPulling (hcursor : cached.cursor = cached.ordered.length)
    (hpersisted : cached.persistedCursor ≤ cached.cursor)
    (hlog : LogOf world.server cached.epoch cached.ordered)
    (hanchored : cached.unconfirmed = true → cached.ordered ≠ [])
    (hrestored : cached.restoreAttempted = true)
    (hplain : cached.unconfirmed = false → cached.loaded = true → Settled world.server cached)
    (hconfirming : cached.unconfirmed = true → cached.loaded = false) :
    Inv (startPulling world cached) := by
  refine ⟨I.sequenced, hcursor, hpersisted, hlog, hanchored, ⟨hrestored, ?_, ?_⟩, I.records⟩
  · intro hmode
    apply hplain
    by_contra hunconfirmed
    rw [Bool.not_eq_false] at hunconfirmed
    rw [hunconfirmed] at hmode
    cases hmode
  · intro hmode
    apply hconfirming
    by_contra hunconfirmed
    rw [Bool.not_eq_true] at hunconfirmed
    rw [hunconfirmed] at hmode
    exact hmode rfl

theorem Inv.pullThrew (hcursor : cached.cursor = cached.ordered.length)
    (hpersisted : cached.persistedCursor ≤ cached.cursor)
    (hlog : LogOf world.server cached.epoch cached.ordered)
    (hanchored : cached.unconfirmed = true → cached.ordered ≠ [])
    (hrestored : cached.restoreAttempted = true)
    (hplain : mode = .plain → cached.loaded = true → Settled world.server cached)
    (hothers : mode ≠ .plain → cached.loaded = false) : Inv (pullThrew world mode cached) := by
  cases mode with
  | plain =>
    refine ⟨I.sequenced, hcursor, hpersisted, hlog, hanchored, ⟨hplain rfl, ?_⟩, I.records⟩
    intro hnot
    exact absurd (hrestored.symm.trans hnot) (by decide)
  | confirming =>
    refine ⟨I.sequenced, rfl, Nat.le_refl _, Or.inl rfl, fun h => (by cases h), ⟨hrestored, ?_, ?_⟩, I.records⟩
    · intro hmode
      cases hmode
    · exact fun _ => hothers (by decide)
  | full =>
    refine ⟨I.sequenced, rfl, Nat.le_refl _, Or.inl rfl, fun h => (by cases h), ⟨?_, fun _ => rfl⟩, I.records⟩
    intro hloaded
    have hunloaded : cached.loaded = false := hothers (by decide)
    exact absurd (hunloaded.symm.trans hloaded) (by decide)

/-- A page of the server's epoch added to events of that epoch. -/
theorem Inv.pageRead {target : Option ℕ} {after limit : ℕ} {page : PullResult}
    (hphase : world.phase = .pulling mode target)
    (hpage : world.server.page after limit = some page) (hafter : after ≤ world.cached.cursor)
    (hunder : LogOf world.server (some world.server.current) world.cached.ordered) :
    Inv (pageRead hasStore world mode
      (takePage { world.cached with unconfirmed := false } target page)) := by
  have hknown : world.server.current ∈ world.server.known := mem_cons_self
  have hsequenced := I.sequenced _ hknown
  have hphases := I.phase
  rw [hphase] at hphases
  obtain ⟨hrestored, hplain, hothers⟩ := hphases
  have htaken : world.cached.ordered <+: world.server.log world.server.current := by
    rcases hunder with hnil | ⟨e, _, hepoch, hprefix⟩
    · rw [hnil]
      exact nil_prefix
    · cases hepoch
      exact hprefix
  have C : Cached (world.server.log world.server.current)
      { world.cached with unconfirmed := false } := ⟨I.cursor, htaken⟩
  have R := takePage_readOn hsequenced C target hafter hpage
  generalize takePage { world.cached with unconfirmed := false } target page = outcome at R ⊢
  have hlog : LogOf world.server (outcomeCached outcome).epoch (outcomeCached outcome).ordered :=
    Or.inr ⟨_, hknown, R.epoch, R.taken.taken⟩
  have hpersisted : (outcomeCached outcome).persistedCursor ≤ (outcomeCached outcome).cursor := by
    have hbefore : world.cached.persistedCursor ≤ world.cached.cursor := I.persisted
    have hsame : (outcomeCached outcome).persistedCursor = world.cached.persistedCursor :=
      R.persisted
    have hadvanced : world.cached.cursor ≤ (outcomeCached outcome).cursor := R.advanced
    omega
  have hsettled : Settled world.server (outcomeCached outcome) :=
    ⟨R.unconfirmed, R.restoreAttempted.trans hrestored, _, hknown, R.epoch⟩
  have hanchored : (outcomeCached outcome).unconfirmed = true →
      (outcomeCached outcome).ordered ≠ [] := by
    intro h
    rw [R.unconfirmed] at h
    cases h
  cases outcome with
  | threw read =>
    exact I.pullThrew R.taken.cursor hpersisted hlog hanchored hsettled.restored (fun _ _ => hsettled)
      fun hmode => R.loaded.trans (hothers hmode)
  | more read target' =>
    exact ⟨I.sequenced, R.taken.cursor, hpersisted, hlog, hanchored,
      ⟨hsettled.restored, fun _ _ => hsettled, fun hmode => R.loaded.trans (hothers hmode)⟩,
      I.records⟩
  | done read =>
    change Inv (pulled hasStore world read)
    unfold pulled
    split_ifs
    · refine ⟨I.sequenced, R.taken.cursor, hpersisted, hlog, hanchored,
        ⟨fun _ => ⟨hsettled.confirmed, hsettled.restored, hsettled.epoch⟩, ?_⟩, I.records⟩
      intro hnot
      have hrestored' : read.restoreAttempted = true := hsettled.restored
      exact absurd (hrestored'.symm.trans hnot) (by decide)
    · exact ⟨I.sequenced, R.taken.cursor, hpersisted, hlog, hanchored, hsettled, I.records⟩

/-- A page answered to a pull: under the guard, or where it confirms the stored
log, it is of the epoch of the events before it. -/
theorem Inv.page {target : Option ℕ} {limit : ℕ} {page : PullResult}
    (hphase : world.phase = .pulling mode target)
    (hpage : world.server.page world.cached.pullAfter limit = some page)
    (hguard : world.cached.unconfirmed = false → world.cached.ordered ≠ [] →
      world.cached.epoch = some world.server.current) :
    Inv (HistoryRefresh.pageRead hasStore world mode (readPage world.cached target page)) := by
  have hepoch : page.epoch = some world.server.current := by
    unfold Server.page at hpage
    split at hpage
    · cases hpage
    · cases hpage
      rfl
  have hunder : world.cached.epoch = some world.server.current →
      LogOf world.server (some world.server.current) world.cached.ordered := by
    intro h
    rw [← h]
    exact I.log
  have hafter : world.cached.pullAfter ≤ world.cached.cursor := by
    unfold CachedHistory.pullAfter
    split <;> omega
  have hphases := I.phase
  rw [hphase] at hphases
  obtain ⟨hrestored, hplain, hothers⟩ := hphases
  unfold readPage
  cases hconfirm : world.cached.unconfirmed with
  | false =>
    have hsame : world.cached = { world.cached with unconfirmed := false } := by
      rw [← hconfirm]
    have hanchor : world.cached.anchor = none := by
      rw [CachedHistory.anchor, hconfirm]
      rfl
    rw [hanchor]
    dsimp only
    rw [hsame]
    apply I.pageRead hphase hpage hafter
    by_cases hempty : world.cached.ordered = []
    · exact Or.inl hempty
    · exact hunder (hguard hconfirm hempty)
  | true =>
    have hordered := I.anchored hconfirm
    have hpos : world.cached.cursor - 1 < world.cached.ordered.length := by
      have hlength := length_pos_iff.mpr hordered
      have hcursor := I.cursor
      omega
    have hanchor : world.cached.anchor = some world.cached.ordered[world.cached.cursor - 1] := by
      rw [CachedHistory.anchor, hconfirm, if_pos rfl, List.getElem?_eq_getElem hpos]
    rw [hanchor]
    dsimp only
    split_ifs with hconfirms
    · apply I.pageRead hphase hpage hafter
      apply hunder
      have hboth := (Bool.and_eq_true_iff.mp (Bool.and_eq_true_iff.mp hconfirms).1).2
      rw [← hepoch]
      exact (of_decide_eq_true hboth).symm
    · exact I.pullThrew I.cursor I.persisted I.log I.anchored hrestored hplain hothers

omit I in
theorem foldl_append (cached : CachedHistory) (events : List RemoteEvent) :
    events.foldl CachedHistory.append cached =
      { cached with
        ordered := cached.ordered ++ events
        cursor := (events.getLast?.map RemoteEvent.serverSequence).getD cached.cursor } := by
  induction events generalizing cached with
  | nil => simp
  | cons event rest ih =>
    rw [foldl_cons, ih]
    have hlast : ((event :: rest).getLast?.map RemoteEvent.serverSequence).getD cached.cursor =
        (rest.getLast?.map RemoteEvent.serverSequence).getD event.serverSequence := by
      rw [List.getLast?_cons]
      cases rest.getLast? <;> rfl
    rw [hlast]
    simp [CachedHistory.append]

omit I in
/-- A history with nothing in it takes a stored log whole, or stays as it is. -/
theorem restore_of_empty (hempty : cached.ordered = []) (stored : Option StoredRevisionHistory) :
    cached.restore stored = cached ∨
      ∃ found, stored = some found ∧ found.cursor = found.events.length ∧
        sequenced found.events = true ∧ found.cursor ≠ 0 ∧ cached.restore stored =
          { cached with
            ordered := found.events
            cursor := found.events.length
            epoch := found.epoch
            persistedCursor := found.cursor
            unconfirmed := true } := by
  unfold CachedHistory.restore
  split
  · exact .inl rfl
  · rename_i parsed hparsed
    split_ifs with hzero
    · exact .inl rfl
    · obtain ⟨found, hfound, hparse⟩ := bind_eq_some_iff.mp hparsed
      unfold parseStoredHistory at hparse
      split_ifs at hparse with hlength hsequenced
      have hsame := some.inj hparse
      subst hsame
      refine .inr ⟨found, hfound, by omega, hsequenced, hzero, ?_⟩
      have hlt : found.events.length - 1 < found.events.length := by omega
      have hseq := sequenced_get hsequenced _ hlt
      have hlast : (found.events.getLast?.map RemoteEvent.serverSequence).getD cached.cursor =
          found.events.length := by
        rw [List.getLast?_eq_getElem?, List.getElem?_eq_getElem hlt]
        simp only [map_some, getD_some]
        omega
      rw [foldl_append, hempty, nil_append, hlast]

theorem Inv.restored (hphase : world.phase = .restoring) (readable : Bool) :
    Inv (HistoryRefresh.startPulling world (world.cached.restore
      (if readable then loadHistory world.records else none))) := by
  have hphases := I.phase
  rw [hphase] at hphases
  obtain ⟨hunloaded, hempty, hrestored⟩ := hphases
  obtain hsame | ⟨found, hfound, hcursor, -, hzero, hrestore⟩ := restore_of_empty hempty
    (if readable then loadHistory world.records else none)
  · rw [hsame]
    refine I.startPulling I.cursor I.persisted I.log I.anchored hrestored ?_ fun _ => hunloaded
    intro _ hloaded
    rw [hunloaded] at hloaded
    cases hloaded
  · rw [hrestore]
    split_ifs at hfound
    obtain ⟨records, hrecords, hsome⟩ := bind_eq_some_iff.mp hfound
    split_ifs at hsome
    cases hsome
    refine I.startPulling rfl (Nat.le_of_eq hcursor) (I.records records hrecords).2 ?_ hrestored
      ?_ fun _ => hunloaded
    · intro _ hnil
      rw [hcursor] at hzero
      exact hzero (length_eq_zero_iff.mpr hnil)
    · intro hconfirmed
      cases hconfirmed

/-- What a save writes: the log itself, appended or whole. -/
theorem Inv.saveHistory_eq :
    (saveHistory world.records world.cached.toStore world.cached.persistedCursor).history =
      world.cached.toStore := by
  unfold saveHistory
  split
  · rfl
  · rename_i found hfound
    split_ifs with happend
    · obtain ⟨hpos, hsame, hepoch, _⟩ := happend
      obtain ⟨hcursor, hlog⟩ := I.records found hfound
      have hpersisted := I.persisted
      have hordered := I.cursor
      have hprefix : found.history.events <+: world.cached.ordered := by
        rcases hlog with hnil | ⟨e, _, hfoundEpoch, hfoundPrefix⟩
        · rw [hnil]
          exact nil_prefix
        · rcases I.log with hnil | ⟨e', _, hcachedEpoch, hcachedPrefix⟩
          · rw [hnil] at hordered
            simp only [length_nil] at hordered
            omega
          · have hsameEpoch : some e = some e' := by
              rw [← hfoundEpoch, ← hcachedEpoch]
              exact hepoch
            cases hsameEpoch
            exact prefix_of_prefix_length_le hfoundPrefix hcachedPrefix (by omega)
      have htail : found.history.events ++
          world.cached.ordered.drop world.cached.persistedCursor = world.cached.ordered := by
        rw [← hsame, hcursor]
        exact (prefix_iff_eq_append.mp hprefix)
      change ({ world.cached.toStore with events := _ } : StoredRevisionHistory) = _
      unfold CachedHistory.toStore
      dsimp only
      rw [htail]
    · rfl

theorem Inv.saveEnds (hphase : world.phase = .saving) (outcome : SaveOutcome) :
    Inv (saveEnds world outcome) := by
  have hsettled : Settled world.server world.cached := by
    have hphases := I.phase
    rw [hphase] at hphases
    exact hphases
  have hwritten : ∀ found, found = saveHistory world.records world.cached.toStore
      world.cached.persistedCursor → found.history.cursor = found.history.events.length ∧
        LogOf world.server found.history.epoch found.history.events := by
    rintro found rfl
    rw [I.saveHistory_eq]
    exact ⟨I.cursor, I.log⟩
  have hpersisted : (if outcome = .saved then world.cached.cursor else 0) ≤
      world.cached.cursor := by
    split_ifs <;> omega
  refine ⟨I.sequenced, I.cursor, hpersisted, I.log, I.anchored, ⟨?_, ?_⟩, ?_⟩
  · exact fun _ => ⟨hsettled.confirmed, hsettled.restored, hsettled.epoch⟩
  · intro hnot
    exact absurd (hsettled.restored.symm.trans hnot) (by decide)
  · intro found hfound
    cases outcome with
    | saved => exact hwritten found (some.inj hfound).symm
    | failedAfter => exact hwritten found (some.inj hfound).symm
    | failedBefore => exact I.records found hfound
    | failedTorn => cases hfound

theorem Inv.refresh (hphase : world.phase = .idle)
    (htaken : step hasStore world .refresh = some next) : Inv next := by
  have hphases := I.phase
  rw [hphase] at hphases
  obtain ⟨hloaded, hunread⟩ := hphases
  simp only [step, hphase, ne_eq, not_true_eq_false, if_false] at htaken
  split_ifs at htaken with hrestore
  · cases htaken
    have hunloaded : world.cached.loaded = false := by
      by_contra h
      have hrestored := (hloaded (by simpa using h)).restored
      rw [hrestore.2] at hrestored
      cases hrestored
    exact ⟨I.sequenced, I.cursor, I.persisted, I.log, I.anchored,
      ⟨hunloaded, hunread hrestore.2, rfl⟩, I.records⟩
  · cases htaken
    refine I.startPulling I.cursor I.persisted I.log I.anchored rfl ?_ ?_
    · intro _ h
      have hsettled := hloaded h
      exact ⟨hsettled.confirmed, rfl, hsettled.epoch⟩
    · intro hunconfirmed
      by_contra h
      have hsettled := hloaded (by simpa using h)
      exact absurd (hsettled.confirmed.symm.trans hunconfirmed) (by decide)

/-- No step taken under the guard mixes two epochs. -/
theorem step_inv {action : Action} (allowed : UnderRecordedEpoch world action)
    (htaken : step hasStore world action = some next) : Inv next := by
  cases action with
  | commit revision =>
    cases htaken
    exact I.commit revision
  | replace epoch log =>
    simp only [step] at htaken
    split_ifs at htaken with hfresh
    cases htaken
    have hnew : epoch ∉ world.server.known := by simpa using hfresh.1
    exact I.replace hnew hfresh.2
  | connect =>
    cases htaken
    exact inv_fresh I.sequenced I.records
  | refresh =>
    by_cases hphase : world.phase = .idle
    · exact I.refresh hphase htaken
    · simp only [step, ne_eq, hphase, not_false_eq_true, if_true] at htaken
      cases htaken
  | restored readable =>
    by_cases hphase : world.phase = .restoring
    · simp only [step, ne_eq, hphase, not_true_eq_false, if_false] at htaken
      cases htaken
      exact I.restored hphase readable
    · simp only [step, ne_eq, hphase, not_false_eq_true, if_true] at htaken
      cases htaken
  | page limit =>
    simp only [step] at htaken
    split at htaken
    · rename_i mode target hphase
      split_ifs at htaken
      split at htaken
      · cases htaken
        have hphases := I.phase
        rw [hphase] at hphases
        exact I.pullThrew I.cursor I.persisted I.log I.anchored hphases.1 hphases.2.1 hphases.2.2
      · rename_i page hpage
        cases htaken
        exact I.page hphase hpage allowed
    · cases htaken
  | pageFails =>
    simp only [step] at htaken
    split at htaken
    · rename_i mode target hphase
      cases htaken
      have hphases := I.phase
      rw [hphase] at hphases
      exact I.pullThrew I.cursor I.persisted I.log I.anchored hphases.1 hphases.2.1 hphases.2.2
    · cases htaken
  | saved outcome =>
    by_cases hphase : world.phase = .saving
    · simp only [step, ne_eq, hphase, not_true_eq_false, if_false] at htaken
      cases htaken
      exact I.saveEnds hphase outcome
    · simp only [step, ne_eq, hphase, not_false_eq_true, if_true] at htaken
      cases htaken

/-- Once a refresh has succeeded, the log is known to be of the recorded epoch. -/
theorem Inv.epoch_known (hloaded : world.cached.loaded = true) :
    ∃ e ∈ world.server.known, world.cached.epoch = some e := by
  have hphases := I.phase
  cases hphase : world.phase with
  | idle =>
    rw [hphase] at hphases
    exact (hphases.1 hloaded).epoch
  | restoring =>
    rw [hphase] at hphases
    exact absurd (hphases.1.symm.trans hloaded) (by decide)
  | pulling mode target =>
    rw [hphase] at hphases
    by_cases hmode : mode = .plain
    · exact (hphases.2.1 hmode hloaded).epoch
    · exact absurd ((hphases.2.2 hmode).symm.trans hloaded) (by decide)
  | saving =>
    rw [hphase] at hphases
    exact Settled.epoch hphases

end

/-- In every run whose pages come under the recorded epoch, a device whose
refresh succeeded holds the prefix, up to its cursor, of that epoch's log. -/
theorem cached_of_one_epoch (hasStore : Bool) (server : Server) (world : World)
    (hserver : ∀ e ∈ server.known, sequenced (server.log e) = true)
    (h : Reached (step hasStore) UnderRecordedEpoch { server := server } world)
    (hloaded : world.cached.loaded = true) :
    ∃ e, world.cached.epoch = some e ∧
      world.cached.ordered = (world.server.log e).take world.cached.cursor := by
  have hstart : Inv { server := server } := inv_fresh hserver fun found hfound => by cases hfound
  have I := h.invariant hstart fun _ _ _ I allowed htaken => step_inv I allowed htaken
  obtain ⟨e, _, hepoch⟩ := I.epoch_known hloaded
  refine ⟨e, hepoch, ?_⟩
  have hcursor := I.cursor
  rcases I.log with hnil | ⟨e', _, hepoch', hprefix⟩
  · rw [hnil] at hcursor ⊢
    rw [hcursor]
    rfl
  · rw [hepoch] at hepoch'
    cases hepoch'
    rw [hcursor]
    exact prefix_iff_eq_take.mp hprefix

def plainRevision (revisionId : Id) : RemoteRevision where
  revisionId := revisionId
  fileId := 1
  contentHash := revisionId
  parentRevisionIds := none
  authorMembershipId := none
  acceptedAt := none

/-- A server under its first epoch, with two revisions. -/
def firstEpoch : Server where
  current := [49]
  earlier := []
  log := fun _ => [⟨1, plainRevision 11⟩, ⟨2, plainRevision 12⟩]

theorem firstEpoch_sequenced : ∀ e ∈ firstEpoch.known, sequenced (firstEpoch.log e) = true :=
  fun _ _ => rfl

/-- A refresh of two pages, with a revision accepted between them. -/
def twoPages : List Action := [.refresh, .page 1, .commit (plainRevision 13), .page 5]

theorem twoPages_allowed :
    Allowed (step false) UnderRecordedEpoch { server := firstEpoch } twoPages := by
  refine ⟨trivial, fun next hnext => ?_⟩
  cases hnext
  refine ⟨fun _ hordered => absurd rfl hordered, fun next hnext => ?_⟩
  cases hnext
  refine ⟨trivial, fun next hnext => ?_⟩
  cases hnext
  exact ⟨fun _ _ => rfl, fun _ _ => trivial⟩

theorem cached_of_one_epoch_two_pages :
    ∃ world, run (step false) { server := firstEpoch } twoPages = some world ∧
      world.cached.loaded = true ∧ world.cached.cursor = 3 ∧
      ∃ e, world.cached.epoch = some e ∧
        world.cached.ordered = (world.server.log e).take world.cached.cursor := by
  obtain ⟨world, hrun, hloaded, hcursor⟩ :
      ∃ world, run (step false) { server := firstEpoch } twoPages = some world ∧
        world.cached.loaded = true ∧ world.cached.cursor = 3 :=
    ⟨_, rfl, rfl, rfl⟩
  exact ⟨world, hrun, hloaded, hcursor, cached_of_one_epoch false firstEpoch world
    firstEpoch_sequenced (Reached.start.run twoPages_allowed hrun) hloaded⟩

/-- The server restored under a second epoch, with other revisions. -/
def restoredLog : List RemoteEvent :=
  [⟨1, plainRevision 11⟩, ⟨2, plainRevision 22⟩, ⟨3, plainRevision 23⟩]

/-- A device that was up to date before the server was replaced adds the tail of
the new log to the old one. -/
theorem cached_of_two_epochs :
    ∃ world, run (step false) { server := firstEpoch }
        [.refresh, .page 100, .replace [50] restoredLog, .refresh, .page 100] = some world ∧
      world.cached.loaded = true ∧ world.cached.epoch = some [50] ∧
      world.cached.ordered =
        [⟨1, plainRevision 11⟩, ⟨2, plainRevision 12⟩, ⟨3, plainRevision 23⟩] ∧
      ¬ ∃ e, world.cached.epoch = some e ∧
        world.cached.ordered = (world.server.log e).take world.cached.cursor := by
  refine ⟨_, rfl, rfl, rfl, rfl, ?_⟩
  rintro ⟨e, hepoch, hordered⟩
  cases hepoch
  revert hordered
  decide

end Havemind.HistoryEpochs
