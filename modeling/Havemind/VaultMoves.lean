import Havemind.VaultEvents

/-!
Where the files of a vault stand, before and after what its events tell of. An event that
waits tells of a step that the disk has already taken; the events of one folder's rename
tell of that one step in parts and more than once, in whatever order they come.
-/
namespace Havemind.VaultMoves

open RevisionSchema VaultPayload OutboxRepository VaultEvents Option

/-- The paths that have a file, and which of the files mapped at first it is. -/
abbrev Standing := Path → Option (Option Id)

def standing (vault : JsObject Path VaultFile) : Standing := fun path =>
  (vault.get path).map VaultFile.fileId

section
variable (options : VaultOptions)

def inScope (path : Path) (fileId : Option Id) : Option Id :=
  if (keyOf options.rules path).isSome then fileId else none

def moveOne (before : Standing) (previousPath nextPath : Path) : Standing := fun path =>
  if path = nextPath then (before previousPath).map (inScope options nextPath)
  else if path = previousPath then none
  else before path

/-- The files below the folder that have `moved` are below the next one. -/
def moveSome (before : Standing) (previousFolder nextFolder : Path) (moved : Path → Bool) :
    Standing := fun path =>
  match rebased options nextFolder previousFolder path with
  | some source => if moved source then (before source).map (inScope options path) else before path
  | none =>
    if moved path && (rebased options previousFolder nextFolder path).isSome then none
    else before path

def moveAll (before : Standing) (previousFolder nextFolder : Path) : Standing :=
  moveSome options before previousFolder nextFolder fun _ => true

def Canonical (path : Path) : Prop :=
  ∀ classified, options.rules.classifyVaultPath path = some classified →
    classified.canonicalPath = path

/-- Every file is at a canonical path and has a key of its own if it is in scope. -/
structure Plain (before : Standing) : Prop where
  apart : ∀ path other, before path ≠ none → before other ≠ none →
    keyOf options.rules path ≠ none → keyOf options.rules path = keyOf options.rules other → path = other
  canonical : ∀ path, before path ≠ none → Canonical options path
  eligible : ∀ path fileId, before path = some (some fileId) → keyOf options.rules path ≠ none

/-- A folder can be renamed: nothing is below the next one, and the keys of the files below it
are nobody else's there. -/
structure FolderMove (before : Standing) (previousFolder nextFolder : Path) : Prop where
  free : ∀ path source, rebased options nextFolder previousFolder path = some source →
    before path = none
  out : ∀ path next, before path ≠ none →
    rebased options previousFolder nextFolder path = some next →
    rebased options previousFolder nextFolder next = none
  canonical : ∀ path next, before path ≠ none →
    rebased options previousFolder nextFolder path = some next → Canonical options next
  apart : ∀ path next other, before path ≠ none →
    rebased options previousFolder nextFolder path = some next → before other ≠ none →
    other ≠ path → keyOf options.rules next ≠ none → keyOf options.rules next ≠ keyOf options.rules other
  distinct : ∀ path next other otherNext, before path ≠ none → before other ≠ none →
    rebased options previousFolder nextFolder path = some next →
    rebased options previousFolder nextFolder other = some otherNext → path ≠ other →
    keyOf options.rules next ≠ none → keyOf options.rules next ≠ keyOf options.rules otherNext

/-- What an event tells of. A file that its folder's event has moved is told of again. -/
inductive EventStep (before : Standing) : VaultEvent → Standing → Prop
  | modify {path : Path} (there : before path ≠ none) : EventStep before (.modify path) before
  | rename {previousPath nextPath : Path} (there : before previousPath ≠ none)
      (free : before nextPath = none)
      (plain : Plain options (moveOne options before previousPath nextPath)) :
      EventStep before (.rename previousPath nextPath)
        (moveOne options before previousPath nextPath)
  | renamed {previousPath nextPath : Path} (there : before nextPath ≠ none)
      (only : ∀ path, before path ≠ none → keyOf options.rules previousPath ≠ none →
        keyOf options.rules path = keyOf options.rules previousPath → path = nextPath)
      (unmapped : keyOf options.rules previousPath = none → before nextPath = some none) :
      EventStep before (.rename previousPath nextPath) before
  | renameFolder {previousFolder nextFolder : Path} {base : Standing} {moved : Path → Bool}
      (folder : FolderMove options base previousFolder nextFolder) (plain : Plain options base)
      (some_moved : before = moveSome options base previousFolder nextFolder moved) :
      EventStep before (.renameFolder previousFolder nextFolder)
        (moveAll options base previousFolder nextFolder)

/-- What a line of events tells of. -/
inductive Chain : Standing → List VaultEvent → Standing → Prop
  | nil (before : Standing) : Chain before [] before
  | cons {before after last : Standing} {event : VaultEvent} {rest : List VaultEvent}
      (step : EventStep options before event after) (chain : Chain after rest last) :
      Chain before (event :: rest) last

/-- The events that a folder's rename gives: its own and those of the files below it. -/
inductive Belongs (before : Standing) (previousFolder nextFolder : Path) : VaultEvent → Prop
  | folder : Belongs before previousFolder nextFolder (.renameFolder previousFolder nextFolder)
  | child {previousPath nextPath : Path} (there : before previousPath ≠ none)
      (below : rebased options previousFolder nextFolder previousPath = some nextPath) :
      Belongs before previousFolder nextFolder (.rename previousPath nextPath)

/-- Whether the event tells of the file. -/
def tells (path : Path) : VaultEvent → Bool
  | .modify _ => false
  | .rename previousPath _ => previousPath = path
  | .renameFolder _ _ => true

end

section
variable {options : VaultOptions} {before : Standing} {previousPath nextPath path : Path}
  {fileId : Option Id}

theorem inScope_of_key (h : keyOf options.rules path ≠ none) : inScope options path fileId = fileId := by
  unfold inScope
  rw [if_pos (isSome_iff_ne_none.mpr h)]

theorem inScope_none : inScope options path none = none := by
  unfold inScope
  split_ifs <;> rfl

theorem inScope_eq_some {id : Id} (h : inScope options path fileId = some id) :
    fileId = some id ∧ keyOf options.rules path ≠ none := by
  unfold inScope at h
  split_ifs at h with hkey
  exact ⟨h, isSome_iff_ne_none.mp hkey⟩

theorem moveOne_next : moveOne options before previousPath nextPath nextPath =
    (before previousPath).map (inScope options nextPath) := if_pos rfl

theorem moveOne_other (hprevious : path ≠ previousPath) (hnext : path ≠ nextPath) :
    moveOne options before previousPath nextPath path = before path := by
  unfold moveOne
  rw [if_neg hnext, if_neg hprevious]

theorem moveOne_previous (h : previousPath ≠ nextPath) :
    moveOne options before previousPath nextPath previousPath = none := by
  unfold moveOne
  rw [if_neg h, if_pos rfl]

theorem plain_moveOne (h : Plain options before) (hcanonical : Canonical options nextPath)
    (hapart : ∀ path, before path ≠ none → path ≠ previousPath → keyOf options.rules nextPath ≠ none →
      keyOf options.rules path ≠ keyOf options.rules nextPath) :
    Plain options (moveOne options before previousPath nextPath) := by
  have hkept : ∀ path, path ≠ nextPath →
      moveOne options before previousPath nextPath path ≠ none →
      path ≠ previousPath ∧ before path ≠ none := by
    intro path hnext hthere
    have hprevious : path ≠ previousPath := by
      rintro rfl
      exact hthere (moveOne_previous hnext)
    rw [moveOne_other hprevious hnext] at hthere
    exact ⟨hprevious, hthere⟩
  constructor
  · intro path other hpath hother hkey heq
    by_cases hnext : path = nextPath
    · by_cases hnext' : other = nextPath
      · rw [hnext, hnext']
      · obtain ⟨hprevious, hthere⟩ := hkept other hnext' hother
        rw [hnext] at hkey heq
        exact absurd heq.symm (hapart other hthere hprevious hkey)
    · obtain ⟨hprevious, hthere⟩ := hkept path hnext hpath
      by_cases hnext' : other = nextPath
      · rw [hnext'] at heq
        rw [heq] at hkey
        exact absurd heq (hapart path hthere hprevious hkey)
      · exact h.apart path other hthere (hkept other hnext' hother).2 hkey heq
  · intro path hpath
    by_cases hnext : path = nextPath
    · rw [hnext]
      exact hcanonical
    · exact h.canonical path (hkept path hnext hpath).2
  · intro path fileId hpath
    by_cases hnext : path = nextPath
    · rw [hnext, moveOne_next] at hpath
      obtain ⟨source, -, hsource⟩ := map_eq_some_iff.mp hpath
      rw [hnext]
      exact (inScope_eq_some hsource).2
    · have hthere := hkept path hnext (by rw [hpath]; exact some_ne_none _)
      rw [moveOne_other hthere.1 hnext] at hpath
      exact h.eligible path fileId hpath

end

section
variable {options : VaultOptions} {before : Standing} {previousFolder nextFolder : Path}
  {moved : Path → Bool} {path : Path} {tag : Option Id}

variable (h : FolderMove options before previousFolder nextFolder) {next : Path}
include h

/-- A file is where it was, or it was below the folder and has moved. -/
theorem moveSome_eq_some :
    moveSome options before previousFolder nextFolder moved path = some tag ↔
      (∃ source, rebased options previousFolder nextFolder source = some path ∧
        moved source = true ∧ (before source).map (inScope options path) = some tag) ∨
      (before path = some tag ∧
        (moved path = true → rebased options previousFolder nextFolder path = none)) := by
  unfold moveSome
  cases hback : rebased options nextFolder previousFolder path with
  | some source =>
    have hsource := rebased_back hback
    have hfree : before path = none := h.free path source hback
    dsimp only
    constructor
    · intro htag
      split_ifs at htag with hmoved
      · exact .inl ⟨source, hsource, hmoved, htag⟩
      · rw [hfree] at htag
        cases htag
    · rintro (⟨other, hother, hmoved, htag⟩ | ⟨hthere, -⟩)
      · have hsame : source = other := some.inj (hback.symm.trans (rebased_back hother))
        rw [hsame, if_pos hmoved]
        exact htag
      · rw [hfree] at hthere
        cases hthere
  | none =>
    dsimp only
    constructor
    · intro htag
      split_ifs at htag with hmoved
      refine .inr ⟨htag, fun hpath => ?_⟩
      by_contra hbelow
      rw [hpath, isSome_iff_ne_none.mpr hbelow] at hmoved
      exact hmoved rfl
    · rintro (⟨other, hother, -⟩ | ⟨hthere, hstays⟩)
      · rw [rebased_back hother] at hback
        cases hback
      · rw [if_neg]
        · exact hthere
        · intro hmoved
          obtain ⟨hpath, hbelow⟩ := Bool.and_eq_true_iff.mp hmoved
          rw [hstays hpath] at hbelow
          cases hbelow

theorem moveSome_there
    (hthere : moveSome options before previousFolder nextFolder moved path ≠ none) :
    (∃ source, before source ≠ none ∧ moved source = true ∧
      rebased options previousFolder nextFolder source = some path) ∨
    (before path ≠ none ∧
      (moved path = true → rebased options previousFolder nextFolder path = none)) := by
  obtain ⟨tag, htag⟩ := ne_none_iff_exists'.mp hthere
  rcases (moveSome_eq_some h).mp htag with ⟨source, hsource, hmoved, hfile⟩ | ⟨hfile, hstays⟩
  · obtain ⟨fileId, hfound, -⟩ := map_eq_some_iff.mp hfile
    refine .inl ⟨source, ?_, hmoved, hsource⟩
    rw [hfound]
    exact some_ne_none _
  · refine .inr ⟨?_, hstays⟩
    rw [hfile]
    exact some_ne_none _

omit h in
theorem plain_moveSome (hplain : Plain options before)
    (h : FolderMove options before previousFolder nextFolder) (moved : Path → Bool) :
    Plain options (moveSome options before previousFolder nextFolder moved) := by
  constructor
  · intro path other hpath hother hkey heq
    rcases moveSome_there h hpath with ⟨source, hsource, hmoved, hbelow⟩ | ⟨hthere, hstays⟩ <;>
      rcases moveSome_there h hother with
        ⟨source', hsource', hmoved', hbelow'⟩ | ⟨hthere', hstays'⟩
    · by_cases hsame : source = source'
      · rw [hsame] at hbelow
        exact some.inj (hbelow.symm.trans hbelow')
      · exact absurd heq
          (h.distinct source path source' other hsource hsource' hbelow hbelow' hsame hkey)
    · by_cases hsame : other = source
      · rw [hsame] at hstays'
        rw [hstays' hmoved] at hbelow
        cases hbelow
      · exact absurd heq (h.apart source path other hsource hbelow hthere' hsame hkey)
    · by_cases hsame : path = source'
      · rw [hsame] at hstays
        rw [hstays hmoved'] at hbelow'
        cases hbelow'
      · rw [heq] at hkey
        exact absurd heq.symm (h.apart source' other path hsource' hbelow' hthere hsame hkey)
    · exact hplain.apart path other hthere hthere' hkey heq
  · intro path hpath
    rcases moveSome_there h hpath with ⟨source, hsource, -, hbelow⟩ | ⟨hthere, -⟩
    · exact h.canonical source path hsource hbelow
    · exact hplain.canonical path hthere
  · intro path fileId hpath
    rcases (moveSome_eq_some h).mp hpath with ⟨source, -, -, hfile⟩ | ⟨hfile, -⟩
    · obtain ⟨tag, -, htag⟩ := map_eq_some_iff.mp hfile
      exact (inScope_eq_some htag).2
    · exact hplain.eligible path fileId hfile

omit h in
theorem moveSome_moved (before : Standing) {source : Path}
    (hbelow : rebased options previousFolder nextFolder source = some path)
    (hmoved : moved source = true) :
    moveSome options before previousFolder nextFolder moved path =
      (before source).map (inScope options path) := by
  unfold moveSome
  rw [rebased_back hbelow]
  exact if_pos hmoved

theorem moveSome_stays (hthere : before path ≠ none)
    (hstays : moved path = true → rebased options previousFolder nextFolder path = none) :
    moveSome options before previousFolder nextFolder moved path = before path := by
  obtain ⟨tag, htag⟩ := ne_none_iff_exists'.mp hthere
  rw [htag]
  exact (moveSome_eq_some h).mpr (.inr ⟨htag, hstays⟩)

theorem moveSome_left (hbelow : rebased options previousFolder nextFolder path = some next)
    (hmoved : moved path = true) :
    moveSome options before previousFolder nextFolder moved path = none := by
  by_contra hthere
  rcases moveSome_there h hthere with ⟨source, hsource, -, hpath⟩ | ⟨-, hstays⟩
  · rw [h.out source path hsource hpath] at hbelow
    cases hbelow
  · rw [hstays hmoved] at hbelow
    cases hbelow

theorem moveSome_free (hbelow : rebased options previousFolder nextFolder path = some next)
    (hstays : moved path = false) :
    moveSome options before previousFolder nextFolder moved next = none := by
  by_contra hthere
  rcases moveSome_there h hthere with ⟨source, -, hmoved, hsource⟩ | ⟨hfound, -⟩
  · rw [some.inj ((rebased_back hsource).symm.trans (rebased_back hbelow)), hstays]
      at hmoved
    cases hmoved
  · exact hfound (h.free next path (rebased_back hbelow))

/-- A file below the folder is where it was as long as it has not moved. -/
theorem moveSome_source (hbelow : rebased options previousFolder nextFolder path ≠ none)
    (hthere : moveSome options before previousFolder nextFolder moved path ≠ none) :
    before path ≠ none ∧ moved path = false := by
  rcases moveSome_there h hthere with ⟨source, hsource, -, hpath⟩ | ⟨hfound, hstays⟩
  · exact absurd (h.out source path hsource hpath) hbelow
  · refine ⟨hfound, ?_⟩
    cases hmoved : moved path with
    | false => rfl
    | true => exact absurd (hstays hmoved) hbelow

theorem moveAll_of_moveSome
    (htag : moveSome options before previousFolder nextFolder moved path = some tag)
    (hout : rebased options previousFolder nextFolder path = none) :
    moveAll options before previousFolder nextFolder path = some tag := by
  refine (moveSome_eq_some h).mpr (((moveSome_eq_some h).mp htag).imp ?_ ?_)
  · rintro ⟨source, hpath, -, hfile⟩
    exact ⟨source, hpath, rfl, hfile⟩
  · exact fun hthere => ⟨hthere.1, fun _ => hout⟩

/-- Where a file ends that has not moved yet. -/
theorem moveSome_of_moveAll (moved : Path → Bool)
    (htag : moveAll options before previousFolder nextFolder path = some tag) :
    moveSome options before previousFolder nextFolder moved path = some tag ∨
      ∃ source, rebased options previousFolder nextFolder source = some path ∧
        moved source = false ∧ (before source).map (inScope options path) = some tag := by
  rcases (moveSome_eq_some h).mp htag with ⟨source, hpath, -, hfile⟩ | ⟨hthere, hstays⟩
  · cases hmoved : moved source with
    | false => exact .inr ⟨source, hpath, hmoved, hfile⟩
    | true => exact .inl ((moveSome_eq_some h).mpr (.inl ⟨source, hpath, hmoved, hfile⟩))
  · exact .inl ((moveSome_eq_some h).mpr (.inr ⟨hthere, fun _ => hstays rfl⟩))

/-- One more file below the folder moves. -/
theorem moveOne_moveSome {previousPath nextPath : Path} (hthere : before previousPath ≠ none)
    (hbelow : rebased options previousFolder nextFolder previousPath = some nextPath)
    (hstays : moved previousPath = false) :
    moveOne options (moveSome options before previousFolder nextFolder moved) previousPath
        nextPath =
      moveSome options before previousFolder nextFolder
        fun path => moved path || decide (path = previousPath) := by
  have hsource : moveSome options before previousFolder nextFolder moved previousPath =
      before previousPath := by
    refine moveSome_stays h hthere fun hmoved => ?_
    rw [hstays] at hmoved
    cases hmoved
  have hnow : (moved previousPath || decide (previousPath = previousPath)) = true :=
    Bool.or_eq_true_iff.mpr (.inr (decide_eq_true rfl))
  funext path
  by_cases hnext : path = nextPath
  · rw [hnext, moveOne_next, hsource]
    exact (moveSome_moved before hbelow hnow).symm
  · by_cases hprevious : path = previousPath
    · rw [hprevious] at hnext ⊢
      rw [moveOne_previous hnext, moveSome_left h hbelow hnow]
    · rw [moveOne_other hprevious hnext]
      have hsame : (moved path || decide (path = previousPath)) = moved path := by
        rw [decide_eq_false hprevious, Bool.or_false]
      refine Option.ext fun tag => ?_
      rw [moveSome_eq_some h, moveSome_eq_some h, hsame]
      refine or_congr_left (exists_congr fun source => and_congr_right fun hpath => ?_)
      have hother : source ≠ previousPath := by
        rintro rfl
        exact hnext (some.inj (hpath.symm.trans hbelow))
      rw [decide_eq_false hother, Bool.or_false]

/-- Once every file below the folder has moved, the folder has. -/
theorem moveSome_eq_moveAll
    (hmoved : ∀ path, before path ≠ none →
      rebased options previousFolder nextFolder path ≠ none → moved path = true) :
    moveSome options before previousFolder nextFolder moved =
      moveAll options before previousFolder nextFolder := by
  funext path
  refine Option.ext fun tag => ?_
  unfold moveAll
  rw [moveSome_eq_some h, moveSome_eq_some h]
  refine or_congr (exists_congr fun source => and_congr_right fun hpath => ?_)
    (and_congr_right fun htag => ?_)
  · refine and_congr_left fun hfile => iff_of_true (hmoved source ?_ ?_) rfl
    · obtain ⟨fileId, hfound, -⟩ := map_eq_some_iff.mp hfile
      rw [hfound]
      exact some_ne_none _
    · rw [hpath]
      exact some_ne_none _
  · constructor
    · intro hstays _
      by_contra hbelow
      refine hbelow (hstays (hmoved path ?_ hbelow))
      rw [htag]
      exact some_ne_none _
    · exact fun hstays _ => hstays rfl

end

section
variable {options : VaultOptions} {before after last : Standing} {event : VaultEvent}
  {events later : List VaultEvent} {previousFolder nextFolder : Path}

theorem EventStep.plain_after (h : EventStep options before event after)
    (hplain : Plain options before) : Plain options after := by
  cases h with
  | modify _ => exact hplain
  | rename _ _ plain => exact plain
  | renamed _ _ _ => exact hplain
  | renameFolder folder plain _ => exact plain_moveSome plain folder _

theorem Chain.append (h : Chain options before events after) (h' : Chain options after later last) :
    Chain options before (events ++ later) last := by
  induction h with
  | nil => exact h'
  | cons step _ ih => exact .cons step (ih h')

theorem Chain.snoc (h : Chain options before events after)
    (hstep : EventStep options after event last) :
    Chain options before (events ++ [event]) last := h.append (.cons hstep (.nil last))

/-- An event of the folder's rename, whichever of them came before. -/
theorem eventStep_belongs (hplain : Plain options before)
    (h : FolderMove options before previousFolder nextFolder)
    (hevent : Belongs options before previousFolder nextFolder event) (moved : Path → Bool) :
    EventStep options (moveSome options before previousFolder nextFolder moved) event
      (moveSome options before previousFolder nextFolder
        fun path => moved path || tells path event) := by
  cases hevent with
  | folder =>
    have hall : (fun path => moved path || tells path (.renameFolder previousFolder nextFolder)) =
        fun _ => true := funext fun path => Bool.or_true _
    rw [hall]
    exact .renameFolder h hplain rfl
  | @child previousPath nextPath there below =>
    have htells : (fun path => moved path || tells path (.rename previousPath nextPath)) =
        fun path => moved path || decide (path = previousPath) := by
      funext path
      exact congrArg (moved path || ·) (decide_eq_decide.mpr eq_comm)
    rw [htells]
    cases hmoved : moved previousPath with
    | false =>
      have hplain' := plain_moveSome hplain h fun path => moved path || decide (path = previousPath)
      rw [← moveOne_moveSome h there below hmoved] at hplain' ⊢
      refine .rename ?_ ?_ hplain'
      · rw [moveSome_stays h there fun hnow => by rw [hmoved] at hnow; cases hnow]
        exact there
      · exact moveSome_free h below hmoved
    | true =>
      have hsame : (fun path => moved path || decide (path = previousPath)) = moved := by
        funext path
        by_cases hpath : path = previousPath
        · rw [hpath, hmoved, Bool.true_or]
        · rw [decide_eq_false hpath, Bool.or_false]
      rw [hsame]
      have hnext := moveSome_moved before below hmoved
      obtain ⟨fileId, hfile⟩ := ne_none_iff_exists'.mp there
      refine .renamed ?_ ?_ ?_
      · rw [hnext, hfile]
        exact some_ne_none _
      · intro path hpath hkey hsamekey
        rcases moveSome_there h hpath with ⟨source, hsource, -, hbelow⟩ | ⟨hthere, hstays⟩
        · by_cases hother : source = previousPath
          · rw [hother] at hbelow
            exact some.inj (hbelow.symm.trans below)
          · rw [← hsamekey] at hkey
            exact absurd hsamekey
              (h.apart source path previousPath hsource hbelow there (Ne.symm hother) hkey)
        · rw [← hsamekey] at hkey
          have hother := hplain.apart path previousPath hthere there hkey hsamekey
          rw [hother] at hstays
          rw [hstays hmoved] at below
          cases below
      · intro hkey
        rw [hnext, hfile]
        cases fileId with
        | none => rw [map_some, inScope_none]
        | some id => exact absurd hkey (hplain.eligible previousPath id hfile)

/-- The events of a folder's rename, in whatever order, once they tell of all its files. -/
theorem chain_folder (hplain : Plain options before)
    (h : FolderMove options before previousFolder nextFolder)
    (hevents : ∀ event ∈ events, Belongs options before previousFolder nextFolder event)
    (htold : ∀ path, before path ≠ none → rebased options previousFolder nextFolder path ≠ none →
      events.any (tells path) = true) :
    Chain options before events (moveAll options before previousFolder nextFolder) := by
  have hchain : ∀ events : List VaultEvent,
      (∀ event ∈ events, Belongs options before previousFolder nextFolder event) →
      ∀ moved : Path → Bool, Chain options
        (moveSome options before previousFolder nextFolder moved) events
        (moveSome options before previousFolder nextFolder
          fun path => moved path || events.any (tells path)) := by
    intro events
    induction events with
    | nil =>
      intro _ moved
      have hsame : (fun path => moved path || ([] : List VaultEvent).any (tells path)) = moved :=
        funext fun path => Bool.or_false _
      rw [hsame]
      exact .nil _
    | cons event rest ih =>
      intro hevents moved
      have hrest := ih (fun later hlater => hevents later (List.mem_cons_of_mem _ hlater))
        fun path => moved path || tells path event
      refine .cons (eventStep_belongs hplain h (hevents event List.mem_cons_self) moved) ?_
      simpa only [List.any_cons, Bool.or_assoc] using hrest
  have hstart : moveSome options before previousFolder nextFolder (fun _ => false) = before := by
    funext path
    unfold moveSome
    split <;> rfl
  have hall := hchain events hevents fun _ => false
  rw [hstart] at hall
  simp only [Bool.false_or] at hall
  rw [moveSome_eq_moveAll h htold] at hall
  exact hall

end

variable {options : VaultOptions} {vault : JsObject Path VaultFile} {f : Path → Path} {path : Path}

/-- The files after a rename that takes no two of them to one path. -/
theorem standing_movedFiles (h : ∀ a ∈ vault.keys, ∀ b ∈ vault.keys, f a = f b → a = b)
    {tag : Option Id} :
    standing (movedFiles options f vault) path = some tag ↔
      ∃ source fileId, standing vault source = some fileId ∧ f source = path ∧
        inScope options path fileId = tag := by
  unfold standing movedFiles
  rw [JsObject.get_mapValues, Option.map_map]
  constructor
  · intro htag
    obtain ⟨file, hfile, rfl⟩ := map_eq_some_iff.mp htag
    obtain ⟨source, hsource, hpath⟩ := (get_mapKeys h).mp hfile
    exact ⟨source, file.fileId, map_eq_some_iff.mpr ⟨file, hsource, rfl⟩, hpath, rfl⟩
  · rintro ⟨source, fileId, hsource, hpath, rfl⟩
    obtain ⟨file, hfile, rfl⟩ := map_eq_some_iff.mp hsource
    exact map_eq_some_iff.mpr ⟨file, (get_mapKeys h).mpr ⟨source, hfile, hpath⟩, rfl⟩

theorem standing_ne_none : standing vault path ≠ none ↔ path ∈ vault.keys := by
  unfold standing
  rw [Ne, map_eq_none_iff, JsObject.get_eq_none, not_not]

/-- A file that stays where it is stays in scope. -/
theorem Plain.inScope_eq {before : Standing} {fileId : Option Id} (h : Plain options before)
    (hfile : before path = some fileId) : inScope options path fileId = fileId := by
  cases fileId with
  | none => exact inScope_none
  | some id => exact inScope_of_key (h.eligible path id hfile)

theorem standing_moveFile {previousPath nextPath : Path} (hplain : Plain options (standing vault))
    (hfree : standing vault nextPath = none) :
    standing (movedFiles options (moveFile previousPath nextPath) vault) =
      moveOne options (standing vault) previousPath nextPath := by
  have hnot : ∀ a ∈ vault.keys, a ≠ nextPath := by
    rintro a ha rfl
    exact standing_ne_none.mpr ha hfree
  have hinj : ∀ a ∈ vault.keys, ∀ b ∈ vault.keys,
      moveFile previousPath nextPath a = moveFile previousPath nextPath b → a = b := by
    intro a ha b hb heq
    unfold moveFile at heq
    split_ifs at heq with hsource hsource'
    · exact hsource.trans hsource'.symm
    · exact absurd heq.symm (hnot b hb)
    · exact absurd heq (hnot a ha)
    · exact heq
  funext path
  refine Option.ext fun tag => ?_
  rw [standing_movedFiles hinj]
  constructor
  · rintro ⟨source, fileId, hsource, hpath, rfl⟩
    unfold moveFile at hpath
    split_ifs at hpath with hprevious
    · rw [← hpath, moveOne_next, ← hprevious, hsource]
      rfl
    · rw [← hpath, hplain.inScope_eq hsource, moveOne_other hprevious, hsource]
      rintro rfl
      rw [hfree] at hsource
      cases hsource
  · intro htag
    by_cases hnext : path = nextPath
    · rw [hnext, moveOne_next] at htag
      obtain ⟨fileId, hfile, hscope⟩ := map_eq_some_iff.mp htag
      rw [hnext]
      exact ⟨previousPath, fileId, hfile, if_pos rfl, hscope⟩
    · by_cases hprevious : path = previousPath
      · rw [hprevious] at hnext htag
        rw [moveOne_previous hnext] at htag
        cases htag
      · rw [moveOne_other hprevious hnext] at htag
        exact ⟨path, tag, htag, if_neg hprevious, hplain.inScope_eq htag⟩

theorem standing_moveFolder {previousFolder nextFolder : Path}
    (hplain : Plain options (standing vault))
    (h : FolderMove options (standing vault) previousFolder nextFolder) :
    standing (movedFiles options (moveFolder options previousFolder nextFolder) vault) =
      moveAll options (standing vault) previousFolder nextFolder := by
  have hmoved : ∀ {path next : Path},
      rebased options previousFolder nextFolder path = some next →
      moveFolder options previousFolder nextFolder path = next := by
    intro path next hbelow
    unfold moveFolder
    rw [hbelow]
    rfl
  have hstays : ∀ {path : Path}, rebased options previousFolder nextFolder path = none →
      moveFolder options previousFolder nextFolder path = path := by
    intro path hout
    unfold moveFolder
    rw [hout]
    rfl
  have hfree : ∀ {path next : Path},
      rebased options previousFolder nextFolder path = some next → next ∉ vault.keys := by
    intro path next hbelow hmem
    exact standing_ne_none.mpr hmem (h.free next path (rebased_back hbelow))
  have hinj : ∀ a ∈ vault.keys, ∀ b ∈ vault.keys,
      moveFolder options previousFolder nextFolder a =
        moveFolder options previousFolder nextFolder b → a = b := by
    intro a ha b hb heq
    cases hbelow : rebased options previousFolder nextFolder a with
    | none =>
      rw [hstays hbelow] at heq
      cases hbelow' : rebased options previousFolder nextFolder b with
      | none => rw [heq, hstays hbelow']
      | some next =>
        rw [hmoved hbelow'] at heq
        rw [heq] at ha
        exact absurd ha (hfree hbelow')
    | some next =>
      rw [hmoved hbelow] at heq
      cases hbelow' : rebased options previousFolder nextFolder b with
      | none =>
        rw [hstays hbelow'] at heq
        rw [← heq] at hb
        exact absurd hb (hfree hbelow)
      | some next' =>
        rw [hmoved hbelow'] at heq
        rw [heq] at hbelow
        exact some.inj ((rebased_back hbelow).symm.trans (rebased_back hbelow'))
  funext path
  refine Option.ext fun tag => ?_
  unfold moveAll
  rw [standing_movedFiles hinj, moveSome_eq_some h]
  constructor
  · rintro ⟨source, fileId, hsource, hpath, rfl⟩
    cases hbelow : rebased options previousFolder nextFolder source with
    | some next =>
      rw [hmoved hbelow] at hpath
      rw [hpath] at hbelow
      refine .inl ⟨source, hbelow, rfl, ?_⟩
      rw [hsource]
      rfl
    | none =>
      rw [hstays hbelow] at hpath
      rw [← hpath, hplain.inScope_eq hsource]
      exact .inr ⟨hsource, fun _ => hbelow⟩
  · rintro (⟨source, hbelow, -, hfile⟩ | ⟨hfile, hout⟩)
    · obtain ⟨fileId, hsource, hscope⟩ := map_eq_some_iff.mp hfile
      exact ⟨source, fileId, hsource, hmoved hbelow, hscope⟩
    · exact ⟨path, tag, hfile, hstays (hout rfl), hplain.inScope_eq hfile⟩

end Havemind.VaultMoves
