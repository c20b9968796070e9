import Havemind.JsObject
import Havemind.TopologicalOrder
import Havemind.VaultPayload
import Mathlib.Algebra.Order.Ring.Int

/-!
The order in which a push request commits its revisions: parents in front of children,
whatever the order in which they were sent. A batch that repeats a revision id or whose
parents form a cycle has no such order and is refused.
-/
namespace Havemind.BatchOrder

open JsObject JsText RevisionSchema TopologicalOrder List Option
open VaultPayload (Bytes)

structure ParsedRevisionInput where
  header : ProtectedRevisionHeader
  idempotencyKey : JsString
  payload : Bytes
  deriving DecidableEq

def ParsedRevisionInput.revisionId (revision : ParsedRevisionInput) : Id :=
  revision.header.revisionId

/-- `none` for an id that appears twice. -/
def indexById (byId : JsObject Id ParsedRevisionInput) :
    List ParsedRevisionInput → Option (JsObject Id ParsedRevisionInput)
  | [] => some byId
  | revision :: rest =>
    if (byId.get revision.header.revisionId).isSome then none
    else indexById (byId.set revision.header.revisionId revision) rest

/-- The tables of the batch's graph: how many of a revision's parents are not yet ordered,
and the revisions it is a parent of. -/
structure Links where
  inDegree : JsObject Id ℤ
  children : JsObject Id (List Id)

def unlinked (ids : List Id) : Links :=
  ids.foldl (fun links id =>
    { inDegree := links.inDegree.set id 0, children := links.children.set id [] })
    { inDegree := ∅, children := ∅ }

/-- A parent that is not in the batch is left out. -/
def linkParent (byId : JsObject Id ParsedRevisionInput) (childId : Id) (links : Links)
    (parentId : Id) : Links :=
  if (byId.get parentId).isNone then links
  else
    { children :=
        match links.children.get parentId with
        | none => links.children
        | some others => links.children.set parentId (others ++ [childId])
      inDegree := links.inDegree.set childId ((links.inDegree.get childId).getD 0 + 1) }

def linkRevision (byId : JsObject Id ParsedRevisionInput) (links : Links)
    (revision : ParsedRevisionInput) : Links :=
  revision.header.parentRevisionIds.foldl (linkParent byId revision.header.revisionId) links

def linkBatch (byId : JsObject Id ParsedRevisionInput) (revisions : List ParsedRevisionInput) :
    Links :=
  revisions.foldl (linkRevision byId) (unlinked byId.keys)

/-- The children of an ordered revision, each with one parent less to wait for. -/
def releaseChildren (inDegree : JsObject Id ℤ) (ready : List Id) :
    List Id → JsObject Id ℤ × List Id
  | [] => (inDegree, ready)
  | childId :: rest =>
    let next := (inDegree.get childId).getD 0 - 1
    releaseChildren (inDegree.set childId next) (if next = 0 then ready ++ [childId] else ready)
      rest

/-- The loop over the revisions that wait for no other; `fuel` bounds its turns. -/
def drain (byId : JsObject Id ParsedRevisionInput) (children : JsObject Id (List Id)) :
    ℕ → JsObject Id ℤ → List Id → List ParsedRevisionInput → Option (List ParsedRevisionInput)
  | _, _, [], ordered => some ordered
  | 0, _, _ :: _, _ => none
  | fuel + 1, inDegree, id :: ready, ordered =>
    let released := releaseChildren inDegree ready ((children.get id).getD [])
    drain byId children fuel released.1 released.2
      (match byId.get id with
        | none => ordered
        | some revision => ordered ++ [revision])

/-- The ids without parents in the batch, in the order of the table. -/
def initiallyReady (inDegree : JsObject Id ℤ) : List Id :=
  (inDegree.entries.filter fun entry => entry.2 = 0).map Prod.fst

/-- The revisions the loop orders, with at most `fuel` turns. -/
def drainBatch (fuel : ℕ) (byId : JsObject Id ParsedRevisionInput)
    (revisions : List ParsedRevisionInput) : Option (List ParsedRevisionInput) :=
  let links := linkBatch byId revisions
  drain byId links.children fuel links.inDegree (initiallyReady links.inDegree) []

def orderBatch (revisions : List ParsedRevisionInput) : Option (List ParsedRevisionInput) :=
  match indexById ∅ revisions with
  | none => none
  | some byId =>
    (drainBatch revisions.length byId revisions).bind fun ordered =>
      if ordered.length = revisions.length then some ordered else none

section
variable {revisions : List ParsedRevisionInput} {byId found : JsObject Id ParsedRevisionInput}

def idsOf (revisions : List ParsedRevisionInput) : List Id := revisions.map (·.revisionId)

/-- The one revision is a parent of the other, and both are in the batch. -/
def ParentInBatch (revisions : List ParsedRevisionInput) (parentId childId : Id) : Prop :=
  parentId ∈ idsOf revisions ∧
    ∃ revision ∈ revisions, revision.revisionId = childId ∧
      parentId ∈ revision.header.parentRevisionIds

/-- Every revision comes after all its parents that are in the batch. -/
def ParentsBefore (revisions ordered : List ParsedRevisionInput) : Prop :=
  ∀ before revision after, ordered = before ++ revision :: after →
    ∀ parentId ∈ revision.header.parentRevisionIds, parentId ∈ idsOf revisions →
      parentId ∈ idsOf before

/-- An edge for each time a revision names a parent that is in the batch. -/
def edgesOf (ids : List Id) (revision : ParsedRevisionInput) : List (Id × Id) :=
  (revision.header.parentRevisionIds.filter fun parentId => parentId ∈ ids).map
    fun parentId => (parentId, revision.revisionId)

theorem entries_set {V : Type} {object : JsObject Id V} {key : Id} (value : V)
    (h : object.get key = none) :
    (object.set key value).entries = object.entries ++ [(key, value)] := by
  have hfresh : key ∉ object.entries.map Prod.fst := get_eq_none.mp h
  rw [JsObject.set, dif_neg hfresh]

theorem indexById_eq_some : indexById byId revisions = some found ↔
    (byId.keys ++ idsOf revisions).Nodup ∧ found.entries =
      byId.entries ++ revisions.map fun revision => (revision.revisionId, revision) := by
  induction revisions generalizing byId with
  | nil =>
    rw [indexById, idsOf, map_nil, map_nil, append_nil, append_nil]
    constructor
    · intro h
      have hsame : byId = found := some.inj h
      exact ⟨byId.keys_nodup, congrArg JsObject.entries hsame.symm⟩
    · rintro ⟨-, hentries⟩
      exact congrArg some (JsObject.ext hentries.symm)
  | cons revision rest ih =>
    cases hget : byId.get revision.revisionId with
    | none =>
      have hentries := entries_set revision hget
      have hkeys : (byId.set revision.revisionId revision).keys =
          byId.keys ++ [revision.revisionId] := by
        rw [JsObject.keys, hentries, map_append]
        rfl
      have hnot : ¬ (byId.get revision.header.revisionId).isSome := by
        rw [show byId.get revision.header.revisionId = none from hget]
        exact Bool.false_ne_true
      rw [indexById, if_neg hnot, ih, show byId.set revision.header.revisionId revision =
        byId.set revision.revisionId revision from rfl, hkeys, hentries, append_assoc,
        append_assoc]
      rfl
    | some first =>
      have hthere : (byId.get revision.header.revisionId).isSome := by
        rw [show byId.get revision.header.revisionId = some first from hget]
        rfl
      have hkey : revision.revisionId ∈ byId.keys := by
        by_contra hfresh
        rw [get_eq_none.mpr hfresh] at hget
        exact absurd hget.symm (some_ne_none _)
      rw [indexById, if_pos hthere]
      constructor
      · intro h
        exact absurd h.symm (some_ne_none _)
      · rintro ⟨hnodup, -⟩
        exact absurd rfl ((nodup_append.mp hnodup).2.2 _ hkey _ mem_cons_self)

theorem indexById_empty_eq_some : indexById ∅ revisions = some found ↔
    (idsOf revisions).Nodup ∧
      found.entries = revisions.map fun revision => (revision.revisionId, revision) :=
  indexById_eq_some

theorem keys_of_entries
    (h : found.entries = revisions.map fun revision => (revision.revisionId, revision)) :
    found.keys = idsOf revisions := by
  rw [JsObject.keys, h, List.map_map]
  rfl

theorem get_of_entries
    (h : found.entries = revisions.map fun revision => (revision.revisionId, revision))
    {id : Id} {revision : ParsedRevisionInput} :
    found.get id = some revision ↔ revision ∈ revisions ∧ revision.revisionId = id := by
  rw [get_eq_some, h, List.mem_map]
  constructor
  · rintro ⟨other, hmem, hpair⟩
    obtain ⟨hid, rfl⟩ := Prod.mk.inj hpair
    exact ⟨hmem, hid⟩
  · rintro ⟨hmem, hid⟩
    exact ⟨revision, hmem, by rw [hid]⟩

/-- The tables say what the edges met so far are. -/
structure Linked (ids : List Id) (edges : List (Id × Id)) (links : Links) : Prop where
  inDegree : ∀ id, links.inDegree.get id =
    if id ∈ ids then some (edges.countP fun edge => edge.2 = id : ℤ) else none
  children : ∀ id ∈ ids, links.children.get id =
    some ((edges.filter fun edge => edge.1 = id).map Prod.snd)

theorem linked_unlinked (ids : List Id) : Linked ids [] (unlinked ids) := by
  have hfold : ∀ (rest met : List Id) (links : Links), Linked met [] links →
      Linked (met ++ rest) [] (rest.foldl (fun links id =>
        { inDegree := links.inDegree.set id 0, children := links.children.set id [] }) links) := by
    intro rest
    induction rest with
    | nil =>
      intro met links h
      rw [append_nil]
      exact h
    | cons first rest ih =>
      intro met links h
      rw [← singleton_append, ← append_assoc]
      apply ih
      refine ⟨fun id => ?_, fun id hid => ?_⟩
      · rw [get_set, h.inDegree]
        by_cases hfirst : id = first
        · rw [if_pos hfirst, if_pos (mem_append_right _ (mem_singleton.mpr hfirst))]
          rfl
        · rw [if_neg hfirst]
          simp only [mem_append, mem_singleton, hfirst, or_false]
      · rw [get_set]
        by_cases hfirst : id = first
        · rw [if_pos hfirst]
          rfl
        · rw [if_neg hfirst]
          exact h.children id ((mem_append.mp hid).resolve_right
            (mt mem_singleton.mp hfirst))
  have hnone : Linked [] [] { inDegree := ∅, children := ∅ } :=
    ⟨fun _ => rfl, fun _ hid => absurd hid not_mem_nil⟩
  exact hfold ids [] _ hnone

variable {ids : List Id} {edges : List (Id × Id)} {links : Links} {parentId childId : Id}

theorem Linked.link (h : Linked ids edges links) (hkeys : byId.keys = ids) (hchild : childId ∈ ids)
    (hparent : parentId ∈ ids) :
    Linked ids (edges ++ [(parentId, childId)]) (linkParent byId childId links parentId) := by
  have hthere : ¬ (byId.get parentId).isNone := by
    rw [isNone_iff_eq_none, get_eq_none, hkeys]
    exact not_not.mpr hparent
  rw [linkParent, if_neg hthere, h.children parentId hparent]
  refine ⟨fun id => ?_, fun id hid => ?_⟩
  · dsimp only
    have hcount : (edges ++ [(parentId, childId)]).countP (fun edge => edge.2 = id) =
        edges.countP (fun edge => edge.2 = id) + if childId = id then 1 else 0 := by
      simp only [countP_append, countP_singleton, decide_eq_true_eq]
    rw [get_set, h.inDegree childId, h.inDegree id, if_pos hchild, getD_some, hcount]
    by_cases hid : id = childId
    · rw [if_pos hid, hid, if_pos hchild, if_pos rfl]
      rfl
    · rw [if_neg hid, if_neg (Ne.symm hid)]
      rfl
  · dsimp only
    have hmet : (edges ++ [(parentId, childId)]).filter (fun edge => edge.1 = id) =
        edges.filter (fun edge => edge.1 = id) ++ if parentId = id then [(parentId, childId)] else []
        := by
      rw [filter_append, filter_singleton, ← Bool.cond_decide]
    rw [get_set, h.children id hid, hmet]
    by_cases hparentId : id = parentId
    · rw [if_pos hparentId, hparentId, if_pos rfl, map_append]
      rfl
    · rw [if_neg hparentId, if_neg (Ne.symm hparentId), append_nil]

theorem Linked.linkRevision (h : Linked ids edges links) (hkeys : byId.keys = ids)
    {revision : ParsedRevisionInput} (hrevision : revision.revisionId ∈ ids) :
    Linked ids (edges ++ edgesOf ids revision) (linkRevision byId links revision) := by
  unfold BatchOrder.linkRevision edgesOf
  generalize revision.header.parentRevisionIds = parents
  induction parents generalizing edges links with
  | nil =>
    rw [filter_nil, map_nil, append_nil]
    exact h
  | cons parentId rest ih =>
    rw [foldl_cons]
    by_cases hparent : parentId ∈ ids
    · rw [filter_cons, if_pos (decide_eq_true hparent), map_cons,
        ← singleton_append, ← append_assoc]
      exact ih (h.link hkeys hrevision hparent)
    · have hnone : (byId.get parentId).isNone := by
        rw [isNone_iff_eq_none, get_eq_none, hkeys]
        exact hparent
      rw [filter_cons, if_neg fun htrue => hparent (of_decide_eq_true htrue), linkParent,
        if_pos hnone]
      exact ih h

theorem linked_linkBatch (hkeys : byId.keys = idsOf revisions) :
    Linked (idsOf revisions) (revisions.flatMap (edgesOf (idsOf revisions)))
      (linkBatch byId revisions) := by
  have hfold : ∀ (rest : List ParsedRevisionInput) (edges : List (Id × Id)) (links : Links),
      (∀ revision ∈ rest, revision ∈ revisions) → Linked (idsOf revisions) edges links →
      Linked (idsOf revisions) (edges ++ rest.flatMap (edgesOf (idsOf revisions)))
        (rest.foldl (BatchOrder.linkRevision byId) links) := by
    intro rest
    induction rest with
    | nil =>
      intro edges links _ h
      rw [flatMap_nil, append_nil]
      exact h
    | cons revision rest ih =>
      intro edges links hrest h
      obtain ⟨hrevision, hlater⟩ := forall_mem_cons.mp hrest
      rw [flatMap_cons, ← append_assoc]
      exact ih _ _ hlater (h.linkRevision hkeys (mem_map_of_mem hrevision))
  unfold linkBatch
  rw [hkeys]
  exact hfold revisions [] _ (fun _ hmem => hmem) (linked_unlinked _)

theorem mem_edges : (parentId, childId) ∈ revisions.flatMap (edgesOf (idsOf revisions)) ↔
    ParentInBatch revisions parentId childId := by
  unfold edgesOf ParentInBatch
  rw [mem_flatMap]
  constructor
  · rintro ⟨revision, hmem, hedge⟩
    obtain ⟨other, hother, hpair⟩ := mem_map.mp hedge
    obtain ⟨rfl, rfl⟩ := Prod.mk.inj hpair
    obtain ⟨hnamed, hin⟩ := mem_filter.mp hother
    exact ⟨of_decide_eq_true hin, revision, hmem, rfl, hnamed⟩
  · rintro ⟨hin, revision, hmem, rfl, hnamed⟩
    refine ⟨revision, hmem, mem_map.mpr ⟨parentId, ?_, rfl⟩⟩
    exact mem_filter.mpr ⟨hnamed, decide_eq_true hin⟩

end

section
variable {ordered : List ParsedRevisionInput} {byId : JsObject Id ParsedRevisionInput}
  {children : JsObject Id (List Id)} {inDegree : JsObject Id ℤ} {ids ready : List Id}
  {edges : List (Id × Id)}

def degreeOf (inDegree : JsObject Id ℤ) (id : Id) : ℤ := (inDegree.get id).getD 0

theorem degreeOf_set (id other : Id) (degree : ℤ) :
    degreeOf (inDegree.set id degree) other =
      if other = id then degree else degreeOf inDegree other := by
  unfold degreeOf
  rw [get_set]
  split_ifs with h
  · rfl
  · rfl

/-- Every released child has as many parents less to wait for as edges to it, and those with
none left are ready. -/
theorem releaseChildren_spec (released : List Id)
    (h : ∀ id, (released.count id : ℤ) ≤ degreeOf inDegree id) :
    (∀ id, degreeOf (releaseChildren inDegree ready released).1 id =
      degreeOf inDegree id - released.count id) ∧
    ∃ freed, (releaseChildren inDegree ready released).2 = ready ++ freed ∧ freed.Nodup ∧
      ∀ id, id ∈ freed ↔ id ∈ released ∧ degreeOf inDegree id = released.count id := by
  induction released generalizing inDegree ready with
  | nil =>
    refine ⟨fun id => ?_, [], (append_nil _).symm, nodup_nil, fun id => ?_⟩
    · rw [releaseChildren, count_nil]
      exact (sub_zero _).symm
    · exact ⟨fun hmem => absurd hmem not_mem_nil, fun hmem => hmem.1⟩
  | cons childId rest ih =>
    have hafter : ∀ id, degreeOf (inDegree.set childId ((inDegree.get childId).getD 0 - 1)) id =
        degreeOf inDegree id - if id = childId then 1 else 0 := by
      intro id
      rw [degreeOf_set]
      by_cases hid : id = childId
      · rw [if_pos hid, if_pos hid, hid]
        rfl
      · rw [if_neg hid, if_neg hid, sub_zero]
    have hcount : ∀ id, ((childId :: rest).count id : ℤ) =
        rest.count id + if id = childId then 1 else 0 := by
      intro id
      rw [count_cons]
      by_cases hid : id = childId
      · simp [hid]
      · simp [hid, Ne.symm hid]
    have hrest : ∀ id, (rest.count id : ℤ) ≤
        degreeOf (inDegree.set childId ((inDegree.get childId).getD 0 - 1)) id := by
      intro id
      have hle := h id
      rw [hcount] at hle
      rw [hafter]
      omega
    rw [releaseChildren]
    by_cases hlast : (inDegree.get childId).getD 0 - 1 = 0
    · rw [if_pos hlast]
      obtain ⟨hdegree, freed, hready, hnodup, hfreed⟩ := @ih _ (ready ++ [childId]) hrest
      have hone : degreeOf inDegree childId = 1 := sub_eq_zero.mp hlast
      have hgone : childId ∉ rest := by
        have hle := hrest childId
        rw [hafter, if_pos rfl, hone] at hle
        exact count_eq_zero.mp (by omega)
      have hfresh : childId ∉ freed := fun hmem => hgone ((hfreed childId).mp hmem).1
      refine ⟨fun id => ?_, childId :: freed, ?_, nodup_cons.mpr ⟨hfresh, hnodup⟩, fun id => ?_⟩
      · rw [hdegree, hafter, hcount]
        omega
      · rw [hready, append_assoc]
        rfl
      · rw [mem_cons, mem_cons, hfreed, hafter, hcount]
        by_cases hid : id = childId
        · have hzero : rest.count childId = 0 := count_eq_zero.mpr hgone
          rw [if_pos hid, hid, hone, hzero]
          simp
        · rw [if_neg hid, sub_zero, add_zero]
          simp only [hid, false_or]
    · rw [if_neg hlast]
      obtain ⟨hdegree, freed, hready, hnodup, hfreed⟩ := @ih _ ready hrest
      refine ⟨fun id => ?_, freed, hready, hnodup, fun id => ?_⟩
      · rw [hdegree, hafter, hcount]
        omega
      · rw [mem_cons, hfreed, hafter, hcount]
        by_cases hid : id = childId
        · rw [if_pos hid, hid]
          constructor
          · rintro ⟨hmem, hdegree⟩
            exact ⟨.inl rfl, by omega⟩
          · rintro ⟨-, hdegree⟩
            have hmany : degreeOf inDegree childId ≠ 1 := fun hone => hlast (sub_eq_zero.mpr hone)
            have hcounted : 0 < rest.count childId := by omega
            exact ⟨count_pos_iff.mp hcounted, by omega⟩
        · rw [if_neg hid, sub_zero, add_zero]
          simp only [hid, false_or]

/-- What holds between two turns. A revision's degree counts the edges from parents that are
not yet ordered, and the revisions without any are ordered or ready. -/
structure Draining (byId : JsObject Id ParsedRevisionInput) (ids : List Id)
    (edges : List (Id × Id)) (inDegree : JsObject Id ℤ) (ready : List Id)
    (ordered : List ParsedRevisionInput) : Prop where
  distinct : (idsOf ordered ++ ready).Nodup
  degree : ∀ id, degreeOf inDegree id =
    edges.countP fun edge => edge.2 = id ∧ edge.1 ∉ idsOf ordered
  free : ∀ id, id ∈ idsOf ordered ++ ready ↔ id ∈ ids ∧ degreeOf inDegree id = 0
  first : SourcesFirst (fun parentId childId => (parentId, childId) ∈ edges) (idsOf ordered)
  indexed : ∀ revision ∈ ordered, byId.get revision.revisionId = some revision

/-- The revisions whose id is taken from the queue, and the edges from it. -/
theorem count_released (id childId : Id) (edges : List (Id × Id)) :
    ((edges.filter fun edge => edge.1 = id).map Prod.snd).count childId =
      edges.countP fun edge => edge.2 = childId ∧ edge.1 = id := by
  rw [count_eq_countP, countP_map, countP_filter]
  apply countP_congr
  intro edge _
  simp

theorem countP_ordered {done : List Id} {id : Id} (hid : id ∉ done) (childId : Id)
    (edges : List (Id × Id)) :
    edges.countP (fun edge => edge.2 = childId ∧ edge.1 ∉ done) =
      edges.countP (fun edge => edge.2 = childId ∧ edge.1 ∉ done ++ [id]) +
        edges.countP fun edge => edge.2 = childId ∧ edge.1 = id := by
  induction edges with
  | nil => rfl
  | cons edge rest ih =>
    simp only [countP_cons, ih, decide_eq_true_eq, mem_append, mem_singleton]
    by_cases hchild : edge.2 = childId
    · by_cases hparent : edge.1 = id
      · simp only [hchild, hparent, hid]
        simp
        omega
      · simp only [hchild, hparent]
        simp
        omega
    · simp [hchild]

/-- The tables agree with the edges, and every child of an edge is in the batch. -/
structure Tabled (byId : JsObject Id ParsedRevisionInput) (children : JsObject Id (List Id))
    (ids : List Id) (edges : List (Id × Id)) : Prop where
  keyed : ∀ id, (byId.get id).isSome ↔ id ∈ ids
  own : ∀ id revision, byId.get id = some revision → revision.revisionId = id
  released : ∀ id ∈ ids, children.get id =
    some ((edges.filter fun edge => edge.1 = id).map Prod.snd)
  inside : ∀ edge ∈ edges, edge.1 ∈ ids ∧ edge.2 ∈ ids

theorem Draining.turn {id : Id}
    (h : Draining byId ids edges inDegree (id :: ready) ordered)
    (ht : Tabled byId children ids edges) :
    ∃ revision, byId.get id = some revision ∧
      Draining byId ids edges
        (releaseChildren inDegree ready ((children.get id).getD [])).1
        (releaseChildren inDegree ready ((children.get id).getD [])).2 (ordered ++ [revision]) := by
  have hid : id ∈ ids := ((h.free id).mp (mem_append_right _ mem_cons_self)).1
  obtain ⟨revision, hrevision⟩ := isSome_iff_exists.mp ((ht.keyed id).mpr hid)
  have hown := ht.own id revision hrevision
  have hids : idsOf (ordered ++ [revision]) = idsOf ordered ++ [id] := by
    rw [idsOf, map_append, map_singleton, hown]
    rfl
  have hnew : id ∉ idsOf ordered := fun hmem =>
    (nodup_append.mp h.distinct).2.2 id hmem id mem_cons_self rfl
  rw [ht.released id hid, getD_some]
  have hsplit := fun childId => countP_ordered hnew childId edges
  have hcount := fun childId => count_released id childId edges
  have hle : ∀ childId, (((edges.filter fun edge => edge.1 = id).map Prod.snd).count childId : ℤ) ≤
      degreeOf inDegree childId := by
    intro childId
    rw [h.degree, hcount, hsplit]
    omega
  obtain ⟨hdegree, freed, hready, hnodup, hfreed⟩ := @releaseChildren_spec inDegree ready _ hle
  have hafter : ∀ childId, degreeOf (releaseChildren inDegree ready
      ((edges.filter fun edge => edge.1 = id).map Prod.snd)).1 childId =
      edges.countP fun edge => edge.2 = childId ∧ edge.1 ∉ idsOf ordered ++ [id] := by
    intro childId
    rw [hdegree, h.degree, hcount, hsplit]
    omega
  have hwaits : ∀ childId ∈ freed, childId ∉ idsOf ordered ++ id :: ready := by
    intro childId hmem hmet
    obtain ⟨hreleased, hall⟩ := (hfreed childId).mp hmem
    have hnone := ((h.free childId).mp hmet).2
    have hsome := count_pos_iff.mpr hreleased
    omega
  have hregroup : idsOf ordered ++ [id] ++ (ready ++ freed) =
      (idsOf ordered ++ id :: ready) ++ freed := by simp
  refine ⟨revision, hrevision, ?_, ?_, ?_, ?_, ?_⟩
  · rw [hids, hready, hregroup]
    refine nodup_append.mpr ⟨h.distinct, hnodup, ?_⟩
    rintro other hother _ hmem rfl
    exact hwaits other hmem hother
  · intro childId
    rw [hids]
    exact hafter childId
  · intro childId
    have hbound := hle childId
    rw [hids, hready, hregroup, mem_append, h.free, hdegree, hfreed]
    constructor
    · rintro (⟨hin, hzero⟩ | ⟨hreleased, hall⟩)
      · exact ⟨hin, by omega⟩
      · obtain ⟨edge, hedge, rfl⟩ := mem_map.mp hreleased
        exact ⟨(ht.inside edge (mem_of_mem_filter hedge)).2, by omega⟩
    · rintro ⟨hin, hzero⟩
      by_cases hreleased : childId ∈ (edges.filter fun edge => edge.1 = id).map Prod.snd
      · exact .inr ⟨hreleased, by omega⟩
      · have hnone := count_eq_zero.mpr hreleased
        exact .inl ⟨hin, by omega⟩
  · rw [hids]
    refine h.first.snoc fun parentId hedge => ?_
    by_contra hwaiting
    have hzero := ((h.free id).mp (mem_append_right _ mem_cons_self)).2
    rw [h.degree, Int.natCast_eq_zero, countP_eq_zero] at hzero
    exact hzero _ hedge (decide_eq_true ⟨rfl, hwaiting⟩)
  · intro other hmem
    rcases mem_append.mp hmem with hbefore | hlast
    · exact h.indexed other hbefore
    · rw [mem_singleton.mp hlast, hown, hrevision]

theorem Draining.length_le (h : Draining byId ids edges inDegree ready ordered) :
    ordered.length + ready.length ≤ ids.length := by
  have hsubset : idsOf ordered ++ ready ⊆ ids := fun id hmem => ((h.free id).mp hmem).1
  have hle := (h.distinct.subperm hsubset).length_le
  rw [length_append, idsOf, length_map] at hle
  exact hle

/-- The loop ends within as many turns as there are revisions still to order. -/
theorem Draining.run (ht : Tabled byId children ids edges) (fuel : ℕ)
    (h : Draining byId ids edges inDegree ready ordered)
    (hfuel : ids.length ≤ fuel + ordered.length) :
    ∃ inDegree' ordered', drain byId children fuel inDegree ready ordered = some ordered' ∧
      Draining byId ids edges inDegree' [] ordered' := by
  induction fuel generalizing inDegree ready ordered with
  | zero =>
    cases ready with
    | nil => exact ⟨inDegree, ordered, by rw [drain], h⟩
    | cons id ready =>
      have hle := h.length_le
      rw [length_cons] at hle
      omega
  | succ fuel ih =>
    cases ready with
    | nil => exact ⟨inDegree, ordered, by rw [drain], h⟩
    | cons id ready =>
      obtain ⟨revision, hrevision, hnext⟩ := h.turn ht
      rw [drain, hrevision]
      apply ih hnext
      rw [length_append, length_singleton]
      omega

end

variable {revisions ordered : List ParsedRevisionInput} {byId : JsObject Id ParsedRevisionInput}
  {inDegree : JsObject Id ℤ}

variable (hentries : byId.entries = revisions.map fun revision => (revision.revisionId, revision))
include hentries

theorem tabled_linkBatch :
    Tabled byId (linkBatch byId revisions).children (idsOf revisions)
      (revisions.flatMap (edgesOf (idsOf revisions))) := by
  have hkeys := keys_of_entries hentries
  refine ⟨fun id => ?_, fun id revision hget => ?_, fun id hid => ?_, ?_⟩
  · rw [← not_iff_not, Bool.not_eq_true, Option.isSome_eq_false_iff, isNone_iff_eq_none,
      get_eq_none, hkeys]
  · exact ((get_of_entries hentries).mp hget).2
  · exact (linked_linkBatch hkeys).children id hid
  · rintro ⟨parentId, childId⟩ hedge
    obtain ⟨hparent, revision, hmem, hid, -⟩ := mem_edges.mp hedge
    exact ⟨hparent, hid ▸ mem_map_of_mem hmem⟩

theorem draining_initially :
    Draining byId (idsOf revisions) (revisions.flatMap (edgesOf (idsOf revisions)))
      (linkBatch byId revisions).inDegree (initiallyReady (linkBatch byId revisions).inDegree) [] := by
  have hlinked := linked_linkBatch (keys_of_entries hentries)
  have ht := tabled_linkBatch hentries
  have hdegree : ∀ id, degreeOf (linkBatch byId revisions).inDegree id =
      ((revisions.flatMap (edgesOf (idsOf revisions))).countP fun edge => edge.2 = id : ℤ) := by
    intro id
    rw [degreeOf, hlinked.inDegree]
    by_cases hid : id ∈ idsOf revisions
    · rw [if_pos hid, getD_some]
    · have hnone : (revisions.flatMap (edgesOf (idsOf revisions))).countP
          (fun edge => edge.2 = id) = 0 := by
        rw [countP_eq_zero]
        intro edge hedge htrue
        exact hid (of_decide_eq_true htrue ▸ (ht.inside edge hedge).2)
      rw [if_neg hid, hnone]
      rfl
  refine ⟨?_, fun id => ?_, fun id => ?_, sourcesFirst_nil, fun _ hmem => absurd hmem
    not_mem_nil⟩
  · exact (linkBatch byId revisions).inDegree.keys_nodup.sublist (filter_sublist.map _)
  · rw [hdegree]
    congr 1
    apply countP_congr
    intro edge _
    simp [idsOf]
  · have hentry : id ∈ initiallyReady (linkBatch byId revisions).inDegree ↔
        (linkBatch byId revisions).inDegree.get id = some 0 := by
      rw [get_eq_some, initiallyReady, List.mem_map]
      constructor
      · rintro ⟨⟨key, degree⟩, hmem, rfl⟩
        obtain ⟨hmem, hzero⟩ := mem_filter.mp hmem
        rw [← show degree = 0 from of_decide_eq_true hzero]
        exact hmem
      · intro hmem
        exact ⟨_, mem_filter.mpr ⟨hmem, decide_eq_true rfl⟩, rfl⟩
    rw [show idsOf [] ++ initiallyReady (linkBatch byId revisions).inDegree =
      initiallyReady (linkBatch byId revisions).inDegree from rfl, hentry, degreeOf,
      hlinked.inDegree]
    by_cases hid : id ∈ idsOf revisions
    · rw [if_pos hid, getD_some, Option.some_inj]
      exact ⟨fun hzero => ⟨hid, hzero⟩, fun h => h.2⟩
    · rw [if_neg hid]
      exact ⟨fun hnone => absurd hnone.symm (some_ne_none _), fun h => absurd h.1 hid⟩

/-- The loop over a batch of distinct ids ends. -/
theorem drainBatch_ends :
    ∃ inDegree ordered, drainBatch revisions.length byId revisions = some ordered ∧
      Draining byId (idsOf revisions) (revisions.flatMap (edgesOf (idsOf revisions))) inDegree []
        ordered := by
  apply (draining_initially hentries).run (tabled_linkBatch hentries)
  rw [idsOf, length_map]
  omega

variable (h : Draining byId (idsOf revisions) (revisions.flatMap (edgesOf (idsOf revisions))) inDegree []
    ordered)
include h

theorem Draining.subset : ordered ⊆ revisions := by
  intro revision hmem
  exact ((get_of_entries hentries).mp (h.indexed revision hmem)).1

theorem Draining.perm (hlength : ordered.length = revisions.length) : ordered.Perm revisions := by
  have hdistinct : (idsOf ordered).Nodup := by
    have hall := h.distinct
    rwa [append_nil] at hall
  have hnodup : ordered.Nodup := List.Nodup.of_map _ hdistinct
  exact (hnodup.subperm (h.subset hentries)).perm_of_length_le (by omega)

theorem Draining.parentsBefore : ParentsBefore revisions ordered := by
  intro before revision after hsplit parentId hnamed hin
  have hmem : revision ∈ ordered := by
    rw [hsplit]
    exact mem_append_right _ mem_cons_self
  have hids : idsOf ordered = idsOf before ++ revision.revisionId :: idsOf after := by
    rw [hsplit, idsOf, map_append, map_cons]
    rfl
  have hparent : ParentInBatch revisions parentId revision.revisionId :=
    ⟨hin, revision, h.subset hentries hmem, rfl, hnamed⟩
  exact h.first _ _ _ hids parentId (mem_edges.mpr hparent)

/-- A loop that ends with revisions left over leaves a cycle among them. -/
theorem Draining.length_eq_iff :
    ordered.length = revisions.length ↔ Acyclic (ParentInBatch revisions) := by
  have hedge : ∀ parentId childId, (parentId, childId) ∈
      revisions.flatMap (edgesOf (idsOf revisions)) ↔ ParentInBatch revisions parentId childId :=
    fun _ _ => mem_edges
  have hfirst : SourcesFirst (ParentInBatch revisions) (idsOf ordered) := by
    intro before id after hsplit parentId hparent
    exact h.first before id after hsplit parentId ((hedge _ _).mpr hparent)
  have hdistinct : (idsOf ordered).Nodup := by
    have hall := h.distinct
    rwa [append_nil] at hall
  constructor
  · intro hlength
    have hperm := h.perm hentries hlength
    refine acyclic_of_sourcesFirst hfirst hdistinct fun parentId childId hparent => ?_
    obtain ⟨-, revision, hmem, rfl, -⟩ := hparent
    exact mem_map_of_mem (hperm.mem_iff.mpr hmem)
  · intro hacyclic
    by_contra hlength
    obtain ⟨rest, hrest⟩ : ∃ rest, (idsOf revisions).filter (fun id => id ∉ idsOf ordered) = rest :=
      ⟨_, rfl⟩
    have hmem : ∀ id, id ∈ rest ↔ id ∈ idsOf revisions ∧ id ∉ idsOf ordered := by
      intro id
      rw [← hrest, mem_filter, decide_eq_true_eq]
    have hleft : rest ≠ [] := by
      intro hnil
      have hall : idsOf revisions ⊆ idsOf ordered := by
        intro id hid
        by_contra hwaiting
        exact absurd ((hmem id).mpr ⟨hid, hwaiting⟩) (hnil ▸ not_mem_nil)
      have hunique : (idsOf revisions).Nodup := by
        rw [← keys_of_entries hentries]
        exact byId.keys_nodup
      have hge := (hunique.subperm hall).length_le
      have hle := h.length_le
      rw [idsOf, idsOf, length_map, length_map] at hge
      rw [length_nil, idsOf, length_map] at hle
      omega
    obtain ⟨id, hid, hsource⟩ := exists_source hacyclic hleft
    obtain ⟨hin, hwaiting⟩ := (hmem id).mp hid
    have hzero : degreeOf inDegree id = 0 := by
      rw [h.degree, Int.natCast_eq_zero, countP_eq_zero]
      rintro ⟨parentId, childId⟩ hmet hcounted
      obtain ⟨rfl, hparent⟩ := of_decide_eq_true hcounted
      have hlink := (hedge _ _).mp hmet
      exact hsource parentId ((hmem parentId).mpr ⟨hlink.1, hparent⟩) hlink
    have hordered := (h.free id).mpr ⟨hin, hzero⟩
    rw [append_nil] at hordered
    exact hwaiting hordered

omit hentries in
omit h in
/-- A batch is ordered exactly where its ids are distinct and no revision leads back to
itself; the order then has every revision once and behind its parents. -/
theorem orderBatch_sorts (revisions : List ParsedRevisionInput) :
    ((∃ ordered, orderBatch revisions = some ordered) ↔
      (revisions.map (·.revisionId)).Nodup ∧ Acyclic (ParentInBatch revisions)) ∧
    (∀ ordered, orderBatch revisions = some ordered →
      ordered.Perm revisions ∧ ParentsBefore revisions ordered) ∧
    ∀ byId, indexById ∅ revisions = some byId →
      ∃ ordered, drainBatch revisions.length byId revisions = some ordered := by
  unfold orderBatch
  cases hindexed : indexById ∅ revisions with
  | none =>
    have hrepeated : ¬ (idsOf revisions).Nodup := by
      intro hnodup
      let byId : JsObject Id ParsedRevisionInput :=
        { entries := revisions.map fun revision => (revision.revisionId, revision)
          keys_nodup := by
            rw [List.map_map]
            exact hnodup }
      have hsome := indexById_empty_eq_some.mpr ⟨hnodup, show byId.entries = _ from rfl⟩
      rw [hindexed] at hsome
      exact absurd hsome.symm (some_ne_none _)
    refine ⟨⟨?_, fun h => absurd h.1 hrepeated⟩, ?_, ?_⟩
    · rintro ⟨ordered, hordered⟩
      exact absurd hordered.symm (some_ne_none _)
    · intro ordered hordered
      exact absurd hordered.symm (some_ne_none _)
    · intro byId hbyId
      exact absurd hbyId.symm (some_ne_none _)
  | some byId =>
    obtain ⟨hnodup, hentries⟩ := indexById_empty_eq_some.mp hindexed
    obtain ⟨inDegree, ordered, hdrained, h⟩ := drainBatch_ends hentries
    dsimp only
    rw [hdrained, bind_some]
    refine ⟨?_, ?_, ?_⟩
    · rw [← h.length_eq_iff hentries]
      constructor
      · rintro ⟨result, hresult⟩
        by_cases hlength : ordered.length = revisions.length
        · exact ⟨hnodup, hlength⟩
        · rw [if_neg hlength] at hresult
          exact absurd hresult.symm (some_ne_none _)
      · rintro ⟨-, hlength⟩
        exact ⟨ordered, if_pos hlength⟩
    · intro result hresult
      by_cases hlength : ordered.length = revisions.length
      · rw [if_pos hlength] at hresult
        rw [← some.inj hresult]
        exact ⟨h.perm hentries hlength, h.parentsBefore hentries⟩
      · rw [if_neg hlength] at hresult
        exact absurd hresult.symm (some_ne_none _)
    · intro other hother
      rw [← some.inj hother]
      exact ⟨ordered, hdrained⟩

end Havemind.BatchOrder
