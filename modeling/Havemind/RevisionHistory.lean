import Havemind.SyncState

/-!
The ancestry of a file's revisions as a device knows it: the accepted log, and
the queued revisions the server does not have yet. `accepted` holds the values
of the log's map, one event for each revision.
-/
namespace Havemind.RevisionHistory

open RevisionSchema SyncRunner SyncState

def queuedEvent (queued : PushRevision) : RemoteEvent :=
  { serverSequence := 0
    revision :=
      { revisionId := queued.revisionId
        fileId := queued.fileId
        contentHash := queued.contentHash
        parentRevisionIds := queued.parentRevisionIds
        authorMembershipId := none
        acceptedAt := none } }

section
variable (graph : List RemoteEvent)

def eventIn (id : Id) : Option RemoteEvent :=
  graph.find? fun event => event.revision.revisionId = id

def parentsIn (id : Id) : List Id :=
  ((eventIn graph id).bind fun event => event.revision.parentRevisionIds).getD []

def ancestors (start : Id) : List Id :=
  GraphSearch.reachable (parentsIn graph)
    (graph.map fun event => event.revision.revisionId).toFinset start

/-- Several incomparable common ancestors would need a virtual merge: none is
taken then. -/
def commonAncestor (left right : Id) : Option RemoteEvent :=
  let common := (ancestors graph right).filter fun id =>
    id ∈ ancestors graph left ∧ (eventIn graph id).isSome
  let superseded := common.flatMap (parentsIn graph)
  match common.filter fun id => id ∉ superseded with
  | [nearest] => eventIn graph nearest
  | _ => none

end

section
variable (accepted : List RemoteEvent) (state : PersistedSyncState) (fileId : Id)

def acceptedOf : List RemoteEvent := accepted.filter fun event => event.revision.fileId = fileId

/-- The file's accepted revisions and the queued ones the server does not have yet. -/
def graphWith (queued : List RemoteEvent) : List RemoteEvent :=
  acceptedOf accepted fileId ++ queued.filter fun event =>
    event.revision.fileId = fileId ∧
      eventIn (acceptedOf accepted fileId) event.revision.revisionId = none

def graph : List RemoteEvent := graphWith accepted fileId ((listOutbox state).map queuedEvent)

def heads : List RemoteEvent :=
  let parents := (acceptedOf accepted fileId).flatMap fun event =>
    event.revision.parentRevisionIds.getD []
  (acceptedOf accepted fileId).filter fun event => event.revision.revisionId ∉ parents

def isHead (event : RemoteEvent) : Bool :=
  ∃ head ∈ heads accepted event.revision.fileId,
    head.revision.revisionId = event.revision.revisionId

end
variable {graph : List RemoteEvent} {id : Id}

theorem eventIn_eq_some {event : RemoteEvent} (h : eventIn graph id = some event) :
    event ∈ graph ∧ event.revision.revisionId = id := by
  unfold eventIn at h
  exact ⟨List.mem_of_find?_eq_some h, by simpa using List.find?_some h⟩

/-- Only a revision of the graph has parents in it. -/
theorem mem_revisionIds_of_parentsIn (h : parentsIn graph id ≠ []) :
    id ∈ (graph.map fun event => event.revision.revisionId).toFinset := by
  cases hfind : eventIn graph id with
  | none =>
    refine absurd ?_ h
    rw [parentsIn, hfind]
    rfl
  | some event =>
    obtain ⟨hmem, hid⟩ := eventIn_eq_some hfind
    exact List.mem_toFinset.mpr (List.mem_map.mpr ⟨event, hmem, hid⟩)

theorem mem_ancestors {start : Id} :
    id ∈ ancestors graph start ↔
      Relation.ReflTransGen (fun a b => b ∈ parentsIn graph a) start id :=
  GraphSearch.mem_reachable fun _ => mem_revisionIds_of_parentsIn

end Havemind.RevisionHistory
