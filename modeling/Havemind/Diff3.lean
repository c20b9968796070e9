import Havemind.JsText
import Havemind.LineDiff
import Mathlib.Algebra.Order.Ring.Int
import Mathlib.Data.List.Sort

/-!
The line-level three-way merge. Both sides are diffed against the ancestor,
their hunks are walked in ancestor order and grouped into regions, and each
region is taken from one side, collapsed, rebuilt line by line, or refused.
The functions are stated over an arbitrary type of lines; `mergeText` uses
them at the lines of three texts. `none` stands for a conflict.
-/
namespace Havemind.Diff3

open JsText LineDiff

inductive Side
  | localSide
  | remoteSide
  deriving DecidableEq

structure SidedHunk extends Hunk where
  side : Side
  deriving DecidableEq

structure Diff3Options where
  adjacencyLines : Option ℕ := none
  maxLcsCells : Option ℕ := none

inductive Diff3MergeResult
  | merged (text : JsString)
  | conflict
  deriving DecidableEq

def defaultAdjacencyLines : ℕ := 1

def defaultMaxLcsCells : ℕ := 4000000

section
variable (hunks : List Hunk)

/-- Variant index where an ancestor cut starts; an insertion exactly at the
cut belongs to the region that starts there and is not counted. -/
def variantStart (p : ℕ) : ℤ :=
  p + (hunks.map fun h =>
    if h.oStart + h.oLength ≤ p ∧ h.oStart < p then (h.abLength : ℤ) - h.oLength else 0).sum

/-- Variant index where an ancestor cut ends, an insertion at the cut included. -/
def variantEnd (p : ℕ) : ℤ :=
  p + (hunks.map fun h =>
    if h.oStart + h.oLength ≤ p then (h.abLength : ℤ) - h.oLength else 0).sum

def segmentFor {α : Type*} (variant : List α) (oStart oEnd : ℕ) : List α :=
  slice variant (variantStart hunks oStart) (variantEnd hunks oEnd)

def insertionsIn (regionStart regionEnd : ℕ) : List Hunk :=
  hunks.filter fun h => h.oLength = 0 ∧ h.oStart ≥ regionStart ∧ h.oStart ≤ regionEnd

def hunkCovering (line : ℕ) : Option Hunk :=
  hunks.find? fun h => line ≥ h.oStart ∧ line < h.oStart + h.oLength

def regionHasOppositeChange (regionStart regionEnd : ℕ) : Bool :=
  hunks.any fun h => h.oStart < regionEnd ∧ h.oStart + h.oLength > regionStart

/-- Every hunk that meets the region replaces its lines one for one inside it. -/
def balanced (regionStart regionEnd : ℕ) : Bool :=
  (hunks.filter fun h => h.oStart < regionEnd ∧ h.oStart + h.oLength > regionStart).all fun h =>
    h.oLength > 0 ∧ h.oLength = h.abLength ∧ h.oStart ≥ regionStart ∧
      h.oStart + h.oLength ≤ regionEnd

end

section
variable {α : Type*} (o : List α) (localHunks remoteHunks : List Hunk) (a b : List α)

/-- The walk of `mergeDisjointRegion` from `line`. A line that neither side
owns makes `own.oStart` a read on `undefined`, before the branch that would
copy the line is reached. -/
def disjointWalk (regionEnd : ℕ) : ℕ → ℕ → Except JsError (Option (List α))
  | 0, _ => .ok (some [])
  | fuel + 1, line =>
      if line < regionEnd then
        let owned (own : Hunk) (source : List α) (opposite : List Hunk) :
            Except JsError (Option (List α)) :=
          if regionHasOppositeChange opposite own.oStart (own.oStart + own.oLength) then .ok none
          else if own.abLength = 0 then .ok none
          else
            let emitted :=
              if own.oStart ≥ line then (source.drop own.abStart).take own.abLength else []
            (disjointWalk regionEnd fuel (own.oStart + own.oLength)).map
              (Option.map (emitted ++ ·))
        match hunkCovering localHunks line, hunkCovering remoteHunks line with
        | some _, some _ => .ok none
        | none, none => .error .typeError
        | some own, none => owned own a remoteHunks
        | none, some own => owned own b localHunks
      else .ok (some [])

/-- Rebuilds a region both sides touched on disjoint ancestor lines. -/
def mergeDisjointRegion (regionStart regionEnd : ℕ) : Except JsError (Option (List α)) :=
  if !balanced localHunks regionStart regionEnd || !balanced remoteHunks regionStart regionEnd then
    .ok none
  else if (insertionsIn localHunks regionStart regionEnd).length > 0 ∨
      (insertionsIn remoteHunks regionStart regionEnd).length > 0 then .ok none
  else disjointWalk localHunks remoteHunks a b regionEnd (regionEnd - regionStart) regionStart

/-- The inner loop of `mergeText`: the region's end, the sides seen, and the
events left over. -/
def groupRegion (adjacency regionEnd : ℕ) (sides : List Side) :
    List SidedHunk → ℕ × List Side × List SidedHunk
  | [] => (regionEnd, sides, [])
  | next :: rest =>
      if next.oStart ≥ regionEnd + adjacency then (regionEnd, sides, next :: rest)
      else groupRegion adjacency (max regionEnd (next.oStart + next.oLength)) (next.side :: sides) rest

def regionLines [DecidableEq α] (regionStart regionEnd : ℕ) (sides : List Side) :
    Except JsError (Option (List α)) :=
  let localSegment := segmentFor localHunks a regionStart regionEnd
  let remoteSegment := segmentFor remoteHunks b regionStart regionEnd
  let ancestorSegment := slice o regionStart regionEnd
  if .remoteSide ∉ sides ∨ remoteSegment = ancestorSegment then .ok (some localSegment)
  else if .localSide ∉ sides ∨ localSegment = ancestorSegment then .ok (some remoteSegment)
  else if localSegment = remoteSegment then .ok (some localSegment)
  else mergeDisjointRegion localHunks remoteHunks a b regionStart regionEnd

/-- The outer loop of `mergeText`, one region at a time; `fuel` bounds the
number of regions. -/
def mergeRegions [DecidableEq α] (adjacency : ℕ) :
    ℕ → ℕ → List SidedHunk → Except JsError (Option (List α))
  | 0, oCursor, _ => .ok (some (o.drop oCursor))
  | _, oCursor, [] => .ok (some (o.drop oCursor))
  | fuel + 1, oCursor, first :: rest =>
      let (regionEnd, sides, later) :=
        groupRegion adjacency (first.oStart + first.oLength) [first.side] rest
      match regionLines o localHunks remoteHunks a b first.oStart regionEnd sides with
      | .error e => .error e
      | .ok none => .ok none
      | .ok (some lines) =>
          (mergeRegions adjacency fuel regionEnd later).map
            (Option.map (slice o oCursor first.oStart ++ lines ++ ·))

end

/-- The comparator of the event sort: ancestor order, the local side first. -/
def SidedHunk.before (left right : SidedHunk) : Prop :=
  left.oStart < right.oStart ∨
    left.oStart = right.oStart ∧ ¬ (left.side = .remoteSide ∧ right.side = .localSide)

instance : DecidableRel SidedHunk.before := fun left right => by
  unfold SidedHunk.before
  infer_instance

def sidedEvents (localHunks remoteHunks : List Hunk) : List SidedHunk :=
  (localHunks.map (fun h => (⟨h, .localSide⟩ : SidedHunk)) ++
    remoteHunks.map (fun h => (⟨h, .remoteSide⟩ : SidedHunk))).insertionSort SidedHunk.before

def mergeLines {α : Type*} [DecidableEq α] (adjacency : ℕ) (o a b : List α) :
    Except JsError (Option (List α)) :=
  let localHunks := diffHunks o a
  let remoteHunks := diffHunks o b
  let events := sidedEvents localHunks remoteHunks
  mergeRegions o localHunks remoteHunks a b adjacency events.length 0 events

def mergeText (ancestor localText remoteText : JsString) (options : Diff3Options := {}) :
    Except JsError Diff3MergeResult :=
  let adjacency := options.adjacencyLines.getD defaultAdjacencyLines
  let maxCells := options.maxLcsCells.getD defaultMaxLcsCells
  let o := splitLines ancestor
  let a := splitLines localText
  let b := splitLines remoteText
  if (o.length + 1) * (a.length + 1) > maxCells ∨ (o.length + 1) * (b.length + 1) > maxCells then
    .ok .conflict
  else (mergeLines adjacency o a b).map fun
    | none => .conflict
    | some lines => .merged (joinLines lines)

end Havemind.Diff3
