import Havemind.MergeSymmetry
import Havemind.PayloadRoundTrip

/-!
Independent merges converge. The three-way merge does not tell its two sides
apart, and the bytes of a payload know of the parents of a revision only
whether there are two: two devices that merge the same heads write the same
payload, whoever they are and whatever they call the revision.
-/
namespace Havemind.MergeConvergence

open JsText JsonText PayloadCodec RevisionSchema EnvelopeBytes PayloadRoundTrip List
open Diff3 (mergeText)
open MergeSymmetry (mergeText_swap)
open RevisionEnvelope (headerParents)

/-- At least two distinct parents. -/
def MergesHeads (input : BuildRevisionEnvelopeInput) : Prop :=
  ∃ p ∈ input.parentRevisionIds, ∃ q ∈ input.parentRevisionIds, p ≠ q

/-- The two inputs agree on what goes into a payload. Identity, revision id,
the parents themselves, idempotency key and limit may all differ. -/
structure SamePayload (input input' : BuildRevisionEnvelopeInput) : Prop where
  operation : input.operation = input'.operation
  path : input.path = input'.path
  previousPath : input.previousPath = input'.previousPath
  kind : input.kind = input'.kind
  content : input.content = input'.content
  binaryContentBase64 : input.binaryContentBase64 = input'.binaryContentBase64
  merges : MergesHeads input ↔ MergesHeads input'

theorem headerParents_length (parents : List Id) :
    (headerParents parents).length = parents.toFinset.card := by
  rw [headerParents, length_mergeSort, card_toFinset]

theorem two_le_headerParents (input : BuildRevisionEnvelopeInput) :
    (headerParents input.parentRevisionIds).length ≥ 2 ↔ MergesHeads input := by
  have hcard : 1 < input.parentRevisionIds.toFinset.card ↔ MergesHeads input := by
    rw [Finset.one_lt_card]
    simp only [mem_toFinset, MergesHeads]
  have hlength := headerParents_length input.parentRevisionIds
  rw [← hcard]
  omega

section
variable {platform : Platform} {input input' : BuildRevisionEnvelopeInput} {path : JsString}

variable (h : SamePayload input input')
include h

theorem SamePayload.previousPathMembers_eq :
    previousPathMembers platform input = previousPathMembers platform input' := by
  unfold previousPathMembers
  rw [h.operation, h.previousPath]

theorem SamePayload.buildInnerPayload_eq :
    buildInnerPayload platform input path = buildInnerPayload platform input' path := by
  unfold buildInnerPayload
  rw [h.previousPathMembers_eq, h.operation, h.kind, h.content, h.binaryContentBase64]

theorem SamePayload.recipeMembers_eq (members : List (JsString × Json)) :
    recipeMembers input members = recipeMembers input' members := by
  have hparents : (headerParents input.parentRevisionIds).length ≥ 2 ↔
      (headerParents input'.parentRevisionIds).length ≥ 2 := by
    rw [two_le_headerParents, two_le_headerParents]
    exact h.merges
  exact if_congr hparents rfl rfl

/-- One payload object for both inputs, hence one text and one digest. -/
theorem SamePayload.built_eq {env env' : BuiltRevisionEnvelope}
    (hbuilt : buildRevisionEnvelope platform input = .ok env)
    (hbuilt' : buildRevisionEnvelope platform input' = .ok env') :
    env.payloadBase64 = env'.payloadBase64 ∧ env.contentHash = env'.contentHash := by
  obtain ⟨path, members, B⟩ := buildRevisionEnvelope_built hbuilt
  obtain ⟨path', members', B'⟩ := buildRevisionEnvelope_built hbuilt'
  have hpath : path' = path := by
    have hpaths := B'.path_eq
    rw [← h.path, B.path_eq] at hpaths
    injection hpaths with heq
    exact heq.symm
  subst hpath
  have hmembers : members' = members := by
    have hinner := B'.inner
    rw [← h.buildInnerPayload_eq, B.inner] at hinner
    injection hinner with heq
    exact heq.symm
  subst hmembers
  constructor
  · rw [B.payload_eq, B'.payload_eq, h.recipeMembers_eq]
  · rw [B.hash_eq, B'.hash_eq, h.recipeMembers_eq]

end

/-- Two devices that merge the same heads, in either order, reach one result;
and two accepted inputs that agree on what goes into a payload have the same
bytes and the same hash. -/
theorem independent_merges_converge (ancestor localText remoteText : JsString)
    (platform : Platform) (input input' : BuildRevisionEnvelopeInput)
    (env env' : BuiltRevisionEnvelope) (hsame : SamePayload input input')
    (hbuilt : buildRevisionEnvelope platform input = .ok env)
    (hbuilt' : buildRevisionEnvelope platform input' = .ok env') :
    mergeText ancestor remoteText localText = mergeText ancestor localText remoteText ∧
      env.payloadBase64 = env'.payloadBase64 ∧ env.contentHash = env'.contentHash :=
  ⟨mergeText_swap ancestor localText remoteText, hsame.built_eq hbuilt hbuilt'⟩

theorem headerParents_of_sorted {parents : List Id} (hnodup : parents.Nodup)
    (hsorted : parents.Pairwise (· ≤ ·)) : headerParents parents = parents := by
  rw [headerParents, hnodup.dedup]
  apply mergeSort_of_pairwise
  exact hsorted.imp fun h => decide_eq_true h

/-- The same merge on a second device, which saw other parents. -/
def sampleMergeElsewhere : BuildRevisionEnvelopeInput :=
  { sampleInput .update [6, 8] none 10 with
    identity := ⟨1, 2, 5, 6⟩
    idempotencyKey := ascii "m" }

theorem sample_merge_builds :
    ∃ env, buildRevisionEnvelope samplePlatform (sampleInput .update [7, 8] none 9) = .ok env := by
  apply Transaction.exists_of_isOk
  unfold buildRevisionEnvelope envelopeHeader payloadObject
  have hparents : headerParents (sampleInput .update [7, 8] none 9).parentRevisionIds = [7, 8] :=
    headerParents_of_sorted (by decide) (by decide)
  rw [hparents]
  decide +kernel

theorem sampleMergeElsewhere_builds :
    ∃ env, buildRevisionEnvelope samplePlatform sampleMergeElsewhere = .ok env := by
  apply Transaction.exists_of_isOk
  unfold buildRevisionEnvelope envelopeHeader payloadObject
  have hparents : headerParents sampleMergeElsewhere.parentRevisionIds = [6, 8] :=
    headerParents_of_sorted (by decide) (by decide)
  rw [hparents]
  decide +kernel

theorem sampleMergeElsewhere_samePayload :
    SamePayload (sampleInput .update [7, 8] none 9) sampleMergeElsewhere where
  operation := rfl
  path := rfl
  previousPath := rfl
  kind := rfl
  content := rfl
  binaryContentBase64 := rfl
  merges :=
    ⟨fun _ => ⟨6, by decide, 8, by decide, by decide⟩,
      fun _ => ⟨7, by decide, 8, by decide, by decide⟩⟩

theorem independent_merges_converge_elsewhere :
    ∃ env env', buildRevisionEnvelope samplePlatform (sampleInput .update [7, 8] none 9) =
        .ok env ∧
      buildRevisionEnvelope samplePlatform sampleMergeElsewhere = .ok env' ∧
      mergeText (ascii "a") (ascii "x") (ascii "a") = mergeText (ascii "a") (ascii "a") (ascii "x") ∧
      env.payloadBase64 = env'.payloadBase64 ∧ env.contentHash = env'.contentHash := by
  obtain ⟨env, henv⟩ := sample_merge_builds
  obtain ⟨env', henv'⟩ := sampleMergeElsewhere_builds
  exact ⟨env, env', henv, henv', independent_merges_converge _ _ _ _ _ _ env env'
    sampleMergeElsewhere_samePayload henv henv'⟩

end Havemind.MergeConvergence
