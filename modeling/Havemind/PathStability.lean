import Havemind.PathBoundary
import Havemind.RevisionPayload

/-!
Canonical paths taken through the boundary again: by the payload schema of the device
that built the revision, and by the decoder of every other one.
-/
namespace Havemind.PathStability

open JsText JsonText VaultPath PayloadCodec PathBoundary RevisionPayload

section
variable {unicode : UnicodeMethods} {path result : JsString}

/-- An accepted path is accepted again as it is, unless it has become one on a drive. -/
theorem accepted_again_iff (D : Documented unicode)
    (hidempotent : ∀ text, unicode.normalizeNfc (unicode.normalizeNfc text) =
      unicode.normalizeNfc text)
    (h : canonicalizeVaultPath unicode path = .ok result) :
    canonicalizeVaultPath unicode result = .ok result ↔ kelvinDrivePath path = false := by
  rw [← boundary_iff D h]
  constructor
  · intro hfixed
    exact boundary_of_fixed D hfixed
  · intro B
    obtain ⟨hresult, -, -, -, -, hreserved⟩ := canonicalizeVaultPath_ok h
    have hnormal : unicode.normalizeNfc result = result := by
      rw [hresult, hidempotent]
    exact canonicalizeVaultPath_fixed B.segments hreserved hnormal B.no_backslash B.no_control
      B.no_drive

theorem canonicalPath_iff : canonicalPath unicode result = true ↔
    canonicalizeVaultPath unicode result = .ok result := by
  unfold canonicalPath
  cases hcanonical : canonicalizeVaultPath unicode result with
  | error message => simp
  | ok canonical => simp

theorem assertCanonicalPath_iff (field : String) :
    assertCanonicalPath unicode (some (.string result)) field = .ok result ↔
      canonicalizeVaultPath unicode result = .ok result := by
  constructor
  · intro h
    exact assertCanonicalPath_ok h
  · intro h
    unfold assertCanonicalPath
    dsimp only
    rw [h]
    exact if_neg (not_not.mpr rfl)

end

/-- What the boundary has accepted, the boundary, the payload schema and the decoder accept as
it is, exactly when no Kelvin sign stood in for the letter of a drive. -/
theorem canonicalizeVaultPath_stable (unicode : UnicodeMethods) (D : Documented unicode)
    (hidempotent : ∀ text, unicode.normalizeNfc (unicode.normalizeNfc text) =
      unicode.normalizeNfc text) (path result : JsString)
    (h : canonicalizeVaultPath unicode path = .ok result) :
    (canonicalizeVaultPath unicode result = .ok result ↔ kelvinDrivePath path = false) ∧
      (canonicalPath unicode result = true ↔ kelvinDrivePath path = false) ∧
      ∀ field, assertCanonicalPath unicode (some (.string result)) field = .ok result ↔
        kelvinDrivePath path = false := by
  have hagain := accepted_again_iff D hidempotent h
  exact ⟨hagain, canonicalPath_iff.trans hagain,
    fun field => (assertCanonicalPath_iff field).trans hagain⟩

theorem kelvinMethods_idempotent (text : JsString) :
    kelvinMethods.normalizeNfc (kelvinMethods.normalizeNfc text) =
      kelvinMethods.normalizeNfc text := by
  have hletter : (75 : CodeUnit) ≠ kelvinSign := by decide
  unfold kelvinMethods
  dsimp only
  rw [List.map_map]
  apply List.map_congr_left
  intro unit _
  dsimp only [Function.comp_apply]
  by_cases hkelvin : unit = kelvinSign
  · rw [if_pos hkelvin, if_neg hletter]
  · rw [if_neg hkelvin, if_neg hkelvin]

/-- A Kelvin sign further on does no harm. -/
theorem canonicalizeVaultPath_stable_kelvin :
    (canonicalizeVaultPath kelvinMethods (ascii "x/K.md") = .ok (ascii "x/K.md") ↔
      kelvinDrivePath (ascii "x/" ++ kelvinSign :: ascii ".md") = false) ∧
    (canonicalPath kelvinMethods (ascii "x/K.md") = true ↔
      kelvinDrivePath (ascii "x/" ++ kelvinSign :: ascii ".md") = false) ∧
    ∀ field, assertCanonicalPath kelvinMethods (some (.string (ascii "x/K.md"))) field =
        .ok (ascii "x/K.md") ↔
      kelvinDrivePath (ascii "x/" ++ kelvinSign :: ascii ".md") = false :=
  canonicalizeVaultPath_stable kelvinMethods kelvinMethods_documented kelvinMethods_idempotent
    (ascii "x/" ++ kelvinSign :: ascii ".md") (ascii "x/K.md") (by decide +kernel)

/-- A path the device has accepted and that no device takes back. -/
theorem canonicalizeVaultPath_unstable :
    (∀ text, kelvinMethods.normalizeNfc (kelvinMethods.normalizeNfc text) =
        kelvinMethods.normalizeNfc text) ∧
      canonicalizeVaultPath kelvinMethods (kelvinSign :: ascii ":/x.md") = .ok (ascii "K:/x.md") ∧
      canonicalizeVaultPath kelvinMethods (ascii "K:/x.md") =
        .error "Vault path must be relative and use forward slashes." ∧
      canonicalPath kelvinMethods (ascii "K:/x.md") = false := by
  refine ⟨kelvinMethods_idempotent, ?_, ?_, ?_⟩
  all_goals decide +kernel

end Havemind.PathStability
