import Havemind.ConflictNames
import Mathlib.Logic.Equiv.Defs

/-!
The rules the apply side has of paths, over their texts. A path is the number of its text.
-/
namespace Havemind.VaultRules

open JsText JsonText JsNumber VaultPayload VaultPath ConflictNames List

/-- The code units of a path that is the number of its text. -/
def unitsOf : ℕ → ℕ → JsString
  | 0, _ => []
  | _ + 1, 0 => []
  | fuel + 1, number + 1 => UInt16.ofNat (number % 65536) :: unitsOf fuel (number / 65536)

def numberOf : JsString → ℕ
  | [] => 0
  | unit :: rest => numberOf rest * 65536 + unit.toNat + 1

theorem numberOf_unitsOf (fuel number : ℕ) (h : number ≤ fuel) :
    numberOf (unitsOf fuel number) = number := by
  induction fuel generalizing number with
  | zero => rw [Nat.le_zero.mp h, unitsOf, numberOf]
  | succ fuel ih =>
    cases number with
    | zero => rw [unitsOf, numberOf]
    | succ number =>
      have hrest := ih (number / 65536) (by omega)
      rw [unitsOf, numberOf, hrest, UInt16.toNat_ofNat']
      omega

theorem unitsOf_numberOf (text : JsString) (fuel : ℕ) (h : numberOf text ≤ fuel) :
    unitsOf fuel (numberOf text) = text := by
  induction text generalizing fuel with
  | nil =>
    rw [numberOf]
    cases fuel <;> rw [unitsOf]
  | cons unit rest ih =>
    rw [numberOf] at h ⊢
    have hunit : unit.toNat < 65536 := unit.toNat_lt
    cases fuel with
    | zero => omega
    | succ fuel =>
      have hlow : (numberOf rest * 65536 + unit.toNat) % 65536 = unit.toNat := by omega
      have hhigh : (numberOf rest * 65536 + unit.toNat) / 65536 = numberOf rest := by omega
      rw [unitsOf, hlow, hhigh, UInt16.ofNat_toNat, ih fuel (by omega)]

def pathText : Path ≃ JsString where
  toFun path := unitsOf path path
  invFun := numberOf
  left_inv path := numberOf_unitsOf path path le_rfl
  right_inv text := unitsOf_numberOf text (numberOf text) le_rfl

/-- The folders a path lies in, the outermost first. -/
def ancestorsOf (path : JsString) : List JsString :=
  let segments := (segmentsOf path).dropLast
  (segments.scanl (fun folder segment =>
    if folder = [] then segment else folder ++ slash :: segment) []).tail

def parentOf (path : JsString) : Option JsString :=
  let separatorIndex := lastIndexOf path slash
  if separatorIndex = -1 then none else some (path.take separatorIndex.toNat)

section
variable (path : JsString)

theorem integerText_injective : Function.Injective fun n : ℕ => integerText (n + 1 : ℕ) := by
  intro first second h
  have htext : ∀ n : ℕ, integerText (n + 1 : ℕ) = decimalText (n + 1) := by
    intro n
    unfold integerText
    rw [if_neg (by omega), if_neg (by omega), nil_append, Int.natAbs_natCast]
  dsimp only at h
  rw [htext, htext] at h
  have hvalue := congrArg digitsValue h
  rw [digitsValue_decimalText, digitsValue_decimalText] at hvalue
  omega

/-- A number goes into the path at one place. -/
theorem numberedConflictPath_eq : ∃ front later, front ++ later = path ∧
    ∀ n, numberedConflictPath path n = front ++ (ascii " " ++ integerText n ++ later) := by
  unfold numberedConflictPath
  refine ⟨_, _, ?_, fun n => (congrArg _ (append_assoc _ _ _)).trans (append_assoc _ _ _).symm⟩
  rw [append_assoc, take_append_drop]
  exact take_append_drop _ _

theorem attemptPath_injective : Function.Injective (attemptPath path) := by
  obtain ⟨front, later, hpath, hnumbered⟩ := numberedConflictPath_eq path
  have hlonger : ∀ n, attemptPath path (n + 1) ≠ path := by
    intro n h
    rw [attemptPath, hnumbered, ← hpath, append_cancel_left_eq, append_left_eq_self] at h
    exact absurd h (by simp [ascii])
  intro first second h
  cases first with
  | zero =>
    cases second with
    | zero => rfl
    | succ second => exact absurd h.symm (hlonger second)
  | succ first =>
    cases second with
    | zero => exact absurd h (hlonger first)
    | succ second =>
      rw [attemptPath, attemptPath, hnumbered, hnumbered, append_cancel_left_eq,
        append_cancel_right_eq, append_cancel_left_eq] at h
      have hsame := integerText_injective h
      omega

end

/-- A path is classified, split and numbered by its text. -/
def vaultRules (unicode : UnicodeMethods) : PathRules where
  classifyVaultPath path := (PathScope.classifyVaultPath unicode (pathText path)).map fun eligible =>
    ⟨numberOf eligible.canonicalPath, numberOf eligible.collisionKey, eligible.kind⟩
  isSyncableConfigPath path := isSyncableConfigPath unicode (pathText path)
  syncContentKind path := PathScope.syncContentKind unicode (pathText path)
  ancestorFolders path := (ancestorsOf (pathText path)).map numberOf
  parentFolder path := (parentOf (pathText path)).map numberOf
  filesFolder folder := numberOf (pathText folder ++ ascii " (files)")
  rebased path folder := numberOf (placedUnder ((folder.map pathText).getD []) (pathText path))
  numbered path n := numberOf (attemptPath (pathText path) n)
  numbered_zero path := pathText.symm_apply_apply path
  numbered_injective path := pathText.symm.injective.comp (attemptPath_injective (pathText path))

end Havemind.VaultRules
