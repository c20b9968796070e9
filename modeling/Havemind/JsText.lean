import Mathlib.Data.Int.Notation
import Mathlib.Data.List.Basic

/-!
Text primitives of the language the repository is written in. A string is its
sequence of UTF-16 code units, so unpaired surrogates are strings as well.
Splitting and joining at the line feed are the library's list operations.
-/
namespace Havemind.JsText

open List

abbrev CodeUnit := UInt16

abbrev JsString := List CodeUnit

/-- The code units `trim` removes. -/
def isWhitespace (unit : CodeUnit) : Bool :=
  (9 ≤ unit ∧ unit ≤ 13) ∨ unit = 0x20 ∨ unit = 0xA0 ∨ unit = 0x1680 ∨
    (0x2000 ≤ unit ∧ unit ≤ 0x200A) ∨ unit = 0x2028 ∨ unit = 0x2029 ∨ unit = 0x202F ∨
    unit = 0x205F ∨ unit = 0x3000 ∨ unit = 0xFEFF

def trim (value : JsString) : JsString :=
  ((value.dropWhile isWhitespace).reverse.dropWhile isWhitespace).reverse

def lineFeed : CodeUnit := 10

/-- An exception of the runtime, such as a property read on `undefined`. -/
inductive JsError
  | typeError
  deriving DecidableEq

def splitLines (text : JsString) : List JsString := text.splitOn lineFeed

def joinLines (lines : List JsString) : JsString := [lineFeed].intercalate lines

/-- An index of a slice: a negative one counts from the end, and both kinds
are clamped to the array. -/
def sliceIndex (length : ℕ) (k : ℤ) : ℕ :=
  if k < 0 then (length + k).toNat else min length k.toNat

def slice {α : Type*} (xs : List α) (start stop : ℤ) : List α :=
  (xs.take (sliceIndex xs.length stop)).drop (sliceIndex xs.length start)

section
variable {α : Type*} (xs : List α) {p q r : ℕ}

theorem slice_natCast (p q : ℕ) : slice xs p q = (xs.take q).drop p := by
  have hindex : ∀ k : ℕ, sliceIndex xs.length k = min xs.length k := by
    intro k
    rw [sliceIndex, if_neg (by omega), Int.toNat_natCast]
  rw [slice, hindex, hindex]
  rcases Nat.le_total q xs.length with hq | hq
  · rcases Nat.le_total p xs.length with hp | hp
    · rw [Nat.min_eq_right hq, Nat.min_eq_right hp]
    · rw [Nat.min_eq_right hq, Nat.min_eq_left hp, drop_eq_nil_of_le (by rw [length_take]; omega),
        drop_eq_nil_of_le (by rw [length_take]; omega)]
  · rw [Nat.min_eq_left hq, take_of_length_le hq, take_length]
    rcases Nat.le_total p xs.length with hp | hp
    · rw [Nat.min_eq_right hp]
    · rw [Nat.min_eq_left hp, drop_length, drop_eq_nil_of_le hp]

theorem slice_self (p : ℕ) : slice xs p p = [] := by
  rw [slice_natCast]
  exact drop_eq_nil_of_le (by simp only [length_take]; omega)

theorem slice_append_slice (hpq : p ≤ q) (hqr : q ≤ r) :
    slice xs p q ++ slice xs q r = slice xs p r := by
  simp only [slice_natCast]
  have htake : xs.take r = xs.take q ++ (xs.take r).drop q := by
    conv_lhs => rw [← take_append_drop q (xs.take r), take_take, Nat.min_eq_left hqr]
  rcases Nat.le_total q xs.length with hq | hq
  · conv_rhs => rw [htake, drop_append_of_le_length (by rw [length_take]; omega)]
  · rw [take_of_length_le hq, take_of_length_le (Nat.le_trans hq hqr),
      drop_eq_nil_of_le hq, append_nil]

theorem slice_append_drop (hpq : p ≤ q) : slice xs p q ++ xs.drop q = xs.drop p := by
  rw [slice_natCast]
  conv_rhs => rw [← take_append_drop q xs]
  rcases Nat.le_total q xs.length with hq | hq
  · rw [drop_append_of_le_length (by rw [length_take]; omega)]
  · rw [drop_eq_nil_of_le hq, append_nil, append_nil]

theorem slice_succ {x : α} (h : xs[p]? = some x) (hpq : p < q) :
    slice xs p q = x :: slice xs (p + 1 : ℕ) q := by
  simp only [slice_natCast]
  obtain ⟨hlt, hx⟩ := List.getElem?_eq_some_iff.mp h
  rw [drop_eq_getElem_cons (by rw [length_take]; omega), getElem_take, hx]

end

theorem splitLines_ne_nil (text : JsString) : splitLines text ≠ [] :=
  splitOn_ne_nil lineFeed text

theorem joinLines_splitLines (text : JsString) : joinLines (splitLines text) = text :=
  intercalate_splitOn lineFeed

theorem lineFeed_notMem_of_mem_splitLines (text : JsString) :
    ∀ line ∈ splitLines text, lineFeed ∉ line := by
  induction text with
  | nil => simp [splitLines]
  | cons unit rest ih =>
    intro line hline
    unfold splitLines at hline ih
    rw [splitOn_cons_eq_if_modifyHead] at hline
    split at hline
    · rcases mem_cons.mp hline with rfl | hmem
      · simp
      · exact ih line hmem
    · rename_i hunit
      obtain ⟨first, later, hsplit⟩ := exists_cons_of_ne_nil (splitOn_ne_nil lineFeed rest)
      rw [hsplit] at hline ih
      rcases mem_cons.mp hline with rfl | hmem
      · have hfirst := ih first (mem_cons_self ..)
        have hne : lineFeed ≠ unit := by
          intro heq
          simp [heq] at hunit
        simp [hfirst, hne]
      · exact ih line (mem_cons_of_mem _ hmem)

theorem splitLines_joinLines {lines : List JsString} (hne : lines ≠ [])
    (hline : ∀ line ∈ lines, lineFeed ∉ line) : splitLines (joinLines lines) = lines :=
  splitOn_intercalate lineFeed hline hne

end Havemind.JsText
