import Havemind.JsNumber
import Mathlib.Algebra.Order.Floor.Semiring
import Mathlib.Data.Int.Log
import Mathlib.Data.Rat.Floor

/-!
Doubles, given by the rational numbers they stand for; the two zeros are one of them. A
rational is rounded to the nearest double, a tie going to the even one, and a double is
printed with the fewest digits that are rounded to it again. Hence the text of a double is
read as the same double.
-/
namespace Havemind.Binary64

open JsText JsonText JsNumber

section
variable {x : ℚ} {m : ℕ}

/-- The exponent of the last place a double of this size has. -/
def lastPlace (x : ℚ) : ℤ := max (-1074) (Int.log 2 x - 52)

/-- The nearest natural number, of two the even one. -/
def roundEven (x : ℚ) : ℕ :=
  let whole := ⌊x⌋₊
  if x < whole + 1 / 2 ∨ (x = whole + 1 / 2 ∧ whole % 2 = 0) then whole else whole + 1

/-- The double nearest to a number that is not negative. -/
def nearest (x : ℚ) : ℚ := roundEven (x / 2 ^ lastPlace x) * 2 ^ lastPlace x

theorem roundEven_natCast (n : ℕ) : roundEven n = n := by
  unfold roundEven
  rw [Nat.floor_natCast]
  simp

theorem roundEven_le {n : ℕ} (hx : 0 ≤ x) (h : x < n) : roundEven x ≤ n := by
  have hfloor : ⌊x⌋₊ < n := (Nat.floor_lt hx).mpr h
  unfold roundEven
  dsimp only
  split_ifs <;> omega

theorem two_zpow_pos (e : ℤ) : (0 : ℚ) < 2 ^ e := zpow_pos (by norm_num) e

theorem nearest_nonneg (x : ℚ) : 0 ≤ nearest x :=
  mul_nonneg (Nat.cast_nonneg _) (two_zpow_pos _).le

/-- A number with nothing behind its last place is a double. -/
theorem nearest_of_mul (h : x = m * 2 ^ lastPlace x) : nearest x = x := by
  have hplace := (two_zpow_pos (lastPlace x)).ne'
  have hdiv : x / 2 ^ lastPlace x = m := by
    rw [div_eq_iff hplace]
    exact h
  unfold nearest
  rw [hdiv, roundEven_natCast]
  exact h.symm

theorem nearest_zero : nearest 0 = 0 := by
  apply nearest_of_mul (m := 0)
  simp

theorem mul_zpow_eq {e place : ℤ} (hle : place ≤ e) : ∃ n : ℕ, (m : ℚ) * 2 ^ e = n * 2 ^ place := by
  obtain ⟨gap, hgap⟩ : ∃ gap : ℕ, e = gap + place := ⟨(e - place).toNat, by omega⟩
  refine ⟨m * 2 ^ gap, ?_⟩
  rw [hgap, zpow_add₀ (by norm_num), zpow_natCast]
  push_cast
  ring

/-- Up to fifty-three binary digits are a double, wherever the last one stands. -/
theorem nearest_mul_zpow {e : ℤ} (hm : m ≤ 2 ^ 53) (he : -1074 ≤ e) :
    nearest (m * 2 ^ e) = m * 2 ^ e := by
  rcases Nat.eq_zero_or_pos m with rfl | hpos
  · simpa using nearest_zero
  have hx : (0 : ℚ) < m * 2 ^ e := mul_pos (Nat.cast_pos.mpr hpos) (two_zpow_pos e)
  have htop : (m : ℚ) * 2 ^ e ≤ 2 ^ (53 + e) := by
    rw [zpow_add₀ (by norm_num)]
    apply mul_le_mul_of_nonneg_right _ (two_zpow_pos e).le
    exact_mod_cast hm
  have hlog : Int.log 2 ((m : ℚ) * 2 ^ e) ≤ 53 + e := by
    calc Int.log 2 ((m : ℚ) * 2 ^ e) ≤ Int.log 2 ((2 : ℚ) ^ (53 + e)) := Int.log_mono_right hx htop
      _ = 53 + e := Int.log_zpow (b := 2) (by norm_num) _
  obtain hlast | hlast := hlog.eq_or_lt
  · have hbottom : (2 : ℚ) ^ (53 + e) ≤ m * 2 ^ e := by
      have hself := Int.zpow_log_le_self (b := 2) (by norm_num) hx
      rwa [hlast] at hself
    have hexact : (m : ℚ) * 2 ^ e = 2 ^ (53 + e) := le_antisymm htop hbottom
    have hplace : lastPlace (m * 2 ^ e) = 1 + e := by
      unfold lastPlace
      omega
    apply nearest_of_mul (m := 2 ^ 52)
    rw [hplace, hexact, show (53 : ℤ) + e = 52 + (1 + e) by ring, zpow_add₀ (by norm_num)]
    norm_num
  · have hplace : lastPlace (m * 2 ^ e) ≤ e := by
      unfold lastPlace
      omega
    obtain ⟨n, hn⟩ := mul_zpow_eq (m := m) hplace
    exact nearest_of_mul hn

theorem div_lastPlace_lt (x : ℚ) : x / 2 ^ lastPlace x < (2 ^ 53 : ℕ) := by
  have hself : x < 2 ^ (Int.log 2 x + 1) := Int.lt_zpow_succ_log_self (b := 2) (by norm_num) x
  have hplace : Int.log 2 x + 1 ≤ 53 + lastPlace x := by
    unfold lastPlace
    omega
  rw [div_lt_iff₀ (two_zpow_pos _)]
  calc x < 2 ^ (Int.log 2 x + 1) := hself
    _ ≤ 2 ^ (53 + lastPlace x) := zpow_le_zpow_right₀ (by norm_num) hplace
    _ = (2 ^ 53 : ℕ) * 2 ^ lastPlace x := by
      rw [zpow_add₀ (by norm_num)]
      norm_num

/-- Rounding a double leaves it as it is. -/
theorem nearest_nearest (hx : 0 ≤ x) : nearest (nearest x) = nearest x := by
  have hdiv : 0 ≤ x / 2 ^ lastPlace x := div_nonneg hx (two_zpow_pos _).le
  apply nearest_mul_zpow
  · exact roundEven_le hdiv (div_lastPlace_lt x)
  · exact le_max_left _ _

/-- A double is a natural number of its last place. -/
theorem eq_mul_of_nearest (h : nearest x = x) : ∃ m : ℕ, x = m * 2 ^ lastPlace x :=
  ⟨roundEven (x / 2 ^ lastPlace x), h.symm⟩

end

structure Double where
  value : ℚ
  rounded : nearest |value| = |value|
  finite : |value| < 2 ^ 1024

@[ext] theorem Double.ext {a b : Double} (h : a.value = b.value) : a = b := by
  cases a
  cases b
  simpa using h

/-- The same on either side of zero. -/
def nearestSigned (x : ℚ) : ℚ := if x < 0 then -nearest |x| else nearest |x|

theorem abs_nearestSigned (x : ℚ) : |nearestSigned x| = nearest |x| := by
  have habs : |nearest (abs x)| = nearest |x| := abs_of_nonneg (nearest_nonneg _)
  unfold nearestSigned
  split_ifs
  · rw [abs_neg, habs]
  · exact habs

/-- The double a number is rounded to; there is none where that is an infinity. -/
def ofRational (x : ℚ) : Option Double :=
  if h : nearest |x| < 2 ^ 1024 then
    some
      { value := nearestSigned x
        rounded := by rw [abs_nearestSigned, nearest_nearest (abs_nonneg x)]
        finite := by rwa [abs_nearestSigned] }
  else none

section
variable {x : ℚ}

/-- The exponent of the last digit where that many digits are printed. -/
def lastDigit (x : ℚ) (count : ℕ) : ℤ := Int.log 10 x + 1 - count

/-- One of the two decimals of that many digits next to the number is rounded to it; no
digits at all stand for the next power of ten. -/
def Reached (x : ℚ) (count : ℕ) : Prop :=
  let whole := ⌊x / 10 ^ lastDigit x count⌋₊
  nearest (whole * 10 ^ lastDigit x count) = x ∨
    nearest ((whole + 1 : ℕ) * 10 ^ lastDigit x count) = x

instance (x : ℚ) (count : ℕ) : Decidable (Reached x count) := by
  unfold Reached
  infer_instance

theorem div_zpow_natCast {m : ℕ} {place exponent : ℤ} (hplace : exponent ≤ place)
    (hexponent : exponent ≤ 0) : ∃ n : ℕ, (m : ℚ) * 2 ^ place / 10 ^ exponent = n := by
  obtain ⟨digits, hdigits⟩ : ∃ digits : ℕ, exponent = -digits := ⟨exponent.natAbs, by omega⟩
  obtain ⟨gap, hgap⟩ : ∃ gap : ℕ, place = gap + exponent := ⟨(place - exponent).toNat, by omega⟩
  refine ⟨m * 2 ^ gap * 5 ^ digits, ?_⟩
  have hten : (10 : ℚ) ^ digits = 2 ^ digits * 5 ^ digits := by
    rw [← mul_pow]
    norm_num
  rw [hgap, hdigits, zpow_add₀ (by norm_num), zpow_neg, zpow_neg, zpow_natCast, zpow_natCast,
    zpow_natCast, hten]
  push_cast
  field_simp

/-- With all its digits a double is reached. -/
theorem exists_reached (h : nearest x = x) : ∃ count, Reached x count := by
  obtain ⟨m, hm⟩ := eq_mul_of_nearest h
  have hplace : -1074 ≤ lastPlace x := le_max_left _ _
  have hlast : lastDigit x (Int.log 10 x + 1 + 1074).toNat ≤ -1074 := by
    unfold lastDigit
    omega
  refine ⟨(Int.log 10 x + 1 + 1074).toNat, .inl ?_⟩
  generalize lastDigit x (Int.log 10 x + 1 + 1074).toNat = exponent at hlast ⊢
  have hexponent : (10 : ℚ) ^ exponent ≠ 0 := zpow_ne_zero _ (by norm_num)
  obtain ⟨n, hn⟩ : ∃ n : ℕ, (m : ℚ) * 2 ^ lastPlace x / 10 ^ exponent = n :=
    div_zpow_natCast (hlast.trans hplace) (by omega)
  rw [← hm] at hn
  have hexact : (n : ℚ) * 10 ^ exponent = x := by
    rw [← hn]
    exact div_mul_cancel₀ x hexponent
  rw [hn, Nat.floor_natCast, hexact, h]

/-- The digits of a double and the exponent of the last one: as few as are needed, and as
near as they can be. -/
def shortest (x : ℚ) (h : nearest x = x) : ℕ × ℤ :=
  let exponent := lastDigit x (Nat.find (exists_reached h))
  let whole := ⌊x / 10 ^ exponent⌋₊
  let near := roundEven (x / 10 ^ exponent)
  if nearest (near * 10 ^ exponent) = x then (near, exponent)
  else if nearest (whole * 10 ^ exponent) = x then (whole, exponent)
  else (whole + 1, exponent)

theorem nearest_shortest (h : nearest x = x) :
    nearest ((shortest x h).1 * 10 ^ (shortest x h).2) = x := by
  have hreached := Nat.find_spec (exists_reached h)
  unfold shortest
  dsimp only
  split_ifs with hnear hwhole
  · exact hnear
  · exact hwhole
  · exact hreached.resolve_left hwhole

end

/-- `JSON.stringify` of a finite number. -/
def numberText (number : Double) : JsString :=
  if number.value = 0 then ascii "0"
  else
    let (digits, exponent) := shortest |number.value| number.rounded
    (if number.value < 0 then ascii "-" else []) ++
      magnitudeText digits (exponent + (decimalText digits).length)

/-- The number `JSON.parse` reads a literal as; a literal beyond all doubles has none. -/
def readNumber (literal : JsString) : Option Double := ofRational (literalValue literal)

theorem ofRational_of_nearest {x : ℚ} {number : Double} (h : nearest |x| = |number.value|)
    (hsign : x < 0 ↔ number.value < 0) : ofRational x = some number := by
  have hfinite : nearest |x| < 2 ^ 1024 := by
    rw [h]
    exact number.finite
  unfold ofRational
  rw [dif_pos hfinite]
  apply congrArg some
  apply Double.ext
  dsimp only
  unfold nearestSigned
  rw [h]
  split_ifs with hnegative
  · rw [abs_of_neg (hsign.mp hnegative), neg_neg]
  · exact abs_of_nonneg (not_lt.mp fun hlt => hnegative (hsign.mpr hlt))

theorem shortest_ne_zero {x : ℚ} (h : nearest x = x) (hx : x ≠ 0) : (shortest x h).1 ≠ 0 := by
  intro hzero
  have hnearest := nearest_shortest h
  rw [hzero, Nat.cast_zero, zero_mul, nearest_zero] at hnearest
  exact hx hnearest.symm

/-- The text of a double is read as the same double. -/
theorem readNumber_numberText (number : Double) : readNumber (numberText number) = some number := by
  unfold readNumber numberText
  by_cases hzero : number.value = 0
  · have hliteral : literalValue (ascii "0") = 0 := literalValue_numberToString (.zero false)
    rw [if_pos hzero]
    apply ofRational_of_nearest <;> simp [hliteral, hzero, nearest_zero]
  · have habs : |number.value| ≠ 0 := abs_ne_zero.mpr hzero
    have hdigits := shortest_ne_zero number.rounded habs
    have hnearest := nearest_shortest number.rounded
    rw [if_neg hzero]
    generalize shortest |number.value| number.rounded = parts at hdigits hnearest ⊢
    have hpositive : (0 : ℚ) < parts.1 * 10 ^ parts.2 :=
      mul_pos (Nat.cast_pos.mpr (Nat.pos_of_ne_zero hdigits)) (zpow_pos (by norm_num) _)
    dsimp only
    rw [literalValue_signed _ hdigits, add_sub_cancel_right]
    apply ofRational_of_nearest
    · split_ifs with hnegative
      · rw [neg_one_mul, abs_neg, abs_of_pos hpositive, hnearest]
      · rw [one_mul, abs_of_pos hpositive, hnearest]
    · split_ifs with hnegative
      · rw [neg_one_mul, neg_lt_zero]
        exact iff_of_true hpositive hnegative
      · rw [one_mul]
        exact iff_of_false hpositive.not_gt hnegative

end Havemind.Binary64
