import Havemind.JsonText
import Mathlib.Algebra.Order.Field.Power
import Mathlib.Data.List.Induction
import Mathlib.Data.Nat.Digits.Defs
import Mathlib.Tactic.FieldSimp

/-!
Finite numbers and the texts the language prints them as. A number is given by its
shortest decimal, which is what the text is made of; reading the text as a decimal gives
the number back, so two numbers have one text exactly where they are equal, and the two
zeros are.
-/
namespace Havemind.JsNumber

open JsText JsonText List Option

/-- The digits of a shortest decimal: the last one is no zero. -/
structure Digits where
  number : ℕ
  shortest : number % 10 ≠ 0

/-- A finite number: the point stands behind the first `point` digits. -/
inductive FiniteNumber
  | zero (negative : Bool)
  | decimal (negative : Bool) (digits : Digits) (point : ℤ)

def decimalText (n : ℕ) : JsString :=
  (Nat.digits 10 n).reverse.map fun digit => UInt16.ofNat (48 + digit)

def zeros (count : ℕ) : JsString := List.replicate count 48

def fractionText (fraction : JsString) : JsString :=
  if fraction = [] then [] else 46 :: fraction

def exponentText (exponent : ℤ) : JsString :=
  101 :: (if exponent < 0 then 45 else 43) :: decimalText exponent.natAbs

/-- The four ways to print a number that is greater than zero. -/
def magnitudeText (digits : ℕ) (point : ℤ) : JsString :=
  let text := decimalText digits
  if text.length ≤ point ∧ point ≤ 21 then text ++ zeros (point - text.length).toNat
  else if 0 < point ∧ point ≤ 21 then
    text.take point.toNat ++ fractionText (text.drop point.toNat)
  else if -6 < point ∧ point ≤ 0 then ascii "0" ++ fractionText (zeros (-point).toNat ++ text)
  else text.take 1 ++ fractionText (text.drop 1) ++ exponentText (point - 1)

/-- `JSON.stringify` of a finite number. -/
def numberToString : FiniteNumber → JsString
  | .zero _ => ascii "0"
  | .decimal negative digits point =>
    (if negative then ascii "-" else []) ++ magnitudeText digits.number point

def FiniteNumber.value : FiniteNumber → ℚ
  | .zero _ => 0
  | .decimal negative digits point =>
    (if negative then -1 else 1) *
      (digits.number * (10 : ℚ) ^ (point - (decimalText digits.number).length))

/-- The power of ten behind the digits of a literal. -/
def exponentOf (power : JsString) : ℤ :=
  if power.head? = some 45 then -digitsValue power.tail
  else if power.head? = some 43 then digitsValue power.tail
  else digitsValue power

def unsignedValue (unsigned : JsString) : ℚ :=
  let behind := unsigned.dropWhile isDigit
  let fraction := if behind.head? = some 46 then behind.tail.takeWhile isDigit else []
  let power := (behind.dropWhile fun unit => unit ≠ 101 ∧ unit ≠ 69).tail
  digitsValue (unsigned.takeWhile isDigit ++ fraction) *
    (10 : ℚ) ^ (exponentOf power - fraction.length)

/-- The decimal a literal is read as. -/
def literalValue (literal : JsString) : ℚ :=
  if literal.head? = some 45 then -unsignedValue literal.tail else unsignedValue literal

section
variable {tail : JsString} {exponent : ℤ}

def AllDigits (text : JsString) : Prop := ∀ unit ∈ text, isDigit unit = true

theorem allDigits_nil : AllDigits [] := fun _ hmem => absurd hmem not_mem_nil

theorem digitsValue_append (text rest : JsString) :
    digitsValue (text ++ rest) = digitsValue text * 10 ^ rest.length + digitsValue rest := by
  induction rest using List.reverseRecOn with
  | nil => simp [digitsValue]
  | append_singleton rest unit ih =>
    unfold digitsValue at ih ⊢
    rw [← append_assoc, foldl_append, ih, foldl_append, length_append]
    simp only [foldl_cons, foldl_nil, length_singleton, pow_succ]
    ring

theorem digitsValue_zeros (count : ℕ) : digitsValue (zeros count) = 0 := by
  induction count with
  | zero => rfl
  | succ count ih =>
    rw [zeros, replicate_succ', digitsValue_append, ← zeros, ih]
    rfl

theorem digit_unit : ∀ digit < 10, isDigit (UInt16.ofNat (48 + digit)) = true ∧
    (UInt16.ofNat (48 + digit)).toNat - 48 = digit := by decide

theorem digits_lt {n digit : ℕ} (h : digit ∈ (Nat.digits 10 n).reverse) : digit < 10 :=
  Nat.digits_lt_base (by norm_num) (mem_reverse.mp h)

theorem allDigits_decimalText (n : ℕ) : AllDigits (decimalText n) := by
  intro unit hmem
  obtain ⟨digit, hdigit, rfl⟩ := mem_map.mp hmem
  exact (digit_unit digit (digits_lt hdigit)).1

theorem allDigits_zeros (count : ℕ) : AllDigits (zeros count) := by
  intro unit hmem
  rw [eq_of_mem_replicate hmem]
  decide

theorem digitsValue_decimalText (n : ℕ) : digitsValue (decimalText n) = n := by
  have hread : ∀ digits : List ℕ, (∀ digit ∈ digits, digit < 10) →
      digitsValue (digits.reverse.map fun digit => UInt16.ofNat (48 + digit)) =
        Nat.ofDigits 10 digits := by
    intro digits
    induction digits with
    | nil => intro _; rfl
    | cons digit rest ih =>
      intro hsmall
      obtain ⟨hdigit, hrest⟩ := forall_mem_cons.mp hsmall
      have hlast := (digit_unit digit hdigit).2
      rw [reverse_cons, map_append, digitsValue_append, ih hrest, Nat.ofDigits_cons]
      simp only [map_cons, map_nil, digitsValue, foldl_cons, foldl_nil,
        length_singleton, pow_one, hlast]
      omega
  unfold decimalText
  rw [hread _ fun digit hmem => Nat.digits_lt_base (by norm_num) hmem, Nat.ofDigits_digits]

theorem span_digits {text rest : JsString} (htext : AllDigits text)
    (hrest : ∀ unit ∈ rest.head?, isDigit unit = false) :
    (text ++ rest).takeWhile isDigit = text ∧ (text ++ rest).dropWhile isDigit = rest := by
  have hstop : rest.takeWhile isDigit = [] ∧ rest.dropWhile isDigit = rest := by
    cases rest with
    | nil => exact ⟨rfl, rfl⟩
    | cons unit tail =>
      have hunit := hrest unit rfl
      simp [hunit]
  constructor
  · rw [takeWhile_append_of_pos htext, hstop.1, append_nil]
  · rw [dropWhile_append_of_pos htext, hstop.2]

theorem exponentOf_sign (exponent : ℤ) : exponentOf (exponentText exponent).tail = exponent := by
  have hvalue := digitsValue_decimalText exponent.natAbs
  have hplus : (43 : CodeUnit) ≠ 45 := by decide
  unfold exponentOf exponentText
  by_cases hnegative : exponent < 0
  · rw [if_pos hnegative, tail_cons, List.head?_cons, if_pos rfl, tail_cons, hvalue]
    omega
  · rw [if_neg hnegative, tail_cons, List.head?_cons,
      if_neg fun heq => hplus (some.inj heq), if_pos rfl, tail_cons, hvalue]
    omega

/-- What stands behind the digits of a text, and the exponent it gives. -/
inductive Tail : JsString → ℤ → Prop
  | none : Tail [] 0
  | power (exponent : ℤ) : Tail (exponentText exponent) exponent

theorem Tail.head (h : Tail tail exponent) : ∀ unit ∈ tail.head?, unit = 101 := by
  intro unit hunit
  cases h with
  | none => exact absurd hunit.symm (some_ne_none _)
  | power exponent => exact (some.inj hunit).symm

theorem Tail.exponentOf_eq (h : Tail tail exponent) :
    exponentOf ((tail.dropWhile fun unit => unit ≠ 101 ∧ unit ≠ 69).tail) = exponent := by
  cases h with
  | none => rfl
  | power exponent =>
    have hkept : (exponentText exponent).dropWhile (fun unit => unit ≠ 101 ∧ unit ≠ 69) =
        exponentText exponent := by
      rw [exponentText, dropWhile_cons_of_neg]
      decide
    rw [hkept, exponentOf_sign]

theorem unsignedValue_parts {whole fraction : JsString} (hwhole : AllDigits whole)
    (hfraction : AllDigits fraction) (h : Tail tail exponent) :
    unsignedValue (whole ++ (fractionText fraction ++ tail)) =
      digitsValue (whole ++ fraction) * (10 : ℚ) ^ (exponent - fraction.length) := by
  have htail : ∀ unit ∈ tail.head?, isDigit unit = false := by
    intro unit hunit
    rw [h.head unit hunit]
    decide
  have hbehind : ∀ unit ∈ (fractionText fraction ++ tail).head?, isDigit unit = false := by
    unfold fractionText
    by_cases hnil : fraction = []
    · rw [if_pos hnil]
      exact htail
    · rw [if_neg hnil]
      intro unit hunit
      rw [← some.inj hunit]
      decide
  obtain ⟨htake, hdrop⟩ := span_digits hwhole hbehind
  unfold unsignedValue
  rw [htake, hdrop]
  dsimp only
  by_cases hnil : fraction = []
  · have hpoint : ¬ tail.head? = some 46 := by
      intro hhead
      exact absurd (h.head 46 hhead) (by decide)
    rw [fractionText, if_pos hnil, nil_append, if_neg hpoint, h.exponentOf_eq, hnil]
  · have hskip : ∀ unit ∈ (46 :: fraction : JsString),
        decide (unit ≠ 101 ∧ unit ≠ 69) = true := by
      intro unit hunit
      rcases mem_cons.mp hunit with rfl | hdigit
      · decide
      · have hone := hfraction unit hdigit
        refine decide_eq_true ⟨?_, ?_⟩
        · exact ne_of_isDigit hone (by decide)
        · exact ne_of_isDigit hone (by decide)
    rw [fractionText, if_neg hnil, cons_append, List.head?_cons, if_pos rfl, tail_cons,
      (span_digits hfraction htail).1, ← cons_append, dropWhile_append_of_pos hskip,
      h.exponentOf_eq]

end

section
variable {digits : ℕ} {text rest : JsString} {s s' : ℕ} {e e' : ℤ}

theorem AllDigits.append (htext : AllDigits text) (hrest : AllDigits rest) :
    AllDigits (text ++ rest) := by
  intro unit hmem
  exact (mem_append.mp hmem).elim (htext unit) (hrest unit)

theorem AllDigits.subset (h : AllDigits text) (hsubset : rest ⊆ text) :
    AllDigits rest := fun unit hmem => h unit (hsubset hmem)

theorem zpow_scale (s : ℕ) (count : ℕ) (exponent : ℤ) :
    ((s * 10 ^ count : ℕ) : ℚ) * (10 : ℚ) ^ exponent = s * (10 : ℚ) ^ (exponent + count) := by
  push_cast
  rw [zpow_add₀ (by norm_num), zpow_natCast]
  ring

theorem decimalText_ne_nil {n : ℕ} (h : n ≠ 0) : decimalText n ≠ [] := by
  intro hnil
  have hvalue := digitsValue_decimalText n
  rw [hnil] at hvalue
  exact h hvalue.symm

/-- However it is printed, the text is read as the number. -/
theorem unsignedValue_magnitudeText (hdigits : digits ≠ 0) (point : ℤ) :
    unsignedValue (magnitudeText digits point) =
      digits * (10 : ℚ) ^ (point - (decimalText digits).length) := by
  have hall := allDigits_decimalText digits
  have hvalue := digitsValue_decimalText digits
  have hlength := length_pos_iff.mpr (decimalText_ne_nil hdigits)
  unfold magnitudeText
  dsimp only
  generalize decimalText digits = text at hall hvalue hlength ⊢
  by_cases hplain : (text.length : ℤ) ≤ point ∧ point ≤ 21
  · have hwhole := hall.append (allDigits_zeros (point - text.length).toNat)
    have hparts := unsignedValue_parts hwhole allDigits_nil .none
    have hnothing : fractionText [] ++ ([] : JsString) = [] := rfl
    have hcount : (zeros (point - text.length).toNat).length = (point - text.length).toNat :=
      length_replicate
    rw [hnothing, append_nil, digitsValue_append, hvalue, digitsValue_zeros, Nat.add_zero,
      hcount, zpow_scale] at hparts
    rw [if_pos hplain, hparts, length_nil]
    congr 2
    omega
  · rw [if_neg hplain]
    by_cases hinside : 0 < point ∧ point ≤ 21
    · have hparts := unsignedValue_parts (hall.subset (take_subset point.toNat text))
        (hall.subset (drop_subset point.toNat text)) .none
      rw [append_nil, take_append_drop, hvalue] at hparts
      rw [if_pos hinside, hparts, length_drop]
      congr 2
      omega
    · rw [if_neg hinside]
      by_cases hsmall : -6 < point ∧ point ≤ 0
      · have hzero : AllDigits (ascii "0") := allDigits_zeros 1
        have hfraction := (allDigits_zeros (-point).toNat).append hall
        have hparts := unsignedValue_parts hzero hfraction .none
        have hread : digitsValue (ascii "0" ++ (zeros (-point).toNat ++ text)) = digits := by
          rw [← append_assoc, digitsValue_append, hvalue, digitsValue_append,
            digitsValue_zeros]
          have hnone : digitsValue (ascii "0") = 0 := digitsValue_zeros 1
          rw [hnone]
          omega
        rw [append_nil, hread, length_append, zeros, length_replicate, ← zeros]
          at hparts
        rw [if_pos hsmall, hparts]
        congr 2
        omega
      · have hparts := unsignedValue_parts (hall.subset (take_subset 1 text))
          (hall.subset (drop_subset 1 text)) (.power (point - 1))
        rw [take_append_drop, hvalue, ← append_assoc] at hparts
        rw [if_neg hsmall, hparts, length_drop]
        congr 2
        omega

/-- The first unit of a magnitude is a digit. -/
theorem magnitudeText_head (hdigits : digits ≠ 0) (point : ℤ) :
    ∃ unit rest, magnitudeText digits point = unit :: rest ∧ isDigit unit = true := by
  have hall := allDigits_decimalText digits
  obtain ⟨first, later, hfirst⟩ := exists_cons_of_ne_nil (decimalText_ne_nil hdigits)
  rw [hfirst] at hall
  have hdigit := hall first mem_cons_self
  unfold magnitudeText
  dsimp only
  rw [hfirst]
  split_ifs with hplain hinside hsmall
  · exact ⟨first, _, rfl, hdigit⟩
  · obtain ⟨count, hcount⟩ : ∃ count, point.toNat = count + 1 := ⟨point.toNat - 1, by omega⟩
    rw [hcount]
    exact ⟨first, _, rfl, hdigit⟩
  · exact ⟨48, _, rfl, by decide⟩
  · exact ⟨first, _, rfl, hdigit⟩

theorem Digits.number_ne_zero (digits : Digits) : digits.number ≠ 0 := by
  intro hzero
  exact digits.shortest (by rw [hzero])

/-- A sign in front of a magnitude is read as one. -/
theorem literalValue_signed (negative : Prop) [Decidable negative] (hdigits : digits ≠ 0)
    (point : ℤ) :
    literalValue ((if negative then ascii "-" else []) ++ magnitudeText digits point) =
      (if negative then -1 else 1) *
        (digits * (10 : ℚ) ^ (point - (decimalText digits).length)) := by
  have hmagnitude := unsignedValue_magnitudeText hdigits point
  obtain ⟨unit, rest, hhead, hdigit⟩ := magnitudeText_head hdigits point
  by_cases hnegative : negative
  · have hsign : ascii "-" ++ magnitudeText digits point = 45 :: magnitudeText digits point := rfl
    rw [if_pos hnegative, if_pos hnegative, hsign, literalValue, List.head?_cons, if_pos rfl,
      tail_cons, hmagnitude, neg_one_mul]
  · have hpositive : ¬ (magnitudeText digits point).head? = some 45 := by
      rw [hhead, List.head?_cons]
      intro hminus
      exact ne_of_isDigit hdigit (by decide) (some.inj hminus)
    rw [if_neg hnegative, if_neg hnegative, nil_append, literalValue, if_neg hpositive,
      hmagnitude, one_mul]

theorem literalValue_numberToString (number : FiniteNumber) :
    literalValue (numberToString number) = number.value := by
  cases number with
  | zero negative =>
    have hzero : literalValue (ascii "0") = unsignedValue (ascii "0") := rfl
    have hparts := unsignedValue_parts (allDigits_zeros 1) allDigits_nil .none
    have hread : digitsValue (zeros 1 ++ []) = 0 := rfl
    rw [hread, Nat.cast_zero, zero_mul] at hparts
    exact hzero.trans hparts
  | decimal negative digits point =>
    exact literalValue_signed (negative = true) digits.number_ne_zero point

theorem decimal_le_unique (hs : s % 10 ≠ 0) (hle : e ≤ e')
    (h : (s : ℚ) * (10 : ℚ) ^ e = s' * (10 : ℚ) ^ e') : s = s' ∧ e = e' := by
  obtain ⟨gap, hgap⟩ : ∃ gap : ℕ, e' = e + gap := ⟨(e' - e).toNat, by omega⟩
  have hpower : (10 : ℚ) ^ e ≠ 0 := zpow_ne_zero _ (by norm_num)
  rw [hgap, ← zpow_scale] at h
  have hnumber : s = s' * 10 ^ gap := by
    exact_mod_cast mul_right_cancel₀ hpower h
  cases gap with
  | zero =>
    rw [pow_zero, Nat.mul_one] at hnumber
    exact ⟨hnumber, by omega⟩
  | succ gap =>
    rw [pow_succ, ← Nat.mul_assoc] at hnumber
    omega

/-- Digits that do not end in a zero are those of one number only. -/
theorem decimal_unique (hs : s % 10 ≠ 0) (hs' : s' % 10 ≠ 0)
    (h : (s : ℚ) * (10 : ℚ) ^ e = s' * (10 : ℚ) ^ e') : s = s' ∧ e = e' := by
  rcases le_total e e' with hle | hle
  · exact decimal_le_unique hs hle h
  · obtain ⟨hsame, hpower⟩ := decimal_le_unique hs' hle h.symm
    exact ⟨hsame.symm, hpower.symm⟩

theorem magnitude_pos (digits : Digits) (exponent : ℤ) :
    0 < (digits.number : ℚ) * (10 : ℚ) ^ exponent := by
  have hpositive : (0 : ℚ) < digits.number := by
    exact_mod_cast Nat.pos_of_ne_zero digits.number_ne_zero
  positivity

/-- Two numbers are printed alike exactly where they are equal. -/
theorem numberToString_eq_iff (number other : FiniteNumber) :
    numberToString number = numberToString other ↔ number.value = other.value := by
  constructor
  · intro htext
    rw [← literalValue_numberToString, ← literalValue_numberToString, htext]
  · intro hvalue
    cases number with
    | zero negative =>
      cases other with
      | zero negative' => rfl
      | decimal negative' digits' point' =>
        have hpositive := magnitude_pos digits' (point' - (decimalText digits'.number).length)
        rw [FiniteNumber.value, FiniteNumber.value] at hvalue
        cases negative' with
        | true => rw [if_pos rfl] at hvalue; linarith
        | false => rw [if_neg Bool.false_ne_true] at hvalue; linarith
    | decimal negative digits point =>
      have hpositive := magnitude_pos digits (point - (decimalText digits.number).length)
      cases other with
      | zero negative' =>
        rw [FiniteNumber.value, FiniteNumber.value] at hvalue
        cases negative with
        | true => rw [if_pos rfl] at hvalue; linarith
        | false => rw [if_neg Bool.false_ne_true] at hvalue; linarith
      | decimal negative' digits' point' =>
        have hpositive' := magnitude_pos digits' (point' - (decimalText digits'.number).length)
        rw [FiniteNumber.value, FiniteNumber.value] at hvalue
        have hsign : negative = negative' := by
          cases negative <;> cases negative' <;> simp only [if_true, if_false,
            Bool.false_eq_true] at hvalue <;> first | rfl | linarith
        rw [hsign] at hvalue
        have hfactor : (if negative' = true then -1 else 1 : ℚ) ≠ 0 := by
          split_ifs <;> norm_num
        obtain ⟨hnumber, hexponent⟩ := decimal_unique digits.shortest digits'.shortest
          (mul_left_cancel₀ hfactor hvalue)
        rw [hnumber] at hexponent
        have hpoint : point = point' := by omega
        rw [numberToString, numberToString, hsign, hnumber, hpoint]

end

variable {unit : CodeUnit}

/-- The units of a printed number. -/
def isNumeralUnit (unit : CodeUnit) : Bool :=
  isDigit unit || unit = 43 || unit = 45 || unit = 46 || unit = 101

/-- A text that starts like a printed number and has its units only. -/
structure Numeral (text : JsString) : Prop where
  units : ∀ unit ∈ text, isNumeralUnit unit = true
  start : ∃ unit rest, text = unit :: rest ∧ (isDigit unit = true ∨ unit = 45)

theorem isNumeralUnit_of_isDigit (h : isDigit unit = true) : isNumeralUnit unit = true := by
  simp [isNumeralUnit, h]

theorem isNumeralUnit_small (h : isNumeralUnit unit = true) : unit.toNat < 0xD800 := by
  simp only [isNumeralUnit, isDigit, Bool.or_eq_true, decide_eq_true_eq] at h
  rcases h with (((hdigit | rfl) | rfl) | rfl) | rfl
  · omega
  all_goals decide

theorem units_fractionText {fraction : JsString} (h : AllDigits fraction) :
    ∀ unit ∈ fractionText fraction, isNumeralUnit unit = true := by
  intro unit hmem
  unfold fractionText at hmem
  split_ifs at hmem with hnil
  · exact absurd hmem not_mem_nil
  · rcases mem_cons.mp hmem with rfl | hdigit
    · decide
    · exact isNumeralUnit_of_isDigit (h unit hdigit)

theorem units_exponentText (exponent : ℤ) :
    ∀ unit ∈ exponentText exponent, isNumeralUnit unit = true := by
  intro unit hmem
  rcases mem_cons.mp hmem with rfl | hmem
  · decide
  rcases mem_cons.mp hmem with rfl | hdigit
  · split_ifs <;> decide
  · exact isNumeralUnit_of_isDigit (allDigits_decimalText _ unit hdigit)

theorem units_magnitudeText (digits : ℕ) (point : ℤ) :
    ∀ unit ∈ magnitudeText digits point, isNumeralUnit unit = true := by
  have hall := allDigits_decimalText digits
  have hdigits : ∀ {text : JsString}, AllDigits text → ∀ unit ∈ text, isNumeralUnit unit = true :=
    fun h unit hmem => isNumeralUnit_of_isDigit (h unit hmem)
  intro unit hmem
  unfold magnitudeText at hmem
  dsimp only at hmem
  split_ifs at hmem with hplain hinside hsmall
  · exact hdigits (hall.append (allDigits_zeros _)) unit hmem
  · rcases mem_append.mp hmem with hwhole | hfraction
    · exact hdigits (hall.subset (take_subset _ _)) unit hwhole
    · exact units_fractionText (hall.subset (drop_subset _ _)) unit hfraction
  · rcases mem_append.mp hmem with hwhole | hfraction
    · exact hdigits (allDigits_zeros 1) unit hwhole
    · exact units_fractionText ((allDigits_zeros _).append hall) unit hfraction
  · rcases mem_append.mp hmem with hfront | hexponent
    · rcases mem_append.mp hfront with hwhole | hfraction
      · exact hdigits (hall.subset (take_subset _ _)) unit hwhole
      · exact units_fractionText (hall.subset (drop_subset _ _)) unit hfraction
    · exact units_exponentText _ unit hexponent

theorem numeral_numberToString (number : FiniteNumber) : Numeral (numberToString number) := by
  cases number with
  | zero negative =>
    exact ⟨fun unit hmem => isNumeralUnit_of_isDigit (allDigits_zeros 1 unit hmem),
      48, [], rfl, .inl (by decide)⟩
  | decimal negative digits point =>
    have hunits := units_magnitudeText digits.number point
    obtain ⟨unit, rest, hhead, hdigit⟩ := magnitudeText_head digits.number_ne_zero point
    rw [numberToString]
    cases negative with
    | true =>
      rw [if_pos rfl]
      refine ⟨fun other hmem => ?_, 45, _, rfl, .inr rfl⟩
      rcases mem_cons.mp (show other ∈ 45 :: magnitudeText digits.number point from hmem) with
        rfl | hlater
      · decide
      · exact hunits other hlater
    | false =>
      rw [if_neg Bool.false_ne_true, nil_append]
      exact ⟨hunits, unit, rest, hhead, .inl hdigit⟩

end Havemind.JsNumber
