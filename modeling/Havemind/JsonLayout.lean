import Havemind.JsNumber
import Mathlib.Data.List.TakeWhile
import Mathlib.Data.Nat.Digits.Lemmas

/-!
Texts that lay a JSON value out with blanks between its tokens. Whatever the blanks are, the
parser gives back the value, so it does for the text an indented writer makes of it.
-/
namespace Havemind.JsonLayout

open JsText JsonText JsNumber List Option

section

/-- The point and the digits behind it, or nothing. -/
inductive Fraction : JsString → Prop
  | none : Fraction []
  | digits {digits : JsString} : digits ≠ [] → AllDigits digits → Fraction (46 :: digits)

/-- The letter, a sign and digits, or nothing. -/
inductive Exponent : JsString → Prop
  | none : Exponent []
  | digits {sign : CodeUnit} {digits : JsString} : sign = 43 ∨ sign = 45 → digits ≠ [] →
      AllDigits digits → Exponent (101 :: sign :: digits)

def minus (negative : Bool) : JsString := if negative then ascii "-" else []

/-- The literals a number is printed as. -/
inductive Literal : JsString → Prop
  | parts (negative : Bool) {whole fraction exponent : JsString} : IsNatural whole →
      Fraction fraction → Exponent exponent →
      Literal (minus negative ++ (whole ++ (fraction ++ exponent)))

/-- What may stand behind a value. -/
def Closed (rest : JsString) : Prop :=
  ∀ unit ∈ rest.head?, isSpace unit = true ∨ unit = comma ∨ unit = closeBracket ∨ unit = closeBrace

theorem Closed.head {rest : JsString} (h : Closed rest) : ∀ unit ∈ rest.head?,
    isDigit unit = false ∧ unit ≠ 46 ∧ unit ≠ 101 ∧ unit ≠ 69 := by
  intro unit hunit
  have hspace : ∀ other, isSpace other = true →
      isDigit other = false ∧ other ≠ 46 ∧ other ≠ 101 ∧ other ≠ 69 := by
    intro other hother
    simp only [isSpace, decide_eq_true_eq] at hother
    rcases hother with rfl | rfl | rfl | rfl <;> decide
  rcases h unit hunit with hblank | rfl | rfl | rfl
  · exact hspace unit hblank
  all_goals decide

theorem closed_cons {unit : CodeUnit} (h : isSpace unit = true ∨ unit = comma ∨
    unit = closeBracket ∨ unit = closeBrace) (rest : JsString) : Closed (unit :: rest) := by
  intro other hother
  obtain rfl : unit = other := by simpa using hother
  exact h

variable {digits rest literal : JsString}

theorem scanDigits_append (hdigits : AllDigits digits) (hne : digits ≠ [])
    (hrest : ∀ unit ∈ rest.head?, isDigit unit = false) :
    scanDigits (digits ++ rest) = some (digits, rest) := by
  obtain ⟨htake, hdrop⟩ := span_digits hdigits hrest
  unfold scanDigits
  rw [htake, hdrop]
  simp [hne]

theorem scanInteger_append (h : IsNatural digits)
    (hrest : ∀ unit ∈ rest.head?, isDigit unit = false) :
    scanInteger (digits ++ rest) = some (digits, rest) := by
  obtain ⟨unit, tail, rfl, hdigits, hzero⟩ := h
  have hscan := scanDigits_append hdigits (cons_ne_nil _ _) hrest
  rw [cons_append] at hscan ⊢
  rw [scanInteger]
  split
  · rename_i hunit
    rw [hzero hunit]
    rfl
  · exact hscan

theorem scanFraction_append (h : Fraction digits)
    (hrest : ∀ unit ∈ rest.head?, isDigit unit = false ∧ unit ≠ 46) :
    scanFraction (digits ++ rest) = some (digits, rest) := by
  cases h with
  | none =>
    cases rest with
    | nil => rfl
    | cons unit tail => rw [nil_append, scanFraction, if_neg (hrest unit rfl).2]
  | digits hne hdigits =>
    have hscan := scanDigits_append hdigits hne fun unit hunit => (hrest unit hunit).1
    rw [cons_append, scanFraction, if_pos rfl, hscan]
    rfl

theorem scanExponent_append (h : Exponent digits) (hrest : Closed rest) :
    scanExponent (digits ++ rest) = some (digits, rest) := by
  cases h with
  | none =>
    cases rest with
    | nil => rfl
    | cons unit tail =>
      obtain ⟨-, -, hlower, hupper⟩ := hrest.head unit rfl
      rw [nil_append, scanExponent.eq_def]
      dsimp only
      rw [if_neg]
      simp [hlower, hupper]
  | digits hsign hne hdigits =>
    have hscan := scanDigits_append hdigits hne fun unit hunit => (hrest.head unit hunit).1
    rw [cons_append, cons_append, scanExponent.eq_def]
    dsimp only
    rw [if_pos (.inl rfl), if_pos hsign, hscan]
    rfl

/-- Behind the digits in front stand the point, the letter or what follows the literal. -/
theorem head_exponent (h : Exponent digits) (hrest : Closed rest) :
    ∀ unit ∈ (digits ++ rest).head?, isDigit unit = false ∧ unit ≠ 46 := by
  intro unit hunit
  cases h with
  | none => exact ⟨(hrest.head unit hunit).1, (hrest.head unit hunit).2.1⟩
  | digits _ _ _ =>
    obtain rfl : 101 = unit := by simpa using hunit
    decide

theorem head_fraction {exponent : JsString} (h : Fraction digits) (hexponent : Exponent exponent)
    (hrest : Closed rest) :
    ∀ unit ∈ (digits ++ (exponent ++ rest)).head?, isDigit unit = false := by
  intro unit hunit
  cases h with
  | none => exact (head_exponent hexponent hrest unit hunit).1
  | digits _ _ =>
    obtain rfl : 46 = unit := by simpa using hunit
    decide

theorem scanNumber_append (h : Literal literal) (hrest : Closed rest) :
    scanNumber (literal ++ rest) = some (literal, rest) := by
  cases h with
  | @parts negative whole fraction exponent hwhole hfraction hexponent =>
    have hinteger := scanInteger_append hwhole (head_fraction hfraction hexponent hrest)
    have hpoint := scanFraction_append hfraction (head_exponent hexponent hrest)
    have hpower := scanExponent_append hexponent hrest
    cases negative with
    | true =>
      have hsign : minus true ++ (whole ++ (fraction ++ exponent)) ++ rest =
          45 :: (whole ++ (fraction ++ (exponent ++ rest))) := by
        simp [minus, ascii]
      rw [hsign, scanNumber]
      simp only [if_true, hinteger, bind_some, hpoint, hpower, map_some]
      simp [minus, ascii]
    | false =>
      have hplain : minus false ++ (whole ++ (fraction ++ exponent)) ++ rest =
          whole ++ (fraction ++ (exponent ++ rest)) := by
        simp [minus]
      obtain ⟨unit, tail, rfl, hdigits, -⟩ := hwhole
      have hunit : unit ≠ 45 := ne_of_isDigit (hdigits unit mem_cons_self) (by decide)
      rw [hplain]
      rw [cons_append] at hinteger ⊢
      rw [scanNumber]
      simp only [if_neg hunit, hinteger, bind_some, hpoint, hpower, map_some]
      simp [minus]

theorem Literal.head (h : Literal literal) :
    ∃ unit rest, literal = unit :: rest ∧ (isDigit unit = true ∨ unit = 45) := by
  cases h with
  | @parts negative whole fraction exponent hwhole _ _ =>
    obtain ⟨unit, tail, rfl, hdigits, -⟩ := hwhole
    cases negative with
    | true => exact ⟨45, _, rfl, .inr rfl⟩
    | false => exact ⟨unit, _, rfl, .inl (hdigits unit mem_cons_self)⟩

theorem number_head {unit : CodeUnit} (h : isDigit unit = true ∨ unit = 45) :
    isSpace unit = false ∧ unit ≠ quotationMark ∧ unit ≠ openBracket ∧ unit ≠ openBrace ∧
      unit ≠ closeBracket ∧ unit ≠ 110 ∧ unit ≠ 116 ∧ unit ≠ 102 := by
  rcases h with hdigit | rfl
  · refine ⟨isSpace_of_isDigit hdigit, ?_⟩
    refine ⟨?_, ?_, ?_, ?_, ?_, ?_, ?_⟩ <;> exact ne_of_isDigit hdigit (by decide)
  · decide

theorem scanScalar_literal (h : Literal literal) (hrest : Closed rest) :
    scanScalar (literal ++ rest) = some (.number literal, rest) := by
  have hnumber := scanNumber_append h hrest
  obtain ⟨unit, tail, rfl, hunit⟩ := h.head
  obtain ⟨-, -, -, -, -, hn, ht, hf⟩ := number_head hunit
  rw [cons_append] at hnumber ⊢
  have hnull : keyword (ascii "null") (unit :: (tail ++ rest)) = none := keyword_of_ne hn.symm _ _
  have htrue : keyword (ascii "true") (unit :: (tail ++ rest)) = none := keyword_of_ne ht.symm _ _
  have hfalse : keyword (ascii "false") (unit :: (tail ++ rest)) = none :=
    keyword_of_ne hf.symm _ _
  rw [scanScalar, hnull, htrue, hfalse, hnumber]
  rfl

end

section
variable {n : ℕ}

/-- A decimal does not start with a zero. -/
theorem decimalText_head (h : n ≠ 0) : ∃ unit tail, decimalText n = unit :: tail ∧ unit ≠ 48 := by
  have hdigits : Nat.digits 10 n ≠ [] := Nat.digits_ne_nil_iff_ne_zero.mpr h
  have hlast := Nat.getLast_digit_ne_zero 10 h
  have hsmall : (Nat.digits 10 n).getLast hdigits < 10 :=
    Nat.digits_lt_base (by norm_num) (getLast_mem hdigits)
  have hunit : ∀ digit < 10, digit ≠ 0 → (UInt16.ofNat (48 + digit) : CodeUnit) ≠ 48 := by decide
  refine ⟨_, (Nat.digits 10 n).dropLast.reverse.map fun digit => UInt16.ofNat (48 + digit), ?_,
    hunit _ hsmall hlast⟩
  have hsplit : (Nat.digits 10 n).reverse =
      (Nat.digits 10 n).getLast hdigits :: (Nat.digits 10 n).dropLast.reverse := by
    rw [← reverse_concat, dropLast_append_getLast]
  unfold decimalText
  rw [hsplit, map_cons]

theorem isNatural_of_head {unit : CodeUnit} {tail : JsString} (hdigits : AllDigits (unit :: tail))
    (hunit : unit ≠ 48) : IsNatural (unit :: tail) :=
  ⟨unit, tail, rfl, hdigits, fun h => absurd h hunit⟩

theorem fraction_fractionText {digits : JsString} (h : AllDigits digits) :
    Fraction (fractionText digits) := by
  unfold fractionText
  split_ifs with hnil
  · exact .none
  · exact .digits hnil h

theorem exponent_exponentText {exponent : ℤ} (h : exponent ≠ 0) :
    Exponent (exponentText exponent) := by
  have hne : decimalText exponent.natAbs ≠ [] := decimalText_ne_nil (by omega)
  unfold exponentText
  apply Exponent.digits _ hne (allDigits_decimalText _)
  split_ifs
  · exact .inr rfl
  · exact .inl rfl

/-- However a magnitude is printed, it is a literal, with a sign in front or without. -/
theorem literal_magnitudeText (negative : Bool) (h : n ≠ 0) (point : ℤ) :
    Literal (minus negative ++ magnitudeText n point) := by
  have hall := allDigits_decimalText n
  obtain ⟨unit, tail, htext, hunit⟩ := decimalText_head h
  have hnatural : ∀ {later : JsString}, later ⊆ tail → ∀ count,
      IsNatural (unit :: later ++ zeros count) := by
    intro later hlater count
    rw [htext] at hall
    apply isNatural_of_head _ hunit
    have hfront : AllDigits (unit :: later) := hall.subset (cons_subset_cons unit hlater)
    exact hfront.append (allDigits_zeros count)
  unfold magnitudeText
  dsimp only
  split_ifs with hplain hinside hsmall
  · have hparts := Literal.parts negative
      (hnatural (List.Subset.refl tail) (point - (decimalText n).length).toNat) .none .none
    rw [htext] at hparts ⊢
    simpa using hparts
  · obtain ⟨count, hcount⟩ : ∃ count, point.toNat = count + 1 := ⟨point.toNat - 1, by omega⟩
    have hfraction := fraction_fractionText (hall.subset (drop_subset point.toNat _))
    have hparts := Literal.parts negative (hnatural (take_subset count tail) 0) hfraction .none
    rw [htext, hcount] at hparts ⊢
    simpa [zeros] using hparts
  · have hfraction := fraction_fractionText ((allDigits_zeros (-point).toNat).append hall)
    have hzero : IsNatural (ascii "0") :=
      ⟨48, [], rfl, allDigits_zeros 1, fun _ => rfl⟩
    have hparts := Literal.parts negative hzero hfraction .none
    simpa using hparts
  · have hfraction := fraction_fractionText (hall.subset (drop_subset 1 _))
    have hexponent := exponent_exponentText (show point - 1 ≠ 0 by omega)
    have hparts := Literal.parts negative (hnatural (nil_subset tail) 0) hfraction hexponent
    rw [htext] at hparts ⊢
    simpa [zeros] using hparts

end

section

def Blank (text : JsString) : Prop := ∀ unit ∈ text, isSpace unit = true

mutual

/-- The texts a value is laid out as. -/
inductive Layout : Json → JsString → Prop
  | null : Layout .null (ascii "null")
  | bool (value : Bool) : Layout (.bool value) (ascii (if value then "true" else "false"))
  | number {literal : JsString} : Literal literal → Layout (.number literal) literal
  | string (value : JsString) : Layout (.string value) (quote value)
  | emptyArray : Layout (.array []) [openBracket, closeBracket]
  | array {item : Json} {items : List Json} {text : JsString} : LayoutItems item items text →
      Layout (.array (item :: items)) (openBracket :: (text ++ [closeBracket]))
  | emptyObject : Layout (.object []) [openBrace, closeBrace]
  | object {member : JsString × Json} {members : List (JsString × Json)} {text : JsString} :
      LayoutMembers member members text →
      Layout (.object (member :: members)) (openBrace :: (text ++ [closeBrace]))

inductive LayoutItems : Json → List Json → JsString → Prop
  | last {item : Json} {before text behind : JsString} : Blank before → Layout item text →
      Blank behind → LayoutItems item [] (before ++ (text ++ behind))
  | more {item next : Json} {items : List Json} {before text behind rest : JsString} :
      Blank before → Layout item text → Blank behind → LayoutItems next items rest →
      LayoutItems item (next :: items) (before ++ (text ++ (behind ++ comma :: rest)))

inductive LayoutMembers : JsString × Json → List (JsString × Json) → JsString → Prop
  | last {key : JsString} {value : Json} {before inside text behind : JsString} : Blank before →
      Blank inside → Layout value text → Blank behind →
      LayoutMembers (key, value) []
        (before ++ (quote key ++ colon :: (inside ++ (text ++ behind))))
  | more {key : JsString} {value : Json} {next : JsString × Json}
      {members : List (JsString × Json)} {before inside text behind rest : JsString} :
      Blank before → Blank inside → Layout value text → Blank behind →
      LayoutMembers next members rest →
      LayoutMembers (key, value) (next :: members)
        (before ++ (quote key ++ colon :: (inside ++ (text ++ (behind ++ comma :: rest)))))

end

variable {text rest : JsString} {before : JsString} {v : Json}

theorem skipSpace_append (h : Blank before) (text : JsString) :
    skipSpace (before ++ text) = skipSpace text :=
  dropWhile_append_of_pos h

theorem scanValue_append (h : Blank before) (fuel : ℕ) (text : JsString) :
    scanValue fuel (before ++ text) = scanValue fuel text := by
  cases fuel with
  | zero => rw [scanValue, scanValue]
  | succ fuel => rw [scanValue, scanValue, skipSpace_append h]

theorem expect_append (h : Blank before) (unit : CodeUnit) (text : JsString) :
    expect unit (before ++ text) = expect unit text := by
  unfold expect
  rw [skipSpace_append h]

theorem closed_blank {behind : JsString} (h : Blank behind) (hrest : Closed rest) :
    Closed (behind ++ rest) := by
  cases behind with
  | nil => exact hrest
  | cons unit tail => exact closed_cons (.inl (h unit mem_cons_self)) _

/-- A value starts with a unit that is no space and closes nothing. -/
theorem Layout.head (h : Layout v text) :
    ∃ unit rest, text = unit :: rest ∧ isSpace unit = false ∧ unit ≠ closeBracket := by
  cases h with
  | null => exact ⟨110, _, rfl, by decide, by decide⟩
  | bool value => cases value <;> exact ⟨_, _, rfl, by decide, by decide⟩
  | number hliteral =>
    obtain ⟨unit, tail, rfl, hunit⟩ := hliteral.head
    obtain ⟨hspace, -, -, -, hclose, -⟩ := number_head hunit
    exact ⟨unit, tail, rfl, hspace, hclose⟩
  | string value => exact ⟨quotationMark, _, rfl, by decide, by decide⟩
  | emptyArray => exact ⟨openBracket, _, rfl, by decide, by decide⟩
  | array _ => exact ⟨openBracket, _, rfl, by decide, by decide⟩
  | emptyObject => exact ⟨openBrace, _, rfl, by decide, by decide⟩
  | object _ => exact ⟨openBrace, _, rfl, by decide, by decide⟩

theorem expect_layout (h : Layout v text) (rest : JsString) :
    expect closeBracket (text ++ rest) = none := by
  obtain ⟨unit, tail, rfl, hspace, hclose⟩ := h.head
  exact expect_of_ne hspace hclose _

theorem LayoutItems.expect_none {item : Json} {items : List Json} (h : LayoutItems item items text)
    (rest : JsString) : expect closeBracket (text ++ rest) = none := by
  cases h with
  | last hbefore hitem _ =>
    rw [append_assoc, expect_append hbefore, append_assoc]
    exact expect_layout hitem _
  | more hbefore hitem _ _ =>
    rw [append_assoc, expect_append hbefore, append_assoc]
    exact expect_layout hitem _

theorem expect_quote (key rest : JsString) : expect closeBrace (quote key ++ rest) = none := by
  rw [quote_append]
  exact expect_of_ne (by decide) (by decide) _

theorem LayoutMembers.expect_none {member : JsString × Json} {members : List (JsString × Json)}
    (h : LayoutMembers member members text) (rest : JsString) :
    expect closeBrace (text ++ rest) = none := by
  cases h with
  | last hbefore _ _ _ =>
    rw [append_assoc, expect_append hbefore, append_assoc]
    exact expect_quote _ _
  | more hbefore _ _ _ _ =>
    rw [append_assoc, expect_append hbefore, append_assoc]
    exact expect_quote _ _

end

section
variable {text rest : JsString} {fuel : ℕ} {behind : JsString} {mark : CodeUnit}

/-- What the scan gives back of a layout with this much fuel. -/
structure Reads (fuel : ℕ) : Prop where
  value : ∀ v text, Layout v text → weight v ≤ fuel → ∀ rest, Closed rest →
    scanValue fuel (text ++ rest) = some (v, rest)
  items : ∀ item items text, LayoutItems item items text → weightItems (item :: items) ≤ fuel →
    ∀ rest, scanItems fuel (text ++ closeBracket :: rest) = some (item :: items, rest)
  members : ∀ member members text, LayoutMembers member members text →
    weightMembers (member :: members) ≤ fuel →
    ∀ rest, scanMembers fuel (text ++ closeBrace :: rest) = some (member :: members, rest)

/-- Behind the blanks of an item stands a comma or the bracket. -/
theorem skipSpace_mark (h : Blank behind) (hmark : isSpace mark = false) (rest : JsString) :
    skipSpace (behind ++ mark :: rest) = mark :: rest := by
  rw [skipSpace_append h, skipSpace_cons hmark]

theorem scanItems_layout (ih : Reads fuel) {item : Json} {items : List Json}
    (h : LayoutItems item items text) (hw : weightItems (item :: items) ≤ fuel + 1)
    (rest : JsString) :
    scanItems (fuel + 1) (text ++ closeBracket :: rest) = some (item :: items, rest) := by
  rw [weightItems] at hw
  cases h with
  | @last _ before text behind hbefore hitem hbehind =>
    have hclosed : Closed (behind ++ closeBracket :: rest) :=
      closed_blank hbehind (closed_cons (by simp) rest)
    have hscan := ih.value item text hitem (by omega) _ hclosed
    simp only [append_assoc]
    rw [scanItems, scanValue_append hbefore, hscan, bind_some,
      skipSpace_mark hbehind (by decide)]
    rfl
  | @more _ next items before text behind more hbefore hitem hbehind hmore =>
    have hclosed : Closed (behind ++ comma :: (more ++ closeBracket :: rest)) :=
      closed_blank hbehind (closed_cons (by simp) _)
    have hscan := ih.value item text hitem (by omega) _ hclosed
    have hrest := ih.items next items more hmore (by omega) rest
    simp only [append_assoc, cons_append]
    rw [scanItems, scanValue_append hbefore, hscan, bind_some,
      skipSpace_mark hbehind (by decide)]
    simp [hrest]

/-- The key, the colon and the value of a member are consumed. -/
theorem scanMembers_member (ih : Reads fuel) {key : JsString} {value : Json}
    {before inside : JsString} (hbefore : Blank before) (hinside : Blank inside)
    (hvalue : Layout value text) (hbehind : Blank behind) (hw : weight value ≤ fuel)
    (hmark : isSpace mark = false)
    (hclosed : mark = comma ∨ mark = closeBracket ∨ mark = closeBrace) (rest : JsString) :
    scanMembers (fuel + 1)
        (before ++ (quote key ++ colon :: (inside ++ (text ++ (behind ++ mark :: rest))))) =
      if mark = comma then (scanMembers fuel rest).map fun r => ((key, value) :: r.1, r.2)
      else if mark = closeBrace then some ([(key, value)], rest)
      else none := by
  have hscan := ih.value value text hvalue hw (behind ++ mark :: rest)
    (closed_blank hbehind (closed_cons (.inr hclosed) rest))
  rw [quote_append, scanMembers, expect_append hbefore, expect_cons (by decide), bind_some,
    scanString_quoteBody, bind_some, expect_cons (by decide), bind_some,
    scanValue_append hinside, hscan, bind_some, skipSpace_mark hbehind hmark]

theorem scanMembers_layout (ih : Reads fuel) {member : JsString × Json}
    {members : List (JsString × Json)} (h : LayoutMembers member members text)
    (hw : weightMembers (member :: members) ≤ fuel + 1) (rest : JsString) :
    scanMembers (fuel + 1) (text ++ closeBrace :: rest) = some (member :: members, rest) := by
  cases h with
  | last hbefore hinside hvalue hbehind =>
    rw [weightMembers] at hw
    simp only [append_assoc, cons_append]
    rw [scanMembers_member ih hbefore hinside hvalue hbehind (by omega) (by decide) (by simp)]
    simp [closeBrace, comma]
  | @more key value next members before inside text behind more hbefore hinside hvalue hbehind
      hmore =>
    rw [weightMembers] at hw
    have hrest := ih.members next members more hmore (by omega) rest
    simp only [append_assoc, cons_append]
    rw [scanMembers_member ih hbefore hinside hvalue hbehind (by omega) (by decide) (by simp)]
    simp [hrest]

theorem scanValue_layout (ih : Reads fuel) {v : Json} (h : Layout v text)
    (hw : weight v ≤ fuel + 1) (hrest : Closed rest) :
    scanValue (fuel + 1) (text ++ rest) = some (v, rest) := by
  cases h with
  | null =>
    have hscalar : scanScalar (ascii "null" ++ rest) = some (.null, rest) := by
      rw [scanScalar, keyword_append]
    rw [scanValue]
    exact hscalar
  | bool value =>
    rw [scanValue]
    cases value with
    | false =>
      have hscalar : scanScalar (ascii "false" ++ rest) = some (.bool false, rest) := by
        rw [scanScalar, show keyword (ascii "null") (ascii "false" ++ rest) = none from rfl,
          show keyword (ascii "true") (ascii "false" ++ rest) = none from rfl, keyword_append]
      exact hscalar
    | true =>
      have hscalar : scanScalar (ascii "true" ++ rest) = some (.bool true, rest) := by
        rw [scanScalar, show keyword (ascii "null") (ascii "true" ++ rest) = none from rfl,
          keyword_append]
      exact hscalar
  | number hliteral =>
    have hscalar := scanScalar_literal hliteral hrest
    obtain ⟨unit, tail, rfl, hunit⟩ := hliteral.head
    obtain ⟨hspace, hquote, hbracket, hbrace, -⟩ := number_head hunit
    rw [cons_append] at hscalar ⊢
    rw [scanValue, skipSpace_cons hspace]
    simp only [if_neg hquote, if_neg hbracket, if_neg hbrace, hscalar]
  | string value =>
    have hbody := scanString_quoteBody value rest
    rw [quote_append, scanValue, skipSpace_cons (by decide)]
    simp only [if_true, hbody]
    rfl
  | emptyArray =>
    rw [cons_append, singleton_append, scanValue, skipSpace_cons (by decide)]
    dsimp only
    rw [if_neg (by decide), if_pos rfl, expect_cons (by decide)]
  | @array item items text hitems =>
    rw [weight] at hw
    rw [cons_append, append_assoc, singleton_append, scanValue,
      skipSpace_cons (by decide)]
    dsimp only
    rw [if_neg (by decide), if_pos rfl, hitems.expect_none,
      ih.items item items text hitems (by omega) rest]
    rfl
  | emptyObject =>
    rw [cons_append, singleton_append, scanValue, skipSpace_cons (by decide)]
    dsimp only
    rw [if_neg (by decide), if_neg (by decide), if_pos rfl, expect_cons (by decide)]
  | @object member members text hmembers =>
    rw [weight] at hw
    rw [cons_append, append_assoc, singleton_append, scanValue,
      skipSpace_cons (by decide)]
    dsimp only
    rw [if_neg (by decide), if_neg (by decide), if_pos rfl, hmembers.expect_none,
      ih.members member members text hmembers (by omega) rest]
    rfl

theorem reads (fuel : ℕ) : Reads fuel := by
  induction fuel with
  | zero =>
    constructor
    · intro v text _ hw
      have hpos := weight_pos v
      omega
    · intro item items text _ hw
      rw [weightItems] at hw
      omega
    · intro member members text _ hw
      rw [weightMembers] at hw
      omega
  | succ fuel ih =>
    constructor
    · intro v text h hw rest hrest
      exact scanValue_layout ih h hw hrest
    · intro item items text h hw rest
      exact scanItems_layout ih h hw rest
    · intro member members text h hw rest
      exact scanMembers_layout ih h hw rest

end

mutual

/-- A layout is no shorter than the fuel its value needs. -/
theorem weight_le_layout : ∀ v text, Layout v text → weight v ≤ text.length
  | .null, _, h => by
      cases h
      decide
  | .bool value, _, h => by
      cases h
      cases value <;> decide
  | .number _, text, h => by
      obtain ⟨unit, tail, rfl, -⟩ := h.head
      simp [weight]
  | .string value, text, h => by
      obtain ⟨unit, tail, rfl, -⟩ := h.head
      simp [weight]
  | .array [], _, h => by
      cases h
      decide
  | .array (item :: items), _, h => by
      cases h with
      | array hitems =>
        have hle := weightItems_le_layout (item :: items) item items _ rfl hitems
        simp only [weight, length_cons, length_append, length_nil]
        omega
  | .object [], _, h => by
      cases h
      decide
  | .object (member :: members), _, h => by
      cases h with
      | object hmembers =>
        have hle := weightMembers_le_layout (member :: members) member members _ rfl hmembers
        simp only [weight, length_cons, length_append, length_nil]
        omega

theorem weightItems_le_layout : ∀ all item items text, all = item :: items →
    LayoutItems item items text → weightItems all ≤ text.length + 1
  | [], _, _, _, hall, _ => by simp at hall
  | first :: rest, item, items, _, hall, h => by
      obtain ⟨rfl, rfl⟩ := List.cons.inj hall
      cases h with
      | @last _ _ text _ _ hitem _ =>
        have hle := weight_le_layout first text hitem
        simp only [weightItems, length_append]
        omega
      | @more _ next items _ text _ more _ hitem _ hmore =>
        have hle := weight_le_layout first text hitem
        have hrest := weightItems_le_layout (next :: items) next items more rfl hmore
        rw [weightItems]
        simp only [length_append, length_cons]
        omega

theorem weightMembers_le_layout : ∀ (all : List (JsString × Json)) member members text,
    all = member :: members → LayoutMembers member members text →
    weightMembers all ≤ text.length + 1
  | [], _, _, _, hall, _ => by simp at hall
  | (key, value) :: rest, member, members, _, hall, h => by
      obtain ⟨rfl, rfl⟩ := List.cons.inj hall
      cases h with
      | @last _ _ _ _ text _ _ _ hvalue _ =>
        have hle := weight_le_layout value text hvalue
        simp only [weightMembers, length_append, length_cons]
        omega
      | @more _ _ next members _ _ text _ more _ _ hvalue _ hmore =>
        have hle := weight_le_layout value text hvalue
        have hrest := weightMembers_le_layout (next :: members) next members more rfl hmore
        rw [weightMembers]
        simp only [length_append, length_cons]
        omega

end

/-- The parser gives back a value however it is laid out. -/
theorem parse_layout {v : Json} {text behind : JsString} (h : Layout v text)
    (hbehind : Blank behind) : parse (text ++ behind) = some v := by
  have hweight := weight_le_layout v text h
  have hclosed : Closed behind := by
    intro unit hunit
    exact .inl (hbehind unit (mem_of_mem_head? hunit))
  have hscan := (reads (2 * (text ++ behind).length + 2)).value v text h
    (by rw [length_append]; omega) behind hclosed
  have hend : skipSpace behind = [] := dropWhile_eq_nil_iff.mpr hbehind
  unfold parse
  rw [hscan, bind_some, hend]
  rfl

/-- A new line and the spaces in front of it at this depth. -/
def newline (indent depth : ℕ) : JsString := 10 :: List.replicate (indent * depth) 32

mutual

/-- The text of a value with an indent, which is not zero. -/
def write (indent depth : ℕ) : Json → JsString
  | .null => ascii "null"
  | .bool value => ascii (if value then "true" else "false")
  | .number literal => literal
  | .string value => quote value
  | .array items =>
      openBracket :: ((if items.isEmpty then [] else
        writeItems indent (depth + 1) items ++ newline indent depth) ++ [closeBracket])
  | .object members =>
      openBrace :: ((if members.isEmpty then [] else
        writeMembers indent (depth + 1) members ++ newline indent depth) ++ [closeBrace])

def writeItems (indent depth : ℕ) : List Json → JsString
  | [] => []
  | [item] => newline indent depth ++ write indent depth item
  | item :: next :: rest =>
      newline indent depth ++ (write indent depth item ++
        comma :: writeItems indent depth (next :: rest))

def writeMembers (indent depth : ℕ) : List (JsString × Json) → JsString
  | [] => []
  | [(key, value)] =>
      newline indent depth ++ (quote key ++ colon :: 32 :: write indent depth value)
  | (key, value) :: next :: rest =>
      newline indent depth ++ (quote key ++ colon :: 32 :: (write indent depth value ++
        comma :: writeMembers indent depth (next :: rest)))

end

/-- The values whose numbers are written as the language prints them. -/
inductive Printed : Json → Prop
  | null : Printed .null
  | bool (value : Bool) : Printed (.bool value)
  | number {literal : JsString} : Literal literal → Printed (.number literal)
  | string (value : JsString) : Printed (.string value)
  | array {items : List Json} : (∀ item ∈ items, Printed item) → Printed (.array items)
  | object {members : List (JsString × Json)} :
      (∀ member ∈ members, Printed member.2) → Printed (.object members)

theorem blank_newline (indent depth : ℕ) : Blank (newline indent depth) := by
  intro unit hunit
  rcases mem_cons.mp hunit with rfl | hspace
  · decide
  · rw [eq_of_mem_replicate hspace]
    decide

theorem blank_nil : Blank [] := fun _ hunit => absurd hunit not_mem_nil

theorem blank_space : Blank [32] := by
  intro unit hunit
  rw [mem_singleton.mp hunit]
  decide

variable {indent : ℕ}

mutual

/-- What is written is a layout of the value, at any depth. -/
theorem layout_write : ∀ v, Printed v → ∀ depth, Layout v (write indent depth v)
  | .null, _, depth => by
      rw [write]
      exact .null
  | .bool value, _, depth => by
      rw [write]
      exact .bool value
  | .number literal, h, depth => by
      cases h with
      | number hliteral =>
        rw [write]
        exact .number hliteral
  | .string value, _, depth => by
      rw [write]
      exact .string value
  | .array [], _, depth => by
      rw [write]
      exact .emptyArray
  | .array (item :: items), h, depth => by
      cases h with
      | array hall =>
        have hitems := layoutItems_write (item :: items) item items rfl hall (depth + 1)
          (newline indent depth) (blank_newline indent depth)
        rw [write]
        exact .array hitems
  | .object [], _, depth => by
      rw [write]
      exact .emptyObject
  | .object (member :: members), h, depth => by
      cases h with
      | object hall =>
        have hmembers := layoutMembers_write (member :: members) member members rfl hall (depth + 1)
          (newline indent depth) (blank_newline indent depth)
        rw [write]
        exact .object hmembers

theorem layoutItems_write : ∀ all item items, all = item :: items → (∀ v ∈ all, Printed v) →
    ∀ depth behind, Blank behind → LayoutItems item items (writeItems indent depth all ++ behind)
  | [], _, _, hall, _, _, _, _ => by simp at hall
  | [only], item, items, hall, hprinted, depth, behind, hbehind => by
      obtain ⟨rfl, rfl⟩ := List.cons.inj hall
      have hitem := layout_write only (hprinted only mem_cons_self) depth
      rw [writeItems, append_assoc]
      exact .last (blank_newline indent depth) hitem hbehind
  | first :: next :: rest, item, items, hall, hprinted, depth, behind, hbehind => by
      obtain ⟨rfl, rfl⟩ := List.cons.inj hall
      have hitem := layout_write first (hprinted first mem_cons_self) depth
      have hrest := layoutItems_write (next :: rest) next rest rfl
        (fun v hv => hprinted v (mem_cons_of_mem _ hv)) depth behind hbehind
      rw [writeItems, append_assoc, append_assoc]
      exact .more (blank_newline indent depth) hitem blank_nil hrest

theorem layoutMembers_write : ∀ (all : List (JsString × Json)) member members,
    all = member :: members → (∀ m ∈ all, Printed m.2) → ∀ depth behind, Blank behind →
    LayoutMembers member members (writeMembers indent depth all ++ behind)
  | [], _, _, hall, _, _, _, _ => by simp at hall
  | [(key, value)], member, members, hall, hprinted, depth, behind, hbehind => by
      obtain ⟨rfl, rfl⟩ := List.cons.inj hall
      have hvalue := layout_write value (hprinted (key, value) mem_cons_self) depth
      have hlast : LayoutMembers (key, value) [] _ :=
        .last (blank_newline indent depth) blank_space hvalue hbehind
      rw [writeMembers]
      simpa using hlast
  | (key, value) :: next :: rest, member, members, hall, hprinted, depth, behind, hbehind => by
      obtain ⟨rfl, rfl⟩ := List.cons.inj hall
      have hvalue := layout_write value (hprinted (key, value) mem_cons_self) depth
      have hrest := layoutMembers_write (next :: rest) next rest rfl
        (fun m hm => hprinted m (mem_cons_of_mem _ hm)) depth behind hbehind
      have hmore : LayoutMembers (key, value) (next :: rest) _ :=
        .more (blank_newline indent depth) blank_space hvalue blank_nil hrest
      rw [writeMembers]
      simpa using hmore

end

/-- The parser gives back a value that was written, whatever blanks stand behind it. -/
theorem parse_write {v : Json} (h : Printed v) {behind : JsString} (hbehind : Blank behind) :
    parse (write indent 0 v ++ behind) = some v :=
  parse_layout (layout_write v h 0) hbehind

end Havemind.JsonLayout
