import Havemind.Utf16
import Mathlib.Algebra.Group.Nat.Defs

/-!
JSON texts over UTF-16 strings: the writer `JSON.stringify` is for plain
values, and the parser `JSON.parse` is. A number keeps its literal, so nothing
here rounds. The writer escapes every surrogate without a partner, hence its
texts are well formed, and the parser gives back each written value.
-/
namespace Havemind.JsonText

open JsText Utf16 List Option

def ascii (text : String) : JsString := text.toList.map fun c => UInt16.ofNat c.toNat

inductive Json
  | null
  | bool (value : Bool)
  | number (literal : JsString)
  | string (value : JsString)
  | array (items : List Json)
  | object (members : List (JsString × Json))

def quotationMark : CodeUnit := 34
def reverseSolidus : CodeUnit := 92
def comma : CodeUnit := 44
def colon : CodeUnit := 58
def openBrace : CodeUnit := 123
def closeBrace : CodeUnit := 125
def openBracket : CodeUnit := 91
def closeBracket : CodeUnit := 93

def hexDigit (n : ℕ) : CodeUnit := UInt16.ofNat (if n < 10 then 48 + n else 87 + n)

def unicodeEscape (unit : CodeUnit) : JsString :=
  let n := unit.toNat
  [reverseSolidus, 117, hexDigit (n / 4096), hexDigit (n / 256 % 16), hexDigit (n / 16 % 16),
    hexDigit (n % 16)]

/-- The letter behind the solidus of a short escape. -/
def shortEscape (unit : CodeUnit) : Option CodeUnit :=
  if unit = 8 then some 98
  else if unit = 9 then some 116
  else if unit = 10 then some 110
  else if unit = 12 then some 102
  else if unit = 13 then some 114
  else if unit = quotationMark then some quotationMark
  else if unit = reverseSolidus then some reverseSolidus
  else none

def quoteUnit (unit : CodeUnit) : JsString :=
  match shortEscape unit with
  | some letter => [reverseSolidus, letter]
  | none => if unit.toNat < 0x20 ∨ isSurrogate unit then unicodeEscape unit else [unit]

def quoteBody : JsString → JsString
  | [] => []
  | [unit] => quoteUnit unit
  | unit :: next :: rest =>
      if isHighSurrogate unit ∧ isLowSurrogate next then unit :: next :: quoteBody rest
      else quoteUnit unit ++ quoteBody (next :: rest)

def quote (text : JsString) : JsString := quotationMark :: quoteBody text ++ [quotationMark]

mutual

def stringify : Json → JsString
  | .null => ascii "null"
  | .bool true => ascii "true"
  | .bool false => ascii "false"
  | .number literal => literal
  | .string value => quote value
  | .array items => openBracket :: stringifyItems items ++ [closeBracket]
  | .object members => openBrace :: stringifyMembers members ++ [closeBrace]

def stringifyItems : List Json → JsString
  | [] => []
  | [item] => stringify item
  | item :: next :: rest => stringify item ++ comma :: stringifyItems (next :: rest)

def stringifyMembers : List (JsString × Json) → JsString
  | [] => []
  | [(key, value)] => quote key ++ colon :: stringify value
  | (key, value) :: next :: rest =>
      quote key ++ colon :: stringify value ++ comma :: stringifyMembers (next :: rest)

end

def isSpace (unit : CodeUnit) : Bool := unit = 32 ∨ unit = 9 ∨ unit = 10 ∨ unit = 13

def skipSpace (text : JsString) : JsString := text.dropWhile isSpace

def isDigit (unit : CodeUnit) : Bool := 48 ≤ unit.toNat ∧ unit.toNat ≤ 57

def hexValue (unit : CodeUnit) : Option ℕ :=
  let n := unit.toNat
  if 48 ≤ n ∧ n ≤ 57 then some (n - 48)
  else if 97 ≤ n ∧ n ≤ 102 then some (n - 87)
  else if 65 ≤ n ∧ n ≤ 70 then some (n - 55)
  else none

/-- The unit a short escape stands for; the solidus may be escaped as well. -/
def escapedUnit (letter : CodeUnit) : Option CodeUnit :=
  if letter = 98 then some 8
  else if letter = 116 then some 9
  else if letter = 110 then some 10
  else if letter = 102 then some 12
  else if letter = 114 then some 13
  else if letter = quotationMark ∨ letter = reverseSolidus ∨ letter = 47 then some letter
  else none

/-- Where the scan of a string stands: between units, behind a reverse
solidus, or behind some digits of a unicode escape. -/
inductive Scan
  | plain
  | escape
  | hex (left : ℕ) (value : ℕ)

/-- The string up to its closing quotation mark, and the text behind it. -/
def scanString : Scan → JsString → Option (JsString × JsString)
  | _, [] => none
  | .plain, unit :: rest =>
      if unit = quotationMark then some ([], rest)
      else if unit = reverseSolidus then scanString .escape rest
      else if unit.toNat < 0x20 then none
      else (scanString .plain rest).map fun r => (unit :: r.1, r.2)
  | .escape, letter :: rest =>
      if letter = 117 then scanString (.hex 3 0) rest
      else (escapedUnit letter).bind fun unit =>
        (scanString .plain rest).map fun r => (unit :: r.1, r.2)
  | .hex left value, digit :: rest =>
      (hexValue digit).bind fun d =>
        match left with
        | 0 => (scanString .plain rest).map fun r => (UInt16.ofNat (value * 16 + d) :: r.1, r.2)
        | left + 1 => scanString (.hex left (value * 16 + d)) rest

/-- The digits in front, which must not be missing. -/
def scanDigits (text : JsString) : Option (JsString × JsString) :=
  let digits := text.takeWhile isDigit
  if digits.isEmpty then none else some (digits, text.dropWhile isDigit)

def scanInteger (text : JsString) : Option (JsString × JsString) :=
  match text with
  | [] => none
  | unit :: rest => if unit = 48 then some ([unit], rest) else scanDigits (unit :: rest)

def scanFraction (text : JsString) : Option (JsString × JsString) :=
  match text with
  | [] => some ([], [])
  | unit :: rest =>
      if unit = 46 then (scanDigits rest).map fun r => (unit :: r.1, r.2)
      else some ([], unit :: rest)

def scanExponent (text : JsString) : Option (JsString × JsString) :=
  match text with
  | [] => some ([], [])
  | unit :: rest =>
      if unit = 101 ∨ unit = 69 then
        match rest with
        | [] => none
        | sign :: digits =>
            if sign = 43 ∨ sign = 45 then
              (scanDigits digits).map fun r => (unit :: sign :: r.1, r.2)
            else (scanDigits (sign :: digits)).map fun r => (unit :: r.1, r.2)
      else some ([], unit :: rest)

def scanNumber (text : JsString) : Option (JsString × JsString) :=
  let (sign, unsigned) := match text with
    | [] => ([], [])
    | unit :: rest => if unit = 45 then ([unit], rest) else ([], unit :: rest)
  (scanInteger unsigned).bind fun integer =>
    (scanFraction integer.2).bind fun fraction =>
      (scanExponent fraction.2).map fun exponent =>
        (sign ++ integer.1 ++ fraction.1 ++ exponent.1, exponent.2)

def expect (unit : CodeUnit) (text : JsString) : Option JsString :=
  match skipSpace text with
  | [] => none
  | first :: rest => if first = unit then some rest else none

def keyword (word text : JsString) : Option JsString :=
  if word.isPrefixOf text then some (text.drop word.length) else none

/-- `null`, `true`, `false` or a number. -/
def scanScalar (text : JsString) : Option (Json × JsString) :=
  match keyword (ascii "null") text with
  | some rest => some (.null, rest)
  | none =>
      match keyword (ascii "true") text with
      | some rest => some (.bool true, rest)
      | none =>
          match keyword (ascii "false") text with
          | some rest => some (.bool false, rest)
          | none => (scanNumber text).map fun r => (.number r.1, r.2)

mutual

/-- One value and the text behind it; `fuel` bounds the nesting and the number
of members. -/
def scanValue : ℕ → JsString → Option (Json × JsString)
  | 0, _ => none
  | fuel + 1, text =>
      match skipSpace text with
      | [] => none
      | unit :: rest =>
          if unit = quotationMark then (scanString .plain rest).map fun r => (.string r.1, r.2)
          else if unit = openBracket then
            match expect closeBracket rest with
            | some rest => some (.array [], rest)
            | none => (scanItems fuel rest).map fun r => (.array r.1, r.2)
          else if unit = openBrace then
            match expect closeBrace rest with
            | some rest => some (.object [], rest)
            | none => (scanMembers fuel rest).map fun r => (.object r.1, r.2)
          else scanScalar (unit :: rest)

def scanItems : ℕ → JsString → Option (List Json × JsString)
  | 0, _ => none
  | fuel + 1, text =>
      (scanValue fuel text).bind fun item =>
        match skipSpace item.2 with
        | [] => none
        | unit :: rest =>
            if unit = comma then (scanItems fuel rest).map fun r => (item.1 :: r.1, r.2)
            else if unit = closeBracket then some ([item.1], rest)
            else none

def scanMembers : ℕ → JsString → Option (List (JsString × Json) × JsString)
  | 0, _ => none
  | fuel + 1, text =>
      (expect quotationMark text).bind fun body =>
        (scanString .plain body).bind fun key =>
          (expect colon key.2).bind fun rest =>
            (scanValue fuel rest).bind fun value =>
              match skipSpace value.2 with
              | [] => none
              | unit :: rest =>
                  if unit = comma then
                    (scanMembers fuel rest).map fun r => ((key.1, value.1) :: r.1, r.2)
                  else if unit = closeBrace then some ([(key.1, value.1)], rest)
                  else none

end

/-- `JSON.parse`. A value consumes at least every second step, so the fuel
never runs out before the text does. -/
def parse (text : JsString) : Option Json :=
  (scanValue (2 * text.length + 2) text).bind fun r =>
    if (skipSpace r.2).isEmpty then some r.1 else none

/-- A property of a parsed value: the last member of that name. -/
def Json.get (key : JsString) : Json → Option Json
  | .object members => (members.reverse.find? fun member => member.1 = key).map (·.2)
  | _ => none

def digitsValue (digits : JsString) : ℕ :=
  digits.foldl (fun n unit => n * 10 + (unit.toNat - 48)) 0

/-- Whether the double nearest to `mantissa * 10 ^ exponent` is `1`: ties at
the ends of the interval go to the even neighbour. -/
def roundsToOne (mantissa : ℕ) (exponent : ℤ) : Bool :=
  let scale := 10 ^ exponent.natAbs
  let (numerator, denominator) :=
    if 0 ≤ exponent then (mantissa * scale, 1) else (mantissa, scale)
  (2 ^ 54 - 1) * denominator ≤ numerator * 2 ^ 54 ∧
    numerator * 2 ^ 54 ≤ (2 ^ 54 + 2) * denominator

/-- `literal === 1` for the literal of a number. -/
def isOne (literal : JsString) : Bool :=
  let negative : Bool := literal.head? = some 45
  let unsigned := if negative then literal.tail else literal
  let integer := unsigned.takeWhile isDigit
  let behind := unsigned.dropWhile isDigit
  let fraction := if behind.head? = some 46 then behind.tail.takeWhile isDigit else []
  let power := (behind.dropWhile fun unit => unit ≠ 101 ∧ unit ≠ 69).tail
  let exponent : ℤ :=
    if power.head? = some 45 then -digitsValue power.tail
    else if power.head? = some 43 then digitsValue power.tail
    else digitsValue power
  !negative && roundsToOne (digitsValue (integer ++ fraction)) (exponent - fraction.length)

section
variable {unit : CodeUnit} {digit : CodeUnit} {d : ℕ}

theorem hexValue_hexDigit : ∀ n < 16, hexValue (hexDigit n) = some n := by decide

theorem scanString_hex_succ (h : hexValue digit = some d) (left value : ℕ) (rest : JsString) :
    scanString (.hex (left + 1) value) (digit :: rest) =
      scanString (.hex left (value * 16 + d)) rest := by
  rw [scanString, h, bind_some]

theorem scanString_hex_zero (h : hexValue digit = some d) (value : ℕ) (rest : JsString) :
    scanString (.hex 0 value) (digit :: rest) =
      (scanString .plain rest).map fun r => (UInt16.ofNat (value * 16 + d) :: r.1, r.2) := by
  rw [scanString, h, bind_some]

theorem scanString_unicodeEscape (unit : CodeUnit) (rest : JsString) :
    scanString .plain (unicodeEscape unit ++ rest) =
      (scanString .plain rest).map fun r => (unit :: r.1, r.2) := by
  have hlt := unit.toNat_lt
  have hvalue : (((0 * 16 + unit.toNat / 4096) * 16 + unit.toNat / 256 % 16) * 16 +
      unit.toNat / 16 % 16) * 16 + unit.toNat % 16 = unit.toNat := by omega
  have h1 := hexValue_hexDigit (unit.toNat / 4096) (by omega)
  have h2 := hexValue_hexDigit (unit.toNat / 256 % 16) (by omega)
  have h3 := hexValue_hexDigit (unit.toNat / 16 % 16) (by omega)
  have h4 := hexValue_hexDigit (unit.toNat % 16) (by omega)
  unfold unicodeEscape
  simp only [cons_append, nil_append]
  rw [scanString, if_neg (by decide), if_pos rfl, scanString, if_pos rfl,
    scanString_hex_succ h1, scanString_hex_succ h2, scanString_hex_succ h3,
    scanString_hex_zero h4, hvalue, UInt16.ofNat_toNat]

theorem scanString_shortEscape {letter : CodeUnit} (h : shortEscape unit = some letter)
    (rest : JsString) : scanString .plain (reverseSolidus :: letter :: rest) =
      (scanString .plain rest).map fun r => (unit :: r.1, r.2) := by
  have hback : letter ≠ 117 ∧ escapedUnit letter = some unit := by
    unfold shortEscape at h
    repeat' split at h
    all_goals cases h
    all_goals
      rename_i hunit
      rw [hunit]
      decide
  rw [scanString, if_neg (by decide), if_pos rfl, scanString, if_neg hback.1, hback.2,
    bind_some]

theorem scanString_unit (hquote : unit ≠ quotationMark) (hsolidus : unit ≠ reverseSolidus)
    (hcontrol : ¬ unit.toNat < 0x20) (rest : JsString) :
    scanString .plain (unit :: rest) =
      (scanString .plain rest).map fun r => (unit :: r.1, r.2) := by
  rw [scanString, if_neg hquote, if_neg hsolidus, if_neg hcontrol]

theorem scanString_quoteUnit (unit : CodeUnit) (rest : JsString) :
    scanString .plain (quoteUnit unit ++ rest) =
      (scanString .plain rest).map fun r => (unit :: r.1, r.2) := by
  unfold quoteUnit
  cases hshort : shortEscape unit with
  | some letter => exact scanString_shortEscape hshort rest
  | none =>
    simp only
    split
    · exact scanString_unicodeEscape unit rest
    · rename_i hplain
      have hquote : unit ≠ quotationMark := by
        rintro rfl
        cases hshort
      have hsolidus : unit ≠ reverseSolidus := by
        rintro rfl
        cases hshort
      exact scanString_unit hquote hsolidus (fun h => hplain (Or.inl h)) rest

theorem scanString_surrogate (h : isSurrogate unit = true) (rest : JsString) :
    scanString .plain (unit :: rest) =
      (scanString .plain rest).map fun r => (unit :: r.1, r.2) := by
  have hrange : 0xD800 ≤ unit.toNat ∧ unit.toNat < 0xE000 := by simpa [isSurrogate] using h
  apply scanString_unit
  · rintro rfl
    exact absurd hrange (by decide)
  · rintro rfl
    exact absurd hrange (by decide)
  · omega

theorem isSurrogate_of_pair {high low : CodeUnit}
    (h : isHighSurrogate high = true ∧ isLowSurrogate low = true) :
    isSurrogate high = true ∧ isSurrogate low = true := by
  simp only [isHighSurrogate, isLowSurrogate, isSurrogate, decide_eq_true_eq] at h ⊢
  omega

theorem scanString_quoteBody (text rest : JsString) :
    scanString .plain (quoteBody text ++ quotationMark :: rest) = some (text, rest) := by
  induction text using quoteBody.induct with
  | case1 =>
    rw [quoteBody, nil_append, scanString, if_pos rfl]
  | case2 unit =>
    rw [quoteBody, scanString_quoteUnit, scanString, if_pos rfl]
    rfl
  | case3 unit next tail hpair ih =>
    obtain ⟨hunit, hnext⟩ := isSurrogate_of_pair hpair
    rw [quoteBody, if_pos hpair, cons_append, cons_append, scanString_surrogate hunit,
      scanString_surrogate hnext, ih]
    rfl
  | case4 unit next tail hpair ih =>
    rw [quoteBody, if_neg hpair, append_assoc, scanString_quoteUnit, ih]
    rfl

theorem isWellFormed_of_small {text : JsString} (h : ∀ unit ∈ text, unit.toNat < 0xD800) :
    isWellFormed text = true := by
  induction text with
  | nil => rfl
  | cons unit rest ih =>
    have hunit := h unit (mem_cons_self ..)
    have hplain : isSurrogate unit = false := by
      simp only [isSurrogate, decide_eq_false_iff_not]
      omega
    rw [isWellFormed_cons hplain]
    exact ih fun u hu => h u (mem_cons_of_mem _ hu)

theorem hexDigit_small {n : ℕ} (h : n < 16) : (hexDigit n).toNat < 0xD800 := by
  have hall : ∀ n < 16, (hexDigit n).toNat < 0xD800 := by decide
  exact hall n h

theorem isWellFormed_quoteUnit (unit : CodeUnit) : isWellFormed (quoteUnit unit) = true := by
  have hlt := unit.toNat_lt
  unfold quoteUnit
  cases hshort : shortEscape unit with
  | some letter =>
    have hletter : letter.toNat < 0xD800 := by
      unfold shortEscape at hshort
      repeat' split at hshort
      all_goals cases hshort
      all_goals decide
    apply isWellFormed_of_small
    intro u hu
    rcases mem_pair.mp hu with rfl | rfl
    · decide
    · exact hletter
  | none =>
    simp only
    split
    · apply isWellFormed_of_small
      intro u hu
      simp only [unicodeEscape, mem_cons, not_mem_nil, or_false] at hu
      rcases hu with rfl | rfl | rfl | rfl | rfl | rfl
      · decide
      · decide
      all_goals exact hexDigit_small (by omega)
    · rename_i hplain
      simpa [isWellFormed] using fun h => hplain (Or.inr h)

theorem isWellFormed_quoteBody (text : JsString) : isWellFormed (quoteBody text) = true := by
  induction text using quoteBody.induct with
  | case1 => rfl
  | case2 unit => exact isWellFormed_quoteUnit unit
  | case3 unit next tail hpair ih =>
    rw [quoteBody, if_pos hpair, isWellFormed_pair hpair.1 hpair.2, ih]
  | case4 unit next tail hpair ih =>
    rw [quoteBody, if_neg hpair]
    exact isWellFormed_append (isWellFormed_quoteUnit unit) ih

theorem isWellFormed_quote (text : JsString) : isWellFormed (quote text) = true := by
  unfold quote
  rw [cons_append, isWellFormed_cons (by decide)]
  exact isWellFormed_append (isWellFormed_quoteBody text) (by decide)

end

section

/-- The literal of a natural number: decimal digits without a leading zero. -/
def IsNatural (literal : JsString) : Prop :=
  ∃ unit rest, literal = unit :: rest ∧ (∀ u ∈ literal, isDigit u = true) ∧
    (unit = 48 → rest = [])

theorem isNatural_one : IsNatural (ascii "1") := by
  refine ⟨49, [], rfl, ?_, fun h => by cases h⟩
  intro unit hunit
  have hone : unit = 49 := mem_singleton.mp hunit
  rw [hone]
  rfl

/-- The values whose numbers are natural ones; the others need the language's
own way to print a number. -/
inductive Written : Json → Prop
  | null : Written .null
  | bool (value : Bool) : Written (.bool value)
  | number {literal : JsString} : IsNatural literal → Written (.number literal)
  | string (value : JsString) : Written (.string value)
  | array {items : List Json} : (∀ item ∈ items, Written item) → Written (.array items)
  | object {members : List (JsString × Json)} :
      (∀ member ∈ members, Written member.2) → Written (.object members)

mutual

/-- The fuel a value needs. -/
def weight : Json → ℕ
  | .array items => 1 + weightItems items
  | .object members => 1 + weightMembers members
  | _ => 1

def weightItems : List Json → ℕ
  | [] => 0
  | item :: rest => 1 + max (weight item) (weightItems rest)

def weightMembers : List (JsString × Json) → ℕ
  | [] => 0
  | (_, value) :: rest => 1 + max (weight value) (weightMembers rest)

end
variable {unit : CodeUnit} {first : CodeUnit}

/-- What may stand behind a value inside a text. -/
def Delimited (rest : JsString) : Prop :=
  ∀ unit ∈ rest.head?, unit = comma ∨ unit = closeBracket ∨ unit = closeBrace

theorem skipSpace_cons (h : isSpace unit = false) (rest : JsString) :
    skipSpace (unit :: rest) = unit :: rest := by
  rw [skipSpace, dropWhile_cons_of_neg (by simp [h])]

theorem expect_cons (h : isSpace unit = false) (rest : JsString) :
    expect unit (unit :: rest) = some rest := by
  simp [expect, skipSpace_cons h]

theorem expect_of_ne (h : isSpace first = false) (hne : first ≠ unit) (rest : JsString) :
    expect unit (first :: rest) = none := by
  simp [expect, skipSpace_cons h, hne]

theorem keyword_append (word rest : JsString) : keyword word (word ++ rest) = some rest := by
  rw [keyword, if_pos ( isPrefixOf_iff_prefix.mpr (prefix_append word rest)),
    drop_left]

theorem keyword_of_ne (h : first ≠ unit) (word rest : JsString) :
    keyword (first :: word) (unit :: rest) = none := by
  rw [keyword, if_neg]
  simp [h]

section
variable {literal rest : JsString}

theorem takeWhile_digits (hdigits : ∀ u ∈ literal, isDigit u = true) (hrest : Delimited rest) :
    (literal ++ rest).takeWhile isDigit = literal ∧ (literal ++ rest).dropWhile isDigit = rest := by
  have hstop : rest.takeWhile isDigit = [] ∧ rest.dropWhile isDigit = rest := by
    cases rest with
    | nil => exact ⟨rfl, rfl⟩
    | cons unit tail =>
      have hunit : isDigit unit = false := by
        rcases hrest unit rfl with rfl | rfl | rfl <;> decide
      simp [hunit]
  constructor
  · rw [takeWhile_append_of_pos hdigits, hstop.1, append_nil]
  · rw [dropWhile_append_of_pos hdigits, hstop.2]

theorem scanInteger_natural (h : IsNatural literal) (hrest : Delimited rest) :
    scanInteger (literal ++ rest) = some (literal, rest) := by
  obtain ⟨unit, tail, rfl, hdigits, hzero⟩ := h
  obtain ⟨htake, hdrop⟩ := takeWhile_digits hdigits hrest
  rw [cons_append, scanInteger]
  split
  · rename_i hunit
    rw [hzero hunit]
    rfl
  · rw [scanDigits]
    rw [← cons_append, htake, hdrop]
    rfl

theorem scanFraction_delimited (hrest : Delimited rest) : scanFraction rest = some ([], rest) := by
  cases rest with
  | nil => rfl
  | cons unit tail =>
    rw [scanFraction, if_neg]
    rcases hrest unit rfl with rfl | rfl | rfl <;> decide

theorem scanExponent_delimited (hrest : Delimited rest) : scanExponent rest = some ([], rest) := by
  cases rest with
  | nil => rfl
  | cons unit tail =>
    rw [scanExponent.eq_def]
    dsimp only
    rw [if_neg]
    rcases hrest unit rfl with rfl | rfl | rfl <;> decide

theorem scanNumber_natural (h : IsNatural literal) (hrest : Delimited rest) :
    scanNumber (literal ++ rest) = some (literal, rest) := by
  have hinteger := scanInteger_natural h hrest
  obtain ⟨unit, tail, rfl, hdigits, _⟩ := h
  have hunit : unit ≠ 45 := by
    rintro rfl
    exact absurd (hdigits 45 (mem_cons_self ..)) (by decide)
  rw [cons_append] at hinteger ⊢
  rw [scanNumber]
  simp only [if_neg hunit, hinteger, bind_some, scanFraction_delimited hrest,
    scanExponent_delimited hrest, map_some, nil_append, append_nil]

end

/-- Digits are no space, no bracket and no letter. -/
theorem ne_of_isDigit {unit other : CodeUnit} (h : isDigit unit = true)
    (hother : isDigit other = false) : unit ≠ other := by
  rintro rfl
  rw [h] at hother
  cases hother

theorem isSpace_of_isDigit {unit : CodeUnit} (h : isDigit unit = true) : isSpace unit = false := by
  simp only [isSpace, decide_eq_false_iff_not]
  rintro (rfl | rfl | rfl | rfl) <;> exact absurd h (by decide)

theorem scanScalar_natural {literal rest : JsString} (h : IsNatural literal)
    (hrest : Delimited rest) : scanScalar (literal ++ rest) = some (.number literal, rest) := by
  have hnumber := scanNumber_natural h hrest
  obtain ⟨unit, tail, rfl, hdigits, _⟩ := h
  have hunit := hdigits unit (mem_cons_self ..)
  have hword : ∀ first word, isDigit first = false →
      keyword (first :: word) (unit :: (tail ++ rest)) = none := fun first word hfirst =>
    keyword_of_ne (ne_of_isDigit hunit hfirst).symm word _
  rw [cons_append] at hnumber ⊢
  have hnull : keyword (ascii "null") (unit :: (tail ++ rest)) = none := hword 110 _ (by decide)
  have htrue : keyword (ascii "true") (unit :: (tail ++ rest)) = none := hword 116 _ (by decide)
  have hfalse : keyword (ascii "false") (unit :: (tail ++ rest)) = none := hword 102 _ (by decide)
  rw [scanScalar, hnull, htrue, hfalse, hnumber]
  rfl

/-- A written value starts with a unit that is no space and closes nothing. -/
theorem stringify_head {v : Json} (h : Written v) : ∃ unit rest, stringify v = unit :: rest ∧
    isSpace unit = false ∧ unit ≠ closeBracket := by
  cases h with
  | null => exact ⟨110, _, rfl, by decide, by decide⟩
  | bool value => cases value <;> exact ⟨_, _, rfl, by decide, by decide⟩
  | number hnatural =>
    obtain ⟨unit, tail, rfl, hdigits, _⟩ := hnatural
    have hunit := hdigits unit (mem_cons_self ..)
    exact ⟨unit, tail, by rw [stringify], isSpace_of_isDigit hunit,
      ne_of_isDigit hunit (by decide)⟩
  | string value => exact ⟨quotationMark, _, by rw [stringify, quote]; rfl, by decide, by decide⟩
  | array _ => exact ⟨openBracket, _, by rw [stringify]; rfl, by decide, by decide⟩
  | object _ => exact ⟨openBrace, _, by rw [stringify]; rfl, by decide, by decide⟩

end

variable {fuel : ℕ} {unit : CodeUnit}

/-- What the scan gives back with this much fuel: a value, a nonempty list of
items with its bracket, a nonempty list of members with its brace. -/
structure Scans (fuel : ℕ) : Prop where
  value : ∀ v, Written v → weight v ≤ fuel → ∀ rest, Delimited rest →
    scanValue fuel (stringify v ++ rest) = some (v, rest)
  items : ∀ item items, (∀ i ∈ item :: items, Written i) → weightItems (item :: items) ≤ fuel →
    ∀ rest, scanItems fuel (stringifyItems (item :: items) ++ closeBracket :: rest) =
      some (item :: items, rest)
  members : ∀ member members, (∀ m ∈ member :: members, Written m.2) →
    weightMembers (member :: members) ≤ fuel →
    ∀ rest, scanMembers fuel (stringifyMembers (member :: members) ++ closeBrace :: rest) =
      some (member :: members, rest)

theorem weight_pos (v : Json) : 0 < weight v := by
  cases v <;> simp only [weight] <;> omega

theorem delimited_cons (h : unit = comma ∨ unit = closeBracket ∨ unit = closeBrace)
    (rest : JsString) : Delimited (unit :: rest) := by
  intro u hu
  obtain rfl : unit = u := by simpa using hu
  exact h

theorem scanItems_written (ih : Scans fuel) (item : Json) (items : List Json)
    (hall : ∀ i ∈ item :: items, Written i) (hw : weightItems (item :: items) ≤ fuel + 1)
    (rest : JsString) : scanItems (fuel + 1) (stringifyItems (item :: items) ++
      closeBracket :: rest) = some (item :: items, rest) := by
  have hitem := hall item (mem_cons_self ..)
  rw [weightItems] at hw
  cases items with
  | nil =>
    rw [stringifyItems, scanItems, ih.value item hitem (by omega) _
      (delimited_cons (Or.inr (Or.inl rfl)) rest), bind_some,
      skipSpace_cons (by decide)]
    rfl
  | cons next items =>
    rw [stringifyItems, append_assoc, cons_append, scanItems,
      ih.value item hitem (by omega) _ (delimited_cons (Or.inl rfl) _), bind_some,
      skipSpace_cons (by decide)]
    simp only [if_true]
    rw [ih.items next items (fun i hi => hall i (mem_cons_of_mem _ hi)) (by omega) rest]
    rfl

theorem quote_append (text rest : JsString) : quote text ++ rest =
    quotationMark :: (quoteBody text ++ quotationMark :: rest) := by
  simp [quote]

/-- The key, the colon and the value of the next member are consumed. -/
theorem scanMembers_entry (ih : Scans fuel) {key : JsString} {value : Json}
    (hvalue : Written value) (hw : weight value ≤ fuel) (hspace : isSpace unit = false)
    (hunit : unit = comma ∨ unit = closeBracket ∨ unit = closeBrace) (rest : JsString) :
    scanMembers (fuel + 1) (quote key ++ colon :: (stringify value ++ unit :: rest)) =
      if unit = comma then (scanMembers fuel rest).map fun r => ((key, value) :: r.1, r.2)
      else if unit = closeBrace then some ([(key, value)], rest)
      else none := by
  rw [quote_append, scanMembers, expect_cons (by decide), bind_some, scanString_quoteBody,
    bind_some, expect_cons (by decide), bind_some,
    ih.value value hvalue hw _ (delimited_cons hunit rest), bind_some,
    skipSpace_cons hspace]

theorem scanMembers_written (ih : Scans fuel) (member : JsString × Json)
    (members : List (JsString × Json)) (hall : ∀ m ∈ member :: members, Written m.2)
    (hw : weightMembers (member :: members) ≤ fuel + 1) (rest : JsString) :
    scanMembers (fuel + 1) (stringifyMembers (member :: members) ++ closeBrace :: rest) =
      some (member :: members, rest) := by
  obtain ⟨key, value⟩ := member
  have hvalue : Written value := hall (key, value) (mem_cons_self ..)
  rw [weightMembers] at hw
  cases members with
  | nil =>
    rw [stringifyMembers, append_assoc, cons_append,
      scanMembers_entry ih hvalue (by omega) (by decide) (Or.inr (Or.inr rfl)),
      if_neg (by decide), if_pos rfl]
  | cons next members =>
    rw [stringifyMembers, append_assoc, append_assoc, cons_append,
      cons_append, scanMembers_entry ih hvalue (by omega) (by decide) (Or.inl rfl), if_pos rfl,
      ih.members next members (fun m hm => hall m (mem_cons_of_mem _ hm)) (by omega) rest]
    rfl

theorem stringifyItems_head {item : Json} {items : List Json}
    (h : ∀ i ∈ item :: items, Written i) : ∃ unit rest,
      stringifyItems (item :: items) = unit :: rest ∧ isSpace unit = false ∧
        unit ≠ closeBracket := by
  obtain ⟨unit, rest, hhead, hunit⟩ := stringify_head (h item (mem_cons_self ..))
  cases items with
  | nil => exact ⟨unit, rest, by rw [stringifyItems, hhead], hunit⟩
  | cons next items => exact ⟨unit, _, by rw [stringifyItems, hhead]; rfl, hunit⟩

theorem stringifyMembers_head (member : JsString × Json) (members : List (JsString × Json)) :
    ∃ rest, stringifyMembers (member :: members) = quotationMark :: rest := by
  obtain ⟨key, value⟩ := member
  cases members with
  | nil => exact ⟨_, by rw [stringifyMembers, quote]; rfl⟩
  | cons next members => exact ⟨_, by rw [stringifyMembers, quote]; rfl⟩

theorem scanValue_written (ih : Scans fuel) {v : Json} (hv : Written v) (hw : weight v ≤ fuel + 1)
    (rest : JsString) (hrest : Delimited rest) :
    scanValue (fuel + 1) (stringify v ++ rest) = some (v, rest) := by
  cases hv with
  | null =>
    rw [stringify, scanValue]
    have hscalar : scanScalar (ascii "null" ++ rest) = some (.null, rest) := by
      rw [scanScalar, keyword_append]
    exact hscalar
  | bool value =>
    cases value with
    | false =>
      rw [stringify, scanValue]
      have hscalar : scanScalar (ascii "false" ++ rest) = some (.bool false, rest) := by
        rw [scanScalar, show keyword (ascii "null") (ascii "false" ++ rest) = none from rfl,
          show keyword (ascii "true") (ascii "false" ++ rest) = none from rfl, keyword_append]
      exact hscalar
    | true =>
      rw [stringify, scanValue]
      have hscalar : scanScalar (ascii "true" ++ rest) = some (.bool true, rest) := by
        rw [scanScalar, show keyword (ascii "null") (ascii "true" ++ rest) = none from rfl,
          keyword_append]
      exact hscalar
  | number hnatural =>
    have hscalar := scanScalar_natural hnatural hrest
    obtain ⟨unit, tail, rfl, hdigits, _⟩ := hnatural
    have hunit := hdigits unit (mem_cons_self ..)
    rw [stringify]
    rw [cons_append] at hscalar ⊢
    rw [scanValue, skipSpace_cons (isSpace_of_isDigit hunit)]
    dsimp only
    rw [if_neg (ne_of_isDigit hunit (by decide)), if_neg (ne_of_isDigit hunit (by decide)),
      if_neg (ne_of_isDigit hunit (by decide)), hscalar]
  | string value =>
    have hbody := scanString_quoteBody value rest
    rw [stringify, quote_append, scanValue, skipSpace_cons (by decide)]
    dsimp only
    rw [if_pos rfl, hbody]
    rfl
  | @array items hitems =>
    rw [weight] at hw
    rw [stringify, append_assoc, cons_append, singleton_append, scanValue,
      skipSpace_cons (by decide)]
    dsimp only
    rw [if_neg (by decide), if_pos rfl]
    cases items with
    | nil =>
      rw [stringifyItems, nil_append, expect_cons (by decide)]
    | cons item items =>
      obtain ⟨unit, tail, hhead, hspace, hclose⟩ := stringifyItems_head hitems
      have hopen : expect closeBracket (stringifyItems (item :: items) ++ closeBracket :: rest) =
          none := by
        rw [hhead, cons_append, expect_of_ne hspace hclose]
      rw [hopen, ih.items item items hitems (by omega) rest]
      rfl
  | @object members hmembers =>
    rw [weight] at hw
    rw [stringify, append_assoc, cons_append, singleton_append, scanValue,
      skipSpace_cons (by decide)]
    dsimp only
    rw [if_neg (by decide), if_neg (by decide), if_pos rfl]
    cases members with
    | nil =>
      rw [stringifyMembers, nil_append, expect_cons (by decide)]
    | cons member members =>
      have hopen : expect closeBrace (stringifyMembers (member :: members) ++ closeBrace :: rest) =
          none := by
        obtain ⟨tail, hhead⟩ := stringifyMembers_head member members
        rw [hhead, cons_append, expect_of_ne (by decide) (by decide)]
      rw [hopen, ih.members member members hmembers (by omega) rest]
      rfl

theorem scans (fuel : ℕ) : Scans fuel := by
  induction fuel with
  | zero =>
    refine ⟨fun v _ hw => ?_, fun item items _ hw => ?_, fun member members _ hw => ?_⟩
    · have := weight_pos v
      omega
    · rw [weightItems] at hw
      omega
    · rw [weightMembers] at hw
      omega
  | succ fuel ih =>
    exact ⟨fun v hv hw rest hrest => scanValue_written ih hv hw rest hrest,
      fun item items => scanItems_written ih item items,
      fun member members => scanMembers_written ih member members⟩

mutual

theorem weight_le_length : ∀ v, Written v → weight v ≤ (stringify v).length
  | .null, _ => by decide
  | .bool value, _ => by cases value <;> decide
  | .number literal, h => by
      cases h with
      | number hnatural =>
        obtain ⟨unit, tail, rfl, _, _⟩ := hnatural
        simp [weight, stringify]
  | .string value, _ => by simp [weight, stringify, quote]
  | .array items, h => by
      cases h with
      | array hitems =>
        have := weightItems_le_length items hitems
        rw [weight, stringify]
        simp only [length_append, length_cons, length_nil]
        omega
  | .object members, h => by
      cases h with
      | object hmembers =>
        have := weightMembers_le_length members hmembers
        rw [weight, stringify]
        simp only [length_append, length_cons, length_nil]
        omega

theorem weightItems_le_length : ∀ items, (∀ i ∈ items, Written i) →
    weightItems items ≤ (stringifyItems items).length + 1
  | [], _ => by simp [weightItems]
  | [item], h => by
      have := weight_le_length item (h item (mem_cons_self ..))
      rw [weightItems, weightItems, stringifyItems]
      omega
  | item :: next :: rest, h => by
      have := weight_le_length item (h item (mem_cons_self ..))
      have := weightItems_le_length (next :: rest) fun i hi => h i (mem_cons_of_mem _ hi)
      have := weight_pos item
      rw [weightItems, stringifyItems, length_append, length_cons]
      omega

theorem weightMembers_le_length : ∀ members : List (JsString × Json),
    (∀ m ∈ members, Written m.2) →
    weightMembers members ≤ (stringifyMembers members).length + 1
  | [], _ => by simp [weightMembers]
  | [(key, value)], h => by
      have hvalue : Written value := h (key, value) (mem_cons_self ..)
      have := weight_le_length value hvalue
      rw [weightMembers, weightMembers, stringifyMembers, length_append, length_cons]
      omega
  | (key, value) :: next :: rest, h => by
      have hvalue : Written value := h (key, value) (mem_cons_self ..)
      have := weight_le_length value hvalue
      have := weightMembers_le_length (next :: rest) fun m hm => h m (mem_cons_of_mem _ hm)
      rw [weightMembers, stringifyMembers]
      simp only [length_append, length_cons]
      omega

end
variable {v : Json}

/-- The parser gives back every written value. -/
theorem parse_stringify (h : Written v) : parse (stringify v) = some v := by
  have hweight := weight_le_length v h
  have hscan := (scans (2 * (stringify v).length + 2)).value v h (by omega) []
    (fun unit hunit => by cases hunit)
  rw [append_nil] at hscan
  rw [parse, hscan]
  rfl

/-- The values whose number literals have no surrogates. -/
inductive Plain : Json → Prop
  | null : Plain .null
  | bool (value : Bool) : Plain (.bool value)
  | number {literal : JsString} : (∀ unit ∈ literal, unit.toNat < 0xD800) → Plain (.number literal)
  | string (value : JsString) : Plain (.string value)
  | array {items : List Json} : (∀ item ∈ items, Plain item) → Plain (.array items)
  | object {members : List (JsString × Json)} :
      (∀ member ∈ members, Plain member.2) → Plain (.object members)

theorem Written.plain (h : Written v) : Plain v := by
  induction h with
  | null => exact .null
  | bool value => exact .bool value
  | number hnatural =>
    obtain ⟨unit, tail, rfl, hdigits, _⟩ := hnatural
    refine .number fun u hu => ?_
    have hdigit : 48 ≤ u.toNat ∧ u.toNat ≤ 57 := by simpa [isDigit] using hdigits u hu
    omega
  | string value => exact .string value
  | array _ ih => exact .array ih
  | object _ ih => exact .object ih

mutual

/-- A written text has no surrogate without a partner. -/
theorem isWellFormed_stringify : ∀ v, Plain v → isWellFormed (stringify v) = true
  | .null, _ => by decide
  | .bool value, _ => by cases value <;> decide
  | .number literal, h => by
      cases h with
      | number hsmall =>
        rw [stringify]
        exact isWellFormed_of_small hsmall
  | .string value, _ => by
      rw [stringify]
      exact isWellFormed_quote value
  | .array items, h => by
      cases h with
      | array hitems =>
        have hbody := isWellFormed_stringifyItems items hitems
        rw [stringify, cons_append, isWellFormed_cons (by decide)]
        exact isWellFormed_append hbody (by decide)
  | .object members, h => by
      cases h with
      | object hmembers =>
        have hbody := isWellFormed_stringifyMembers members hmembers
        rw [stringify, cons_append, isWellFormed_cons (by decide)]
        exact isWellFormed_append hbody (by decide)

theorem isWellFormed_stringifyItems : ∀ items, (∀ i ∈ items, Plain i) →
    isWellFormed (stringifyItems items) = true
  | [], _ => rfl
  | [item], h => by
      rw [stringifyItems]
      exact isWellFormed_stringify item (h item (mem_cons_self ..))
  | item :: next :: rest, h => by
      have hitem := isWellFormed_stringify item (h item (mem_cons_self ..))
      have hrest := isWellFormed_stringifyItems (next :: rest) fun i hi =>
        h i (mem_cons_of_mem _ hi)
      rw [stringifyItems]
      apply isWellFormed_append hitem
      rw [isWellFormed_cons (by decide), hrest]

theorem isWellFormed_stringifyMembers : ∀ members : List (JsString × Json),
    (∀ m ∈ members, Plain m.2) → isWellFormed (stringifyMembers members) = true
  | [], _ => rfl
  | [(key, value)], h => by
      have hmember : Plain value := h (key, value) (mem_cons_self ..)
      have hvalue := isWellFormed_stringify value hmember
      rw [stringifyMembers]
      apply isWellFormed_append (isWellFormed_quote key)
      rw [isWellFormed_cons (by decide), hvalue]
  | (key, value) :: next :: rest, h => by
      have hmember : Plain value := h (key, value) (mem_cons_self ..)
      have hvalue := isWellFormed_stringify value hmember
      have hrest := isWellFormed_stringifyMembers (next :: rest) fun m hm =>
        h m (mem_cons_of_mem _ hm)
      rw [stringifyMembers, append_assoc]
      apply isWellFormed_append (isWellFormed_quote key)
      rw [cons_append, isWellFormed_cons (by decide)]
      apply isWellFormed_append hvalue
      rw [isWellFormed_cons (by decide), hrest]

end

/-- The bytes of a written text decode and parse to the value. -/
theorem parse_decodeUtf8_stringify {v : Json} (h : Written v) :
    (decodeUtf8 (encodeUtf8 (stringify v))).bind parse = some v := by
  have hmark : (stringify v).head? ≠ some 0xFEFF := by
    cases h with
    | null => decide
    | bool value => cases value <;> decide
    | number hnatural =>
      obtain ⟨unit, tail, rfl, hdigits, _⟩ := hnatural
      have hunit := hdigits unit (mem_cons_self ..)
      rw [stringify, List.head?_cons]
      intro heq
      rw [some.inj heq] at hunit
      exact absurd hunit (by decide)
    | string value => rw [stringify, quote]; exact by simp [quotationMark]
    | array _ => rw [stringify]; exact by simp [openBracket]
    | object _ => rw [stringify]; exact by simp [openBrace]
  rw [decodeUtf8_encodeUtf8 (isWellFormed_stringify v h.plain) hmark, bind_some,
    parse_stringify h]

end Havemind.JsonText
