import Havemind.JsText

/-!
Strings of UTF-16 code units and their UTF-8 bytes. An encoder reads the
scalar values of a string and replaces a surrogate that has no partner; a
strict decoder accepts exactly the encodings of scalar values. On a string
whose surrogates are paired the two are inverse.
-/
namespace Havemind.Utf16

open JsText List

abbrev Byte := UInt8

section
variable {unit high low : CodeUnit} {text : JsString}

def isHighSurrogate (unit : CodeUnit) : Bool := 0xD800 ≤ unit.toNat ∧ unit.toNat < 0xDC00

def isLowSurrogate (unit : CodeUnit) : Bool := 0xDC00 ≤ unit.toNat ∧ unit.toNat < 0xE000

def isSurrogate (unit : CodeUnit) : Bool := 0xD800 ≤ unit.toNat ∧ unit.toNat < 0xE000

def replacementCharacter : Char := Char.ofNat 0xFFFD

def scalarOfPair (high low : CodeUnit) : Char :=
  Char.ofNat (0x10000 + (high.toNat - 0xD800) * 0x400 + (low.toNat - 0xDC00))

def scalarOfUnit (unit : CodeUnit) : Char :=
  if isSurrogate unit then replacementCharacter else Char.ofNat unit.toNat

/-- The scalar values an encoder reads. -/
def scalars : JsString → List Char
  | [] => []
  | [unit] => [scalarOfUnit unit]
  | unit :: next :: rest =>
      if isHighSurrogate unit ∧ isLowSurrogate next then scalarOfPair unit next :: scalars rest
      else scalarOfUnit unit :: scalars (next :: rest)

/-- Every surrogate of the string has its partner. -/
def isWellFormed : JsString → Bool
  | [] => true
  | [unit] => !isSurrogate unit
  | unit :: next :: rest =>
      if isHighSurrogate unit ∧ isLowSurrogate next then isWellFormed rest
      else !isSurrogate unit && isWellFormed (next :: rest)

def unitsOf (scalar : Char) : JsString :=
  if scalar.toNat < 0x10000 then [UInt16.ofNat scalar.toNat]
  else [UInt16.ofNat (0xD800 + (scalar.toNat - 0x10000) / 0x400),
    UInt16.ofNat (0xDC00 + (scalar.toNat - 0x10000) % 0x400)]

theorem toNat_ofNat_of_valid {n : ℕ} (h : n < 0xD800 ∨ 0xDFFF < n ∧ n < 0x110000) :
    (Char.ofNat n).toNat = n := by
  have hvalid : n.isValidChar := h
  rw [Char.ofNat, dif_pos hvalid]
  rfl

theorem unitsOf_scalarOfUnit (h : isSurrogate unit = false) :
    unitsOf (scalarOfUnit unit) = [unit] := by
  have hlt := unit.toNat_lt
  have hout : ¬ (0xD800 ≤ unit.toNat ∧ unit.toNat < 0xE000) := by simpa [isSurrogate] using h
  have hnat : (Char.ofNat unit.toNat).toNat = unit.toNat := toNat_ofNat_of_valid (by omega)
  rw [scalarOfUnit, if_neg (by simp [h]), unitsOf, hnat, if_pos (by omega), UInt16.ofNat_toNat]

theorem unitsOf_scalarOfPair (hh : isHighSurrogate high = true) (hl : isLowSurrogate low = true) :
    unitsOf (scalarOfPair high low) = [high, low] := by
  have hhigh : 0xD800 ≤ high.toNat ∧ high.toNat < 0xDC00 := by simpa [isHighSurrogate] using hh
  have hlow : 0xDC00 ≤ low.toNat ∧ low.toNat < 0xE000 := by simpa [isLowSurrogate] using hl
  have hnat : (scalarOfPair high low).toNat =
      0x10000 + (high.toNat - 0xD800) * 0x400 + (low.toNat - 0xDC00) :=
    toNat_ofNat_of_valid (by omega)
  have hdiv : 0xD800 + ((scalarOfPair high low).toNat - 0x10000) / 0x400 = high.toNat := by omega
  have hmod : 0xDC00 + ((scalarOfPair high low).toNat - 0x10000) % 0x400 = low.toNat := by omega
  rw [unitsOf, if_neg (by omega), hdiv, hmod, UInt16.ofNat_toNat, UInt16.ofNat_toNat]

theorem flatMap_unitsOf_scalars (h : isWellFormed text = true) :
    (scalars text).flatMap unitsOf = text := by
  induction text using scalars.induct with
  | case1 => rfl
  | case2 unit =>
    have hunit : isSurrogate unit = false := by simpa [isWellFormed] using h
    rw [scalars, flatMap_singleton, unitsOf_scalarOfUnit hunit]
  | case3 unit next rest hpair ih =>
    rw [isWellFormed, if_pos hpair] at h
    rw [scalars, if_pos hpair, flatMap_cons, ih h, unitsOf_scalarOfPair hpair.1 hpair.2]
    rfl
  | case4 unit next rest hpair ih =>
    rw [isWellFormed, if_neg hpair, Bool.and_eq_true, Bool.not_eq_true'] at h
    rw [scalars, if_neg hpair, flatMap_cons, ih h.2, unitsOf_scalarOfUnit h.1]
    rfl

theorem isWellFormed_cons (hunit : isSurrogate unit = false) (text : JsString) :
    isWellFormed (unit :: text) = isWellFormed text := by
  have hhigh : ¬ isHighSurrogate unit = true := by
    simp only [isSurrogate, isHighSurrogate, decide_eq_false_iff_not, decide_eq_true_eq] at hunit ⊢
    omega
  cases text with
  | nil => simp [isWellFormed, hunit]
  | cons next rest =>
    rw [isWellFormed, if_neg fun h => hhigh h.1, hunit]
    rfl

theorem isWellFormed_pair (hh : isHighSurrogate high = true) (hl : isLowSurrogate low = true)
    (text : JsString) : isWellFormed (high :: low :: text) = isWellFormed text := by
  rw [isWellFormed, if_pos ⟨hh, hl⟩]

theorem isWellFormed_append {rest : JsString} (ht : isWellFormed text = true)
    (hr : isWellFormed rest = true) : isWellFormed (text ++ rest) = true := by
  induction text using scalars.induct with
  | case1 => exact hr
  | case2 unit =>
    have hunit : isSurrogate unit = false := by simpa [isWellFormed] using ht
    rw [singleton_append, isWellFormed_cons hunit, hr]
  | case3 unit next tail hpair ih =>
    rw [isWellFormed, if_pos hpair] at ht
    rw [cons_append, cons_append, isWellFormed_pair hpair.1 hpair.2, ih ht]
  | case4 unit next tail hpair ih =>
    rw [isWellFormed, if_neg hpair, Bool.and_eq_true, Bool.not_eq_true'] at ht
    rw [cons_append, isWellFormed_cons ht.1, ih ht.2]

end

/-- `TextEncoder.encode`. -/
def encodeUtf8 (text : JsString) : List Byte := (scalars text).flatMap String.utf8EncodeChar

theorem encodeUtf8_inj {text other : JsString} (htext : isWellFormed text = true)
    (hother : isWellFormed other = true) : encodeUtf8 text = encodeUtf8 other ↔ text = other := by
  constructor
  · intro h
    have hdecode : ∀ text : JsString, (encodeUtf8 text).toByteArray.utf8Decode? =
        some (scalars text).toArray := fun _ => List.utf8Decode?_utf8Encode
    have hscalars : (scalars text).toArray = (scalars other).toArray := by
      rw [← Option.some_inj, ← hdecode, ← hdecode, h]
    have hsame : scalars text = scalars other := congrArg Array.toList hscalars
    rw [← flatMap_unitsOf_scalars htext, ← flatMap_unitsOf_scalars hother, hsame]
  · intro h
    rw [h]

/-- `TextDecoder.decode` of a fatal decoder: bytes that are not UTF-8 fail, and
one leading byte order mark is dropped. -/
def decodeUtf8 (bytes : List Byte) : Option JsString :=
  bytes.toByteArray.utf8Decode?.map fun chars =>
    match chars.toList with
    | [] => []
    | scalar :: rest =>
        if scalar.toNat = 0xFEFF then rest.flatMap unitsOf else (scalar :: rest).flatMap unitsOf

theorem decodeUtf8_encodeUtf8 {text : JsString} (hwell : isWellFormed text = true)
    (hmark : text.head? ≠ some 0xFEFF) : decodeUtf8 (encodeUtf8 text) = some text := by
  have hdecode : (encodeUtf8 text).toByteArray.utf8Decode? = some (scalars text).toArray :=
    List.utf8Decode?_utf8Encode
  have hback := flatMap_unitsOf_scalars hwell
  rw [decodeUtf8, hdecode, Option.map_some]
  congr 1
  cases hscalars : scalars text with
  | nil =>
    rw [hscalars] at hback
    exact hback
  | cons scalar rest =>
    rw [hscalars] at hback
    have hkept : ¬ scalar.toNat = 0xFEFF := by
      intro heq
      rw [flatMap_cons, unitsOf, if_pos (by omega), heq] at hback
      rw [← hback] at hmark
      exact hmark rfl
    simp only
    rw [if_neg hkept, hback]

end Havemind.Utf16
