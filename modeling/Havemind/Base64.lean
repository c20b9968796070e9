import Havemind.JsText

/-!
Standard base64 over UTF-16 strings, as `btoa` and `atob` read and write it:
the decoder skips ASCII whitespace, accepts missing padding and ignores the
bits left over. Three bytes are four sextets, so texts cut at multiples of
four units decode piece by piece.
-/
namespace Havemind.Base64

open JsText List

abbrev Byte := UInt8

def padding : CodeUnit := 61

def unitOfSextet (n : ℕ) : CodeUnit :=
  UInt16.ofNat (if n < 26 then 65 + n else if n < 52 then 71 + n else if n < 62 then n - 4
    else if n = 62 then 43 else 47)

def sextetOfUnit (unit : CodeUnit) : Option ℕ :=
  let n := unit.toNat
  if 65 ≤ n ∧ n ≤ 90 then some (n - 65)
  else if 97 ≤ n ∧ n ≤ 122 then some (n - 71)
  else if 48 ≤ n ∧ n ≤ 57 then some (n + 4)
  else if n = 43 then some 62
  else if n = 47 then some 63
  else none

/-- `btoa` of the binary string of the bytes. -/
def btoa : List Byte → JsString
  | [] => []
  | [a] => [unitOfSextet (a.toNat / 4), unitOfSextet (a.toNat % 4 * 16), padding, padding]
  | [a, b] =>
      [unitOfSextet (a.toNat / 4), unitOfSextet (a.toNat % 4 * 16 + b.toNat / 16),
        unitOfSextet (b.toNat % 16 * 4), padding]
  | a :: b :: c :: rest =>
      unitOfSextet (a.toNat / 4) :: unitOfSextet (a.toNat % 4 * 16 + b.toNat / 16) ::
        unitOfSextet (b.toNat % 16 * 4 + c.toNat / 64) :: unitOfSextet (c.toNat % 64) :: btoa rest

/-- The bytes of a run of sextets; bits that fill no byte are dropped. -/
def bytesOfSextets : List ℕ → List Byte
  | a :: b :: c :: d :: rest =>
      UInt8.ofNat (a * 4 + b / 16) :: UInt8.ofNat (b % 16 * 16 + c / 4) ::
        UInt8.ofNat (c % 4 * 64 + d) :: bytesOfSextets rest
  | [a, b, c] => [UInt8.ofNat (a * 4 + b / 16), UInt8.ofNat (b % 16 * 16 + c / 4)]
  | [a, b] => [UInt8.ofNat (a * 4 + b / 16)]
  | _ => []

def isAsciiWhitespace (unit : CodeUnit) : Bool :=
  unit = 9 ∨ unit = 10 ∨ unit = 12 ∨ unit = 13 ∨ unit = 32

/-- Up to two padding units at the end of a text of full groups. -/
def withoutPadding (text : JsString) : JsString :=
  if text.length % 4 = 0 then
    if text.getLast? = some padding then
      if text.dropLast.getLast? = some padding then text.dropLast.dropLast else text.dropLast
    else text
  else text

def atob (text : JsString) : Option (List Byte) :=
  let units := withoutPadding (text.filter fun unit => !isAsciiWhitespace unit)
  if units.length % 4 = 1 then none else (units.mapM sextetOfUnit).map bytesOfSextets

theorem sextetOfUnit_unitOfSextet : ∀ n < 64, sextetOfUnit (unitOfSextet n) = some n := by decide

theorem unitOfSextet_kept : ∀ n < 64, isAsciiWhitespace (unitOfSextet n) = false ∧
    unitOfSextet n ≠ padding := by decide

/-- The sextets of the bytes, before they become units. -/
def sextets : List Byte → List ℕ
  | [] => []
  | [a] => [a.toNat / 4, a.toNat % 4 * 16]
  | [a, b] => [a.toNat / 4, a.toNat % 4 * 16 + b.toNat / 16, b.toNat % 16 * 4]
  | a :: b :: c :: rest =>
      a.toNat / 4 :: (a.toNat % 4 * 16 + b.toNat / 16) :: (b.toNat % 16 * 4 + c.toNat / 64) ::
        c.toNat % 64 :: sextets rest

/-- The number of padding units behind them. -/
def paddingLength (bytes : List Byte) : ℕ := (3 - bytes.length % 3) % 3

theorem btoa_eq (bytes : List Byte) : btoa bytes =
    (sextets bytes).map unitOfSextet ++ List.replicate (paddingLength bytes) padding := by
  induction bytes using btoa.induct with
  | case1 => rfl
  | case2 a => rfl
  | case3 a b => rfl
  | case4 a b c rest ih =>
    have hlength : paddingLength (a :: b :: c :: rest) = paddingLength rest := by
      unfold paddingLength
      simp only [length_cons]
      omega
    rw [btoa, sextets, ih, hlength]
    rfl

theorem sextets_lt (bytes : List Byte) : ∀ n ∈ sextets bytes, n < 64 := by
  induction bytes using btoa.induct with
  | case1 => simp [sextets]
  | case2 a =>
    have ha := a.toNat_lt
    simp only [sextets, mem_cons, not_mem_nil, or_false]
    omega
  | case3 a b =>
    have ha := a.toNat_lt
    have hb := b.toNat_lt
    simp only [sextets, mem_cons, not_mem_nil, or_false]
    omega
  | case4 a b c rest ih =>
    have ha := a.toNat_lt
    have hb := b.toNat_lt
    have hc := c.toNat_lt
    intro n hn
    simp only [sextets, mem_cons] at hn
    rcases hn with rfl | rfl | rfl | rfl | hn
    · omega
    · omega
    · omega
    · omega
    · exact ih n hn

theorem sextets_length (bytes : List Byte) :
    (sextets bytes).length = bytes.length / 3 * 4 +
      if bytes.length % 3 = 0 then 0 else bytes.length % 3 + 1 := by
  induction bytes using btoa.induct with
  | case1 => rfl
  | case2 a => simp [sextets]
  | case3 a b => simp [sextets]
  | case4 a b c rest ih =>
    rw [sextets]
    simp only [length_cons, ih]
    split <;> split <;> omega

theorem bytesOfSextets_sextets (bytes : List Byte) : bytesOfSextets (sextets bytes) = bytes := by
  have hbyte : ∀ {n : ℕ} {a : Byte}, n = a.toNat → UInt8.ofNat n = a := by
    rintro n a rfl
    exact UInt8.ofNat_toNat
  induction bytes using btoa.induct with
  | case1 => rfl
  | case2 a =>
    have ha := a.toNat_lt
    rw [sextets, bytesOfSextets, hbyte (a := a) (by omega)]
  | case3 a b =>
    have ha := a.toNat_lt
    have hb := b.toNat_lt
    rw [sextets, bytesOfSextets, hbyte (a := a) (by omega), hbyte (a := b) (by omega)]
  | case4 a b c rest ih =>
    have ha := a.toNat_lt
    have hb := b.toNat_lt
    have hc := c.toNat_lt
    rw [sextets, bytesOfSextets, ih, hbyte (a := a) (by omega), hbyte (a := b) (by omega),
      hbyte (a := c) (by omega)]

theorem mapM_sextetOfUnit {ns : List ℕ} (h : ∀ n ∈ ns, n < 64) :
    (ns.map unitOfSextet).mapM sextetOfUnit = some ns := by
  induction ns with
  | nil => rfl
  | cons n ns ih =>
    have hn := sextetOfUnit_unitOfSextet n (h n (mem_cons_self ..))
    rw [map_cons, mapM_cons, hn, ih fun m hm => h m (mem_cons_of_mem _ hm)]
    rfl

theorem withoutPadding_append {units : JsString} {k : ℕ} (hk : k ≤ 2)
    (hfull : (units.length + k) % 4 = 0) (hlast : units.getLast? ≠ some padding) :
    withoutPadding (units ++ List.replicate k padding) = units := by
  have hlength : (units ++ List.replicate k padding).length % 4 = 0 := by
    rw [length_append, length_replicate]
    exact hfull
  rw [withoutPadding, if_pos hlength]
  obtain rfl | rfl | rfl : k = 0 ∨ k = 1 ∨ k = 2 := by omega
  · rw [replicate_zero, append_nil, if_neg hlast]
  · rw [replicate_one, List.getLast?_concat, if_pos rfl, dropLast_concat,
      if_neg hlast]
  · have hsplit : units ++ List.replicate 2 padding = units ++ [padding] ++ [padding] := by simp
    rw [hsplit, List.getLast?_concat, if_pos rfl, dropLast_concat, List.getLast?_concat,
      if_pos rfl, dropLast_concat]

theorem getLast?_units {ns : List ℕ} (h : ∀ n ∈ ns, n < 64) :
    (ns.map unitOfSextet).getLast? ≠ some padding := by
  intro hlast
  obtain ⟨n, hn, heq⟩ := mem_map.mp (mem_of_getLast? hlast)
  exact (unitOfSextet_kept n (h n hn)).2 heq

theorem atob_btoa (bytes : List Byte) : atob (btoa bytes) = some bytes := by
  have hlt := sextets_lt bytes
  have hlength := sextets_length bytes
  have hkept : (btoa bytes).filter (fun unit => !isAsciiWhitespace unit) = btoa bytes := by
    apply filter_eq_self.mpr
    intro unit hunit
    rw [btoa_eq, mem_append] at hunit
    rcases hunit with hmap | hpad
    · obtain ⟨n, hn, rfl⟩ := mem_map.mp hmap
      rw [(unitOfSextet_kept n (hlt n hn)).1]
      rfl
    · rw [eq_of_mem_replicate hpad]
      decide
  have hstrip : withoutPadding (btoa bytes) = (sextets bytes).map unitOfSextet := by
    rw [btoa_eq]
    apply withoutPadding_append
    · unfold paddingLength
      omega
    · rw [length_map, hlength]
      unfold paddingLength
      split <;> omega
    · exact getLast?_units hlt
  rw [atob]
  simp only [hkept, hstrip, mapM_sextetOfUnit hlt, Option.map_some, bytesOfSextets_sextets]
  rw [if_neg]
  rw [length_map, hlength]
  split <;> omega

end Havemind.Base64
