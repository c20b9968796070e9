import Havemind.PayloadCodec

/-!
Attachments in base64, a slice at a time. Every cut falls between two groups of four
units, so the slices of a canonical text decode to consecutive pieces of what the whole
text decodes to, and only the last one has padding.
-/
namespace Havemind.Base64Slices

open JsText JsonText PayloadCodec Base64 List Option

section
variable {value body : JsString} {k : ℕ} {unit : CodeUnit}

def alphabet : JsString := ascii "ABCDEFGHIJKLMNOPQRSTUVWXYZabcdefghijklmnopqrstuvwxyz0123456789+/"

/-- Whole groups of four units of the alphabet, and at most one final group that is padded. -/
inductive Grouped : JsString → Prop
  | empty : Grouped []
  | twoPadded {a b : CodeUnit} : a ∈ alphabet → b ∈ alphabet → Grouped [a, b, padding, padding]
  | onePadded {a b c : CodeUnit} : a ∈ alphabet → b ∈ alphabet → c ∈ alphabet →
      Grouped [a, b, c, padding]
  | group {a b c d : CodeUnit} {rest : JsString} : a ∈ alphabet → b ∈ alphabet → c ∈ alphabet →
      d ∈ alphabet → Grouped rest → Grouped (a :: b :: c :: d :: rest)

/-- Units of the alphabet and up to two padding units behind them fill the groups. -/
structure Padded (body : JsString) (k : ℕ) : Prop where
  units : ∀ unit ∈ body, isBase64Unit unit = true
  most : k ≤ 2
  full : (body.length + k) % 4 = 0

theorem isBase64Unit_iff (unit : CodeUnit) : isBase64Unit unit = true ↔ unit ∈ alphabet := by
  have hsmall : ∀ n < 128, isBase64Unit (UInt16.ofNat n) = decide (UInt16.ofNat n ∈ alphabet) := by
    decide +kernel
  have hbound : ∀ unit ∈ alphabet, unit.toNat < 128 := by
    have hall : alphabet.all (fun unit => decide (unit.toNat < 128)) = true := by decide
    exact fun unit hmem => of_decide_eq_true (all_eq_true.mp hall unit hmem)
  by_cases hunit : unit.toNat < 128
  · have hsame := hsmall unit.toNat hunit
    rw [UInt16.ofNat_toNat] at hsame
    rw [hsame, decide_eq_true_eq]
  · constructor
    · intro hcode
      unfold isBase64Unit at hcode
      have hrange := of_decide_eq_true hcode
      omega
    · intro hmem
      exact absurd (hbound unit hmem) hunit

theorem isSome_sextetOfUnit (h : isBase64Unit unit = true) : (sextetOfUnit unit).isSome = true := by
  have hall : alphabet.all (fun unit => (sextetOfUnit unit).isSome) = true := by decide
  exact all_eq_true.mp hall unit ((isBase64Unit_iff unit).mp h)

theorem isBase64Unit_kept (h : isBase64Unit unit = true) :
    isAsciiWhitespace unit = false ∧ unit ≠ padding := by
  have hall : alphabet.all (fun unit =>
      decide (isAsciiWhitespace unit = false ∧ unit ≠ padding)) = true := by decide
  exact of_decide_eq_true (all_eq_true.mp hall unit ((isBase64Unit_iff unit).mp h))

theorem Padded.getLast? (h : Padded body k) : body.getLast? ≠ some padding := by
  intro hlast
  exact (isBase64Unit_kept (h.units padding (mem_of_getLast? hlast))).2 rfl

theorem Padded.withoutPadding_eq (h : Padded body k) :
    withoutPadding (body ++ List.replicate k padding) = body :=
  withoutPadding_append h.most h.full h.getLast?

theorem getElem?_length_sub_two (value : JsString) :
    value.dropLast.getLast? = if 2 ≤ value.length then value[value.length - 2]? else none := by
  rw [List.getLast?_eq_getElem?, length_dropLast, List.getElem?_dropLast]
  by_cases hlength : 2 ≤ value.length
  · rw [if_pos hlength, if_pos (by omega)]
    rfl
  · rw [if_neg hlength, if_neg (by omega)]

/-- The units the check looks at are those in front of the padding. -/
theorem isCanonicalBase64_iff (value : JsString) : isCanonicalBase64 value = true ↔
    value.length % 4 = 0 ∧ ∀ unit ∈ withoutPadding value, isBase64Unit unit = true := by
  unfold isCanonicalBase64
  dsimp only
  rw [decide_eq_true_eq, List.all_eq_true]
  apply and_congr_right
  intro hfour
  have hpadding : padding = 0x3d := rfl
  unfold withoutPadding
  rw [if_pos hfour, getElem?_length_sub_two, ← List.getLast?_eq_getElem?, hpadding]
  by_cases hempty : value.length = 0
  · rw [length_eq_zero_iff.mp hempty]
    simp
  · by_cases hlast : value.getLast? = some 0x3d
    · have htwo : 2 ≤ value.length := by omega
      rw [if_pos ⟨by omega, hlast⟩, if_pos hlast, if_pos htwo]
      by_cases hbefore : value[value.length - 2]? = some 0x3d
      · rw [if_pos hbefore, if_pos hbefore, dropLast_eq_take, dropLast_eq_take,
          take_take, length_take]
        have hmin : min (min (value.length - 1) value.length - 1) (value.length - 1) =
            value.length - 2 := by omega
        rw [hmin]
      · rw [if_neg hbefore, if_neg hbefore, dropLast_eq_take]
    · rw [if_neg fun h => hlast h.2, if_neg hlast, take_length]

theorem exists_withoutPadding (hfour : value.length % 4 = 0) :
    ∃ k ≤ 2, value = withoutPadding value ++ List.replicate k padding := by
  have hlast : ∀ {text : JsString}, text.getLast? = some padding →
      text.dropLast ++ [padding] = text := by
    intro text h
    obtain ⟨init, rfl⟩ := List.getLast?_eq_some_iff.mp h
    rw [dropLast_concat]
  unfold withoutPadding
  rw [if_pos hfour]
  by_cases hone : value.getLast? = some padding
  · rw [if_pos hone]
    by_cases htwo : value.dropLast.getLast? = some padding
    · rw [if_pos htwo]
      refine ⟨2, Nat.le_refl _, ?_⟩
      rw [replicate_succ, replicate_one, ← singleton_append, ← append_assoc,
        hlast htwo, hlast hone]
    · rw [if_neg htwo]
      exact ⟨1, by omega, (hlast hone).symm⟩
  · rw [if_neg hone]
    exact ⟨0, by omega, (append_nil _).symm⟩

theorem isCanonicalBase64_iff_padded : isCanonicalBase64 value = true ↔
    ∃ body k, Padded body k ∧ value = body ++ List.replicate k padding := by
  rw [isCanonicalBase64_iff]
  constructor
  · rintro ⟨hfour, hunits⟩
    obtain ⟨k, hk, hvalue⟩ := exists_withoutPadding hfour
    refine ⟨withoutPadding value, k, ⟨hunits, hk, ?_⟩, hvalue⟩
    have hlength := congrArg List.length hvalue
    rw [length_append, length_replicate] at hlength
    omega
  · rintro ⟨body, k, h, rfl⟩
    rw [h.withoutPadding_eq, length_append, length_replicate]
    exact ⟨h.full, h.units⟩

theorem grouped_iff_padded : Grouped value ↔
    ∃ body k, Padded body k ∧ value = body ++ List.replicate k padding := by
  constructor
  · intro h
    induction h with
    | empty => exact ⟨[], 0, ⟨fun _ hmem => absurd hmem not_mem_nil, by omega, rfl⟩, rfl⟩
    | @twoPadded a b ha hb =>
      refine ⟨[a, b], 2, ⟨?_, Nat.le_refl _, Nat.mod_self 4⟩, rfl⟩
      simpa [isBase64Unit_iff] using ⟨ha, hb⟩
    | @onePadded a b c ha hb hc =>
      refine ⟨[a, b, c], 1, ⟨?_, by omega, Nat.mod_self 4⟩, rfl⟩
      simpa [isBase64Unit_iff] using ⟨ha, hb, hc⟩
    | @group a b c d rest ha hb hc hd _ ih =>
      obtain ⟨body, k, h, rfl⟩ := ih
      refine ⟨a :: b :: c :: d :: body, k, ⟨?_, h.most, ?_⟩, rfl⟩
      · simp only [mem_cons, forall_eq_or_imp, isBase64Unit_iff]
        exact ⟨ha, hb, hc, hd, fun unit hmem => (isBase64Unit_iff unit).mp (h.units unit hmem)⟩
      · have hfull := h.full
        simp only [length_cons]
        omega
  · rintro ⟨body, k, h, rfl⟩
    induction hlength : body.length using Nat.strongRecOn generalizing body with
    | ind length ih =>
      have hfull := h.full
      have hmost := h.most
      have hunits : ∀ unit ∈ body, unit ∈ alphabet :=
        fun unit hmem => (isBase64Unit_iff unit).mp (h.units unit hmem)
      rcases body with _ | ⟨a, _ | ⟨b, _ | ⟨c, _ | ⟨d, rest⟩⟩⟩⟩
      · have hnone : k = 0 := by
          rw [length_nil] at hfull
          omega
        rw [hnone]
        exact .empty
      · rw [length_singleton] at hfull
        omega
      · have htwo : k = 2 := by
          simp only [length_cons, length_nil] at hfull
          omega
        rw [htwo]
        exact .twoPadded (hunits a (by simp)) (hunits b (by simp))
      · have hone : k = 1 := by
          simp only [length_cons, length_nil] at hfull
          omega
        rw [hone]
        exact .onePadded (hunits a (by simp)) (hunits b (by simp)) (hunits c (by simp))
      · simp only [length_cons] at hfull hlength
        have hrest : Padded rest k :=
          ⟨fun unit hmem => h.units unit (by simp [hmem]), hmost, by omega⟩
        have hgroups := ih rest.length (by omega) rest hrest rfl
        exact .group (hunits a (by simp)) (hunits b (by simp)) (hunits c (by simp))
          (hunits d (by simp)) hgroups

end

section
variable {body : JsString} {k : ℕ} {ns : List ℕ} {size : ℕ}

theorem slices_nil {α : Type} (size fuel : ℕ) : slices size fuel ([] : List α) = [] := by
  cases fuel with
  | zero => rfl
  | succ fuel => rfl

/-- What units of the alphabet stand for. -/
theorem mapM_sextetOfUnit_of_units (h : ∀ unit ∈ body, isBase64Unit unit = true) :
    ∃ ns : List ℕ, body.mapM sextetOfUnit = some ns ∧ ns.length = body.length := by
  induction body with
  | nil => exact ⟨[], rfl, rfl⟩
  | cons unit rest ih =>
    obtain ⟨hunit, hrest⟩ := forall_mem_cons.mp h
    obtain ⟨n, hn⟩ := isSome_iff_exists.mp (isSome_sextetOfUnit hunit)
    obtain ⟨ns, hns, hlength⟩ := ih hrest
    refine ⟨n :: ns, ?_, by rw [length_cons, length_cons, hlength]⟩
    rw [mapM_cons, hn, hns]
    rfl

theorem bytesOfSextets_append {ms : List ℕ} (hns : ns.length % 4 = 0) :
    bytesOfSextets (ns ++ ms) = bytesOfSextets ns ++ bytesOfSextets ms := by
  induction ns using bytesOfSextets.induct with
  | case1 a b c d rest ih =>
    have hrest : rest.length % 4 = 0 := by
      simp only [length_cons] at hns
      omega
    simp only [cons_append, bytesOfSextets, ih hrest]
  | case2 a b c => simp at hns
  | case3 a b => simp at hns
  | case4 ns hfour hthree htwo =>
    rcases ns with _ | ⟨a, _ | ⟨b, _ | ⟨c, _ | ⟨d, rest⟩⟩⟩⟩
    · rfl
    · simp at hns
    · exact absurd rfl (htwo a b)
    · exact absurd rfl (hthree a b c)
    · exact absurd rfl (hfour a b c d rest)

theorem bytesOfSextets_length (ns : List ℕ) : (bytesOfSextets ns).length = ns.length * 3 / 4 := by
  induction ns using bytesOfSextets.induct with
  | case1 a b c d rest ih =>
    simp only [bytesOfSextets, length_cons, ih]
    omega
  | case2 a b c => simp [bytesOfSextets]
  | case3 a b => simp [bytesOfSextets]
  | case4 ns hfour hthree htwo =>
    rcases ns with _ | ⟨a, _ | ⟨b, _ | ⟨c, _ | ⟨d, rest⟩⟩⟩⟩
    · rfl
    · simp [bytesOfSextets]
    · exact absurd rfl (htwo a b)
    · exact absurd rfl (hthree a b c)
    · exact absurd rfl (hfour a b c d rest)

theorem Padded.atob_eq (h : Padded body k) (hns : body.mapM sextetOfUnit = some ns) :
    atob (body ++ List.replicate k padding) = some (bytesOfSextets ns) := by
  have hkept : (body ++ List.replicate k padding).filter (fun unit => !isAsciiWhitespace unit) =
      body ++ List.replicate k padding := by
    apply filter_eq_self.mpr
    intro unit hunit
    rcases mem_append.mp hunit with hbody | hpadding
    · rw [(isBase64Unit_kept (h.units unit hbody)).1]
      rfl
    · rw [eq_of_mem_replicate hpadding]
      decide
  have hone : ¬ body.length % 4 = 1 := by
    have hfull := h.full
    have hmost := h.most
    omega
  unfold atob
  rw [hkept]
  dsimp only
  rw [h.withoutPadding_eq, if_neg hone, hns, map_some]

/-- A slice that ends between two groups. -/
theorem Padded.split (h : Padded body k) (hsize : size % 4 = 0)
    (hlong : size < (body ++ List.replicate k padding).length) :
    size ≤ body.length ∧ Padded (body.take size) 0 ∧ Padded (body.drop size) k := by
  have hfull := h.full
  have hmost := h.most
  rw [length_append, length_replicate] at hlong
  have hle : size ≤ body.length := by omega
  refine ⟨hle, ⟨fun unit hmem => h.units unit (mem_of_mem_take hmem), by omega, ?_⟩,
    ⟨fun unit hmem => h.units unit (mem_of_mem_drop hmem), hmost, ?_⟩⟩
  · rw [length_take]
    omega
  · rw [length_drop]
    omega

/-- The slices decode to consecutive pieces of what the whole text decodes to. -/
theorem mapM_slices (hpos : 0 < size) (hsize : size % 4 = 0) (fuel : ℕ) (h : Padded body k)
    (hns : body.mapM sextetOfUnit = some ns)
    (hfuel : (body ++ List.replicate k padding).length ≤ fuel) :
    ((slices size fuel (body ++ List.replicate k padding)).mapM atob).map List.flatten =
      some (bytesOfSextets ns) := by
  induction fuel generalizing body ns with
  | zero =>
    rw [length_append] at hfuel
    have hnil : body = [] := length_eq_zero_iff.mp (by omega)
    subst hnil
    cases hns
    rfl
  | succ fuel ih =>
    obtain ⟨text, htext⟩ : ∃ text, body ++ List.replicate k padding = text := ⟨_, rfl⟩
    rw [htext]
    rw [htext] at hfuel
    by_cases hempty : text = []
    · have hnil : body = [] := (append_eq_nil_iff.mp (htext.trans hempty)).1
      subst hnil hempty
      cases hns
      rfl
    · rw [slices, if_neg (mt List.isEmpty_iff.mp hempty)]
      have hnonempty : 0 < text.length := length_pos_iff.mpr hempty
      by_cases hlong : size < text.length
      · obtain ⟨hle, hfirst, hlater⟩ := h.split hsize (htext ▸ hlong)
        have htake : text.take size = body.take size ++ List.replicate 0 padding := by
          rw [← htext, take_append_of_le_length hle, replicate_zero, append_nil]
        have hdrop : text.drop size = body.drop size ++ List.replicate k padding := by
          rw [← htext, drop_append_of_le_length hle]
        obtain ⟨firstNs, hfirstNs, hfirstLength⟩ := mapM_sextetOfUnit_of_units hfirst.units
        obtain ⟨laterNs, hlaterNs, -⟩ := mapM_sextetOfUnit_of_units hlater.units
        have hsplit : ns = firstNs ++ laterNs := by
          rw [← take_append_drop size body, mapM_append, hfirstNs, hlaterNs] at hns
          exact (some.inj hns).symm
        have hgroups : firstNs.length % 4 = 0 := by
          rw [hfirstLength]
          exact hfirst.full
        have hrest := ih hlater hlaterNs (by
          rw [← hdrop, length_drop]
          omega)
        obtain ⟨parts, hparts, hflat⟩ := map_eq_some_iff.mp hrest
        rw [mapM_cons, htake, hfirst.atob_eq hfirstNs, hdrop, hparts, hsplit,
          bytesOfSextets_append hgroups, ← hflat]
        rfl
      · have hnone : text.drop size = [] := drop_eq_nil_of_le (by omega)
        rw [take_of_length_le (by omega), hnone, slices_nil, mapM_cons, ← htext,
          h.atob_eq hns]
        exact congrArg some (append_nil _)

end

variable {body : JsString} {k : ℕ}

/-- The padding the decoder reads off the end of a text. -/
theorem Padded.padding_eq (h : Padded body k) :
    (if (ascii "==").isSuffixOf (body ++ List.replicate k padding) then 2
      else if (ascii "=").isSuffixOf (body ++ List.replicate k padding) then 1 else 0) = k := by
  have hlast := h.getLast?
  have hone : ∀ text : JsString,
      (ascii "=").isSuffixOf text = true ↔ text.getLast? = some padding := by
    intro text
    rw [isSuffixOf_iff_suffix, List.getLast?_eq_some_iff]
    exact ⟨fun ⟨init, h⟩ => ⟨init, h.symm⟩, fun ⟨init, h⟩ => ⟨init, h.symm⟩⟩
  have htwo : ∀ text : JsString, (ascii "==").isSuffixOf (text ++ [padding]) = true ↔
      text.getLast? = some padding := by
    intro text
    rw [isSuffixOf_iff_suffix, List.getLast?_eq_some_iff]
    have hword : ascii "==" = [padding] ++ [padding] := rfl
    constructor
    · rintro ⟨init, h⟩
      rw [hword, ← append_assoc] at h
      exact ⟨init, (append_cancel_right h).symm⟩
    · rintro ⟨init, rfl⟩
      exact ⟨init, by rw [hword, append_assoc]⟩
  have hnot : ∀ text : JsString, text.getLast? ≠ some padding →
      (ascii "==").isSuffixOf text = false := by
    intro text hne
    rw [← Bool.not_eq_true, isSuffixOf_iff_suffix]
    rintro ⟨init, rfl⟩
    apply hne
    have hword : ascii "==" = [padding] ++ [padding] := rfl
    rw [hword, ← append_assoc, List.getLast?_concat]
  have hk : k = 0 ∨ k = 1 ∨ k = 2 := by
    have hmost := h.most
    omega
  rcases hk with hk | hk | hk <;> rw [hk]
  · rw [replicate_zero, append_nil, hnot _ hlast, if_neg Bool.false_ne_true,
      if_neg (fun h => hlast ((hone _).mp h))]
  · rw [replicate_one, if_neg fun h => hlast ((htwo _).mp h), if_pos]
    exact (hone _).mpr List.getLast?_concat
  · have hpair : List.replicate 2 padding = [padding] ++ [padding] := rfl
    rw [hpair, ← append_assoc, if_pos]
    exact (htwo _).mpr List.getLast?_concat

/-- A canonical text decodes, and its slices fill the buffer with what the whole text is
decoded to. -/
theorem Padded.base64ToBytes_eq (h : Padded body k) :
    ∃ bytes, atob (body ++ List.replicate k padding) = some bytes ∧
      base64ToBytes (body ++ List.replicate k padding) = some bytes := by
  obtain ⟨ns, hns, hlength⟩ := mapM_sextetOfUnit_of_units h.units
  refine ⟨bytesOfSextets ns, h.atob_eq hns, ?_⟩
  have hpos : 0 < decodeSlice := by decide
  have hfour : decodeSlice % 4 = 0 := by decide
  have hslices := mapM_slices hpos hfour _ h hns (Nat.le_refl _)
  obtain ⟨parts, hparts, hflat⟩ := map_eq_some_iff.mp hslices
  have hsize : ((body ++ List.replicate k padding).length - k) * 3 / 4 =
      (bytesOfSextets ns).length := by
    rw [length_append, length_replicate, Nat.add_sub_cancel, bytesOfSextets_length,
      hlength]
  unfold base64ToBytes
  rw [h.padding_eq, hparts]
  dsimp only
  rw [hsize, map_some, hflat, take_left]

theorem isBase64Unit_unitOfSextet : ∀ n < 64, isBase64Unit (unitOfSextet n) = true := by
  decide

theorem padded_btoa (bytes : List Byte) :
    Padded ((sextets bytes).map unitOfSextet) (paddingLength bytes) := by
  have hlength := sextets_length bytes
  refine ⟨fun unit hmem => ?_, ?_, ?_⟩
  · obtain ⟨n, hn, rfl⟩ := mem_map.mp hmem
    exact isBase64Unit_unitOfSextet n (sextets_lt bytes n hn)
  · unfold paddingLength
    omega
  · rw [length_map, hlength]
    unfold paddingLength
    split <;> omega

theorem flatten_slices {α : Type} {size fuel : ℕ} (hsize : 0 < size) {text : List α}
    (hfuel : text.length ≤ fuel) : (slices size fuel text).flatten = text := by
  induction fuel generalizing text with
  | zero =>
    have hnil : text = [] := length_eq_zero_iff.mp (by omega)
    rw [hnil]
    rfl
  | succ fuel ih =>
    cases htext : text with
    | nil => rfl
    | cons first rest =>
      have hshorter : ((first :: rest).drop size).length ≤ fuel := by
        rw [← htext, length_drop]
        omega
      rw [slices, isEmpty_cons, if_neg Bool.false_ne_true, flatten_cons, ih hshorter,
        take_append_drop]

theorem bytesToBase64_eq (bytes : List Byte) : bytesToBase64 bytes = btoa bytes := by
  have hsize : 0 < encodeSlice := by decide
  rw [bytesToBase64, flatten_slices hsize (Nat.le_refl _)]

theorem base64ToBytes_bytesToBase64 (bytes : List Byte) :
    base64ToBytes (bytesToBase64 bytes) = some bytes := by
  obtain ⟨decoded, hwhole, hsliced⟩ := (padded_btoa bytes).base64ToBytes_eq
  rw [← btoa_eq, atob_btoa] at hwhole
  rw [bytesToBase64_eq, btoa_eq, hsliced, hwhole]

/-- The check accepts the texts of whole groups; encoding is that of the whole array, decoding
gives the array back, and a text the check accepts decodes as a whole and in slices to the
same bytes. -/
theorem base64_codec :
    (∀ value, isCanonicalBase64 value = true ↔ Grouped value) ∧
    (∀ bytes, bytesToBase64 bytes = btoa bytes ∧
      base64ToBytes (bytesToBase64 bytes) = some bytes) ∧
    ∀ value, isCanonicalBase64 value = true →
      ∃ bytes, atob value = some bytes ∧ base64ToBytes value = some bytes := by
  refine ⟨fun value => ?_, fun bytes => ?_, fun value hcanonical => ?_⟩
  · exact isCanonicalBase64_iff_padded.trans grouped_iff_padded.symm
  · exact ⟨bytesToBase64_eq bytes, base64ToBytes_bytesToBase64 bytes⟩
  · obtain ⟨body, k, h, rfl⟩ := isCanonicalBase64_iff_padded.mp hcanonical
    exact h.base64ToBytes_eq

end Havemind.Base64Slices
