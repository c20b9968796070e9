import Havemind.JsNumber
import Mathlib.Data.List.Sort

/-!
Canonical JSON: the text of a value with the keys of every object in order. The text
gives back the value, its members sorted, so two values have one text exactly where they
differ in the order of keys alone.
-/
namespace Havemind.CanonicalJson

open JsText Utf16 JsonText JsNumber List

/-- The values the language has for JSON. A value of another kind is a type error, and so is
a cycle, which no value here has. -/
inductive Value
  | null
  | bool (value : Bool)
  | number (value : FiniteNumber)
  | string (value : JsString)
  | array (items : List Value)
  | object (members : List (JsString × Value))

/-- The order of the sort: by code units, a prefix first. -/
def keyLe : JsString → JsString → Bool
  | [], _ => true
  | _ :: _, [] => false
  | a :: as, b :: bs => a < b || (a = b && keyLe as bs)

def MemberLe {α : Type} (a b : JsString × α) : Prop := keyLe a.1 b.1 = true

instance {α : Type} : DecidableRel (MemberLe (α := α)) := fun a b =>
  inferInstanceAs (Decidable (keyLe a.1 b.1 = true))

def joinComma : List JsString → JsString
  | [] => []
  | [text] => text
  | text :: next :: rest => text ++ comma :: joinComma (next :: rest)

mutual

/-- The keys of an object are sorted when its members have their texts, which is as good as
before. -/
def serializeCanonical : Value → JsString
  | .null => ascii "null"
  | .bool true => ascii "true"
  | .bool false => ascii "false"
  | .number value => numberToString value
  | .string value => quote value
  | .array items => openBracket :: joinComma (serializeItems items) ++ [closeBracket]
  | .object members =>
    openBrace :: joinComma (((serializeMembers members).insertionSort MemberLe).map
      fun member => quote member.1 ++ colon :: member.2) ++ [closeBrace]

def serializeItems : List Value → List JsString
  | [] => []
  | item :: rest => serializeCanonical item :: serializeItems rest

def serializeMembers : List (JsString × Value) → List (JsString × JsString)
  | [] => []
  | (key, value) :: rest => (key, serializeCanonical value) :: serializeMembers rest

end

def canonicalJson (value : Value) : JsString := serializeCanonical value

/-- The bytes whose digest is the hash of the value. -/
def canonicalBytes (value : Value) : List Byte := encodeUtf8 (canonicalJson value)

/-- The keys of an object are distinct, at every depth. -/
inductive DistinctKeys : Value → Prop
  | null : DistinctKeys .null
  | bool (value : Bool) : DistinctKeys (.bool value)
  | number (value : FiniteNumber) : DistinctKeys (.number value)
  | string (value : JsString) : DistinctKeys (.string value)
  | array {items : List Value} : (∀ item ∈ items, DistinctKeys item) → DistinctKeys (.array items)
  | object {members : List (JsString × Value)} : (members.map Prod.fst).Nodup →
      (∀ member ∈ members, DistinctKeys member.2) → DistinctKeys (.object members)

structure JsonValue where
  value : Value
  distinct : DistinctKeys value

/-- Equal up to the order of keys at every depth; numbers are compared by their values, so
the two zeros are one. -/
inductive SameValue : Value → Value → Prop
  | null : SameValue .null .null
  | bool (value : Bool) : SameValue (.bool value) (.bool value)
  | number {value other : FiniteNumber} : value.value = other.value →
      SameValue (.number value) (.number other)
  | string (value : JsString) : SameValue (.string value) (.string value)
  | array {items others : List Value} : items.length = others.length →
      (∀ pair ∈ items.zip others, SameValue pair.1 pair.2) →
      SameValue (.array items) (.array others)
  | object {members others : List (JsString × Value)} :
      (members.map Prod.fst).Perm (others.map Prod.fst) →
      (∀ member ∈ members, ∀ other ∈ others, member.1 = other.1 → SameValue member.2 other.2) →
      SameValue (.object members) (.object others)

mutual

/-- The JSON that is written: numbers as their literals, members sorted. -/
def canonicalForm : Value → Json
  | .null => .null
  | .bool value => .bool value
  | .number value => .number (numberToString value)
  | .string value => .string value
  | .array items => .array (formItems items)
  | .object members => .object ((formMembers members).insertionSort MemberLe)

def formItems : List Value → List Json
  | [] => []
  | item :: rest => canonicalForm item :: formItems rest

def formMembers : List (JsString × Value) → List (JsString × Json)
  | [] => []
  | (key, value) :: rest => (key, canonicalForm value) :: formMembers rest

end

theorem joinComma_map_stringify (items : List Json) :
    joinComma (items.map stringify) = stringifyItems items := by
  induction items with
  | nil => rw [stringifyItems, map_nil, joinComma]
  | cons item rest ih =>
    cases rest with
    | nil => rw [stringifyItems, map_singleton, joinComma]
    | cons next rest =>
      rw [stringifyItems, ← ih]
      rfl

theorem joinComma_map_members (members : List (JsString × Json)) :
    joinComma (members.map fun member => quote member.1 ++ colon :: stringify member.2) =
      stringifyMembers members := by
  induction members with
  | nil => rw [stringifyMembers, map_nil, joinComma]
  | cons member rest ih =>
    obtain ⟨key, value⟩ := member
    cases rest with
    | nil => rw [stringifyMembers, map_singleton, joinComma]
    | cons next rest =>
      rw [stringifyMembers, ← ih, map_cons, map_cons, joinComma, append_assoc]

theorem sort_members {α β : Type} (f : α → β) (members : List (JsString × α)) :
    (members.map fun member => (member.1, f member.2)).insertionSort MemberLe =
      (members.insertionSort MemberLe).map fun member => (member.1, f member.2) :=
  (map_insertionSort MemberLe MemberLe (fun member : JsString × α => (member.1, f member.2))
    members fun _ _ _ _ => Iff.rfl).symm

mutual

theorem serializeCanonical_eq : ∀ value, serializeCanonical value = stringify (canonicalForm value)
  | .null => rfl
  | .bool true => rfl
  | .bool false => rfl
  | .number value => by rw [serializeCanonical, canonicalForm, stringify]
  | .string value => by rw [serializeCanonical, canonicalForm, stringify]
  | .array items => by
    rw [serializeCanonical, canonicalForm, stringify, serializeItems_eq items,
      joinComma_map_stringify]
  | .object members => by
    rw [serializeCanonical, canonicalForm, stringify, serializeMembers_eq members,
      sort_members stringify, map_map, ← joinComma_map_members]
    rfl

theorem serializeItems_eq : ∀ items, serializeItems items = (formItems items).map stringify
  | [] => rfl
  | item :: rest => by
    rw [serializeItems, formItems, map_cons, serializeCanonical_eq item,
      serializeItems_eq rest]

theorem serializeMembers_eq : ∀ members, serializeMembers members =
    (formMembers members).map fun member => (member.1, stringify member.2)
  | [] => rfl
  | (key, value) :: rest => by
    rw [serializeMembers, formMembers, map_cons, serializeCanonical_eq value,
      serializeMembers_eq rest]

end

section
variable {unit : CodeUnit} {rest rest' : JsString} {json : Json} {text tail : JsString}

/-- The numbers of a value are printed ones. -/
inductive Printed : Json → Prop
  | null : Printed .null
  | bool (value : Bool) : Printed (.bool value)
  | number {literal : JsString} : Numeral literal → Printed (.number literal)
  | string (value : JsString) : Printed (.string value)
  | array {items : List Json} : (∀ item ∈ items, Printed item) → Printed (.array items)
  | object {members : List (JsString × Json)} : (∀ member ∈ members, Printed member.2) →
      Printed (.object members)

def kindOf : Json → ℕ
  | .null => 0
  | .bool true => 1
  | .bool false => 2
  | .string _ => 3
  | .array _ => 4
  | .object _ => 5
  | .number _ => 6

/-- The kind of value a unit starts. -/
def kindOfUnit (unit : CodeUnit) : ℕ :=
  if unit = 110 then 0
  else if unit = 116 then 1
  else if unit = 102 then 2
  else if unit = quotationMark then 3
  else if unit = openBracket then 4
  else if unit = openBrace then 5
  else if isDigit unit ∨ unit = 45 then 6
  else 7

theorem kindOfUnit_numeral (h : isDigit unit = true ∨ unit = 45) : kindOfUnit unit = 6 := by
  have hother : ∀ other : CodeUnit, isDigit other = false → other ≠ 45 → unit ≠ other := by
    intro other hdigit hminus
    rcases h with hunit | rfl
    · exact ne_of_isDigit hunit hdigit
    · exact hminus.symm
  unfold kindOfUnit
  rw [if_neg (hother _ (by decide) (by decide)), if_neg (hother _ (by decide) (by decide)),
    if_neg (hother _ (by decide) (by decide)), if_neg (hother _ (by decide) (by decide)),
    if_neg (hother _ (by decide) (by decide)), if_neg (hother _ (by decide) (by decide)), if_pos h]

theorem stringify_kind (h : Printed json) :
    ∃ unit rest, stringify json = unit :: rest ∧ kindOfUnit unit = kindOf json := by
  cases h with
  | null => exact ⟨110, _, rfl, rfl⟩
  | bool value =>
    cases value with
    | true => exact ⟨116, _, rfl, rfl⟩
    | false => exact ⟨102, _, rfl, rfl⟩
  | @number literal hnumeral =>
    obtain ⟨unit, rest, hliteral, hunit⟩ := hnumeral.start
    exact ⟨unit, rest, by rw [stringify, hliteral], kindOfUnit_numeral hunit⟩
  | string value => exact ⟨quotationMark, _, by rw [stringify, quote]; rfl, rfl⟩
  | array _ => exact ⟨openBracket, _, by rw [stringify]; rfl, rfl⟩
  | object _ => exact ⟨openBrace, _, by rw [stringify]; rfl, rfl⟩

theorem kind_eq {a b : Json} (ha : Printed a) (hb : Printed b)
    (h : stringify a ++ rest = stringify b ++ rest') : kindOf a = kindOf b := by
  obtain ⟨unit, tail, htext, hkind⟩ := stringify_kind ha
  obtain ⟨unit', tail', htext', hkind'⟩ := stringify_kind hb
  rw [htext, htext', cons_append, cons_append] at h
  rw [← hkind, ← hkind', (List.cons.inj h).1]

theorem numeral_cancel {literal literal' : JsString} (h : Numeral literal) (h' : Numeral literal')
    (hrest : Delimited rest) (hrest' : Delimited rest')
    (htext : literal ++ rest = literal' ++ rest') : literal = literal' ∧ rest = rest' := by
  have hsplit : ∀ {text behind : JsString}, Numeral text → Delimited behind →
      (text ++ behind).takeWhile isNumeralUnit = text := by
    intro text behind htext hbehind
    have hstop : behind.takeWhile isNumeralUnit = [] := by
      cases behind with
      | nil => rfl
      | cons unit tail =>
        have hunit : isNumeralUnit unit = false := by
          rcases hbehind unit rfl with rfl | rfl | rfl <;> decide
        rw [takeWhile_cons_of_neg (by rw [hunit]; exact Bool.false_ne_true)]
    rw [takeWhile_append_of_pos htext.units, hstop, append_nil]
  have hliteral : literal = literal' := by
    rw [← hsplit h hrest, htext, hsplit h' hrest']
  rw [hliteral] at htext
  exact ⟨hliteral, append_cancel_left htext⟩

theorem quote_cancel {text' : JsString} (h : quote text ++ rest = quote text' ++ rest') :
    text = text' ∧ rest = rest' := by
  rw [quote_append, quote_append] at h
  have hscanned := congrArg (scanString .plain) (List.cons.inj h).2
  rw [scanString_quoteBody, scanString_quoteBody] at hscanned
  exact Prod.mk.inj (Option.some.inj hscanned)

theorem stringifyItems_cons (item : Json) (items : List Json) (rest : JsString) :
    ∃ behind, Delimited behind ∧
      stringifyItems (item :: items) ++ closeBracket :: rest = stringify item ++ behind ∧
      (behind = closeBracket :: rest ∧ items = [] ∨
        behind = comma :: (stringifyItems items ++ closeBracket :: rest) ∧ items ≠ []) := by
  cases items with
  | nil =>
    refine ⟨closeBracket :: rest, delimited_cons (.inr (.inl rfl)) rest, ?_, .inl ⟨rfl, rfl⟩⟩
    rw [stringifyItems]
  | cons next items =>
    refine ⟨_, delimited_cons (.inl rfl) _, ?_, .inr ⟨rfl, cons_ne_nil _ _⟩⟩
    rw [stringifyItems, append_assoc, cons_append]

theorem stringifyMembers_cons (key : JsString) (value : Json) (members : List (JsString × Json))
    (rest : JsString) :
    ∃ behind, Delimited behind ∧
      stringifyMembers ((key, value) :: members) ++ closeBrace :: rest =
        quote key ++ (colon :: (stringify value ++ behind)) ∧
      (behind = closeBrace :: rest ∧ members = [] ∨
        behind = comma :: (stringifyMembers members ++ closeBrace :: rest) ∧ members ≠ []) := by
  cases members with
  | nil =>
    refine ⟨closeBrace :: rest, delimited_cons (.inr (.inr rfl)) rest, ?_, .inl ⟨rfl, rfl⟩⟩
    rw [stringifyMembers, append_assoc, cons_append]
  | cons next members =>
    refine ⟨_, delimited_cons (.inl rfl) _, ?_, .inr ⟨rfl, cons_ne_nil _ _⟩⟩
    rw [stringifyMembers, append_assoc, append_assoc, cons_append, cons_append]

theorem closing_ne (h : Printed json) (hunit : kindOfUnit unit = 7) :
    unit :: tail ≠ stringify json ++ rest := by
  intro heq
  obtain ⟨first, later, htext, hkind⟩ := stringify_kind h
  rw [htext, cons_append] at heq
  rw [← (List.cons.inj heq).1, hunit] at hkind
  have hsmall : kindOf json ≤ 6 := by
    cases json with
    | bool value => cases value <;> decide
    | _ => simp [kindOf]
  omega

theorem ne_quote (hunit : unit ≠ quotationMark) : unit :: tail ≠ quote text ++ rest := by
  intro heq
  rw [quote_append] at heq
  exact hunit (List.cons.inj heq).1

mutual

/-- A printed value ends where its text does. -/
theorem stringify_cancel : ∀ (a b : Json) {rest rest' : JsString}, Printed a → Printed b →
    Delimited rest → Delimited rest' → stringify a ++ rest = stringify b ++ rest' →
    a = b ∧ rest = rest'
  | .null, b, rest, rest', ha, hb, _, _, h => by
    have hkind := kind_eq ha hb h
    cases hb with
    | null => exact ⟨rfl, append_cancel_left h⟩
    | bool value => cases value <;> cases hkind
    | _ => cases hkind
  | .bool value, b, rest, rest', ha, hb, _, _, h => by
    have hkind := kind_eq ha hb h
    cases hb with
    | bool value' =>
      have hvalue : value = value' := by
        cases value <;> cases value' <;> first | rfl | cases hkind
      rw [hvalue] at h ⊢
      exact ⟨rfl, append_cancel_left h⟩
    | _ => cases value <;> cases hkind
  | .number literal, b, rest, rest', ha, hb, hrest, hrest', h => by
    have hkind := kind_eq ha hb h
    cases ha with
    | number hnumeral =>
      cases hb with
      | number hnumeral' =>
        rw [stringify, stringify] at h
        obtain ⟨hliteral, hbehind⟩ := numeral_cancel hnumeral hnumeral' hrest hrest' h
        exact ⟨congrArg Json.number hliteral, hbehind⟩
      | bool value' => cases value' <;> cases hkind
      | _ => cases hkind
  | .string value, b, rest, rest', ha, hb, _, _, h => by
    have hkind := kind_eq ha hb h
    cases hb with
    | string value' =>
      rw [stringify, stringify] at h
      obtain ⟨hvalue, hbehind⟩ := quote_cancel h
      exact ⟨congrArg Json.string hvalue, hbehind⟩
    | bool value' => cases value' <;> cases hkind
    | _ => cases hkind
  | .array items, b, rest, rest', ha, hb, _, _, h => by
    have hkind := kind_eq ha hb h
    cases ha with
    | array hitems =>
      cases hb with
      | @array items' hitems' =>
        rw [stringify, stringify, append_assoc, append_assoc] at h
        have hbody : stringifyItems items ++ closeBracket :: rest =
            stringifyItems items' ++ closeBracket :: rest' := (List.cons.inj h).2
        obtain ⟨hsame, hbehind⟩ := stringifyItems_cancel items items' hitems hitems' hbody
        exact ⟨congrArg Json.array hsame, hbehind⟩
      | bool value' => cases value' <;> cases hkind
      | _ => cases hkind
  | .object members, b, rest, rest', ha, hb, _, _, h => by
    have hkind := kind_eq ha hb h
    cases ha with
    | object hmembers =>
      cases hb with
      | @object members' hmembers' =>
        rw [stringify, stringify, append_assoc, append_assoc] at h
        have hbody : stringifyMembers members ++ closeBrace :: rest =
            stringifyMembers members' ++ closeBrace :: rest' := (List.cons.inj h).2
        obtain ⟨hsame, hbehind⟩ := stringifyMembers_cancel members members' hmembers hmembers' hbody
        exact ⟨congrArg Json.object hsame, hbehind⟩
      | bool value' => cases value' <;> cases hkind
      | _ => cases hkind

theorem stringifyItems_cancel : ∀ (items items' : List Json) {rest rest' : JsString},
    (∀ item ∈ items, Printed item) → (∀ item ∈ items', Printed item) →
    stringifyItems items ++ closeBracket :: rest = stringifyItems items' ++ closeBracket :: rest' →
    items = items' ∧ rest = rest'
  | [], [], rest, rest', _, _, h => by
    rw [stringifyItems] at h
    exact ⟨rfl, (List.cons.inj h).2⟩
  | [], item' :: items', rest, rest', _, hall', h => by
    obtain ⟨behind', -, htext', -⟩ := stringifyItems_cons item' items' rest'
    rw [htext', stringifyItems] at h
    exact absurd h (closing_ne (hall' item' mem_cons_self) (by decide))
  | item :: items, [], rest, rest', hall, _, h => by
    obtain ⟨behind, -, htext, -⟩ := stringifyItems_cons item items rest
    rw [htext, stringifyItems] at h
    exact absurd h.symm (closing_ne (hall item mem_cons_self) (by decide))
  | item :: items, item' :: items', rest, rest', hall, hall', h => by
    obtain ⟨behind, hdelimited, htext, hend⟩ := stringifyItems_cons item items rest
    obtain ⟨behind', hdelimited', htext', hend'⟩ := stringifyItems_cons item' items' rest'
    have hne : comma ≠ closeBracket := by decide
    rw [htext, htext'] at h
    obtain ⟨hitem, hbehind⟩ := stringify_cancel item item' (hall item mem_cons_self)
      (hall' item' mem_cons_self) hdelimited hdelimited' h
    rcases hend with ⟨rfl, rfl⟩ | ⟨rfl, -⟩
    · rcases hend' with ⟨rfl, rfl⟩ | ⟨rfl, -⟩
      · exact ⟨by rw [hitem], (List.cons.inj hbehind).2⟩
      · exact absurd (List.cons.inj hbehind).1.symm hne
    · rcases hend' with ⟨rfl, rfl⟩ | ⟨rfl, -⟩
      · exact absurd (List.cons.inj hbehind).1 hne
      · obtain ⟨hitems, hrest⟩ := stringifyItems_cancel items items'
          (fun i hi => hall i (mem_cons_of_mem _ hi))
          (fun i hi => hall' i (mem_cons_of_mem _ hi)) (List.cons.inj hbehind).2
        exact ⟨by rw [hitem, hitems], hrest⟩

theorem stringifyMembers_cancel : ∀ (members members' : List (JsString × Json))
    {rest rest' : JsString}, (∀ member ∈ members, Printed member.2) →
    (∀ member ∈ members', Printed member.2) →
    stringifyMembers members ++ closeBrace :: rest =
      stringifyMembers members' ++ closeBrace :: rest' →
    members = members' ∧ rest = rest'
  | [], [], rest, rest', _, _, h => by
    rw [stringifyMembers] at h
    exact ⟨rfl, (List.cons.inj h).2⟩
  | [], (key', value') :: members', rest, rest', _, _, h => by
    obtain ⟨behind', -, htext', -⟩ := stringifyMembers_cons key' value' members' rest'
    rw [htext', stringifyMembers] at h
    exact absurd h (ne_quote (by decide))
  | (key, value) :: members, [], rest, rest', _, _, h => by
    obtain ⟨behind, -, htext, -⟩ := stringifyMembers_cons key value members rest
    rw [htext, stringifyMembers] at h
    exact absurd h.symm (ne_quote (by decide))
  | (key, value) :: members, (key', value') :: members', rest, rest', hall, hall', h => by
    obtain ⟨behind, hdelimited, htext, hend⟩ := stringifyMembers_cons key value members rest
    obtain ⟨behind', hdelimited', htext', hend'⟩ :=
      stringifyMembers_cons key' value' members' rest'
    have hne : comma ≠ closeBrace := by decide
    rw [htext, htext'] at h
    obtain ⟨hkey, hafter⟩ := quote_cancel h
    obtain ⟨hvalue, hbehind⟩ := stringify_cancel value value' (hall _ mem_cons_self)
      (hall' _ mem_cons_self) hdelimited hdelimited' (List.cons.inj hafter).2
    rcases hend with ⟨rfl, rfl⟩ | ⟨rfl, -⟩
    · rcases hend' with ⟨rfl, rfl⟩ | ⟨rfl, -⟩
      · exact ⟨by rw [hkey, hvalue], (List.cons.inj hbehind).2⟩
      · exact absurd (List.cons.inj hbehind).1.symm hne
    · rcases hend' with ⟨rfl, rfl⟩ | ⟨rfl, -⟩
      · exact absurd (List.cons.inj hbehind).1 hne
      · obtain ⟨hmembers, hrest⟩ := stringifyMembers_cancel members members'
          (fun m hm => hall m (mem_cons_of_mem _ hm))
          (fun m hm => hall' m (mem_cons_of_mem _ hm)) (List.cons.inj hbehind).2
        exact ⟨by rw [hkey, hvalue, hmembers], hrest⟩

end

theorem stringify_injective {a b : Json} (ha : Printed a) (hb : Printed b)
    (h : stringify a = stringify b) : a = b := by
  have hnone : Delimited [] := fun _ hunit => absurd hunit.symm (Option.some_ne_none _)
  have hpadded : stringify a ++ [] = stringify b ++ [] := by rw [h]
  exact (stringify_cancel a b ha hb hnone hnone hpadded).1

end

theorem keyLe_total (a b : JsString) : keyLe a b = true ∨ keyLe b a = true := by
  induction a generalizing b with
  | nil => exact .inl rfl
  | cons unit rest ih =>
    cases b with
    | nil => exact .inr rfl
    | cons unit' rest' =>
      simp only [keyLe, Bool.or_eq_true, Bool.and_eq_true, decide_eq_true_eq]
      by_cases heq : unit = unit'
      · rcases ih rest' with hle | hge
        · exact .inl (.inr ⟨heq, hle⟩)
        · exact .inr (.inr ⟨heq.symm, hge⟩)
      · rcases UInt16.lt_or_lt_of_ne heq with hlt | hgt
        · exact .inl (.inl hlt)
        · exact .inr (.inl hgt)

theorem keyLe_trans {a b c : JsString} (hab : keyLe a b = true) (hbc : keyLe b c = true) :
    keyLe a c = true := by
  induction a generalizing b c with
  | nil => rfl
  | cons unit rest ih =>
    cases b with
    | nil => cases hab
    | cons unit' rest' =>
      cases c with
      | nil => cases hbc
      | cons unit'' rest'' =>
        simp only [keyLe, Bool.or_eq_true, Bool.and_eq_true, decide_eq_true_eq] at hab hbc ⊢
        rcases hab with hlt | ⟨rfl, hrest⟩
        · rcases hbc with hlt' | ⟨rfl, -⟩
          · exact .inl (UInt16.lt_trans hlt hlt')
          · exact .inl hlt
        · rcases hbc with hlt' | ⟨rfl, hrest'⟩
          · exact .inl hlt'
          · exact .inr ⟨rfl, ih hrest hrest'⟩

theorem keyLe_antisymm {a b : JsString} (hab : keyLe a b = true) (hba : keyLe b a = true) :
    a = b := by
  induction a generalizing b with
  | nil =>
    cases b with
    | nil => rfl
    | cons unit' rest' => cases hba
  | cons unit rest ih =>
    cases b with
    | nil => cases hab
    | cons unit' rest' =>
      simp only [keyLe, Bool.or_eq_true, Bool.and_eq_true, decide_eq_true_eq] at hab hba
      rcases hab with hlt | ⟨rfl, hrest⟩
      · rcases hba with hgt | ⟨rfl, -⟩
        · exact absurd (UInt16.lt_trans hlt hgt) (UInt16.lt_irrefl _)
        · exact absurd hlt (UInt16.lt_irrefl _)
      · rcases hba with hgt | ⟨-, hrest'⟩
        · exact absurd hgt (UInt16.lt_irrefl _)
        · rw [ih hrest hrest']

instance {α : Type} : Std.Total (MemberLe (α := α)) := ⟨fun a b => keyLe_total a.1 b.1⟩

instance {α : Type} : IsTrans (JsString × α) MemberLe := ⟨fun _ _ _ => keyLe_trans⟩

/-- With distinct keys the sorted members are the same list for every order of them. -/
theorem sorted_eq_of_perm {α : Type} {members others : List (JsString × α)}
    (hnodup : (members.map Prod.fst).Nodup) (h : members.Perm others) :
    members.insertionSort MemberLe = others.insertionSort MemberLe := by
  have hsorted := pairwise_insertionSort (MemberLe (α := α))
  have hperm : (members.insertionSort MemberLe).Perm (others.insertionSort MemberLe) :=
    (perm_insertionSort _ _).trans (h.trans (perm_insertionSort _ _).symm)
  refine hperm.eq_of_pairwise (fun a b ha hb hab hba => ?_) (hsorted members) (hsorted others)
  have hmem : a ∈ members := (mem_insertionSort _).mp ha
  have hother : b ∈ members := h.mem_iff.mpr ((mem_insertionSort _).mp hb)
  exact inj_on_of_nodup_map hnodup hmem hother (keyLe_antisymm hab hba)

variable {a b : Value}

theorem formItems_eq (items : List Value) : formItems items = items.map canonicalForm := by
  induction items with
  | nil => rfl
  | cons item rest ih => rw [formItems, map_cons, ih]

theorem formMembers_eq (members : List (JsString × Value)) :
    formMembers members = members.map fun member => (member.1, canonicalForm member.2) := by
  induction members with
  | nil => rfl
  | cons member rest ih => rw [formMembers, map_cons, ih]

theorem keys_formMembers (members : List (JsString × Value)) :
    (formMembers members).map Prod.fst = members.map Prod.fst := by
  rw [formMembers_eq, map_map]
  rfl

theorem mem_formMembers {members : List (JsString × Value)} {member : JsString × Json}
    (h : member ∈ (formMembers members).insertionSort MemberLe) :
    ∃ value, (member.1, value) ∈ members ∧ member.2 = canonicalForm value := by
  rw [mem_insertionSort, formMembers_eq] at h
  obtain ⟨⟨key, value⟩, hmem, rfl⟩ := mem_map.mp h
  exact ⟨value, hmem, rfl⟩

theorem printed_canonicalForm (value : Value) (hdistinct : DistinctKeys value) :
    Printed (canonicalForm value) := by
  induction hdistinct with
  | null => exact .null
  | bool value => exact .bool value
  | number value => exact .number (numeral_numberToString value)
  | string value => exact .string value
  | array _ ih =>
    rw [canonicalForm, formItems_eq]
    refine .array fun item hmem => ?_
    obtain ⟨value, hvalue, rfl⟩ := mem_map.mp hmem
    exact ih value hvalue
  | object _ _ ih =>
    rw [canonicalForm]
    refine .object fun member hmem => ?_
    obtain ⟨value, hvalue, hform⟩ := mem_formMembers hmem
    rw [hform]
    exact ih _ hvalue

theorem canonicalForm_of_sameValue (h : SameValue a b) (ha : DistinctKeys a) (hb : DistinctKeys b) :
    canonicalForm a = canonicalForm b := by
  induction h with
  | null => rfl
  | bool value => rfl
  | number hvalue =>
    rw [canonicalForm, canonicalForm, (numberToString_eq_iff _ _).mpr hvalue]
  | string value => rfl
  | @array items others hlength _ ih =>
    cases ha with
    | array hitems =>
      cases hb with
      | array hothers =>
        rw [canonicalForm, canonicalForm, formItems_eq, formItems_eq]
        congr 1
        apply ext_getElem
        · rw [length_map, length_map, hlength]
        · intro i hi hi'
          rw [length_map] at hi hi'
          rw [getElem_map, getElem_map]
          have hpair : (items[i], others[i]) ∈ items.zip others := by
            rw [← getElem_zip (h := by rw [length_zip]; omega)]
            exact getElem_mem _
          exact ih _ hpair (hitems _ (getElem_mem hi)) (hothers _ (getElem_mem hi'))
  | @object members others hkeys _ ih =>
    cases ha with
    | object hnodup hmembers =>
      cases hb with
      | object hnodup' hothers =>
        have hforms : (formMembers members).Perm (formMembers others) := by
          have hunique : (formMembers members).Nodup :=
            List.Nodup.of_map _ ((keys_formMembers members).symm ▸ hnodup)
          have hunique' : (formMembers others).Nodup :=
            List.Nodup.of_map _ ((keys_formMembers others).symm ▸ hnodup')
          rw [perm_ext_iff_of_nodup hunique hunique', formMembers_eq, formMembers_eq]
          rintro ⟨key, json⟩
          rw [mem_map, mem_map]
          constructor
          · rintro ⟨member, hmem, hform⟩
            obtain ⟨other, hother, hkey⟩ :=
              mem_map.mp (hkeys.mem_iff.mp (mem_map_of_mem hmem))
            have hsame := ih member hmem other hother hkey.symm (hmembers member hmem)
              (hothers other hother)
            exact ⟨other, hother, by rw [← hform, hkey, hsame]⟩
          · rintro ⟨other, hother, hform⟩
            obtain ⟨member, hmem, hkey⟩ :=
              mem_map.mp (hkeys.mem_iff.mpr (mem_map_of_mem hother))
            have hsame := ih member hmem other hother hkey (hmembers member hmem)
              (hothers other hother)
            exact ⟨member, hmem, by rw [← hform, hkey, hsame]⟩
        have hdistinct : ((formMembers members).map Prod.fst).Nodup := by
          rw [keys_formMembers]
          exact hnodup
        rw [canonicalForm, canonicalForm, sorted_eq_of_perm hdistinct hforms]

theorem sameValue_of_canonicalForm (ha : DistinctKeys a) (hb : DistinctKeys b)
    (h : canonicalForm a = canonicalForm b) : SameValue a b := by
  induction ha generalizing b with
  | null => cases b <;> cases h; exact .null
  | bool value => cases b <;> cases h; exact .bool value
  | number value =>
    cases b with
    | number other =>
      rw [canonicalForm, canonicalForm] at h
      exact .number ((numberToString_eq_iff _ _).mp (Json.number.inj h))
    | _ => cases h
  | string value => cases b <;> cases h; exact .string value
  | @array items _ ih =>
    cases hb with
    | @array others hothers =>
      rw [canonicalForm, canonicalForm, formItems_eq, formItems_eq] at h
      have hmaps := Json.array.inj h
      have hlength : items.length = others.length := by
        have hlengths := congrArg List.length hmaps
        rwa [length_map, length_map] at hlengths
      refine .array hlength fun pair hpair => ?_
      obtain ⟨i, hi, rfl⟩ := mem_iff_getElem.mp hpair
      rw [length_zip] at hi
      rw [getElem_zip]
      have hi₁ : i < items.length := by omega
      have hi₂ : i < others.length := by omega
      have hitem : canonicalForm items[i] = canonicalForm others[i] := by
        have hat : (items.map canonicalForm)[i]? = (others.map canonicalForm)[i]? := by rw [hmaps]
        rw [List.getElem?_map, List.getElem?_map, List.getElem?_eq_getElem hi₁,
          List.getElem?_eq_getElem hi₂] at hat
        exact Option.some.inj hat
      exact ih _ (getElem_mem _) (hothers _ (getElem_mem _)) hitem
    | _ => cases h
  | @object members hnodup _ ih =>
    cases hb with
    | @object others hnodup' hothers =>
      rw [canonicalForm, canonicalForm] at h
      have hsorted := Json.object.inj h
      have hforms : (formMembers members).Perm (formMembers others) := by
        have hperm := perm_insertionSort MemberLe (formMembers members)
        rw [hsorted] at hperm
        exact hperm.symm.trans (perm_insertionSort MemberLe (formMembers others))
      have hkeys : (members.map Prod.fst).Perm (others.map Prod.fst) := by
        rw [← keys_formMembers, ← keys_formMembers]
        exact hforms.map Prod.fst
      refine .object hkeys fun member hmem other hother hkey => ?_
      have hform : (member.1, canonicalForm member.2) ∈ formMembers members := by
        rw [formMembers_eq]
        exact mem_map_of_mem hmem
      have hform' : (other.1, canonicalForm other.2) ∈ formMembers members := by
        rw [hforms.mem_iff, formMembers_eq]
        exact mem_map_of_mem hother
      have hdistinct : ((formMembers members).map Prod.fst).Nodup := by
        rw [keys_formMembers]
        exact hnodup
      have hsame := inj_on_of_nodup_map hdistinct hform hform' hkey
      exact ih member hmem (hothers other hother) (Prod.mk.inj hsame).2
    | _ => cases h

theorem Printed.plain {json : Json} (h : Printed json) : Plain json := by
  induction h with
  | null => exact .null
  | bool value => exact .bool value
  | number hnumeral =>
    exact .number fun unit hmem => isNumeralUnit_small (hnumeral.units unit hmem)
  | string value => exact .string value
  | array _ ih => exact .array ih
  | object _ ih => exact .object ih

/-- Two values have one canonical text, and one array of bytes to be hashed, exactly where
they are equal up to the order of keys. -/
theorem canonicalJson_eq_iff (a b : JsonValue) :
    (canonicalJson a.value = canonicalJson b.value ↔ SameValue a.value b.value) ∧
      (canonicalBytes a.value = canonicalBytes b.value ↔ SameValue a.value b.value) := by
  have hprinted := printed_canonicalForm a.value a.distinct
  have hprinted' := printed_canonicalForm b.value b.distinct
  have htexts : canonicalJson a.value = canonicalJson b.value ↔ SameValue a.value b.value := by
    unfold canonicalJson
    rw [serializeCanonical_eq, serializeCanonical_eq]
    constructor
    · intro h
      exact sameValue_of_canonicalForm a.distinct b.distinct
        (stringify_injective hprinted hprinted' h)
    · intro h
      rw [canonicalForm_of_sameValue h a.distinct b.distinct]
  have hbytes : canonicalBytes a.value = canonicalBytes b.value ↔
      canonicalJson a.value = canonicalJson b.value := by
    unfold canonicalBytes canonicalJson
    rw [serializeCanonical_eq, serializeCanonical_eq]
    exact encodeUtf8_inj (isWellFormed_stringify _ hprinted.plain)
      (isWellFormed_stringify _ hprinted'.plain)
  exact ⟨htexts, hbytes.trans htexts⟩

end Havemind.CanonicalJson
