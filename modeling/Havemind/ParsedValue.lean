import Havemind.Binary64
import Havemind.JsonLayout
import Havemind.PropertyOrder
import Mathlib.Order.WithBot

/-!
The values `JSON.parse` makes of a text: numbers are doubles, and an object has its keys in
property order, each once. Written with an indent and parsed again, a value comes back up to
its infinities, which are written as `null`.
-/
namespace Havemind.ParsedValue

open JsText JsonText JsonLayout Binary64 PropertyOrder List

inductive Value
  | null
  | bool (value : Bool)
  | number (value : Double)
  | infinite (negative : Bool)
  | string (value : JsString)
  | array (items : List Value)
  | object (members : List (JsString × Value))

/-- The array index a key is the decimal of. -/
def arrayIndex (key : JsString) : Option ℕ :=
  if key = ascii "0" then some 0
  else if key ≠ [] ∧ key.head? ≠ some 48 ∧ key.all isDigit ∧ digitsValue key < 2 ^ 32 - 1 then
    some (digitsValue key)
  else none

/-- Array indices come first, the smaller ones before the greater ones. -/
def rank (key : JsString) : WithTop ℕ :=
  match arrayIndex key with
  | some index => index
  | none => ⊤

mutual

/-- The value a JSON text stands for. -/
def valueOf : Json → Value
  | .null => .null
  | .bool value => .bool value
  | .number literal =>
      match readNumber literal with
      | some number => .number number
      | none => .infinite (literal.head? = some 45)
  | .string value => .string value
  | .array items => .array (valuesOf items)
  | .object members => .object (defineAll rank [] (membersOf members))

def valuesOf : List Json → List Value
  | [] => []
  | item :: rest => valueOf item :: valuesOf rest

def membersOf : List (JsString × Json) → List (JsString × Value)
  | [] => []
  | (key, value) :: rest => (key, valueOf value) :: membersOf rest

end

def parseValue (text : JsString) : Option Value := (parse text).map valueOf

mutual

/-- What is written of a value. -/
def form : Value → Json
  | .null => .null
  | .bool value => .bool value
  | .number number => .number (numberText number)
  | .infinite _ => .null
  | .string value => .string value
  | .array items => .array (forms items)
  | .object members => .object (formMembers members)

def forms : List Value → List Json
  | [] => []
  | item :: rest => form item :: forms rest

def formMembers : List (JsString × Value) → List (JsString × Json)
  | [] => []
  | (key, value) :: rest => (key, form value) :: formMembers rest

end

/-- `JSON.stringify` with an indent. -/
def stringifyValue (indent : ℕ) (value : Value) : JsString := write indent 0 (form value)

theorem valuesOf_eq (items : List Json) : valuesOf items = items.map valueOf := by
  induction items with
  | nil => rfl
  | cons item rest ih => rw [valuesOf, ih, map_cons]

theorem membersOf_eq (members : List (JsString × Json)) :
    membersOf members = members.map fun member => (member.1, valueOf member.2) := by
  induction members with
  | nil => rfl
  | cons member rest ih => rw [membersOf, ih, map_cons]

theorem forms_eq (items : List Value) : forms items = items.map form := by
  induction items with
  | nil => rfl
  | cons item rest ih => rw [forms, ih, map_cons]

theorem formMembers_eq (members : List (JsString × Value)) :
    formMembers members = members.map fun member => (member.1, form member.2) := by
  induction members with
  | nil => rfl
  | cons member rest ih => rw [formMembers, ih, map_cons]

/-- Every object of the value has its keys in order. -/
inductive WellFormed : Value → Prop
  | null : WellFormed .null
  | bool (value : Bool) : WellFormed (.bool value)
  | number (value : Double) : WellFormed (.number value)
  | infinite (negative : Bool) : WellFormed (.infinite negative)
  | string (value : JsString) : WellFormed (.string value)
  | array {items : List Value} : (∀ item ∈ items, WellFormed item) → WellFormed (.array items)
  | object {members : List (JsString × Value)} : Ordered rank members →
      (∀ member ∈ members, WellFormed member.2) → WellFormed (.object members)

/-- No number in the value is an infinity. -/
inductive Finite : Value → Prop
  | null : Finite .null
  | bool (value : Bool) : Finite (.bool value)
  | number (value : Double) : Finite (.number value)
  | string (value : JsString) : Finite (.string value)
  | array {items : List Value} : (∀ item ∈ items, Finite item) → Finite (.array items)
  | object {members : List (JsString × Value)} :
      (∀ member ∈ members, Finite member.2) → Finite (.object members)

mutual

theorem wellFormed_valueOf : ∀ json, WellFormed (valueOf json)
  | .null => .null
  | .bool value => .bool value
  | .number literal => by
      rw [valueOf]
      cases readNumber literal with
      | none => exact .infinite _
      | some number => exact .number number
  | .string value => .string value
  | .array items => .array (wellFormed_valuesOf items)
  | .object members => by
      refine .object (ordered_defineAll ordered_nil _) fun member hmem => ?_
      exact wellFormed_membersOf members member ((mem_defineAll hmem).resolve_left (by simp))

theorem wellFormed_valuesOf : ∀ items, ∀ value ∈ valuesOf items, WellFormed value
  | [], _, h => by simp [valuesOf] at h
  | item :: rest, value, h => by
      rcases mem_cons.mp h with rfl | hrest
      · exact wellFormed_valueOf item
      · exact wellFormed_valuesOf rest value hrest

theorem wellFormed_membersOf : ∀ members : List (JsString × Json),
    ∀ member ∈ membersOf members, WellFormed member.2
  | [], _, h => by simp [membersOf] at h
  | (key, json) :: rest, member, h => by
      rcases mem_cons.mp h with rfl | hrest
      · exact wellFormed_valueOf json
      · exact wellFormed_membersOf rest member hrest

end

theorem literal_numberText (number : Double) : Literal (numberText number) := by
  unfold numberText
  by_cases hzero : number.value = 0
  · have hnatural : IsNatural (ascii "0") := ⟨48, [], rfl, JsNumber.allDigits_zeros 1, fun _ => rfl⟩
    have hparts := Literal.parts false hnatural .none .none
    rw [if_pos hzero]
    simpa [minus] using hparts
  · have hdigits := shortest_ne_zero number.rounded (abs_ne_zero.mpr hzero)
    have hliteral := literal_magnitudeText (decide (number.value < 0)) hdigits
      ((shortest |number.value| number.rounded).2 +
        (JsNumber.decimalText (shortest |number.value| number.rounded).1).length)
    rw [if_neg hzero]
    simpa [minus] using hliteral

mutual

theorem printed_form : ∀ value, Printed (form value)
  | .null => .null
  | .bool value => .bool value
  | .number number => .number (literal_numberText number)
  | .infinite _ => .null
  | .string value => .string value
  | .array items => .array (printed_forms items)
  | .object members => .object (printed_formMembers members)

theorem printed_forms : ∀ items, ∀ json ∈ forms items, Printed json
  | [], _, h => by simp [forms] at h
  | item :: rest, json, h => by
      rcases mem_cons.mp h with rfl | hrest
      · exact printed_form item
      · exact printed_forms rest json hrest

theorem printed_formMembers : ∀ members : List (JsString × Value),
    ∀ member ∈ formMembers members, Printed member.2
  | [], _, h => by simp [formMembers] at h
  | (key, value) :: rest, member, h => by
      rcases mem_cons.mp h with rfl | hrest
      · exact printed_form value
      · exact printed_formMembers rest member hrest

end

/-- What is written is parsed as what was written of the value. -/
theorem parseValue_stringifyValue (indent : ℕ) (value : Value) {behind : JsString}
    (hbehind : Blank behind) :
    parseValue (stringifyValue indent value ++ behind) = some (valueOf (form value)) := by
  unfold parseValue stringifyValue
  rw [parse_write (printed_form value) hbehind]
  rfl

/-- The members of an object that is in order are defined as they stand. -/
theorem defineAll_members {members : List (JsString × Value)} (h : Ordered rank members) :
    defineAll rank [] (membersOf (formMembers members)) =
      members.map fun member => (member.1, valueOf (form member.2)) := by
  have hmembers : membersOf (formMembers members) =
      members.map fun member => (member.1, valueOf (form member.2)) := by
    rw [formMembers_eq, membersOf_eq, map_map]
    rfl
  have hordered : Ordered rank (membersOf (formMembers members)) := by
    apply h.congr
    rw [hmembers, map_map]
    rfl
  rw [← hmembers]
  exact defineAll_ordered (by simpa using hordered)

/-- A value that was written and parsed is written as before. -/
theorem form_valueOf_form {value : Value} (h : WellFormed value) :
    form (valueOf (form value)) = form value := by
  induction h with
  | null => rfl
  | bool value => rfl
  | number number =>
    rw [form, valueOf, readNumber_numberText]
    dsimp only
    rw [form]
  | infinite negative => rfl
  | string value => rfl
  | @array items _ ih =>
    rw [form, valueOf, form, valuesOf_eq, forms_eq, forms_eq, map_map, map_map]
    congr 1
    apply map_congr_left
    intro item hitem
    exact ih item hitem
  | @object members hordered _ ih =>
    rw [form, valueOf, form, defineAll_members hordered, formMembers_eq, formMembers_eq,
      map_map]
    congr 1
    apply map_congr_left
    intro member hmember
    exact congrArg _ (ih member hmember)

/-- A value without an infinity comes back from its text. -/
theorem valueOf_form {value : Value} (h : WellFormed value) (hfinite : Finite value) :
    valueOf (form value) = value := by
  induction h with
  | null => rfl
  | bool value => rfl
  | number number => rw [form, valueOf, readNumber_numberText]
  | infinite negative => cases hfinite
  | string value => rfl
  | @array items _ ih =>
    cases hfinite with
    | array hitems =>
      rw [form, valueOf, valuesOf_eq, forms_eq, map_map]
      congr 1
      conv_rhs => rw [← map_id items]
      apply map_congr_left
      intro item hitem
      exact ih item hitem (hitems item hitem)
  | @object members hordered _ ih =>
    cases hfinite with
    | object hmembers =>
      rw [form, valueOf, defineAll_members hordered]
      congr 1
      conv_rhs => rw [← map_id members]
      apply map_congr_left
      intro member hmember
      rw [ih member hmember (hmembers member hmember), id]

end Havemind.ParsedValue
