/-
The trees cJSON builds for documents.

`cJSON_Parse` is taken as a correct parser: its tree is the one of the document
the text is.  Decoded strings and names end, as C strings, at their first NUL,
and items of arrays have no name.  How a number is cut to an `int` is a
parameter.
-/

import DlcServer.CJson
import DlcServer.Library.Json

namespace DlcServer

open Library

variable (valueint : CText → Int)

namespace CJson

mutual

def ofJson : Option CText → Json → CJson
  | name, .null => .node .null none 0 name []
  | name, .bool true => .node .true none 1 name []
  | name, .bool false => .node .false none 0 name []
  | name, .number lexeme => .node .number none (valueint lexeme) name []
  | name, .string value => .node .string (some (CText.untilNul value)) 0 name []
  | name, .array items => .node .array none 0 name (ofItems items)
  | name, .object members => .node .object none 0 name (ofMembers members)

def ofItems : List Json → List CJson
  | [] => []
  | item :: more => ofJson none item :: ofItems more

def ofMembers : List (CText × Json) → List CJson
  | [] => []
  | (name, value) :: more => ofJson (some (CText.untilNul name)) value :: ofMembers more

end

theorem ofItems_eq (items : List Json) :
    ofItems valueint items = items.map (ofJson valueint none) := by
  induction items with
  | nil => rfl
  | cons item more ih => rw [ofItems, ih, List.map_cons]

def ofMember (member : CText × Json) : CJson :=
  ofJson valueint (some (CText.untilNul member.1)) member.2

theorem ofMembers_eq (members : List (CText × Json)) :
    ofMembers valueint members = members.map (ofMember valueint) := by
  induction members with
  | nil => rfl
  | cons member more ih =>
      obtain ⟨name, value⟩ := member
      rw [ofMembers, ih]
      rfl

/-- `cJSON_Parse`, by a parser for documents. -/
def parse (parser : CText → Option Json) (json : CText) : Option CJson :=
  (parser json).map (ofJson valueint none)

end CJson

/-! ### Looking members up in documents -/

def membersOf : Json → List (CText × Json)
  | .object members => members
  | _ => []

/-- The first member whose name is `label` but for case. -/
def lookupMember (document : Json) (label : CText) : Option (CText × Json) :=
  (membersOf document).find? (fun member =>
    label.map CJson.tolower == (CText.untilNul member.1).map CJson.tolower)

def lookup (document : Json) (label : CText) : Option Json :=
  (lookupMember document label).map Prod.snd

/-- The first member whose name is `label`. -/
def lookupExactMember (document : Json) (label : CText) : Option (CText × Json) :=
  (membersOf document).find? (fun member => CText.untilNul member.1 == label)

def lookupExact (document : Json) (label : CText) : Option Json :=
  (lookupExactMember document label).map Prod.snd

namespace CJson

variable {valueint}

@[simp] theorem string_ofJson (name : Option CText) (document : Json) :
    (ofJson valueint name document).string = name := by
  cases document with
  | bool value => cases value <;> rfl
  | _ => rfl

@[simp] theorem isString_ofJson (name : Option CText) (document : Json) :
    (ofJson valueint name document).isString = true ↔ ∃ value, document = .string value := by
  cases document with
  | bool value => cases value <;> simp [ofJson, isString, type]
  | _ => simp [ofJson, isString, type]

@[simp] theorem isNumber_ofJson (name : Option CText) (document : Json) :
    (ofJson valueint name document).isNumber = true ↔ ∃ lexeme, document = .number lexeme := by
  cases document with
  | bool value => cases value <;> simp [ofJson, isNumber, type]
  | _ => simp [ofJson, isNumber, type]

@[simp] theorem isArray_ofJson (name : Option CText) (document : Json) :
    (ofJson valueint name document).isArray = true ↔ ∃ items, document = .array items := by
  cases document with
  | bool value => cases value <;> simp [ofJson, isArray, type]
  | _ => simp [ofJson, isArray, type]

@[simp] theorem isObject_ofJson (name : Option CText) (document : Json) :
    (ofJson valueint name document).isObject = true ↔ ∃ members, document = .object members := by
  cases document with
  | bool value => cases value <;> simp [ofJson, isObject, type]
  | _ => simp [ofJson, isObject, type]

theorem child_ofJson_object (name : Option CText) (members : List (CText × Json)) :
    (ofJson valueint name (.object members)).child = members.map (ofMember valueint) :=
  ofMembers_eq valueint members

theorem child_ofJson_array (name : Option CText) (items : List Json) :
    (ofJson valueint name (.array items)).child = items.map (ofJson valueint none) :=
  ofItems_eq valueint items

theorem getObjectItem_ofJson (name : Option CText) (document : Json) (label : CText) :
    (ofJson valueint name document).getObjectItem label =
      (lookupMember document label).map (ofMember valueint) := by
  unfold getObjectItem lookupMember
  cases document with
  | bool value => cases value <;> rfl
  | object members =>
      rw [child_ofJson_object, List.find?_map]
      congr 1
      refine congrFun (congrArg _ ?_) members
      funext member
      simp [namedAnyCase, ofMember]
  | array items =>
      rw [child_ofJson_array, List.find?_map]
      simp [membersOf, namedAnyCase, Function.comp_def]
  | _ => rfl

/-- A lookup followed by a test of the type, as the walkers make it, finds what
the document has there when that is of the type. -/
theorem filter_getObjectItem_cases {is : CJson → Bool} {Shape : Json → Prop}
    (same : ∀ name value, is (ofJson valueint name value) = true ↔ Shape value)
    (name : Option CText) (document : Json) (label : CText) :
    (∃ found value, lookup document label = some value ∧ Shape value ∧
        ((ofJson valueint name document).getObjectItem label).filter is =
          some (ofJson valueint found value)) ∨
      (∀ value, lookup document label = some value → ¬Shape value) ∧
        ((ofJson valueint name document).getObjectItem label).filter is = none := by
  rw [getObjectItem_ofJson]
  unfold lookup
  cases lookupMember document label with
  | none => simp
  | some member =>
      by_cases shape : Shape member.2
      · refine .inl ⟨some (CText.untilNul member.1), member.2, rfl, shape, ?_⟩
        have isTrue : is (ofMember valueint member) = true := (same _ _).mpr shape
        simp [Option.filter, isTrue]
        rfl
      · have isFalse : is (ofMember valueint member) = false := by
          rw [Bool.eq_false_iff]
          exact fun isTrue => shape ((same _ _).mp isTrue)
        refine .inr ⟨?_, ?_⟩
        · rintro value found
          cases found
          exact shape
        · simp [Option.filter, isFalse]

end CJson

end DlcServer
