/-
The nodes cJSON builds and the accessors the program uses on them.

A node carries all its C fields at once, whatever its type: the walkers of the
program read `string`, `valuestring`, `valueint` and `child` without looking at
the type first, and which of these are NULL is what they stand or fall with.
-/

import DlcServer.Library.Text

namespace DlcServer

open Library

/-- What C gives no meaning to and this model stops at. -/
inductive Fault
  /-- A NULL pointer is read or written through. -/
  | nullPointer
  /-- A string is copied past the end of its array. -/
  | overrun
  deriving DecidableEq, Repr

variable {α β : Type}

inductive CJsonType
  | invalid | false | true | null | number | string | array | object | raw
  deriving DecidableEq, Repr

theorem bind_eq_ok {first : Except Fault α} {next : α → Except Fault β} {result : β}
    (done : first >>= next = .ok result) :
    ∃ value, first = .ok value ∧ next value = .ok result := by
  cases first with
  | error fault => contradiction
  | ok value => exact ⟨value, rfl, done⟩

/-- `struct cJSON`: `string` is the member name, NULL for array elements, and
`child` the list of nodes chained by `next`. -/
inductive CJson
  | node (type : CJsonType) (valuestring : Option CText) (valueint : Int)
      (string : Option CText) (child : List CJson)

namespace CJson

def type : CJson → CJsonType
  | node type _ _ _ _ => type

def valuestring : CJson → Option CText
  | node _ valuestring _ _ _ => valuestring

/-- The number cut to an integer and clamped to the range of `int`. -/
def valueint : CJson → Int
  | node _ _ valueint _ _ => valueint

def string : CJson → Option CText
  | node _ _ _ string _ => string

def child : CJson → List CJson
  | node _ _ _ _ child => child

def isNumber (item : CJson) : Bool :=
  item.type == .number

def isString (item : CJson) : Bool :=
  item.type == .string

def isArray (item : CJson) : Bool :=
  item.type == .array

def isObject (item : CJson) : Bool :=
  item.type == .object

/-- `strcmp(item->string, label) == 0`, which needs a name to compare. -/
def named (item : CJson) (label : CText) : Except Fault Bool :=
  match item.string with
  | none => .error .nullPointer
  | some name => .ok (name == label)

def tolower (byte : UInt8) : UInt8 :=
  if 65 ≤ byte ∧ byte ≤ 90 then byte + 32 else byte

/-- `case_insensitive_strcmp(name, string) == 0`; a NULL name equals nothing. -/
def namedAnyCase (item : CJson) (label : CText) : Bool :=
  match item.string with
  | none => Bool.false
  | some name => label.map tolower == name.map tolower

def getObjectItem (object : CJson) (label : CText) : Option CJson :=
  object.child.find? (fun item => item.namedAnyCase label)

def getArrayItem (array : CJson) (index : Nat) : Option CJson :=
  array.child[index]?

/-- The number of children cut to an `int`. -/
def getArraySize (array : CJson) : Int :=
  Int.bmod array.child.length 4294967296

end CJson

/-- `strcpy` of a received string into an array of `capacity` bytes. -/
def strcpyInto (capacity : Nat) (source : Option CText) : Except Fault CText :=
  match source with
  | none => .error .nullPointer
  | some value =>
      if value.length < capacity then .ok value else .error .overrun

theorem strcpyInto_eq_ok {capacity : Nat} {source : Option CText} {copied : CText}
    (done : strcpyInto capacity source = .ok copied) :
    source = some copied ∧ copied.length < capacity := by
  unfold strcpyInto at done
  cases source with
  | none => contradiction
  | some value =>
      by_cases fits : value.length < capacity
      · simp only [if_pos fits, Except.ok.injEq] at done
        subst copied
        exact ⟨rfl, fits⟩
      · simp only [if_neg fits] at done
        contradiction

/-- The string has no room in an array of `capacity` bytes. -/
def Overlong (capacity : Nat) (source : Option CText) : Prop :=
  ∃ value, source = some value ∧ capacity ≤ value.length

theorem not_overlong_of_strcpyInto {capacity : Nat} {source : Option CText} {copied : CText}
    (done : strcpyInto capacity source = .ok copied) : ¬ Overlong capacity source := by
  rintro ⟨value, there, long⟩
  obtain ⟨same, fits⟩ := strcpyInto_eq_ok done
  rw [there] at same
  cases same
  omega

theorem overlong_of_strcpyInto {capacity : Nat} {source : Option CText}
    (failed : strcpyInto capacity source = .error .overrun) : Overlong capacity source := by
  unfold strcpyInto at failed
  cases source with
  | none => cases failed
  | some value =>
      by_cases fits : value.length < capacity
      · simp only [if_pos fits] at failed
        contradiction
      · exact ⟨value, rfl, Nat.not_lt.mp fits⟩

end DlcServer
