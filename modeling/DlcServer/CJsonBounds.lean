/-
What a text can make cJSON build.

Every byte of a string, every name and every value is paid for with a byte of the
text at least, and containers are nested no deeper than the limit.  So the tree of
a text, with all its strings, is no larger than the text, and no walk down the
tree goes deeper than the limit.
-/

import DlcServer.CJsonRefinement
import DlcServer.Library.JsonMeasure

namespace DlcServer

open Library

namespace Dialect

/-! ### What a document costs -/

/-- What is read is as it must be, and costs no more than the bytes it takes. -/
def Pays {α : Type} (proper : α → Prop) (cost : α → Nat) (scan : CText → Option (α × CText)) :
    Prop :=
  ∀ ⦃input value left⦄, scan input = some (value, left) →
    proper value ∧ cost value + left.length ≤ input.length

private theorem escape_length {rest bytes : CText} {length : Nat}
    (read : escape rest = some (bytes, length)) :
    bytes.length ≤ length ∧ length ≤ rest.length + 1 := by
  cases rest with
  | nil =>
      cases read
      exact ⟨le_refl 1, le_refl 1⟩
  | cons letter more =>
      obtain ⟨_, inside, _⟩ := escape_counted read false
      refine ⟨?_, Nat.le_succ_of_le inside⟩
      rw [escape] at read
      have four (point : Nat) := Json.utf8_length_le point
      by_cases isU : letter = Json.letterU
      · rw [if_pos isU] at read
        generalize (Json.hexFour more).getD 0 = unit at read
        dsimp only at read
        generalize Json.lowSurrogate (more.drop 4) = half at read
        split at read
        · contradiction
        split at read
        · contradiction
        split at read
        · cases half with
          | none => contradiction
          | some low =>
              dsimp only at read
              split at read
              · obtain ⟨rfl, rfl⟩ := Prod.mk.inj (Option.some.inj read)
                exact (four _).trans (by decide)
              · contradiction
        · obtain ⟨rfl, rfl⟩ := Prod.mk.inj (Option.some.inj read)
          exact (four _).trans (by decide)
      · rw [if_neg isU] at read
        obtain ⟨value, _, same⟩ := Option.map_eq_some_iff.mp read
        cases same
        exact le_refl 1

private theorem decode_length {skip : Nat} {inner value : CText} (decoded : decode skip inner = some value) :
    value.length ≤ (inner.drop skip).length := by
  induction inner generalizing skip value with
  | nil =>
      cases skip <;>
      · cases decoded
        exact Nat.zero_le _
  | cons byte rest ih =>
      cases skip with
      | succ skip => exact ih decoded
      | zero =>
          rw [decode] at decoded
          rw [List.drop_zero, List.length_cons]
          by_cases isBackslash : byte = Json.backslash
          · rw [if_pos isBackslash] at decoded
            cases read : escape rest with
            | none =>
                rw [read] at decoded
                contradiction
            | some pair =>
                obtain ⟨bytes, length⟩ := pair
                rw [read] at decoded
                obtain ⟨more, moreDecoded, same⟩ := Option.map_eq_some_iff.mp decoded
                subst same
                obtain ⟨short, inside⟩ := escape_length read
                have moreShort := ih moreDecoded
                rw [List.length_drop] at moreShort
                rw [List.length_append]
                omega
          · rw [if_neg isBackslash] at decoded
            obtain ⟨more, moreDecoded, same⟩ := Option.map_eq_some_iff.mp decoded
            subst same
            exact Nat.succ_le_succ (ih moreDecoded)

private theorem pays_scanString :
    Pays (fun _ => True) (fun value : CText => value.length + 1) scanString := by
  intro input value left scanned
  unfold scanString at scanned
  cases isLiteral : literal input with
  | none =>
      rw [isLiteral] at scanned
      contradiction
  | some pair =>
      obtain ⟨inner, behind⟩ := pair
      rw [isLiteral] at scanned
      obtain ⟨_, decoded, same⟩ := Option.map_eq_some_iff.mp scanned
      cases same
      have short := decode_length decoded
      rw [List.drop_zero] at short
      refine ⟨trivial, ?_⟩
      dsimp only
      rw [literal_eq_some isLiteral, List.length_append, List.length_cons]
      omega

section Bounds

variable {α : Type} {proper : α → Prop} {cost : α → Nat} {scan : CText → Option (α × CText)}
  {close : UInt8}

private theorem pays_scanItems (pays : Pays proper cost scan) (count : Nat) :
    Pays (fun items => ∀ item ∈ items, proper item) (fun items => (items.map cost).sum + 1)
      (scanItems close scan count) := by
  induction count with
  | zero =>
      intro input items left scanned
      contradiction
  | succ count ih =>
      intro input items left scanned
      rw [scanItems] at scanned
      have blank := skipBlank_length input
      cases itemScanned : scan (skipBlank input) with
      | none =>
          rw [itemScanned] at scanned
          contradiction
      | some pair =>
          obtain ⟨item, behind⟩ := pair
          simp only [itemScanned] at scanned
          obtain ⟨isProper, paid⟩ := pays itemScanned
          have behindBlank := skipBlank_length behind
          cases next : skipBlank behind with
          | nil =>
              rw [next] at scanned
              contradiction
          | cons first rest =>
              simp only [next] at scanned
              rw [next, List.length_cons] at behindBlank
              by_cases isComma : first = Json.comma
              · rw [if_pos isComma] at scanned
                obtain ⟨⟨more, last⟩, moreScanned, same⟩ := Option.map_eq_some_iff.mp scanned
                cases same
                obtain ⟨moreProper, morePaid⟩ := ih moreScanned
                refine ⟨List.forall_mem_cons.mpr ⟨isProper, moreProper⟩, ?_⟩
                dsimp only at morePaid ⊢
                rw [List.map_cons, List.sum_cons]
                omega
              · rw [if_neg isComma] at scanned
                split at scanned
                · cases scanned
                  refine ⟨List.forall_mem_singleton.mpr isProper, ?_⟩
                  dsimp only
                  rw [List.map_singleton, List.sum_singleton]
                  omega
                · contradiction

private theorem pays_scanContainer (pays : Pays proper cost scan) :
    Pays (fun items => ∀ item ∈ items, proper item) (fun items => (items.map cost).sum + 1)
      (scanContainer close scan) := by
  intro input items left scanned
  unfold scanContainer at scanned
  have blank := skipBlank_length input
  cases next : skipBlank input with
  | nil =>
      rw [next] at scanned
      contradiction
  | cons first rest =>
      simp only [next] at scanned
      rw [next, List.length_cons] at blank
      split at scanned
      · cases scanned
        refine ⟨fun _ member => absurd member List.not_mem_nil, ?_⟩
        dsimp only
        rw [List.map_nil, List.sum_nil]
        omega
      · exact pays_scanItems pays _ scanned

end Bounds

private theorem pays_scanMember {proper : Json → Prop} {scan : CText → Option (Json × CText)}
    (pays : Pays proper Json.weight scan) :
    Pays (fun member : CText × Json => proper member.2) Json.weightMember (scanMember scan) := by
  intro input member left scanned
  cases input with
  | nil => contradiction
  | cons first rest =>
      rw [scanMember] at scanned
      split at scanned
      · cases nameScanned : scanString rest with
        | none =>
            rw [nameScanned] at scanned
            contradiction
        | some pair =>
            obtain ⟨name, named⟩ := pair
            obtain ⟨_, namePaid⟩ := pays_scanString nameScanned
            have namedBlank := skipBlank_length named
            simp only [nameScanned] at scanned
            cases next : skipBlank named with
            | nil =>
                rw [next] at scanned
                contradiction
            | cons sign assigned =>
                simp only [next] at scanned
                rw [next, List.length_cons] at namedBlank
                split at scanned
                · obtain ⟨⟨value, behind⟩, valueScanned, same⟩ :=
                    Option.map_eq_some_iff.mp scanned
                  cases same
                  obtain ⟨isProper, valuePaid⟩ := pays valueScanned
                  have assignedBlank := skipBlank_length assigned
                  refine ⟨isProper, ?_⟩
                  rw [List.length_cons]
                  dsimp only [Json.weightMember] at namePaid ⊢
                  omega
                · contradiction
      · contradiction

private theorem pays_scanScalar (limit : Nat) :
    Pays (fun document => document.nesting ≤ limit) Json.weight scanScalar := by
  intro input document left scanned
  have advanced := advances_scanScalar _ _ _ scanned
  unfold scanScalar at scanned
  have flat {document : Json} (isFlat : document.nesting = 0) (light : document.weight = 1) :
      document.nesting ≤ limit ∧ document.weight + left.length ≤ input.length := by
    rw [isFlat, light]
    exact ⟨Nat.zero_le limit, by omega⟩
  split at scanned
  · cases scanned
    exact flat rfl rfl
  split at scanned
  · cases scanned
    exact flat rfl rfl
  split at scanned
  · cases scanned
    exact flat rfl rfl
  cases input with
  | nil => contradiction
  | cons first rest =>
      dsimp only at scanned
      split at scanned
      · obtain ⟨⟨value, behind⟩, found, same⟩ := Option.map_eq_some_iff.mp scanned
        cases same
        refine ⟨Nat.zero_le limit, ?_⟩
        have paid := (pays_scanString found).2
        rw [Json.weight, List.length_cons]
        dsimp only at paid ⊢
        omega
      split at scanned
      · obtain ⟨⟨lexeme, behind⟩, found, same⟩ := Option.map_eq_some_iff.mp scanned
        cases same
        exact flat rfl rfl
      · contradiction

private theorem pays_scanValue (limit : Nat) :
    Pays (fun document => document.nesting ≤ limit) Json.weight (scanValue limit) := by
  induction limit with
  | zero => exact pays_scanScalar 0
  | succ limit ih =>
      intro input document left scanned
      rw [scanValue, Option.or_eq_some_iff] at scanned
      rcases scanned with nested | ⟨_, scalar⟩
      · cases input with
        | nil => contradiction
        | cons first rest =>
            rw [scanNested] at nested
            split at nested
            · obtain ⟨⟨items, behind⟩, found, same⟩ := Option.map_eq_some_iff.mp nested
              cases same
              obtain ⟨proper, paid⟩ := pays_scanContainer ih found
              refine ⟨Nat.succ_le_succ ((Json.nestingItems_le items).mpr proper), ?_⟩
              rw [Json.weight, Json.weightItems_eq, List.length_cons]
              dsimp only at paid ⊢
              omega
            split at nested
            · obtain ⟨⟨members, behind⟩, found, same⟩ := Option.map_eq_some_iff.mp nested
              cases same
              obtain ⟨proper, paid⟩ := pays_scanContainer (pays_scanMember ih) found
              refine ⟨Nat.succ_le_succ ((Json.nestingMembers_le members).mpr proper), ?_⟩
              rw [Json.weight, Json.weightMembers_eq, List.length_cons]
              dsimp only at paid ⊢
              omega
            · contradiction
      · exact pays_scanScalar (limit + 1) scalar

private theorem parse_bounds {value : CText} {document : Json} (parsed : parse value = some document) :
    document.nesting ≤ nestingLimit ∧ document.weight ≤ value.length := by
  obtain ⟨⟨found, left⟩, scanned, same⟩ := Option.map_eq_some_iff.mp parsed
  cases same
  obtain ⟨shallow, paid⟩ := pays_scanValue nestingLimit scanned
  have blank := skipBlank_length (skipBom value)
  have bom : (skipBom value).length ≤ value.length := by
    unfold skipBom
    split
    · rw [List.length_drop]
      omega
    · exact le_refl _
  refine ⟨shallow, ?_⟩
  dsimp only
  omega

end Dialect

/-! ### Trees -/

namespace CJson

mutual

/-- How deep `cJSON_Delete` calls itself on the children of a node. -/
def height : CJson → Nat
  | .node _ _ _ _ child => heightChild child

def heightChild : List CJson → Nat
  | [] => 0
  | item :: next => max (height item + 1) (heightChild next)

end

mutual

/-- The nodes of a tree and the bytes of their strings and names. -/
def size : CJson → Nat
  | .node _ valuestring _ string child =>
      1 + (valuestring.getD []).length + (string.getD []).length + sizeChild child

def sizeChild : List CJson → Nat
  | [] => 0
  | item :: next => size item + sizeChild next

end

end CJson

private theorem untilNul_length (value : CText) : (CText.untilNul value).length ≤ value.length := by
  unfold CText.untilNul
  exact (List.takeWhile_prefix _).length_le

mutual

private theorem ofJson_bounds (valueint : CText → Int) (name : Option CText) (document : Json) :
    (CJson.ofJson valueint name document).height ≤ document.nesting ∧
      (CJson.ofJson valueint name document).size ≤ (name.getD []).length + document.weight := by
  cases document with
  | null => simp [CJson.ofJson, CJson.height, CJson.heightChild, CJson.size, CJson.sizeChild,
      Json.weight, Nat.add_comm]
  | bool value => cases value <;> simp [CJson.ofJson, CJson.height, CJson.heightChild, CJson.size,
      CJson.sizeChild, Json.weight, Nat.add_comm]
  | number lexeme => simp [CJson.ofJson, CJson.height, CJson.heightChild, CJson.size,
      CJson.sizeChild, Json.weight, Nat.add_comm]
  | string value =>
      have short := untilNul_length value
      simp only [CJson.ofJson, CJson.height, CJson.heightChild, CJson.size, CJson.sizeChild,
        Json.weight, Option.getD_some]
      omega
  | array items =>
      obtain ⟨shallow, small⟩ := ofItems_bounds valueint items
      simp only [CJson.ofJson, CJson.height, CJson.size, Json.nesting, Json.weight,
        Option.getD_none, List.length_nil]
      omega
  | object members =>
      obtain ⟨shallow, small⟩ := ofMembers_bounds valueint members
      simp only [CJson.ofJson, CJson.height, CJson.size, Json.nesting, Json.weight,
        Option.getD_none, List.length_nil]
      omega

private theorem ofItems_bounds (valueint : CText → Int) (items : List Json) :
    CJson.heightChild (CJson.ofItems valueint items) ≤ Json.nestingItems items + 1 ∧
      CJson.sizeChild (CJson.ofItems valueint items) ≤ Json.weightItems items := by
  cases items with
  | nil => exact ⟨Nat.zero_le _, le_refl 0⟩
  | cons item more =>
      obtain ⟨shallow, small⟩ := ofJson_bounds valueint none item
      obtain ⟨moreShallow, moreSmall⟩ := ofItems_bounds valueint more
      simp only [CJson.ofItems, CJson.heightChild, CJson.sizeChild, Json.nestingItems,
        Json.weightItems, Option.getD_none, List.length_nil] at *
      omega

private theorem ofMembers_bounds (valueint : CText → Int) (members : List (CText × Json)) :
    CJson.heightChild (CJson.ofMembers valueint members) ≤ Json.nestingMembers members + 1 ∧
      CJson.sizeChild (CJson.ofMembers valueint members) ≤ Json.weightMembers members := by
  cases members with
  | nil => exact ⟨Nat.zero_le _, le_refl 0⟩
  | cons member more =>
      obtain ⟨name, value⟩ := member
      obtain ⟨shallow, small⟩ := ofJson_bounds valueint (some (CText.untilNul name)) value
      obtain ⟨moreShallow, moreSmall⟩ := ofMembers_bounds valueint more
      have short := untilNul_length name
      simp only [CJson.ofMembers, CJson.heightChild, CJson.sizeChild, Json.nestingMembers,
        Json.weightMembers, Option.getD_some] at *
      omega

end

/-- Whatever the text, its tree is no deeper than the nesting limit and no larger
than the text. -/
theorem cJsonParse_bounds {value : CText} {tree : CJson}
    (parsed : cJsonParse value = .ok (some tree)) :
    tree.height ≤ nestingLimit ∧ tree.size ≤ value.length := by
  rw [cJsonParse_eq] at parsed
  obtain ⟨document, isDocument, same⟩ := Option.map_eq_some_iff.mp (Except.ok.inj parsed)
  subst same
  obtain ⟨shallow, light⟩ := Dialect.parse_bounds isDocument
  obtain ⟨treeShallow, treeSmall⟩ := ofJson_bounds numberInt none document
  rw [Option.getD_none, List.length_nil, Nat.zero_add] at treeSmall
  exact ⟨treeShallow.trans shallow, treeSmall.trans light⟩

theorem cJsonParse_bounds_nested :
    (CJson.ofJson numberInt none (.array [.array []])).height ≤ nestingLimit ∧
      (CJson.ofJson numberInt none (.array [.array []])).size ≤ (text "[[]]").length := by
  refine cJsonParse_bounds ?_
  rw [cJsonParse_eq]
  rfl

end DlcServer
