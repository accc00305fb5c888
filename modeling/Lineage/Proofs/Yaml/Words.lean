import Lineage.Proofs.Json.Trees
import Lineage.Proofs.Yaml.Quoted
import Lineage.Yaml.Node

/-!
# Words as names

The names of the fields of stored data are short words of small letters.  Such a
word stands in JSON as it is, on one line, so that YAML reads it as itself and
takes it for a key if a colon follows.
-/

namespace Lineage

open Json

/-! ## The names in a tree -/

namespace Value

mutual

/-- The names of the fields in a tree. -/
def names : Value → List String
  | list items => namesOfItems items
  | record fields => namesOfFields fields
  | _ => []

def namesOfItems : List Value → List String
  | [] => []
  | item :: items => item.names ++ namesOfItems items

def namesOfFields : List (Key × Value) → List String
  | [] => []
  | (key, value) :: fields => key.name :: (value.names ++ namesOfFields fields)

end

theorem forall_names_list {items : List Value} {p : String → Prop} :
    (∀ name ∈ names (.list items), p name) ↔ ∀ item ∈ items, ∀ name ∈ item.names, p name := by
  rw [names]
  induction items with
  | nil => simp [namesOfItems]
  | cons item items ih => rw [namesOfItems, List.forall_mem_append, ih, List.forall_mem_cons]

theorem forall_names_ofFields {fields : List (String × Value)} {p : String → Prop} :
    (∀ name ∈ names (.ofFields fields), p name) ↔
      ∀ field ∈ fields, p field.1 ∧ ∀ name ∈ field.2.names, p name := by
  rw [ofFields_eq, names]
  induction fields with
  | nil => simp [namesOfFields]
  | cons field fields ih =>
      rw [named_cons, namesOfFields, List.forall_mem_cons, List.forall_mem_append, ih,
        List.forall_mem_cons, Key.name, and_assoc]

end Value

namespace Yaml

/-- The characters of the names of fields. -/
def letters : List Char := "abcdefghijklmnopqrstuvwxyz_".toList

/-- A short word of small letters and low lines. -/
def isWord (name : String) : Bool :=
  name.toList.all (fun c => letters.contains c) && decide (name.toList.length ≤ 1000)

/-- All fields of a tree are named by short words. -/
def Worded (value : Value) : Prop := ∀ name ∈ value.names, isWord name = true

@[simp] theorem worded_null : Worded .null := List.forall_mem_nil _

@[simp] theorem worded_int (n : Int) : Worded (.int n) := List.forall_mem_nil _

@[simp] theorem worded_text (s : String) : Worded (.text s) := List.forall_mem_nil _

theorem worded_list {items : List Value} : Worded (.list items) ↔ ∀ item ∈ items, Worded item :=
  Value.forall_names_list

theorem worded_ofFields {fields : List (String × Value)} :
    Worded (.ofFields fields) ↔ ∀ field ∈ fields, isWord field.1 = true ∧ Worded field.2 :=
  Value.forall_names_ofFields

/-! ## Words -/

/-- A character that is nothing but itself, in JSON and in YAML. -/
structure IsLetter (c : Char) : Prop where
  plain : Quoted.IsPlain c
  allowed : isAllowed c = true
  space : c ≠ ' '
  line : isBreak c = false

theorem isLetter_of_mem {c : Char} (h : c ∈ letters) : IsLetter c := by
  have hall : (letters.all fun c => decide (0x20 ≤ c.toNat ∧ c ≠ '"' ∧ c ≠ '\\') &&
      (isAllowed c && c != ' ' && !isBreak c)) = true := by decide
  have hc := List.all_eq_true.1 hall c h
  simp only [Bool.and_eq_true, decide_eq_true_eq, bne_iff_ne, Bool.not_eq_true'] at hc
  obtain ⟨hplain, ⟨hallowed, hspace⟩, hline⟩ := hc
  exact ⟨hplain, hallowed, hspace, hline⟩

/-- A word, character by character. -/
structure IsWord (name : String) : Prop where
  letter : ∀ c ∈ name.toList, IsLetter c
  length_le : name.toList.length ≤ 1000

theorem isWord_spec {name : String} (h : isWord name = true) : IsWord name := by
  simp only [isWord, Bool.and_eq_true, List.all_eq_true, List.contains_iff_mem,
    decide_eq_true_eq] at h
  exact ⟨fun c hc => isLetter_of_mem (h.1 c hc), h.2⟩

namespace IsWord

variable {name : String}

theorem unfolded (h : IsWord name) : unfolded name.toList = true := by
  have hletters (text : List Char) (htext : ∀ c ∈ text, IsLetter c) :
      Yaml.unfolded text = true := by
    induction text with
    | nil => rfl
    | cons c text ih =>
        obtain ⟨hc, htext⟩ := List.forall_mem_cons.1 htext
        have hbreak : isRawBreak c = false := by
          rw [← Bool.not_eq_true]
          exact fun hbreak => absurd hc.line (by simp [isBreak_of_isRawBreak hbreak])
        rw [unfolded_cons_of_ordinary hc.space hbreak, ih htext]
  exact hletters name.toList h.letter

/-- A word stands in JSON between quotes, with nothing escaped. -/
theorem string_eq (h : IsWord name) :
    Layout.compact.string name = '"' :: (name.toList ++ ['"']) := by
  rw [Layout.string, Quoted.flatMap_escape_of_isPlain fun c hc => (h.letter c hc).plain]

/-- Between quotes a word is a key if a colon follows. -/
theorem closesKey {cursor : Cursor} {rest : List Char} (h : IsWord name)
    (hcursor : cursor.rest = Layout.compact.string name ++ rest) :
    closesKey cursor (cursor.skip (Layout.compact.string name).length) = true := by
  have hline : ∀ c ∈ Layout.compact.string name, isBreak c = false := by
    rw [h.string_eq, List.forall_mem_cons, List.forall_mem_append]
    exact ⟨rfl, fun c hc => (h.letter c hc).line, List.forall_mem_singleton.2 rfl⟩
  obtain ⟨hsame, hindex⟩ := Cursor.line_skip_of_append hcursor hline
  have hcount : (Layout.compact.string name).length = name.toList.length + 2 := by
    rw [h.string_eq, List.length_cons, List.length_append, List.length_singleton]
  have hlength := h.length_le
  have hreach : cursor.index + (name.toList.length + 2) ≤ cursor.index + keyReach := by
    rw [keyReach]
    omega
  rw [Yaml.closesKey, hsame, hindex, hcount, beq_self_eq_true, Bool.true_and]
  exact decide_eq_true hreach

end IsWord

end Yaml

end Lineage
