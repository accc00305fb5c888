import Mathlib.Algebra.Order.BigOperators.Group.List
import Lineage.Proofs.Json.Numbers
import Lineage.Proofs.Json.Strings
import Lineage.Stored.Operation

/-!
# A tree is read as it was written

Data that is stored has no numbers with a fraction and no moments, and the
fields of its records are told apart by texts.  A text that such data was
written to is read as this data, in both layouts, if the nesting and the width
of every integer are allowed.  Of data with a longer integer nothing is read.

The proof follows the tree.  The items of a list and the fields of a record are
read one after the other; each of them ends where the comma or the closing
bracket begins, neither of which goes on with a number.
-/

namespace Lineage

/-! ## Records of named fields -/

namespace Value

/-- Fields under texts. -/
def named (fields : List (String × Value)) : List (Key × Value) :=
  fields.map fun (name, value) => (.text name, value)

@[simp] theorem named_nil : named [] = [] := rfl

@[simp] theorem named_cons (field : String × Value) (fields : List (String × Value)) :
    named (field :: fields) = (.text field.1, field.2) :: named fields :=
  rfl

@[simp] theorem named_append (fields more : List (String × Value)) :
    named (fields ++ more) = named fields ++ named more :=
  List.map_append

theorem ofFields_eq (fields : List (String × Value)) : ofFields fields = .record (named fields) :=
  rfl

theorem putField_of_absent {fields : List (String × Value)} {name : String}
    (habsent : name ∉ fields.map Prod.fst) (value : Value) :
    putField (named fields) (.text name) value = named (fields ++ [(name, value)]) := by
  have hnone : ((named fields).any fun entry => entry.1.same (.text name)) = false := by
    rw [List.any_eq_false]
    intro entry hentry
    obtain ⟨⟨other, _⟩, hmem, rfl⟩ := List.mem_map.1 hentry
    have hother : other ≠ name := fun h => habsent (h ▸ List.mem_map_of_mem hmem)
    simp [Key.same, hother]
  simp [putField, hnone]

theorem foldl_putField_of_nodup (before : List (String × Value)) {more : List (String × Value)}
    (hnodup : ((before ++ more).map Prod.fst).Nodup) :
    (named more).foldl (fun fields entry => putField fields entry.1 entry.2) (named before) =
      named (before ++ more) := by
  induction more generalizing before with
  | nil => simp
  | cons field more ih =>
      have habsent : field.1 ∉ before.map Prod.fst := by
        rw [List.map_append, List.nodup_append] at hnodup
        intro hmem
        exact hnodup.2.2 _ hmem _ (by simp) rfl
      have hrest : ((before ++ [field] ++ more).map Prod.fst).Nodup := by simpa using hnodup
      have hstep := ih (before ++ [field]) hrest
      rw [← putField_of_absent habsent, List.append_assoc, List.singleton_append] at hstep
      exact hstep

/-- Fields with different names are collected as they are. -/
theorem collect_of_nodup {fields : List (String × Value)} (hnodup : (fields.map Prod.fst).Nodup) :
    collect (named fields) = named fields :=
  foldl_putField_of_nodup [] hnodup

end Value

/-! ## The integers of a tree -/

namespace Value

mutual

/-- The integers that stand in a tree. -/
def integers : Value → List Int
  | int n => [n]
  | list items => integersOfItems items
  | record fields => integersOfFields fields
  | _ => []

def integersOfItems : List Value → List Int
  | [] => []
  | item :: items => item.integers ++ integersOfItems items

def integersOfFields : List (Key × Value) → List Int
  | [] => []
  | (_, value) :: fields => value.integers ++ integersOfFields fields

end

theorem forall_integers_list {items : List Value} {p : Int → Prop} :
    (∀ n ∈ integers (.list items), p n) ↔ ∀ item ∈ items, ∀ n ∈ item.integers, p n := by
  rw [integers]
  induction items with
  | nil => simp [integersOfItems]
  | cons item items ih => rw [integersOfItems, List.forall_mem_append, ih, List.forall_mem_cons]

theorem forall_integers_ofFields {fields : List (String × Value)} {p : Int → Prop} :
    (∀ n ∈ integers (.ofFields fields), p n) ↔ ∀ field ∈ fields, ∀ n ∈ field.2.integers, p n := by
  rw [ofFields_eq, integers]
  induction fields with
  | nil => simp [integersOfFields]
  | cons field fields ih =>
      rw [named_cons, integersOfFields, List.forall_mem_append, ih, List.forall_mem_cons]

@[simp] theorem integers_text (s : String) : integers (.text s) = [] := rfl

theorem integers_list_eq_nil_iff {items : List Value} :
    integers (.list items) = [] ↔ ∀ item ∈ items, item.integers = [] := by
  simp only [List.eq_nil_iff_forall_not_mem]
  exact forall_integers_list

theorem integers_ofFields_eq_nil_iff {fields : List (String × Value)} :
    integers (.ofFields fields) = [] ↔ ∀ field ∈ fields, field.2.integers = [] := by
  simp only [List.eq_nil_iff_forall_not_mem]
  exact forall_integers_ofFields

end Value

namespace Json

/-- Every integer of a tree has at most the given number of digits. -/
def Fits (width : Nat) (value : Value) : Prop :=
  ∀ n ∈ value.integers, (Nat.toDigits 10 n.natAbs).length ≤ width

instance (width : Nat) (value : Value) : Decidable (Fits width value) :=
  inferInstanceAs (Decidable (∀ n ∈ value.integers, _))

@[simp] theorem fits_null (width : Nat) : Fits width .null := List.forall_mem_nil _

@[simp] theorem fits_text (width : Nat) (s : String) : Fits width (.text s) := List.forall_mem_nil _

@[simp] theorem fits_int {width : Nat} {n : Int} :
    Fits width (.int n) ↔ (Nat.toDigits 10 n.natAbs).length ≤ width := by
  simp [Fits, Value.integers]

theorem fits_list {width : Nat} {items : List Value} :
    Fits width (.list items) ↔ ∀ item ∈ items, Fits width item :=
  Value.forall_integers_list

theorem fits_ofFields {width : Nat} {fields : List (String × Value)} :
    Fits width (.ofFields fields) ↔ ∀ field ∈ fields, Fits width field.2 :=
  Value.forall_integers_ofFields

/-! ## Stored data -/

/-- Data as it is stored, nested at most `depth` deep. -/
inductive Storable : Nat → Value → Prop
  | null {depth : Nat} : Storable depth .null
  | bool {depth : Nat} (b : Bool) : Storable depth (.bool b)
  | int {depth : Nat} (n : Int) : Storable depth (.int n)
  | text {depth : Nat} (s : String) : Storable depth (.text s)
  | list {depth : Nat} {items : List Value} (hitems : ∀ item ∈ items, Storable depth item) :
      Storable (depth + 1) (.list items)
  | record {depth : Nat} {fields : List (String × Value)}
      (hnames : (fields.map Prod.fst).Nodup)
      (hfields : ∀ field ∈ fields, Storable depth field.2) :
      Storable (depth + 1) (.ofFields fields)

/-! ## Blanks -/

theorem skipBlanks_append {blanks : List Char} (hblanks : ∀ c ∈ blanks, isBlank c = true)
    (text : List Char) : skipBlanks (blanks ++ text) = skipBlanks text :=
  List.dropWhile_append_of_pos hblanks

theorem skipBlanks_cons {c : Char} (hc : isBlank c = false) (text : List Char) :
    skipBlanks (c :: text) = c :: text :=
  List.dropWhile_cons_of_neg (by simp [hc])

/-- Behind a comma and a colon a layout has nothing but blanks. -/
structure Layout.Readable (layout : Layout) : Prop where
  comma : ∃ blanks, layout.comma = ',' :: blanks ∧ ∀ c ∈ blanks, isBlank c = true
  colon : ∃ blanks, layout.colon = ':' :: blanks ∧ ∀ c ∈ blanks, isBlank c = true

theorem readable_compact : Layout.compact.Readable := ⟨⟨[], rfl, by simp⟩, ⟨[], rfl, by simp⟩⟩

theorem readable_ascii : Layout.ascii.Readable :=
  ⟨⟨[' '], rfl, by simp [isBlank]⟩, ⟨[' '], rfl, by simp [isBlank]⟩⟩

/-! ## Where a tree begins and ends -/

section

variable (layout : Layout)

theorem exists_cons_integer (n : Int) :
    ∃ c text, integer n = c :: text ∧ (c = '-' ∨ c.isDigit = true) := by
  by_cases hnegative : n < 0
  · exact ⟨'-', Nat.toDigits 10 n.natAbs, by rw [integer, if_pos hnegative], .inl rfl⟩
  · obtain ⟨c, run, hrun⟩ := exists_cons_toDigits n.natAbs
    refine ⟨c, run, by rw [integer, if_neg hnegative, hrun], .inr ?_⟩
    exact isDigit_of_mem_toDigits (hrun ▸ List.mem_cons_self)

/-- A tree begins neither with a blank nor with a closing bracket. -/
theorem Storable.exists_cons_tree {depth : Nat} {value : Value} (h : Storable depth value) :
    ∃ c text, layout.tree value = c :: text ∧ isBlank c = false ∧ c ≠ ']' := by
  cases h with
  | null => exact ⟨'n', _, rfl, by decide⟩
  | bool b => cases b <;> exact ⟨_, _, rfl, by decide⟩
  | int n =>
      obtain ⟨c, text, htext, hc⟩ := exists_cons_integer n
      refine ⟨c, text, by rw [Layout.tree, htext], ?_⟩
      -- a digit is none of the four blanks, and no bracket
      rcases hc with rfl | hdigit
      · decide
      · constructor
        · rw [← Bool.not_eq_true]
          intro hblank
          simp only [isBlank, Bool.or_eq_true, beq_iff_eq] at hblank
          rcases hblank with ((rfl | rfl) | rfl) | rfl <;> simp at hdigit
        · rintro rfl
          simp at hdigit
  | text s => exact ⟨'"', _, rfl, by decide⟩
  | @list _ items _ => cases items <;> exact ⟨'[', _, by rw [Layout.tree], by decide⟩
  | @record _ fields _ _ => cases fields <;> exact ⟨'\x7b', _, by rfl, by decide⟩

theorem Storable.skipBlanks_tree {depth : Nat} {value : Value} (h : Storable depth value)
    (rest : List Char) : skipBlanks (layout.tree value ++ rest) = layout.tree value ++ rest := by
  obtain ⟨c, text, htext, hc, -⟩ := h.exists_cons_tree layout
  rw [htext, List.cons_append, skipBlanks_cons hc]

end

/-! ## Items and fields -/

section Items

variable {layout : Layout} {width depth : Nat} {item : Reader Value}

/-- At the head of a text a reader reads the tree that was written there, if it fits. -/
def ReadsBack (layout : Layout) (width : Nat) (item : Reader Value) (value : Value) : Prop :=
  ∀ rest, EndsNumber rest →
    item (layout.tree value ++ rest) = if Fits width value then some (value, rest) else none

theorem endsNumber_cons {c : Char} (hc : c = ',' ∨ c = ']' ∨ c = '\x7d') (rest : List Char) :
    EndsNumber (c :: rest) := by
  intro other hhead
  obtain rfl : c = other := Option.some.inj hhead
  rcases hc with rfl | rfl | rfl <;> decide

theorem Layout.Readable.endsNumber_restOfList (readable : layout.Readable) (others : List Value)
    (rest : List Char) : EndsNumber (layout.restOfList others ++ rest) := by
  cases others with
  | nil => exact endsNumber_cons (.inr (.inl rfl)) _
  | cons next others =>
      obtain ⟨blanks, hcomma, -⟩ := readable.comma
      rw [Layout.restOfList, hcomma]
      exact endsNumber_cons (.inl rfl) _

theorem Layout.Readable.endsNumber_restOfRecord (readable : layout.Readable)
    (others : List (Key × Value)) (rest : List Char) :
    EndsNumber (layout.restOfRecord others ++ rest) := by
  cases others with
  | nil => exact endsNumber_cons (.inr (.inr rfl)) _
  | cons next others =>
      obtain ⟨blanks, hcomma, -⟩ := readable.comma
      rw [Layout.restOfRecord, hcomma]
      exact endsNumber_cons (.inl rfl) _

/-- To ask something of all items is to ask it of the first and then of the others. -/
theorem ite_forall_mem_cons {α β : Type} {p : α → Prop} [DecidablePred p] {first : α}
    {others : List α} {yes no : β} :
    (if ∀ a ∈ first :: others, p a then yes else no) =
      if p first then if ∀ a ∈ others, p a then yes else no else no := by
  simp only [List.forall_mem_cons, ite_and]

/-- The items of a list are read up to the closing bracket. -/
theorem items_tree (readable : layout.Readable) {others : List Value} {first : Value}
    (hstorable : ∀ value ∈ first :: others, Storable depth value)
    (hread : ∀ value ∈ first :: others, ReadsBack layout width item value) {fuel : Nat}
    (hfuel : others.length < fuel) {text : List Char} (rest : List Char)
    (htext : skipBlanks text = layout.tree first ++ (layout.restOfList others ++ rest)) :
    items item fuel text =
      if ∀ value ∈ first :: others, Fits width value then some (first :: others, rest) else none := by
  -- on the items that follow, each read with one unit of fuel
  induction others generalizing first fuel text with
  | nil =>
      obtain ⟨fuel, rfl⟩ := Nat.exists_eq_add_one.2 hfuel
      rw [items, htext, hread first (by simp) _ (readable.endsNumber_restOfList [] rest)]
      by_cases hfits : Fits width first
      · simp [hfits, Layout.restOfList, skipBlanks_cons (show isBlank ']' = false by decide)]
      · simp [hfits]
  | cons next others ih =>
      obtain ⟨fuel, rfl⟩ := Nat.exists_eq_add_one.2 (Nat.zero_lt_of_lt hfuel)
      obtain ⟨blanks, hcomma, hblanks⟩ := readable.comma
      have hnext : skipBlanks (blanks ++ (layout.tree next ++ (layout.restOfList others ++ rest))) =
          layout.tree next ++ (layout.restOfList others ++ rest) := by
        rw [skipBlanks_append hblanks, (hstorable next (by simp)).skipBlanks_tree]
      have htail := ih (fun value hmem => hstorable value (List.mem_cons_of_mem _ hmem))
        (fun value hmem => hread value (List.mem_cons_of_mem _ hmem))
        (Nat.lt_of_succ_lt_succ hfuel) hnext
      rw [items, htext, hread first (by simp) _ (readable.endsNumber_restOfList _ rest),
        ite_forall_mem_cons]
      -- a number that is too wide ends the reading here
      by_cases hfits : Fits width first
      · have hrest : layout.restOfList (next :: others) ++ rest =
            ',' :: (blanks ++ (layout.tree next ++ (layout.restOfList others ++ rest))) := by
          simp [Layout.restOfList, hcomma]
        simp only [if_pos hfits, hrest, skipBlanks_cons (show isBlank ',' = false by decide), htail]
        split <;> rfl
      · rw [if_neg hfits, if_neg hfits]

/-- A field is read as its name and its value. -/
theorem field_tree (readable : layout.Readable) {value : Value} (hstorable : Storable depth value)
    (hread : ReadsBack layout width item value) (name : String) {text rest : List Char}
    (hrest : EndsNumber rest)
    (htext : skipBlanks text =
      layout.string name ++ (layout.colon ++ (layout.tree value ++ rest))) :
    field item text =
      if Fits width value then some ((.text name, value), rest) else none := by
  obtain ⟨blanks, hcolon, hblanks⟩ := readable.colon
  have hname : skipBlanks text = '"' :: (name.toList.flatMap layout.escape ++
      '"' :: ':' :: (blanks ++ (layout.tree value ++ rest))) := by
    simp [htext, hcolon, Layout.string]
  have hvalue : item (skipBlanks (blanks ++ (layout.tree value ++ rest))) =
      if Fits width value then some (value, rest) else none := by
    rw [skipBlanks_append hblanks, hstorable.skipBlanks_tree, hread _ hrest]
  simp only [field, hname, stringBody_flatMap_escape,
    skipBlanks_cons (show isBlank ':' = false by decide), hvalue, String.ofList_toList]
  split <;> rfl

/-- The fields of a record are read up to the closing brace. -/
theorem fields_tree (readable : layout.Readable) {others : List (String × Value)}
    {first : String × Value}
    (hstorable : ∀ entry ∈ first :: others, Storable depth entry.2)
    (hread : ∀ entry ∈ first :: others, ReadsBack layout width item entry.2) {fuel : Nat}
    (hfuel : others.length < fuel) {text : List Char} (rest : List Char)
    (htext : skipBlanks text = layout.string first.1 ++ (layout.colon ++ (layout.tree first.2 ++
      (layout.restOfRecord (Value.named others) ++ rest)))) :
    fields item fuel text =
      if ∀ entry ∈ first :: others, Fits width entry.2 then
        some (Value.named (first :: others), rest)
      else none := by
  -- as for the items of a list, with a name before each value
  induction others generalizing first fuel text with
  | nil =>
      obtain ⟨fuel, rfl⟩ := Nat.exists_eq_add_one.2 hfuel
      rw [fields, field_tree readable (hstorable first (by simp)) (hread first (by simp)) first.1
        (readable.endsNumber_restOfRecord [] rest) htext]
      by_cases hfits : Fits width first.2
      · simp [hfits, Layout.restOfRecord, skipBlanks_cons (show isBlank '\x7d' = false by decide)]
      · simp [hfits]
  | cons next others ih =>
      obtain ⟨fuel, rfl⟩ := Nat.exists_eq_add_one.2 (Nat.zero_lt_of_lt hfuel)
      obtain ⟨blanks, hcomma, hblanks⟩ := readable.comma
      have hnext : skipBlanks (blanks ++ (layout.string next.1 ++ (layout.colon ++
          (layout.tree next.2 ++ (layout.restOfRecord (Value.named others) ++ rest))))) =
          layout.string next.1 ++ (layout.colon ++
            (layout.tree next.2 ++ (layout.restOfRecord (Value.named others) ++ rest))) := by
        rw [skipBlanks_append hblanks]
        exact skipBlanks_cons (by decide) _
      have htail := ih (fun entry hmem => hstorable entry (List.mem_cons_of_mem _ hmem))
        (fun entry hmem => hread entry (List.mem_cons_of_mem _ hmem))
        (Nat.lt_of_succ_lt_succ hfuel) hnext
      rw [fields, field_tree readable (hstorable first (by simp)) (hread first (by simp)) first.1
        (readable.endsNumber_restOfRecord _ rest) htext, ite_forall_mem_cons]
      by_cases hfits : Fits width first.2
      · have hrest : layout.restOfRecord (Value.named (next :: others)) ++ rest =
            ',' :: (blanks ++ (layout.string next.1 ++ (layout.colon ++
              (layout.tree next.2 ++ (layout.restOfRecord (Value.named others) ++ rest))))) := by
          simp [Layout.restOfRecord, hcomma, Key.name]
        simp only [if_pos hfits, hrest, skipBlanks_cons (show isBlank ',' = false by decide), htail]
        split <;> rfl
      · rw [if_neg hfits, if_neg hfits]

/-! ## Whole trees -/

theorem length_restOfList (readable : layout.Readable) (others : List Value) :
    others.length < (layout.restOfList others).length := by
  obtain ⟨blanks, hcomma, -⟩ := readable.comma
  induction others with
  | nil => simp [Layout.restOfList]
  | cons next others ih =>
      simp only [Layout.restOfList, hcomma, List.length_cons, List.length_append]
      omega

theorem length_restOfRecord (readable : layout.Readable) (others : List (Key × Value)) :
    others.length < (layout.restOfRecord others).length := by
  obtain ⟨blanks, hcomma, -⟩ := readable.comma
  induction others with
  | nil => simp [Layout.restOfRecord]
  | cons next others ih =>
      simp only [Layout.restOfRecord, hcomma, List.length_cons, List.length_append]
      omega

theorem tree_integer {rest : List Char} (hrest : EndsNumber rest) (depth : Nat) (n : Int) :
    tree width depth (integer n ++ rest) =
      if (Nat.toDigits 10 n.natAbs).length ≤ width then some (.int n, rest) else none := by
  obtain ⟨c, text, htext, hc⟩ := exists_cons_integer n
  -- a minus sign or a digit begins nothing but a number
  have hother (other : Char) (hother : other.isDigit = false) (hminus : other ≠ '-') : c ≠ other := by
    rintro rfl
    rcases hc with rfl | hdigit
    · exact hminus rfl
    · exact absurd hdigit (by simp [hother])
  have hendless : endless (integer n ++ rest) = none := by
    obtain ⟨digit, run, hrun⟩ := exists_cons_toDigits n.natAbs
    have hdigit : digit.isDigit = true := isDigit_of_mem_toDigits (hrun ▸ List.mem_cons_self)
    have hletter : digit ≠ 'I' := by
      rintro rfl
      simp at hdigit
    simp only [endless, minusSign_integer, hrun, List.cons_append]
    split
    · next h => exact absurd (List.cons.inj (Prod.mk.inj h).2).1 hletter
    · rfl
  rw [tree, hendless, Option.none_or, number_integer hrest]
  all_goals
    intro _ heq
    rw [htext] at heq
    exact hother _ (by decide) (by decide) (List.cons.inj heq).1

theorem tree_items {text : List Char} (hskip : skipBlanks text = text)
    (hbracket : ∀ more, text ≠ ']' :: more) (depth : Nat) :
    tree width (depth + 1) ('[' :: text) =
      (items (tree width depth) text.length text).map fun (values, text) => (.list values, text) := by
  rw [tree, hskip]
  split
  · next more => exact absurd rfl (hbracket more)
  · rfl

theorem tree_fields {text : List Char} (hskip : skipBlanks text = text)
    (hbrace : ∀ more, text ≠ '\x7d' :: more) (depth : Nat) :
    tree width (depth + 1) ('\x7b' :: text) =
      (fields (tree width depth) text.length text).map fun (entries, text) =>
        (.record (Value.collect entries), text) := by
  rw [tree, hskip]
  split
  · next more => exact absurd rfl (hbrace more)
  · rfl

theorem readsBack_list (readable : layout.Readable) {values : List Value}
    (hstorable : ∀ value ∈ values, Storable depth value)
    (hread : ∀ value ∈ values, ReadsBack layout width (tree width depth) value) :
    ReadsBack layout width (tree width (depth + 1)) (.list values) := by
  intro rest _
  cases values with
  | nil =>
      rw [if_pos (fits_list.2 (by simp))]
      simp [Layout.tree, tree, skipBlanks_cons (show isBlank ']' = false by decide)]
  | cons first others =>
      let text := layout.tree first ++ (layout.restOfList others ++ rest)
      have hwritten : layout.tree (.list (first :: others)) ++ rest = '[' :: text := by
        simp [Layout.tree, text]
      have hfirst : Storable depth first := hstorable first (by simp)
      have hskip : skipBlanks text = text := hfirst.skipBlanks_tree layout _
      have hbracket : ∀ more, text ≠ ']' :: more := by
        obtain ⟨c, more, hc, -, hne⟩ := hfirst.exists_cons_tree layout
        intro _ heq
        simp only [text, hc] at heq
        exact hne (List.cons.inj heq).1
      have hfuel : others.length < text.length := by
        have := length_restOfList readable others
        simp only [text, List.length_append]
        omega
      rw [hwritten, tree_items hskip hbracket, items_tree readable hstorable hread hfuel rest hskip]
      simp only [fits_list]
      split <;> rfl

theorem readsBack_record (readable : layout.Readable) {entries : List (String × Value)}
    (hnames : (entries.map Prod.fst).Nodup)
    (hstorable : ∀ entry ∈ entries, Storable depth entry.2)
    (hread : ∀ entry ∈ entries, ReadsBack layout width (tree width depth) entry.2) :
    ReadsBack layout width (tree width (depth + 1)) (.ofFields entries) := by
  intro rest _
  cases entries with
  | nil =>
      rw [if_pos (fits_ofFields.2 (by simp))]
      simp [Value.ofFields_eq, Layout.tree, tree,
        skipBlanks_cons (show isBlank '\x7d' = false by decide)]
  | cons first others =>
      let text := layout.string first.1 ++
        (layout.colon ++ (layout.tree first.2 ++ (layout.restOfRecord (Value.named others) ++ rest)))
      have hwritten : layout.tree (.ofFields (first :: others)) ++ rest = '\x7b' :: text := by
        simp [Value.ofFields_eq, Layout.tree, text, Key.name]
      have hskip : skipBlanks text = text := skipBlanks_cons (by decide) _
      have hbrace : ∀ more, text ≠ '\x7d' :: more := by
        intro _ heq
        exact absurd (List.cons.inj heq).1 (by decide)
      -- each field takes a character at least, so the length of the text is fuel enough
      have hfuel : others.length < text.length := by
        have := length_restOfRecord readable (Value.named others)
        simp only [text, List.length_append]
        simp only [Value.named, List.length_map] at this ⊢
        omega
      rw [hwritten, tree_fields hskip hbrace,
        fields_tree readable hstorable hread hfuel rest hskip]
      simp only [fits_ofFields]
      split
      · rw [Option.map_some, Value.collect_of_nodup hnames]
        rfl
      · rfl

end Items

section

variable {layout : Layout} {depth : Nat} {value : Value}

/-- Stored data is read as it was written if all its integers fit, and else not at all. -/
theorem Storable.readsBack (readable : layout.Readable) (width : Nat) (h : Storable depth value) :
    ReadsBack layout width (tree width depth) value := by
  induction h with
  | null => intro rest _; simp [Layout.tree, tree]
  | bool b => intro rest _; cases b <;> simp [Layout.tree, tree, Fits, Value.integers]
  | int n =>
      intro rest hrest
      rw [Layout.tree, tree_integer hrest]
      simp
  | text s =>
      intro rest _
      simp [Layout.tree, Layout.string, tree, stringBody_flatMap_escape]
  | list hitems ih => exact readsBack_list readable hitems ih
  | record hnames hfields ih => exact readsBack_record readable hnames hfields ih

/-! ## Texts -/

/-- A text of stored data holds this data and nothing else. -/
theorem Storable.read?_write (readable : layout.Readable) (limits : Limits)
    (h : Storable limits.depth value) :
    read? limits (layout.write value) = if Fits limits.width value then some value else none := by
  have hread := h.readsBack readable limits.width [] endsNumber_nil
  rw [List.append_nil] at hread
  have hskip := h.skipBlanks_tree layout []
  rw [List.append_nil] at hskip
  rw [read?, Layout.write, String.toList_ofList, hskip, hread]
  by_cases hfits : Fits limits.width value
  · simp [hfits, skipBlanks]
  · simp [hfits]

theorem exists_fits_both (first second : Value) : ∃ width, Fits width first ∧ Fits width second := by
  let lengths := (first.integers ++ second.integers).map fun n => (Nat.toDigits 10 n.natAbs).length
  have hle (n : Int) (hn : n ∈ first.integers ++ second.integers) :
      (Nat.toDigits 10 n.natAbs).length ≤ lengths.sum :=
    List.le_sum_of_mem (List.mem_map_of_mem hn)
  exact ⟨lengths.sum, fun n hn => hle n (List.mem_append_left _ hn),
    fun n hn => hle n (List.mem_append_right _ hn)⟩

/-- Different stored data has different texts. -/
theorem Storable.write_injective (readable : layout.Readable) {other : Value}
    (h : Storable depth value) (hother : Storable depth other)
    (heq : layout.write value = layout.write other) : value = other := by
  obtain ⟨width, hfits, hfits'⟩ := exists_fits_both value other
  have hread := h.read?_write readable ⟨depth, width⟩
  have hread' := hother.read?_write readable ⟨depth, width⟩
  rw [if_pos hfits] at hread
  rw [← heq, hread, if_pos hfits'] at hread'
  exact Option.some.inj hread'

end

end Json

end Lineage
