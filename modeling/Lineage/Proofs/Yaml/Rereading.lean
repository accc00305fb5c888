import Mathlib.Data.List.Forall2
import Lineage.Proofs.Json.Trees
import Lineage.Proofs.Yaml.Quoted

/-!
# Trees with their texts read again

What compact JSON of stored data is read as by YAML has the shape of the data: only
its texts may be others, namely what their strings are read as (`Value.reread`).
If one of them is refused, so is the whole tree.  A tree is read as itself just if
there is nothing to fold in its texts.
-/

namespace Lineage

open Json

/-! ## Outcomes -/

section

variable {ε α β : Type} {outcome : Except ε α}

theorem ok_bind (a : α) (next : α → Except ε β) : Except.ok a >>= next = next a := rfl

theorem map_eq_ok_iff {f : α → β} {b : β} :
    outcome.map f = .ok b ↔ ∃ a, outcome = .ok a ∧ f a = b := by
  cases outcome <;> simp [Except.map]

theorem bind_eq_ok_iff {next : α → Except ε β} {b : β} :
    outcome >>= next = .ok b ↔ ∃ a, outcome = .ok a ∧ next a = .ok b := by
  cases outcome <;> simp [bind, Except.bind]

theorem mapError_eq_ok_iff {ζ : Type} {f : ε → ζ} {a : α} :
    outcome.mapError f = .ok a ↔ outcome = .ok a := by
  cases outcome <;> simp [Except.mapError]

/-- What stands in the second of two paired lists comes from the first. -/
theorem exists_of_mem_right {r : α → β → Prop} {xs : List α} {ys : List β}
    (h : List.Forall₂ r xs ys) {y : β} (hy : y ∈ ys) : ∃ x ∈ xs, r x y := by
  induction h with
  | nil => cases hy
  | cons hfirst _ ih =>
      rcases List.mem_cons.1 hy with rfl | hy
      · exact ⟨_, List.mem_cons_self, hfirst⟩
      · obtain ⟨x, hx, hread⟩ := ih hy
        exact ⟨x, List.mem_cons_of_mem _ hx, hread⟩

/-- What holds of all of two paired lists is the same if it is so for each pair. -/
theorem forall_mem_iff_of_forall₂ {r : α → β → Prop} {p : α → Prop} {q : β → Prop} {xs : List α}
    {ys : List β} (h : List.Forall₂ r xs ys) (hpair : ∀ x ∈ xs, ∀ y, r x y → (q y ↔ p x)) :
    (∀ y ∈ ys, q y) ↔ ∀ x ∈ xs, p x := by
  induction h with
  | nil => exact iff_of_true (List.forall_mem_nil _) (List.forall_mem_nil _)
  | cons hfirst _ ih =>
      rw [List.forall_mem_cons, List.forall_mem_cons, hpair _ List.mem_cons_self _ hfirst,
        ih fun x hx => hpair x (List.mem_cons_of_mem _ hx)]

end

namespace Value

/-! ## The texts of a tree -/

mutual

/-- The texts that stand in a tree, the names of fields apart. -/
def texts : Value → List String
  | text s => [s]
  | list items => textsOfItems items
  | record fields => textsOfFields fields
  | _ => []

def textsOfItems : List Value → List String
  | [] => []
  | item :: items => item.texts ++ textsOfItems items

def textsOfFields : List (Key × Value) → List String
  | [] => []
  | (_, value) :: fields => value.texts ++ textsOfFields fields

end

theorem forall_texts_list {items : List Value} {p : String → Prop} :
    (∀ s ∈ texts (.list items), p s) ↔ ∀ item ∈ items, ∀ s ∈ item.texts, p s := by
  rw [texts]
  induction items with
  | nil => simp [textsOfItems]
  | cons item items ih => rw [textsOfItems, List.forall_mem_append, ih, List.forall_mem_cons]

theorem forall_texts_ofFields {fields : List (String × Value)} {p : String → Prop} :
    (∀ s ∈ texts (.ofFields fields), p s) ↔ ∀ field ∈ fields, ∀ s ∈ field.2.texts, p s := by
  rw [ofFields_eq, texts]
  induction fields with
  | nil => simp [textsOfFields]
  | cons field fields ih =>
      rw [named_cons, textsOfFields, List.forall_mem_append, ih, List.forall_mem_cons]

/-! ## Reading again -/

mutual

/-- The tree with what YAML reads for its texts. -/
def reread : Value → Except Yaml.Fault Value
  | text s => (Yaml.Quoted.reread s).map text
  | list items => (rereadItems items).map list
  | record fields => (rereadFields fields).map record
  | value => .ok value

def rereadItems : List Value → Except Yaml.Fault (List Value)
  | [] => .ok []
  | item :: items => do
    let first ← reread item
    let others ← rereadItems items
    return first :: others

def rereadFields : List (Key × Value) → Except Yaml.Fault (List (Key × Value))
  | [] => .ok []
  | (key, value) :: fields => do
    let first ← reread value
    let others ← rereadFields fields
    return (key, first) :: others

end

theorem reread_text_eq_ok_iff {s : String} {read : Value} :
    reread (.text s) = .ok read ↔ ∃ t, Yaml.Quoted.reread s = .ok t ∧ .text t = read := by
  rw [reread, map_eq_ok_iff]

/-- Items are read one by one. -/
theorem rereadItems_eq_ok_iff {items found : List Value} :
    rereadItems items = .ok found ↔
      List.Forall₂ (fun item read => reread item = .ok read) items found := by
  induction items generalizing found with
  | nil => simp [rereadItems, eq_comm]
  | cons item items ih =>
      rw [rereadItems, bind_eq_ok_iff, List.forall₂_cons_left_iff]
      simp only [bind_eq_ok_iff, ih, pure, Except.pure, Except.ok.injEq]
      grind

theorem reread_list_eq_ok_iff {items : List Value} {read : Value} :
    reread (.list items) = .ok read ↔ ∃ found,
      List.Forall₂ (fun item read => reread item = .ok read) items found ∧ .list found = read := by
  rw [reread, map_eq_ok_iff]
  simp only [rereadItems_eq_ok_iff]

/-- Fields that are read as others, under the same names. -/
def FieldsReread (fields found : List (String × Value)) : Prop :=
  List.Forall₂ (fun field read => read.1 = field.1 ∧ reread field.2 = .ok read.2) fields found

theorem fieldsReread_nil_iff {found : List (String × Value)} : FieldsReread [] found ↔ found = [] :=
  List.forall₂_nil_left_iff

theorem fieldsReread_cons_iff {field : String × Value} {fields found : List (String × Value)} :
    FieldsReread (field :: fields) found ↔ ∃ first others, reread field.2 = .ok first ∧
      FieldsReread fields others ∧ (field.1, first) :: others = found := by
  rw [FieldsReread, List.forall₂_cons_left_iff]
  constructor
  · rintro ⟨⟨_, first⟩, others, ⟨rfl, hfirst⟩, hothers, rfl⟩
    exact ⟨first, others, hfirst, hothers, rfl⟩
  · rintro ⟨first, others, hfirst, hothers, rfl⟩
    exact ⟨(field.1, first), others, ⟨rfl, hfirst⟩, hothers, rfl⟩

theorem rereadFields_named_eq_ok_iff {fields : List (String × Value)} {found : List (Key × Value)} :
    rereadFields (named fields) = .ok found ↔
      ∃ read, FieldsReread fields read ∧ named read = found := by
  induction fields generalizing found with
  | nil => simp [rereadFields, fieldsReread_nil_iff]
  | cons field fields ih =>
      rw [named_cons, rereadFields, bind_eq_ok_iff]
      simp only [bind_eq_ok_iff, ih, pure, Except.pure, Except.ok.injEq, fieldsReread_cons_iff]
      constructor
      · rintro ⟨first, hfirst, _, ⟨read, hread, rfl⟩, rfl⟩
        exact ⟨(field.1, first) :: read, ⟨first, read, hfirst, hread, rfl⟩, rfl⟩
      · rintro ⟨_, ⟨first, read, hfirst, hread, rfl⟩, rfl⟩
        exact ⟨first, hfirst, _, ⟨read, hread, rfl⟩, rfl⟩

theorem reread_ofFields_eq_ok_iff {fields : List (String × Value)} {read : Value} :
    reread (.ofFields fields) = .ok read ↔
      ∃ found, FieldsReread fields found ∧ .ofFields found = read := by
  rw [ofFields_eq, reread, map_eq_ok_iff]
  simp only [rereadFields_named_eq_ok_iff]
  constructor
  · rintro ⟨_, ⟨found, hfound, rfl⟩, rfl⟩
    exact ⟨found, hfound, rfl⟩
  · rintro ⟨found, hfound, rfl⟩
    exact ⟨_, ⟨found, hfound, rfl⟩, rfl⟩

theorem ofFields_inj {fields more : List (String × Value)} :
    ofFields fields = ofFields more ↔ fields = more := by
  have hinjective : Function.Injective fun field : String × Value => (Key.text field.1, field.2) :=
    fun first second h => Prod.ext (Key.text.inj (Prod.mk.inj h).1) (Prod.mk.inj h).2
  exact record.injEq _ _ ▸ (List.map_inj_right hinjective)

theorem FieldsReread.map_fst {fields found : List (String × Value)}
    (h : FieldsReread fields found) : found.map Prod.fst = fields.map Prod.fst := by
  induction h with
  | nil => rfl
  | cons hfirst _ ih => rw [List.map_cons, List.map_cons, hfirst.1, ih]

variable {depth : Nat} {value read : Value}

/-- What stored data is read as is shaped like it. -/
theorem storable_of_reread (h : Storable depth value) (hread : value.reread = .ok read) :
    Storable depth read := by
  induction h generalizing read with
  | null => exact Except.ok.inj hread ▸ .null
  | bool b => exact Except.ok.inj hread ▸ .bool b
  | int n => exact Except.ok.inj hread ▸ .int n
  | text s =>
      obtain ⟨t, -, rfl⟩ := reread_text_eq_ok_iff.1 hread
      exact .text t
  | list _ ih =>
      obtain ⟨found, hfound, rfl⟩ := reread_list_eq_ok_iff.1 hread
      refine .list fun later hlater => ?_
      obtain ⟨item, hitem, hitemRead⟩ := exists_of_mem_right hfound hlater
      exact ih item hitem hitemRead
  | record hnames _ ih =>
      obtain ⟨found, hfound, rfl⟩ := reread_ofFields_eq_ok_iff.1 hread
      refine .record (by rwa [hfound.map_fst]) fun later hlater => ?_
      obtain ⟨field, hfield, -, hfieldRead⟩ := exists_of_mem_right hfound hlater
      exact ih field hfield hfieldRead

/-- It has the same integers. -/
theorem forall_integers_of_reread (h : Storable depth value) (hread : value.reread = .ok read)
    {p : Int → Prop} : (∀ n ∈ read.integers, p n) ↔ ∀ n ∈ value.integers, p n := by
  induction h generalizing read with
  | null => exact Except.ok.inj hread ▸ Iff.rfl
  | bool b => exact Except.ok.inj hread ▸ Iff.rfl
  | int n => exact Except.ok.inj hread ▸ Iff.rfl
  | text s =>
      obtain ⟨t, -, rfl⟩ := reread_text_eq_ok_iff.1 hread
      exact Iff.rfl
  | list _ ih =>
      obtain ⟨found, hfound, rfl⟩ := reread_list_eq_ok_iff.1 hread
      rw [forall_integers_list, forall_integers_list]
      exact forall_mem_iff_of_forall₂ hfound fun item hitem later hlater => ih item hitem hlater
  | record _ _ ih =>
      obtain ⟨found, hfound, rfl⟩ := reread_ofFields_eq_ok_iff.1 hread
      rw [forall_integers_ofFields, forall_integers_ofFields]
      exact forall_mem_iff_of_forall₂ hfound fun field hfield later hlater =>
        ih field hfield hlater.2

/-- Stored data is read as itself just if there is nothing to fold in its texts. -/
theorem reread_eq_self_iff (h : Storable depth value) :
    value.reread = .ok value ↔ ∀ s ∈ value.texts, Yaml.unfolded s.toList = true := by
  induction h with
  | null => exact iff_of_true rfl (List.forall_mem_nil _)
  | bool b => cases b <;> exact iff_of_true rfl (List.forall_mem_nil _)
  | int n => exact iff_of_true rfl (List.forall_mem_nil _)
  | text s =>
      rw [reread_text_eq_ok_iff, texts, List.forall_mem_singleton, ← Yaml.Quoted.reread_eq_ok_iff]
      simp
  | list _ ih =>
      rw [reread_list_eq_ok_iff, forall_texts_list, ← forall₂_congr ih]
      simp only [list.injEq, exists_eq_right, List.forall₂_same]
  | record _ _ ih =>
      rw [reread_ofFields_eq_ok_iff, forall_texts_ofFields, ← forall₂_congr ih]
      simp only [ofFields_inj, exists_eq_right, FieldsReread, List.forall₂_same, true_and]

end Value

end Lineage
