import Lineage.Proofs.Yaml.Trees
import Lineage.Yaml.Content

/-!
# The content of the nodes of data

The keys in the node of stored data are quoted, so that none of them asks for the
fields of other records, and the content of the node has the shape of the data.
It is without faults just if no integer has more digits than are read
(`faultless_content_iff`), and then it is the data (`value_content`).
-/

namespace Lineage.Yaml

open Json

namespace Content

/-! ## Content without faults -/

/-- Neither a scalar nor a level of a collection has a fault. -/
structure Faultless (content : Content) : Prop where
  scalar : content.scalarFault? = none
  levels : ∀ fault ∈ content.faults, fault = none

theorem fault?_eq_none_iff {content : Content} : content.fault? = none ↔ content.Faultless := by
  rw [fault?, Option.or_eq_none_iff, List.findSome?_eq_none_iff]
  exact ⟨fun ⟨hscalar, hlevels⟩ => ⟨hscalar, hlevels⟩, fun h => ⟨h.scalar, h.levels⟩⟩

theorem forall_alongside {levels more : List (Option Fault)} :
    (∀ fault ∈ alongside levels more, fault = none) ↔
      (∀ fault ∈ levels, fault = none) ∧ ∀ fault ∈ more, fault = none := by
  induction levels generalizing more with
  | nil => exact (and_iff_right (List.forall_mem_nil _)).symm
  | cons first levels ih =>
      cases more with
      | nil => exact (and_iff_left (List.forall_mem_nil _)).symm
      | cons second more =>
          rw [alongside, List.forall_mem_cons, List.forall_mem_cons, List.forall_mem_cons, ih,
            Option.or_eq_none_iff]
          exact and_and_and_comm

theorem forall_faultsOfAll {items : List Content} :
    (∀ fault ∈ faultsOfAll items, fault = none) ↔
      ∀ item ∈ items, ∀ fault ∈ item.faults, fault = none := by
  induction items with
  | nil => simp [faultsOfAll]
  | cons item items ih => rw [faultsOfAll, forall_alongside, ih, List.forall_mem_cons]

theorem forall_faultsOfFields {fields : List (Content × Content)} :
    (∀ fault ∈ faultsOfFields fields, fault = none) ↔
      ∀ field ∈ fields, ∀ fault ∈ field.2.faults, fault = none := by
  induction fields with
  | nil => simp [faultsOfFields]
  | cons field fields ih => rw [faultsOfFields, forall_alongside, ih, List.forall_mem_cons]

theorem faultless_ok (value : Value) : (Content.scalar (.ok value)).Faultless :=
  ⟨rfl, List.forall_mem_nil _⟩

theorem not_faultless_error (fault : Fault) : ¬ (Content.scalar (.error fault)).Faultless :=
  fun h => nomatch h.scalar

theorem faultless_list {items : List Content} :
    (Content.list items).Faultless ↔ ∀ item ∈ items, item.Faultless := by
  have hlevels : (∀ fault ∈ (Content.list items).faults, fault = none) ↔
      (∀ item ∈ items, item.scalarFault? = none) ∧
        ∀ item ∈ items, ∀ fault ∈ item.faults, fault = none := by
    rw [faults, List.forall_mem_cons, List.findSome?_eq_none_iff, forall_faultsOfAll]
  constructor
  · rintro ⟨-, h⟩ item hitem
    obtain ⟨hscalars, hdeeper⟩ := hlevels.1 h
    exact ⟨hscalars item hitem, hdeeper item hitem⟩
  · exact fun h => ⟨rfl, hlevels.2
      ⟨fun item hitem => (h item hitem).scalar, fun item hitem => (h item hitem).levels⟩⟩

theorem faultless_record {fields : List (Content × Content)} :
    (Content.record fields).Faultless ↔
      ∀ field ∈ fields, keyFault? field.1 = none ∧ field.2.Faultless := by
  have hlevels : (∀ fault ∈ (Content.record fields).faults, fault = none) ↔
      (∀ field ∈ fields, keyFault? field.1 = none ∧ field.2.scalarFault? = none) ∧
        ∀ field ∈ fields, ∀ fault ∈ field.2.faults, fault = none := by
    rw [faults, List.forall_mem_cons, List.findSome?_eq_none_iff, forall_faultsOfFields]
    simp only [Option.or_eq_none_iff]
  constructor
  · rintro ⟨-, h⟩ field hfield
    obtain ⟨hscalars, hdeeper⟩ := hlevels.1 h
    obtain ⟨hkey, hscalar⟩ := hscalars field hfield
    exact ⟨hkey, hscalar, hdeeper field hfield⟩
  · exact fun h => ⟨rfl, hlevels.2
      ⟨fun field hfield => ⟨(h field hfield).1, (h field hfield).2.scalar⟩,
        fun field hfield => (h field hfield).2.levels⟩⟩

/-! ## Values of collections -/

theorem values_map {α : Type} (items : List α) (content : α → Content) :
    values (items.map content) = items.map fun item => (content item).value := by
  induction items with
  | nil => rfl
  | cons item items ih => rw [List.map_cons, values, ih, List.map_cons]

/-- A field as content: its name is a text. -/
def named (name : String) (value : Content) : Content × Content :=
  (.scalar (.ok (.text name)), value)

theorem fieldValues_map {fields : List (String × Value)} (content : Value → Content) :
    fieldValues (fields.map fun field => named field.1 (content field.2)) =
      Value.named (fields.map fun field => (field.1, (content field.2).value)) := by
  induction fields with
  | nil => rfl
  | cons field fields ih =>
      rw [List.map_cons, named, fieldValues, ih]
      rfl

end Content

/-! ## Nodes -/

namespace Node

open Content

theorem contents_eq (nodes : List Node) : contents nodes = nodes.map content := by
  induction nodes with
  | nil => rfl
  | cons node nodes ih => rw [contents, ih, List.map_cons]

theorem content_list (items : List Value) :
    (ofValue (.list items)).content = .list (items.map fun item => (ofValue item).content) := by
  rw [ofValue, content, contents_eq, ofItems_eq, List.map_map]
  rfl

/-- The fields of data are the own ones of their record. -/
theorem fieldContents_ofFields (fields : List (String × Value)) :
    fieldContents (ofFields (Value.named fields)) =
      some ([], fields.map fun field => named field.1 (ofValue field.2).content) := by
  induction fields with
  | nil => rfl
  | cons field fields ih =>
      rw [Value.named_cons, ofFields, fieldContents, ih]
      rfl

theorem content_ofFields (fields : List (String × Value)) :
    (ofValue (.ofFields fields)).content =
      .record (fields.map fun field => named field.1 (ofValue field.2).content) := by
  rw [Value.ofFields_eq, ofValue, content, fieldContents_ofFields]
  rfl

variable {depth : Nat} {value : Value}

/-- The only faults in stored data are integers with too many digits. -/
theorem faultless_content_iff (h : Storable depth value) :
    (ofValue value).content.Faultless ↔ ∀ n ∈ value.integers, Scalar.IsShort n.natAbs := by
  induction h with
  | null => exact iff_of_true (faultless_ok _) (List.forall_mem_nil _)
  | bool b => cases b <;> exact iff_of_true (faultless_ok _) (List.forall_mem_nil _)
  | int n =>
      rw [ofValue, content, Scalar.value_integer, Scalar.ofDigits, Value.integers,
        List.forall_mem_singleton]
      by_cases hshort : Scalar.IsShort n.natAbs
      · rw [if_pos hshort]
        exact iff_of_true (faultless_ok _) hshort
      · rw [if_neg hshort]
        exact iff_of_false (not_faultless_error _) hshort
  | text s => exact iff_of_true (faultless_ok _) (List.forall_mem_nil _)
  | list _ ih =>
      rw [content_list, faultless_list, List.forall_mem_map, Value.forall_integers_list,
        forall₂_congr ih]
  | record _ _ ih =>
      rw [content_ofFields, faultless_record, List.forall_mem_map, Value.forall_integers_ofFields,
        ← forall₂_congr ih]
      simp only [named, keyFault?, true_and]

/-- Without such integers the content is the data. -/
theorem value_content (h : Storable depth value)
    (hshort : ∀ n ∈ value.integers, Scalar.IsShort n.natAbs) :
    (ofValue value).content.value = value := by
  -- by the tree, whose records have no name twice, so none of their fields is lost
  induction h with
  | null => rfl
  | bool b => cases b <;> rfl
  | int n =>
      have hn : Scalar.IsShort n.natAbs := hshort n (List.mem_singleton_self n)
      rw [ofValue, content, Scalar.value_integer, Scalar.ofDigits, if_pos hn]
      rfl
  | text s => rfl
  | @list _ items _ ih =>
      have hitems : (items.map fun item => (ofValue item).content.value) = items := by
        refine (List.map_congr_left fun item hitem => ?_).trans (List.map_id items)
        rw [ih item hitem (Value.forall_integers_list.1 hshort item hitem), id]
      rw [content_list, Content.value, values_map, hitems]
  | @record _ fields hnames _ ih =>
      have hfields :
          (fields.map fun field => (field.1, (ofValue field.2).content.value)) = fields := by
        refine (List.map_congr_left fun field hfield => ?_).trans (List.map_id fields)
        rw [ih field hfield (Value.forall_integers_ofFields.1 hshort field hfield), id]
      rw [content_ofFields, Content.value, fieldValues_map fun value => (ofValue value).content,
        hfields, Value.collect_of_nodup hnames, Value.ofFields_eq]

end Node

end Lineage.Yaml
