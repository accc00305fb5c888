import Mathlib.Algebra.Order.BigOperators.Group.List
import Mathlib.Data.List.Perm.Subperm
import Lineage.Proofs.Stored.Document
import Lineage.Proofs.Yaml.Rereading

/-!
# Stored records with their texts read again

What the record of a document is read as is the record of a document once more, in
which the inputs and outputs of an operation are a listing: they need not be in
order, and several of them may have become the same.  If the sets are still what
they were, though, they have kept all their members.  Then the listed fields are the
members in some order, and since none of them weighs more than the one that it was
read from, none of them is another one.  So a record is read as itself if the
document in it is (`Document.eq_toValue_of_reread`).
-/

namespace Lineage

open Yaml

/-! ## Sets whose members are read again -/

section

variable {α : Type} {weight : α → Nat}

/-- What is read as itself or as something lighter, item by item, is so altogether. -/
theorem eq_or_sum_lt_of_forall₂ {written read : List α}
    (h : List.Forall₂ (fun a b => b = a ∨ weight b < weight a) written read) :
    read = written ∨ (read.map weight).sum < (written.map weight).sum := by
  induction h with
  | nil => exact .inl rfl
  | cons hfirst _ ih =>
      simp only [List.map_cons, List.sum_cons]
      rcases hfirst with rfl | hfirst
      · exact ih.imp (congrArg _) fun hothers => Nat.add_lt_add_left hothers _
      · rcases ih with rfl | hothers
        · exact .inr (Nat.add_lt_add_right hfirst _)
        · exact .inr (Nat.add_lt_add hfirst hothers)

/-- A set whose members are read as themselves or as lighter ones stays as it is if it stays the
same set. -/
theorem SortedSet.eq_toList_of_forall₂ [Ord α] [Std.TransOrd α] [Std.LawfulEqOrd α]
    {set : SortedSet α} {read : List α}
    (h : List.Forall₂ (fun a b => b = a ∨ weight b < weight a) set.toList read)
    (hset : ofList read = set) : read = set.toList := by
  have hsubset : set.toList ⊆ read := fun a ha => mem_ofList.1 (hset ▸ ha)
  -- no member has gone, and there is no room for another one
  have hperm : set.toList.Perm read :=
    (List.subperm_of_subset set.nodup_toList hsubset).perm_of_length_le h.length_eq.ge
  have hsum : (set.toList.map weight).sum = (read.map weight).sum := (hperm.map weight).sum_eq
  exact (eq_or_sum_lt_of_forall₂ h).resolve_right (by omega)

end

/-! ## Parts -/

namespace Value

variable {read : Value}

/-- The items of a list, if each of them is read in a known form. -/
theorem exists_of_reread_list {α β : Type} {write : α → Value} {rewrite : β → Value}
    {r : α → β → Prop} {items : List α}
    (hitem : ∀ a ∈ items, ∀ read, (write a).reread = .ok read → ∃ b, rewrite b = read ∧ r a b)
    (h : (list (items.map write)).reread = .ok read) :
    ∃ again, list (again.map rewrite) = read ∧ List.Forall₂ r items again := by
  obtain ⟨found, hfound, rfl⟩ := reread_list_eq_ok_iff.1 h
  rw [List.forall₂_map_left_iff] at hfound
  suffices ∃ again : List β, again.map rewrite = found ∧ List.Forall₂ r items again by
    obtain ⟨again, rfl, hagain⟩ := this
    exact ⟨again, rfl, hagain⟩
  clear h
  induction hfound with
  | nil => exact ⟨[], rfl, .nil⟩
  | cons hfirst _ ih =>
      obtain ⟨first, rfl, hpair⟩ := hitem _ List.mem_cons_self _ hfirst
      obtain ⟨others, rfl, hpairs⟩ := ih fun a ha => hitem a (List.mem_cons_of_mem _ ha)
      exact ⟨first :: others, rfl, .cons hpair hpairs⟩

theorem exists_of_reread_text {s : String} (h : (text s).reread = .ok read) :
    ∃ again, text again = read ∧ (again = s ∨ weight again.toList < weight s.toList) := by
  obtain ⟨again, hagain, rfl⟩ := reread_text_eq_ok_iff.1 h
  exact ⟨again, rfl, (Quoted.lightens_reread hagain).imp_left String.toList_inj.1⟩

/-- A name is read as a name. -/
theorem exists_of_reread_name {name : Name} (h : (text name.text).reread = .ok read) :
    ∃ again : Name, text again.text = read ∧
      (again = name ∨ weight again.text.toList < weight name.text.toList) := by
  obtain ⟨again, hagain, rfl⟩ := reread_text_eq_ok_iff.1 h
  refine ⟨⟨again, Quoted.reread_ne_empty hagain name.nonempty⟩, rfl, ?_⟩
  refine (Quoted.lightens_reread hagain).imp_left fun hsame => ?_
  obtain rfl := String.toList_inj.1 hsame
  rfl

theorem exists_of_reread_nullable {s : Option String}
    (h : ((s.map text).getD null).reread = .ok read) :
    ∃ again : Option String, (again.map text).getD null = read := by
  cases s with
  | none => exact ⟨none, Except.ok.inj h⟩
  | some s =>
      obtain ⟨again, rfl, -⟩ := exists_of_reread_text h
      exact ⟨some again, rfl⟩

end Value

open Value

theorem Endpoint.exists_of_reread {endpoint : Option Endpoint} {read : Value}
    (h : (optionToValue endpoint).reread = .ok read) : ∃ again, optionToValue again = read := by
  cases endpoint with
  | none => exact ⟨none, Except.ok.inj h⟩
  | some endpoint =>
      obtain ⟨found, hfound, rfl⟩ := reread_ofFields_eq_ok_iff.1 h
      simp only [fieldsReread_cons_iff, fieldsReread_nil_iff] at hfound
      obtain ⟨_, _, hnamespace, ⟨_, _, hname, rfl, rfl⟩, rfl⟩ := hfound
      obtain ⟨namespaceName, rfl, -⟩ := exists_of_reread_name hnamespace
      obtain ⟨name, rfl, -⟩ := exists_of_reread_name hname
      exact ⟨some ⟨namespaceName, name⟩, rfl⟩

namespace FieldRef

def weight (field : FieldRef) : Nat :=
  Yaml.weight field.origin.text.toList + Yaml.weight field.name.text.toList

theorem exists_of_reread {field : FieldRef} {read : Value} (h : field.toValue.reread = .ok read) :
    ∃ again : FieldRef, again.toValue = read ∧ (again = field ∨ again.weight < field.weight) := by
  obtain ⟨found, hfound, rfl⟩ := reread_ofFields_eq_ok_iff.1 h
  simp only [fieldsReread_cons_iff, fieldsReread_nil_iff] at hfound
  obtain ⟨_, _, horigin, ⟨_, _, hname, rfl, rfl⟩, rfl⟩ := hfound
  obtain ⟨origin, rfl, hlightens⟩ := exists_of_reread_name horigin
  obtain ⟨name, rfl, hmore⟩ := exists_of_reread_name hname
  refine ⟨⟨origin, name⟩, rfl, ?_⟩
  rcases hlightens with rfl | hless
  · exact hmore.imp (congrArg _) fun hless => Nat.add_lt_add_left hless _
  · refine .inr (Nat.add_lt_add_of_lt_of_le hless ?_)
    rcases hmore with rfl | hless
    · exact Nat.le_refl _
    · exact Nat.le_of_lt hless

end FieldRef

/-! ## Operations -/

namespace Role

/-- Outputs are read as a listing, which is theirs if it makes up the same set. -/
theorem exists_of_reread_textSet {texts : SortedSet String} {read : Value}
    (h : (textSet texts).reread = .ok read) :
    ∃ listed, ListedRole.texts listed = read ∧
      (.ofList listed = texts → listed = texts.toList) := by
  obtain ⟨listed, hlisted, hpairs⟩ :=
    exists_of_reread_list (fun text _ read hread => exists_of_reread_text hread) h
  exact ⟨listed, hlisted, SortedSet.eq_toList_of_forall₂ hpairs⟩

/-- So are inputs. -/
theorem exists_of_reread_fieldSet {fields : SortedSet FieldRef} {read : Value}
    (h : (fieldSet fields).reread = .ok read) :
    ∃ listed, ListedRole.fields listed = read ∧
      (.ofList listed = fields → listed = fields.toList) := by
  obtain ⟨listed, hlisted, hpairs⟩ :=
    exists_of_reread_list (fun field _ read hread => FieldRef.exists_of_reread hread) h
  exact ⟨listed, hlisted, SortedSet.eq_toList_of_forall₂ hpairs⟩

theorem reread_label (kind : Kind) : (text kind.label).reread = .ok (.text kind.label) := by
  have hlabel : unfolded kind.label.toList = true := by cases kind <;> decide
  rw [reread, Quoted.reread_eq_ok_iff.2 hlabel]
  rfl

/-- The fields of a role are read as those of a listed role, which is its own one if it stands for
the same role. -/
theorem exists_of_reread {role : Role} {found : List (String × Value)}
    (h : FieldsReread role.toFields found) :
    ∃ listed : ListedRole, listed.toFields = found ∧
      (listed.collected = role → listed = role.listed) := by
  -- field by field, and the type is read as it stands
  cases role with
  | read source outputs =>
      simp only [toFields, fieldsReread_cons_iff, fieldsReread_nil_iff, reread_label] at h
      obtain ⟨_, _, htype, ⟨_, _, hsource, ⟨_, _, houtputs, rfl, rfl⟩, rfl⟩, rfl⟩ := h
      obtain rfl := Except.ok.inj htype
      obtain ⟨source, rfl⟩ := Endpoint.exists_of_reread hsource
      obtain ⟨outputs, rfl, hset⟩ := exists_of_reread_textSet houtputs
      refine ⟨.read source outputs, rfl, fun hsame => ?_⟩
      obtain ⟨rfl, hcollected⟩ := Role.read.inj hsame
      rw [hset hcollected, listed]
  | transform inputs outputs =>
      simp only [toFields, fieldsReread_cons_iff, fieldsReread_nil_iff, reread_label] at h
      obtain ⟨_, _, htype, ⟨_, _, hinputs, ⟨_, _, houtputs, rfl, rfl⟩, rfl⟩, rfl⟩ := h
      obtain rfl := Except.ok.inj htype
      obtain ⟨inputs, rfl, hinputSet⟩ := exists_of_reread_fieldSet hinputs
      obtain ⟨outputs, rfl, houtputSet⟩ := exists_of_reread_textSet houtputs
      refine ⟨.transform inputs outputs, rfl, fun hsame => ?_⟩
      obtain ⟨hcollected, hcollectedOutputs⟩ := Role.transform.inj hsame
      rw [hinputSet hcollected, houtputSet hcollectedOutputs, listed]
  | write destination inputs =>
      simp only [toFields, fieldsReread_cons_iff, fieldsReread_nil_iff, reread_label] at h
      obtain ⟨_, _, htype, ⟨_, _, hdestination, ⟨_, _, hinputs, rfl, rfl⟩, rfl⟩, rfl⟩ := h
      obtain rfl := Except.ok.inj htype
      obtain ⟨destination, rfl⟩ := Endpoint.exists_of_reread hdestination
      obtain ⟨inputs, rfl, hset⟩ := exists_of_reread_fieldSet hinputs
      refine ⟨.write destination inputs, rfl, fun hsame => ?_⟩
      obtain ⟨rfl, hcollected⟩ := Role.write.inj hsame
      rw [hset hcollected, listed]

end Role

/-- The record of an operation is read as that of a listing, which is its own one if it stands for
the same operation. -/
theorem Operation.exists_of_reread {operation : Operation} {read : Value}
    (h : operation.toValue.reread = .ok read) :
    ∃ listing : Listing, listing.toValue = read ∧
      (listing.collected = operation → listing = operation.listed) := by
  obtain ⟨found, hfound, rfl⟩ := reread_ofFields_eq_ok_iff.1 h
  simp only [Heading.toFields, List.cons_append, List.nil_append, fieldsReread_cons_iff] at hfound
  obtain ⟨_, _, hname, ⟨_, _, hdescription, hrole, rfl⟩, rfl⟩ := hfound
  obtain ⟨name, rfl, -⟩ := exists_of_reread_name hname
  obtain ⟨description, rfl, -⟩ := exists_of_reread_text hdescription
  obtain ⟨role, rfl, hlisted⟩ := Role.exists_of_reread hrole
  refine ⟨⟨⟨name, description⟩, role⟩, rfl, ?_⟩
  rintro rfl
  exact congrArg _ (hlisted rfl)

/-! ## Documents -/

/-- If the document of a record is still in what the record is read as, this is the record. -/
theorem Document.eq_toValue_of_reread {document : Document} {read : Value}
    (hread : document.toValue.reread = .ok read) (hvalue : ofValue read = .ok document) :
    read = document.toValue := by
  obtain ⟨found, hfound, rfl⟩ := reread_ofFields_eq_ok_iff.1 hread
  simp only [toFields, fieldsReread_cons_iff, fieldsReread_nil_iff] at hfound
  obtain ⟨_, _, hversion, ⟨_, _, hrun, ⟨_, _, hoperations, ⟨_, _, hchecksum, rfl, rfl⟩, rfl⟩, rfl⟩,
    rfl⟩ := hfound
  obtain ⟨version, rfl, -⟩ := exists_of_reread_name hversion
  obtain ⟨programRun, rfl⟩ := exists_of_reread_nullable hrun
  obtain ⟨listings, rfl, hlistings⟩ :=
    exists_of_reread_list (fun operation _ read h => Operation.exists_of_reread h) hoperations
  have hnumber : ((document.checksum.map int).getD null).reread =
      .ok ((document.checksum.map int).getD null) := by
    cases document.checksum <;> rfl
  obtain rfl := Except.ok.inj (hchecksum.symm.trans hnumber)
  let again : Document := ⟨version, programRun, [], document.checksum⟩
  -- the record is that of some listings, which are collected to the operations of the document
  have hsame : { again with operations := listings.map Listing.collected } = document :=
    Except.ok.inj ((again.ofValue_allFields listings).symm.trans hvalue)
  have hcollected : listings.map Listing.collected = document.operations :=
    congrArg Document.operations hsame
  -- each listing has an operation that was read from it, so it is the one the operation writes
  have hlisted : listings = document.operations.map Operation.listed := by
    rw [← hcollected, List.forall₂_map_left_iff, List.forall₂_same] at hlistings
    rw [← hcollected, List.map_map]
    exact ((List.map_congr_left fun listing hlisting =>
      (hlistings listing hlisting rfl).symm).trans (List.map_id listings)).symm
  have hfields : again.allFields listings = document.allFields listings := by
    rw [← hsame]
    rfl
  show ofFields (again.allFields listings) = _
  rw [hfields, hlisted, toValue, toFields_eq]

end Lineage
