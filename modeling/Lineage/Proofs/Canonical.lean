import Mathlib.Data.List.Nodup
import Lineage.Canonical
import Lineage.Proofs.Stored.Operation

/-!
# The canonical form names a collection of operations

Operations with different names have one place each in name order, so the order
in which they are given leaves no trace, and neither does the order in which
their inputs and outputs are listed.  In the other direction the text can be
read: it holds the records of the operations, and each record its operation.

So two collections have one canonical text just when they are the same, and as
no two texts have the same encoding, this is also true of the bytes of which the
checksum is the fingerprint.
-/

namespace Lineage

/-! ## The bytes of a text -/

theorem toList_loop_eq (bytes : ByteArray) (i : Nat) (before : List UInt8) :
    ByteArray.toList.loop bytes i before = before.reverse ++ bytes.data.toList.drop i := by
  fun_induction ByteArray.toList.loop bytes i before with
  | case1 i before hlt ih =>
      have hi : i < bytes.data.toList.length := by simpa using hlt
      rw [ih, List.drop_eq_getElem_cons hi]
      simp [ByteArray.get!, hlt]
  | case2 i before hge =>
      have hi : bytes.data.toList.length ≤ i := by simpa using hge
      rw [List.drop_eq_nil_of_le hi, List.append_nil]

theorem toList_eq (bytes : ByteArray) : bytes.toList = bytes.data.toList := by
  rw [ByteArray.toList, toList_loop_eq]
  simp

theorem toUTF8_toList_inj {first second : String} :
    first.toUTF8.toList = second.toUTF8.toList ↔ first = second := by
  rw [toList_eq, toList_eq, Array.toList_inj]
  constructor
  · intro hdata
    exact String.toByteArray_inj.1 (ByteArray.ext hdata)
  · intro heq
    rw [heq]

/-! ## Listings of one operation -/

namespace ListedRole

/-- Two listings do the same to the same fields: order and repetition do not count. -/
def Same : ListedRole → ListedRole → Prop
  | read source outputs, read source' outputs' =>
    source = source' ∧ ∀ text, text ∈ outputs ↔ text ∈ outputs'
  | transform inputs outputs, transform inputs' outputs' =>
    (∀ field, field ∈ inputs ↔ field ∈ inputs') ∧ ∀ text, text ∈ outputs ↔ text ∈ outputs'
  | write destination inputs, write destination' inputs' =>
    destination = destination' ∧ ∀ field, field ∈ inputs ↔ field ∈ inputs'
  | _, _ => False

theorem collected_eq_iff (first second : ListedRole) :
    first.collected = second.collected ↔ first.Same second := by
  cases first <;> cases second <;> simp [collected, Same, SortedSet.ofList_eq_iff]

end ListedRole

namespace Listing

/-- Two listings are of the same operation. -/
def Same (first second : Listing) : Prop :=
  first.name = second.name ∧ first.description = second.description ∧ first.role.Same second.role

theorem collected_eq_iff (first second : Listing) :
    first.collected = second.collected ↔ first.Same second := by
  rw [Same, ← ListedRole.collected_eq_iff, ← and_assoc]
  obtain ⟨⟨_, _⟩, _⟩ := first
  obtain ⟨⟨_, _⟩, _⟩ := second
  simp [collected]

instance (first second : Listing) : Decidable (first.Same second) :=
  decidable_of_iff _ (collected_eq_iff first second)

/-- Two lists of listings are of the same operations. -/
def SameAll (first second : List Listing) : Prop :=
  (∀ a ∈ first, ∃ b ∈ second, a.Same b) ∧ ∀ b ∈ second, ∃ a ∈ first, a.Same b

instance (first second : List Listing) : Decidable (SameAll first second) :=
  inferInstanceAs (Decidable (_ ∧ _))

theorem sameAll_iff {first second : List Listing} :
    SameAll first second ↔
      ∀ operation, operation ∈ first.map collected ↔ operation ∈ second.map collected := by
  simp only [SameAll, ← collected_eq_iff, List.mem_map]
  constructor
  · rintro ⟨hfirst, hsecond⟩ operation
    constructor
    · rintro ⟨a, ha, rfl⟩
      obtain ⟨b, hb, hab⟩ := hfirst a ha
      exact ⟨b, hb, hab.symm⟩
    · rintro ⟨b, hb, rfl⟩
      exact hsecond b hb
  · intro hmem
    constructor
    · intro a ha
      obtain ⟨b, hb, hba⟩ := (hmem a.collected).1 ⟨a, ha, rfl⟩
      exact ⟨b, hb, hba.symm⟩
    · intro b hb
      exact (hmem b.collected).2 ⟨b, hb, rfl⟩

end Listing

namespace Canonical

open Json

/-! ## Name order -/

theorem inNameOrder_perm (operations : List Operation) : (inNameOrder operations).Perm operations :=
  List.mergeSort_perm _ _

theorem inNameOrder_pairwise (operations : List Operation) :
    (inNameOrder operations).Pairwise fun a b => (compare a.name b.name).isLE = true := by
  apply List.pairwise_mergeSort
  · intro a b c hab hbc
    exact Std.TransCmp.isLE_trans hab hbc
  · exact fun a b => isLE_compare_total a.name b.name

/-- Operations with different names are put into the same order from whatever order they have. -/
theorem inNameOrder_eq_of_perm {first second : List Operation} (hperm : first.Perm second)
    (hnames : (first.map fun operation => operation.name).Nodup) :
    inNameOrder first = inNameOrder second := by
  have hsame : (inNameOrder first).Perm (inNameOrder second) :=
    (inNameOrder_perm first).trans (hperm.trans (inNameOrder_perm second).symm)
  refine hsame.eq_of_pairwise ?_ (inNameOrder_pairwise first) (inNameOrder_pairwise second)
  -- names that are not apart are one name, and one name has one operation
  intro a b ha hb hab hba
  have hname : a.name = b.name := by
    have hswap : compare b.name a.name = (compare a.name b.name).swap := Std.OrientedOrd.eq_swap
    cases hcompare : compare a.name b.name with
    | lt => simp [hswap, hcompare] at hba
    | eq => exact Std.LawfulEqOrd.eq_of_compare hcompare
    | gt => simp [hcompare] at hab
  have hfirst : a ∈ first := (inNameOrder_perm first).mem_iff.1 ha
  have hsecond : b ∈ first := hperm.mem_iff.2 ((inNameOrder_perm second).mem_iff.1 hb)
  exact List.inj_on_of_nodup_map hnames hfirst hsecond hname

/-! ## Reading the canonical form -/

theorem storable_tree (operations : List Operation) : Storable 4 (tree operations) := by
  apply Storable.list
  intro item hitem
  obtain ⟨operation, -, rfl⟩ := List.mem_map.1 hitem
  exact operation.storable 0

theorem inNameOrder_eq_of_text_eq {first second : List Operation} (h : text first = text second) :
    inNameOrder first = inNameOrder second := by
  -- the compact text of storable data can be read back, so it fixes the data
  have htree : tree first = tree second :=
    (storable_tree first).write_injective readable_compact (storable_tree second) h
  have hvalues : (inNameOrder first).map Operation.toValue =
      (inNameOrder second).map Operation.toValue := Value.list.inj htree
  exact List.map_injective_iff.2 (fun _ _ => Operation.toValue_injective) hvalues

section

variable {first second : List Operation}
  (hfirst : (first.map fun operation => operation.name).Nodup)
  (hsecond : (second.map fun operation => operation.name).Nodup)
include hfirst hsecond

/-- Operations with different names have one canonical text just when they are the same. -/
theorem text_eq_iff_mem :
    text first = text second ↔ ∀ operation, operation ∈ first ↔ operation ∈ second := by
  constructor
  · intro htext operation
    rw [← (inNameOrder_perm first).mem_iff, inNameOrder_eq_of_text_eq htext,
      (inNameOrder_perm second).mem_iff]
  · intro hmem
    have hperm : first.Perm second :=
      (List.perm_ext_iff_of_nodup (hfirst.of_map _) (hsecond.of_map _)).2 hmem
    rw [text, text, tree, tree, inNameOrder_eq_of_perm hperm hfirst]

end

/-! ## Listed operations -/

section

variable {first second : List Listing}
  (hfirst : (first.map fun listing => listing.name).Nodup)
  (hsecond : (second.map fun listing => listing.name).Nodup)
include hfirst hsecond

/-- Listings of operations with different names are read as operations whose canonical texts are
equal, and whose bytes are, just when these are listings of the same operations. -/
theorem text_eq_iff_sameAll :
    ∃ operations others,
      Operation.listOfValue (.list (first.map Listing.toValue)) = .ok operations ∧
      Operation.listOfValue (.list (second.map Listing.toValue)) = .ok others ∧
      (text operations = text others ↔ Listing.SameAll first second) ∧
      ((text operations).toUTF8.toList = (text others).toUTF8.toList ↔
        Listing.SameAll first second) := by
  have hnames (listings : List Listing) (hnodup : (listings.map fun listing => listing.name).Nodup) :
      ((listings.map Listing.collected).map fun operation => operation.name).Nodup := by
    rwa [List.map_map]
  have htext := text_eq_iff_mem (hnames first hfirst) (hnames second hsecond)
  rw [← Listing.sameAll_iff] at htext
  refine ⟨_, _, Listing.listOfValue_map first, Listing.listOfValue_map second, htext, ?_⟩
  rw [toUTF8_toList_inj, htext]

end

/-- A read and a write, and the same two in the other order with other listings of their fields. -/
def sampleListings : List Listing × List Listing :=
  let load : Name := ⟨"load", by decide⟩
  let email : FieldRef := ⟨load, ⟨"email", by decide⟩⟩
  let offset : FieldRef := ⟨load, ⟨"off\"set", by decide⟩⟩
  let loading (outputs : List String) : Listing := ⟨⟨load, "\\"⟩, .read none outputs⟩
  let saving (inputs : List FieldRef) : Listing := ⟨⟨⟨"save", by decide⟩, ""⟩, .write none inputs⟩
  ([loading ["email", "off\"set"], saving [email, offset]],
    [saving [offset, email, offset], loading ["off\"set", "email", "email"]])

theorem text_eq_sample :
    ∃ operations others,
      Operation.listOfValue (.list (sampleListings.1.map Listing.toValue)) = .ok operations ∧
      Operation.listOfValue (.list (sampleListings.2.map Listing.toValue)) = .ok others ∧
      text operations = text others := by
  have hsame : Listing.SameAll sampleListings.1 sampleListings.2 := by decide
  obtain ⟨operations, others, hfirst, hsecond, htext, -⟩ :=
    text_eq_iff_sameAll (show (sampleListings.1.map fun listing => listing.name).Nodup by decide)
      (show (sampleListings.2.map fun listing => listing.name).Nodup by decide)
  exact ⟨operations, others, hfirst, hsecond, htext.2 hsame⟩

end Canonical

end Lineage
