/-!
# Sets in ascending order

A finite set is kept as the strictly ascending list of its elements.  Order
and repetition of what was put in leave no trace, so two sets with the same
members are the same value (`SortedSet.ext_mem`) and equality is decidable.

Membership is the view: each operation has one lemma that says what it does to
the members.
-/

namespace Lineage

/-- Of any two elements one is not after the other. -/
theorem isLE_compare_total {α : Type} [Ord α] [Std.OrientedOrd α] (a b : α) :
    ((compare a b).isLE || (compare b a).isLE) = true := by
  have hswap : compare b a = (compare a b).swap := Std.OrientedOrd.eq_swap
  rw [hswap]
  cases compare a b <;> rfl

/-- A finite set as the strictly ascending list of its members. -/
structure SortedSet (α : Type) [Ord α] where
  toList : List α
  ascending : toList.Pairwise fun a b => compare a b = .lt

namespace SortedSet

variable {α β : Type} [Ord α] [Ord β]

instance [DecidableEq α] : DecidableEq (SortedSet α) := fun s t =>
  if h : s.toList = t.toList then
    isTrue (by cases s; cases t; cases h; rfl)
  else
    isFalse fun e => h (by rw [e])

instance : Membership α (SortedSet α) := ⟨fun s a => a ∈ s.toList⟩

instance [DecidableEq α] (a : α) (s : SortedSet α) : Decidable (a ∈ s) :=
  inferInstanceAs (Decidable (a ∈ s.toList))

instance (s : SortedSet α) (p : α → Prop) [DecidablePred p] : Decidable (∀ a, a ∈ s → p a) :=
  inferInstanceAs (Decidable (∀ a, a ∈ s.toList → p a))

instance (s : SortedSet α) (p : α → Prop) [DecidablePred p] : Decidable (∃ a, a ∈ s ∧ p a) :=
  inferInstanceAs (Decidable (∃ a, a ∈ s.toList ∧ p a))

theorem mem_def {a : α} {s : SortedSet α} : a ∈ s ↔ a ∈ s.toList := Iff.rfl

/-- The set without members. -/
def empty : SortedSet α := ⟨[], .nil⟩

instance : EmptyCollection (SortedSet α) := ⟨empty⟩
instance : Inhabited (SortedSet α) := ⟨empty⟩

@[simp] theorem not_mem_empty (a : α) : ¬ a ∈ (∅ : SortedSet α) := List.not_mem_nil

def size (s : SortedSet α) : Nat := s.toList.length

def isEmpty (s : SortedSet α) : Bool := s.toList.isEmpty

theorem isEmpty_iff {s : SortedSet α} : s.isEmpty = true ↔ ∀ a, ¬ a ∈ s := by
  rw [isEmpty, List.isEmpty_iff, List.eq_nil_iff_forall_not_mem]
  rfl

/-! ## Insertion keeps the order -/

private def insertInto (a : α) : List α → List α
  | [] => [a]
  | b :: rest =>
    match compare a b with
    | .lt => a :: b :: rest
    | .eq => b :: rest
    | .gt => b :: insertInto a rest

private theorem mem_insertInto [Std.LawfulEqOrd α] {a x : α} {xs : List α} :
    x ∈ insertInto a xs ↔ x = a ∨ x ∈ xs := by
  induction xs with
  | nil => simp [insertInto]
  | cons b rest ih =>
    unfold insertInto
    split
    · simp
    · rename_i heq
      have hab : a = b := Std.LawfulEqOrd.eq_of_compare heq
      subst hab
      simp
    · simp only [List.mem_cons, ih]
      constructor
      · rintro (h | h | h) <;> simp [h]
      · rintro (h | h | h) <;> simp [h]

section Laws

variable [Std.TransOrd α] [Std.LawfulEqOrd α]

private theorem ascending_insertInto {a : α} {xs : List α}
    (hxs : xs.Pairwise fun a b => compare a b = .lt) :
    (insertInto a xs).Pairwise fun a b => compare a b = .lt := by
  induction xs with
  | nil => simp [insertInto]
  | cons b rest ih =>
    rw [List.pairwise_cons] at hxs
    unfold insertInto
    split
    · rename_i hlt
      refine List.pairwise_cons.2 ⟨fun x hx => ?_, List.pairwise_cons.2 hxs⟩
      rcases List.mem_cons.1 hx with rfl | hx
      · exact hlt
      · exact Std.TransCmp.lt_trans hlt (hxs.1 x hx)
    · exact List.pairwise_cons.2 hxs
    · rename_i hgt
      refine List.pairwise_cons.2 ⟨fun x hx => ?_, ih hxs.2⟩
      rcases mem_insertInto.1 hx with rfl | hx
      · exact Std.OrientedCmp.gt_iff_lt.1 hgt
      · exact hxs.1 x hx

/-- The set with one more member. -/
def insert (s : SortedSet α) (a : α) : SortedSet α :=
  ⟨insertInto a s.toList, ascending_insertInto s.ascending⟩

@[simp] theorem mem_insert {s : SortedSet α} {a x : α} : x ∈ s.insert a ↔ x = a ∨ x ∈ s :=
  mem_insertInto

/-- The set of the elements of a list. -/
def ofList (xs : List α) : SortedSet α := xs.foldl insert ∅

private theorem mem_foldl_insert {xs : List α} {s : SortedSet α} {x : α} :
    x ∈ xs.foldl insert s ↔ x ∈ s ∨ x ∈ xs := by
  induction xs generalizing s with
  | nil => simp
  | cons a rest ih =>
    rw [List.foldl_cons, ih, mem_insert, List.mem_cons]
    constructor
    · rintro ((h | h) | h) <;> simp [h]
    · rintro (h | h | h) <;> simp [h]

@[simp] theorem mem_ofList {xs : List α} {x : α} : x ∈ ofList xs ↔ x ∈ xs := by
  simp [ofList, mem_foldl_insert]

/-- The members of either set. -/
def union (s t : SortedSet α) : SortedSet α := t.toList.foldl insert s

@[simp] theorem mem_union {s t : SortedSet α} {x : α} : x ∈ s.union t ↔ x ∈ s ∨ x ∈ t :=
  mem_foldl_insert

instance : Union (SortedSet α) := ⟨union⟩

@[simp] theorem mem_union_iff {s t : SortedSet α} {x : α} : x ∈ s ∪ t ↔ x ∈ s ∨ x ∈ t :=
  mem_union

theorem exists_mem_union {s t : SortedSet α} {p : α → Prop} :
    (∃ x ∈ s ∪ t, p x) ↔ (∃ x ∈ s, p x) ∨ ∃ x ∈ t, p x := by
  simp only [mem_union_iff, or_and_right, exists_or]

/-! ## Equal members, equal sets -/

private theorem eq_of_ascending {xs ys : List α}
    (hxs : xs.Pairwise fun a b => compare a b = .lt)
    (hys : ys.Pairwise fun a b => compare a b = .lt)
    (h : ∀ x, x ∈ xs ↔ x ∈ ys) : xs = ys := by
  induction xs generalizing ys with
  | nil =>
    cases ys with
    | nil => rfl
    | cons b _ => exact absurd ((h b).2 (by simp)) (by simp)
  | cons a xs ih =>
    cases ys with
    | nil => exact absurd ((h a).1 (by simp)) (by simp)
    | cons b ys =>
      rw [List.pairwise_cons] at hxs hys
      have hirrefl : ∀ c : α, compare c c ≠ .lt := fun c => by
        simp [Std.ReflCmp.compare_self]
      have hab : a = b := by
        rcases List.mem_cons.1 ((h a).1 (by simp)) with hab | ha
        · exact hab
        rcases List.mem_cons.1 ((h b).2 (by simp)) with hba | hb
        · exact hba.symm
        exact absurd (Std.TransCmp.lt_trans (hys.1 a ha) (hxs.1 b hb)) (hirrefl b)
      subst hab
      refine congrArg _ (ih hxs.2 hys.2 fun x => ⟨fun hx => ?_, fun hx => ?_⟩)
      · rcases List.mem_cons.1 ((h x).1 (by simp [hx])) with rfl | hx'
        · exact absurd (hxs.1 x hx) (hirrefl x)
        · exact hx'
      · rcases List.mem_cons.1 ((h x).2 (by simp [hx])) with rfl | hx'
        · exact absurd (hys.1 x hx) (hirrefl x)
        · exact hx'

theorem ext_mem {s t : SortedSet α} (h : ∀ x, x ∈ s ↔ x ∈ t) : s = t := by
  cases s; cases t
  simp only [SortedSet.mk.injEq]
  exact eq_of_ascending ‹_› ‹_› h

/-- Listing a set and collecting the list gives the set back. -/
theorem ofList_toList (s : SortedSet α) : ofList s.toList = s :=
  ext_mem fun _ => mem_ofList

/-- Order and repetition of what is collected do not count. -/
theorem ofList_eq_iff {xs ys : List α} : ofList xs = ofList ys ↔ ∀ x, x ∈ xs ↔ x ∈ ys := by
  constructor
  · intro heq x
    rw [← mem_ofList, heq, mem_ofList]
  · intro hmem
    exact ext_mem fun x => by rw [mem_ofList, mem_ofList, hmem]

omit [Std.TransOrd α] in
/-- A set lists each member once. -/
theorem nodup_toList (s : SortedSet α) : s.toList.Nodup :=
  s.ascending.imp fun {a b} hlt heq => by
    subst heq
    simp [Std.ReflCmp.compare_self] at hlt

end Laws

/-! ## Parts and images -/

/-- The members that pass a test. -/
def filter (s : SortedSet α) (p : α → Bool) : SortedSet α :=
  ⟨s.toList.filter p, s.ascending.filter p⟩

@[simp] theorem mem_filter {s : SortedSet α} {p : α → Bool} {x : α} :
    x ∈ s.filter p ↔ x ∈ s ∧ p x = true :=
  List.mem_filter

/-- Of the members that pass a test the first one comes before all others. -/
theorem eq_or_lt_of_find? {s : SortedSet α} {p : α → Bool} {first x : α}
    (hfind : s.toList.find? p = some first) (hmem : x ∈ s) (hx : p x = true) :
    x = first ∨ compare first x = .lt := by
  obtain ⟨-, earlier, later, hsplit, hearlier⟩ := List.find?_eq_some_iff_append.1 hfind
  have hascending := s.ascending
  rw [mem_def, hsplit] at hmem
  rw [hsplit] at hascending
  rcases List.mem_append.1 hmem with hbefore | hafter
  · simpa [hx] using hearlier x hbefore
  · rcases List.mem_cons.1 hafter with heq | hlater
    · exact .inl heq
    · exact .inr ((List.pairwise_cons.1 (List.pairwise_append.1 hascending).2.1).1 x hlater)

/-- The image of a set. -/
def map [Std.TransOrd β] [Std.LawfulEqOrd β] (s : SortedSet α) (f : α → β) : SortedSet β :=
  ofList (s.toList.map f)

@[simp] theorem mem_map [Std.TransOrd β] [Std.LawfulEqOrd β] {s : SortedSet α} {f : α → β}
    {y : β} : y ∈ s.map f ↔ ∃ x, x ∈ s ∧ f x = y := by
  rw [map, mem_ofList, List.mem_map]
  rfl

/-- The union of the sets that the members of a list stand for. -/
def unions [Std.TransOrd β] [Std.LawfulEqOrd β] {γ : Type} (xs : List γ)
    (f : γ → SortedSet β) : SortedSet β :=
  xs.foldl (fun s x => s ∪ f x) ∅

private theorem mem_foldl_union [Std.TransOrd β] [Std.LawfulEqOrd β] {γ : Type} {xs : List γ}
    {f : γ → SortedSet β} {s : SortedSet β} {y : β} :
    y ∈ xs.foldl (fun s x => s ∪ f x) s ↔ y ∈ s ∨ ∃ x, x ∈ xs ∧ y ∈ f x := by
  induction xs generalizing s with
  | nil => simp
  | cons a rest ih => simp [ih, or_assoc]

@[simp] theorem mem_unions [Std.TransOrd β] [Std.LawfulEqOrd β] {γ : Type} {xs : List γ}
    {f : γ → SortedSet β} {y : β} : y ∈ unions xs f ↔ ∃ x, x ∈ xs ∧ y ∈ f x := by
  simp [unions, mem_foldl_union]

/-! ## Sets of sets

Sets are ordered as their ascending lists are, element by element. -/

instance : Ord (SortedSet α) := ⟨compareOn toList⟩

instance [Std.TransOrd α] : Std.TransOrd (SortedSet α) :=
  inferInstanceAs (Std.TransCmp (compareOn SortedSet.toList))

instance [Std.LawfulEqOrd α] : Std.LawfulEqOrd (SortedSet α) where
  compare_self {s} := show compare s.toList s.toList = .eq from Std.ReflCmp.compare_self
  eq_of_compare {s t} h := by
    have h : s.toList = t.toList :=
      Std.LawfulEqOrd.eq_of_compare (show compare s.toList t.toList = .eq from h)
    cases s; cases t; simp_all

end SortedSet

end Lineage
