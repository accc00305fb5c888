import Lineage.Sorted.Set

/-!
# Maps in ascending key order

A finite map is kept as the list of its entries with strictly ascending keys,
so two maps with the same lookups are the same value (`SortedMap.ext_find?`).

Lookup is the view: the one way to write, `alter`, is pinned down by
`find?_alter_self` and `find?_alter_of_ne`.
-/

namespace Lineage

/-- A finite map as the list of its entries, keys strictly ascending. -/
structure SortedMap (κ : Type) [Ord κ] (β : Type) where
  toList : List (κ × β)
  ascending : toList.Pairwise fun a b => compare a.1 b.1 = .lt

namespace SortedMap

variable {κ β γ : Type} [Ord κ]

instance [DecidableEq κ] [DecidableEq β] : DecidableEq (SortedMap κ β) := fun m n =>
  if h : m.toList = n.toList then
    isTrue (by cases m; cases n; cases h; rfl)
  else
    isFalse fun e => h (by rw [e])

/-- The map without entries. -/
def empty : SortedMap κ β := ⟨[], .nil⟩

instance : EmptyCollection (SortedMap κ β) := ⟨empty⟩
instance : Inhabited (SortedMap κ β) := ⟨empty⟩

def size (m : SortedMap κ β) : Nat := m.toList.length

def isEmpty (m : SortedMap κ β) : Bool := m.toList.isEmpty

def values (m : SortedMap κ β) : List β := m.toList.map Prod.snd

private def lookupIn (k : κ) : List (κ × β) → Option β
  | [] => none
  | (key, value) :: rest =>
    match compare k key with
    | .eq => some value
    | _ => lookupIn k rest

/-- The value at a key. -/
def find? (m : SortedMap κ β) (k : κ) : Option β := lookupIn k m.toList

def contains (m : SortedMap κ β) (k : κ) : Bool := (m.find? k).isSome

@[simp] theorem find?_empty (k : κ) : (∅ : SortedMap κ β).find? k = none := rfl

/-! ## One way to write -/

private def alterIn (k : κ) (f : Option β → β) : List (κ × β) → List (κ × β)
  | [] => [(k, f none)]
  | (key, value) :: rest =>
    match compare k key with
    | .lt => (k, f none) :: (key, value) :: rest
    | .eq => (key, f (some value)) :: rest
    | .gt => (key, value) :: alterIn k f rest

private theorem key_of_mem_alterIn [Std.LawfulEqOrd κ] {k : κ} {f : Option β → β}
    {entries : List (κ × β)} {entry : κ × β} (h : entry ∈ alterIn k f entries) :
    entry.1 = k ∨ ∃ other ∈ entries, other.1 = entry.1 := by
  induction entries with
  | nil => simp_all [alterIn]
  | cons head rest ih =>
    obtain ⟨key, value⟩ := head
    unfold alterIn at h
    split at h
    · rcases List.mem_cons.1 h with rfl | h
      · exact .inl rfl
      · exact .inr ⟨entry, h, rfl⟩
    · rename_i heq
      rcases List.mem_cons.1 h with rfl | h
      · exact .inl (Std.LawfulEqOrd.eq_of_compare heq).symm
      · exact .inr ⟨entry, by simp [h], rfl⟩
    · rcases List.mem_cons.1 h with rfl | h
      · exact .inr ⟨_, by simp, rfl⟩
      · rcases ih h with h | ⟨other, hmem, hkey⟩
        · exact .inl h
        · exact .inr ⟨other, by simp [hmem], hkey⟩

private theorem lookupIn_alterIn_of_ne [Std.LawfulEqOrd κ] {k k' : κ} {f : Option β → β}
    (hne : k' ≠ k) {entries : List (κ × β)} :
    lookupIn k' (alterIn k f entries) = lookupIn k' entries := by
  induction entries with
  | nil => simp [alterIn, lookupIn, hne]
  | cons head rest ih =>
    obtain ⟨key, value⟩ := head
    unfold alterIn
    split
    · simp [lookupIn, hne]
    · rename_i heq
      have hkey : k = key := Std.LawfulEqOrd.eq_of_compare heq
      subst hkey
      simp [lookupIn, hne]
    · simp [lookupIn, ih]

private theorem lookupIn_eq_none_of_lt {k : κ} {entries : List (κ × β)}
    (h : ∀ entry ∈ entries, compare k entry.1 = .lt) : lookupIn k entries = none := by
  induction entries with
  | nil => rfl
  | cons head rest ih =>
    simp only [lookupIn, h head (by simp)]
    exact ih fun entry hentry => h entry (by simp [hentry])

section Laws

variable [Std.TransOrd κ] [Std.LawfulEqOrd κ]

private theorem ascending_alterIn {k : κ} {f : Option β → β} {entries : List (κ × β)}
    (hentries : entries.Pairwise fun a b => compare a.1 b.1 = .lt) :
    (alterIn k f entries).Pairwise fun a b => compare a.1 b.1 = .lt := by
  induction entries with
  | nil => simp [alterIn]
  | cons head rest ih =>
    obtain ⟨key, value⟩ := head
    rw [List.pairwise_cons] at hentries
    unfold alterIn
    split
    · rename_i hlt
      refine List.pairwise_cons.2 ⟨fun entry h => ?_, List.pairwise_cons.2 hentries⟩
      rcases List.mem_cons.1 h with rfl | h
      · exact hlt
      · exact Std.TransCmp.lt_trans hlt (hentries.1 entry h)
    · exact List.pairwise_cons.2 hentries
    · rename_i hgt
      refine List.pairwise_cons.2 ⟨fun entry h => ?_, ih hentries.2⟩
      rcases key_of_mem_alterIn h with hk | ⟨other, hmem, hkey⟩
      · simpa [hk] using Std.OrientedCmp.gt_iff_lt.1 hgt
      · simpa [hkey] using hentries.1 other hmem

/-- The map whose value at one key is computed from what stood there. -/
def alter (m : SortedMap κ β) (k : κ) (f : Option β → β) : SortedMap κ β :=
  ⟨alterIn k f m.toList, ascending_alterIn m.ascending⟩

/-- The map with the value at one key replaced. -/
def insert (m : SortedMap κ β) (k : κ) (v : β) : SortedMap κ β := m.alter k fun _ => v

private theorem lookupIn_alterIn_self {k : κ} {f : Option β → β} {entries : List (κ × β)}
    (hentries : entries.Pairwise fun a b => compare a.1 b.1 = .lt) :
    lookupIn k (alterIn k f entries) = some (f (lookupIn k entries)) := by
  induction entries with
  | nil => simp [alterIn, lookupIn, Std.ReflCmp.compare_self]
  | cons head rest ih =>
    obtain ⟨key, value⟩ := head
    rw [List.pairwise_cons] at hentries
    unfold alterIn
    split
    · rename_i hlt
      have habsent : lookupIn k rest = none := by
        clear ih
        induction rest with
        | nil => rfl
        | cons next rest ih =>
          have hnext : compare k next.1 = .lt :=
            Std.TransCmp.lt_trans hlt (hentries.1 next (by simp))
          simp only [lookupIn, hnext]
          exact ih ⟨fun entry h => hentries.1 entry (by simp [h]), (List.pairwise_cons.1 hentries.2).2⟩
      simp [lookupIn, Std.ReflCmp.compare_self, hlt, habsent]
    · rename_i heq
      simp [lookupIn, heq]
    · rename_i hgt
      simp [lookupIn, hgt, ih hentries.2]

@[simp] theorem find?_alter_self (m : SortedMap κ β) (k : κ) (f : Option β → β) :
    (m.alter k f).find? k = some (f (m.find? k)) :=
  lookupIn_alterIn_self m.ascending

theorem find?_alter_of_ne (m : SortedMap κ β) {k k' : κ} (f : Option β → β) (hne : k' ≠ k) :
    (m.alter k f).find? k' = m.find? k' :=
  lookupIn_alterIn_of_ne hne

omit [Std.LawfulEqOrd κ] in
private theorem length_flatMap_alterIn {γ : Type} {k : κ} {f : Option β → β} (items : β → List γ)
    {entries : List (κ × β)} (hentries : entries.Pairwise fun a b => compare a.1 b.1 = .lt) :
    (((alterIn k f entries).map Prod.snd).flatMap items).length +
        (((lookupIn k entries).map items).getD []).length =
      ((entries.map Prod.snd).flatMap items).length + (items (f (lookupIn k entries))).length := by
  induction entries with
  | nil => simp [alterIn, lookupIn]
  | cons head rest ih =>
    obtain ⟨key, value⟩ := head
    rw [List.pairwise_cons] at hentries
    unfold alterIn
    split
    · rename_i hlt
      have habsent : lookupIn k rest = none := lookupIn_eq_none_of_lt fun entry hentry =>
        Std.TransCmp.lt_trans hlt (hentries.1 entry hentry)
      simp only [List.map_cons, List.flatMap_cons, List.length_append, lookupIn, hlt, habsent,
        Option.map_none, Option.getD_none, List.length_nil]
      omega
    · rename_i heq
      simp only [List.map_cons, List.flatMap_cons, List.length_append, lookupIn, heq,
        Option.map_some, Option.getD_some]
      omega
    · rename_i hgt
      have hrest := ih hentries.2
      simp only [List.map_cons, List.flatMap_cons, List.length_append, lookupIn, hgt] at hrest ⊢
      omega

/-- The items of all values get more by those of the written one, and fewer by those of the one that
it replaces. -/
theorem length_flatMap_values_alter {γ : Type} (m : SortedMap κ β) (k : κ) (f : Option β → β)
    (items : β → List γ) :
    ((m.alter k f).values.flatMap items).length + (((m.find? k).map items).getD []).length =
      (m.values.flatMap items).length + (items (f (m.find? k))).length :=
  length_flatMap_alterIn items m.ascending

/-- The map of the entries of a list; of repeated keys the last counts. -/
def ofList (entries : List (κ × β)) : SortedMap κ β :=
  entries.foldl (fun m entry => m.insert entry.1 entry.2) ∅

private theorem find?_foldl_insert [DecidableEq κ] (entries : List (κ × β)) (m : SortedMap κ β)
    (k : κ) : (entries.foldl (fun m entry => m.insert entry.1 entry.2) m).find? k =
      ((entries.reverse.find? fun entry => entry.1 = k).map Prod.snd).or (m.find? k) := by
  induction entries generalizing m with
  | nil => rfl
  | cons entry rest ih =>
    -- the first entry counts only if none of the rest has its key
    rw [List.foldl_cons, ih, List.reverse_cons, List.find?_append, insert]
    by_cases hkey : k = entry.1
    · subst hkey
      rw [find?_alter_self]
      cases rest.reverse.find? fun other => other.1 = entry.1 <;> simp
    · rw [find?_alter_of_ne _ _ hkey]
      cases rest.reverse.find? fun other => other.1 = k <;> simp [Ne.symm hkey]

/-- Under each key the map of a list has the last entry of the list. -/
theorem find?_ofList [DecidableEq κ] (entries : List (κ × β)) (k : κ) :
    (ofList entries).find? k = (entries.reverse.find? fun entry => entry.1 = k).map Prod.snd := by
  rw [ofList, find?_foldl_insert, find?_empty, Option.or_none]

/-! ## Equal lookups, equal maps -/

private theorem eq_of_lookupIn {xs ys : List (κ × β)}
    (hxs : xs.Pairwise fun a b => compare a.1 b.1 = .lt)
    (hys : ys.Pairwise fun a b => compare a.1 b.1 = .lt)
    (h : ∀ k, lookupIn k xs = lookupIn k ys) : xs = ys := by
  induction xs generalizing ys with
  | nil =>
    cases ys with
    | nil => rfl
    | cons b _ =>
      have := h b.1
      simp [lookupIn, Std.ReflCmp.compare_self] at this
  | cons a xs ih =>
    cases ys with
    | nil =>
      have := h a.1
      simp [lookupIn, Std.ReflCmp.compare_self] at this
    | cons b ys =>
      obtain ⟨a, x⟩ := a
      obtain ⟨b, y⟩ := b
      rw [List.pairwise_cons] at hxs hys
      have hab : a = b := by
        cases hcompare : compare a b with
        | eq => exact Std.LawfulEqOrd.eq_of_compare hcompare
        | lt =>
          have ha := h a
          have habsent : lookupIn a ys = none := lookupIn_eq_none_of_lt fun entry hentry =>
            Std.TransCmp.lt_trans hcompare (hys.1 entry hentry)
          simp [lookupIn, Std.ReflCmp.compare_self, hcompare, habsent] at ha
        | gt =>
          have hb := h b
          have hba : compare b a = .lt := Std.OrientedCmp.gt_iff_lt.1 hcompare
          have habsent : lookupIn b xs = none := lookupIn_eq_none_of_lt fun entry hentry =>
            Std.TransCmp.lt_trans hba (hxs.1 entry hentry)
          simp [lookupIn, Std.ReflCmp.compare_self, hba, habsent] at hb
      subst hab
      have hxy : x = y := by
        have ha := h a
        simpa [lookupIn, Std.ReflCmp.compare_self] using ha
      subst hxy
      refine congrArg _ (ih hxs.2 hys.2 fun k => ?_)
      have hk := h k
      by_cases hka : compare k a = .eq
      · have : k = a := Std.LawfulEqOrd.eq_of_compare hka
        subst this
        rw [lookupIn_eq_none_of_lt hxs.1, lookupIn_eq_none_of_lt hys.1]
      · simp only [lookupIn] at hk
        cases hcompare : compare k a <;> simp_all

theorem ext_find? {m n : SortedMap κ β} (h : ∀ k, m.find? k = n.find? k) : m = n := by
  cases m; cases n
  simp only [SortedMap.mk.injEq]
  exact eq_of_lookupIn ‹_› ‹_› h

/-- A map without entries finds nothing. -/
theorem isEmpty_iff {m : SortedMap κ β} : m.isEmpty = true ↔ ∀ k, m.find? k = none := by
  rw [isEmpty, List.isEmpty_iff]
  constructor
  · intro hnil k
    rw [find?, hnil]
    rfl
  · intro hnone
    exact congrArg toList (ext_find? (n := ∅) hnone)

end Laws

/-! ## Entries -/

/-- The set of keys. -/
def keys (m : SortedMap κ β) : SortedSet κ :=
  ⟨m.toList.map Prod.fst, by simpa [List.pairwise_map] using m.ascending⟩

section Entries

variable [Std.LawfulEqOrd κ]

private theorem mem_iff_lookupIn {k : κ} {v : β} {entries : List (κ × β)}
    (hentries : entries.Pairwise fun a b => compare a.1 b.1 = .lt) :
    (k, v) ∈ entries ↔ lookupIn k entries = some v := by
  induction entries with
  | nil => simp [lookupIn]
  | cons head rest ih =>
    obtain ⟨key, value⟩ := head
    rw [List.pairwise_cons] at hentries
    by_cases hkey : k = key
    · subst hkey
      have habsent : ¬ (k, v) ∈ rest := fun h => by
        have := hentries.1 _ h
        simp [Std.ReflCmp.compare_self] at this
      simp only [List.mem_cons, Prod.mk.injEq, true_and, habsent, or_false, lookupIn,
        Std.ReflCmp.compare_self, Option.some.injEq]
      exact eq_comm
    · have hne : compare k key ≠ .eq := fun h => hkey (Std.LawfulEqOrd.eq_of_compare h)
      simp only [List.mem_cons, Prod.mk.injEq, hkey, false_and, false_or, ih hentries.2, lookupIn]

theorem mem_toList_iff (m : SortedMap κ β) {k : κ} {v : β} :
    (k, v) ∈ m.toList ↔ m.find? k = some v :=
  mem_iff_lookupIn m.ascending

theorem mem_keys (m : SortedMap κ β) {k : κ} : k ∈ m.keys ↔ (m.find? k).isSome := by
  rw [Option.isSome_iff_exists]
  show k ∈ m.toList.map Prod.fst ↔ _
  rw [List.mem_map]
  constructor
  · rintro ⟨⟨_, v⟩, hmem, rfl⟩
    exact ⟨v, m.mem_toList_iff.1 hmem⟩
  · rintro ⟨v, hfind⟩
    exact ⟨(k, v), m.mem_toList_iff.2 hfind, rfl⟩

theorem mem_keys_alter [Std.TransOrd κ] (m : SortedMap κ β) (key : κ) (f : Option β → β) {k : κ} :
    k ∈ (m.alter key f).keys ↔ k = key ∨ k ∈ m.keys := by
  rw [mem_keys, mem_keys]
  by_cases hkey : k = key
  · subst hkey
    simp
  · simp [find?_alter_of_ne _ _ hkey, hkey]

theorem mem_values (m : SortedMap κ β) {v : β} : v ∈ m.values ↔ ∃ k, m.find? k = some v := by
  rw [values, List.mem_map]
  constructor
  · rintro ⟨⟨k, _⟩, hmem, rfl⟩
    exact ⟨k, m.mem_toList_iff.1 hmem⟩
  · rintro ⟨k, hfind⟩
    exact ⟨(k, v), m.mem_toList_iff.2 hfind, rfl⟩

end Entries

/-- The map with a function applied to every value. -/
def mapValues (m : SortedMap κ β) (f : β → γ) : SortedMap κ γ :=
  ⟨m.toList.map fun entry => (entry.1, f entry.2), by
    simpa [List.pairwise_map] using m.ascending⟩

private theorem lookupIn_map {f : β → γ} {k : κ} {entries : List (κ × β)} :
    lookupIn k (entries.map fun entry => (entry.1, f entry.2)) = (lookupIn k entries).map f := by
  induction entries with
  | nil => rfl
  | cons head rest ih =>
    simp only [List.map_cons, lookupIn]
    split
    · rfl
    · exact ih

@[simp] theorem find?_mapValues (m : SortedMap κ β) (f : β → γ) (k : κ) :
    (m.mapValues f).find? k = (m.find? k).map f :=
  lookupIn_map

end SortedMap

end Lineage
