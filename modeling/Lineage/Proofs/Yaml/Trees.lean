import Lineage.Proofs.Yaml.Plain
import Lineage.Proofs.Yaml.Rereading
import Lineage.Proofs.Yaml.Words

/-!
# Compact JSON between brackets

Stored data that is written as compact JSON stands between brackets, where the
columns do not count.  Each of its values is read as a node of its own, up to the
comma or the bracket behind it, and the name of a field as a key.  So what is read
is the tree of nodes that is shaped like the data, with its texts read again, unless
one of these is refused (`reads`).
-/

namespace Lineage.Yaml

open Json

/-! ## The nodes of a tree -/

mutual

/-- The node that stored data is read as. -/
def Node.ofValue : Value → Node
  | .null => .plain "null"
  | .bool true => .plain "true"
  | .bool false => .plain "false"
  | .int n => .plain (String.ofList (integer n))
  | .text s => .quoted s
  | .list items => .list (ofItems items)
  | .record fields => .record (ofFields fields)
  | .number _ | .moment _ => .absent

def Node.ofItems : List Value → List Node
  | [] => []
  | item :: items => ofValue item :: ofItems items

def Node.ofFields : List (Key × Value) → List (Node × Node)
  | [] => []
  | (key, value) :: fields => (.quoted key.name, ofValue value) :: ofFields fields

end

theorem Node.ofItems_eq (items : List Value) : ofItems items = items.map ofValue := by
  induction items with
  | nil => rfl
  | cons item items ih => rw [ofItems, ih, List.map_cons]

theorem Node.ofFields_eq (fields : List (Key × Value)) :
    ofFields fields = fields.map fun field => (.quoted field.1.name, ofValue field.2) := by
  induction fields with
  | nil => rfl
  | cons field fields ih => rw [ofFields, ih, List.map_cons]

/-! ## Where tokens begin -/

/-- The characters that a value begins with. -/
def openers : List Char := "\"[\x7bntf-0123456789".toList

/-- A value begins at the head of a text: not with the dashes of a document mark. -/
def Opens (text : List Char) : Prop :=
  ∃ c more, text = c :: more ∧ c ∈ openers ∧ (c = '-' → ∃ d others, more = d :: others ∧ d ≠ '-')

theorem Opens.append {text : List Char} (h : Opens text) (rest : List Char) :
    Opens (text ++ rest) := by
  obtain ⟨c, more, rfl, hc, hdash⟩ := h
  refine ⟨c, more ++ rest, rfl, hc, fun h => ?_⟩
  obtain ⟨d, others, rfl, hd⟩ := hdash h
  exact ⟨d, others ++ rest, rfl, hd⟩

theorem opens_of_ne {c : Char} (hc : c ∈ openers) (hne : c ≠ '-') (more : List Char) :
    Opens (c :: more) :=
  ⟨c, more, rfl, hc, fun h => absurd h hne⟩

theorem opens_integer (n : Int) : Opens (integer n) := by
  obtain ⟨c, run, hrun⟩ := exists_cons_toDigits n.natAbs
  have hc := of_isDigit (fun c => openers.contains c && c != '-') (by decide)
    (isDigit_of_mem_toDigits (hrun ▸ List.mem_cons_self))
  simp only [Bool.and_eq_true, List.contains_iff_mem, bne_iff_ne] at hc
  rw [integer, hrun]
  split
  · exact ⟨'-', c :: run, rfl, by decide, fun _ => ⟨c, run, rfl, hc.2⟩⟩
  · exact opens_of_ne hc.1 hc.2 run

theorem opens_tree {depth : Nat} {value : Value} (h : Storable depth value) :
    Opens (Layout.compact.tree value) := by
  cases h with
  | null => exact opens_of_ne (by decide) (by decide) _
  | bool b => cases b <;> exact opens_of_ne (by decide) (by decide) _
  | int n => exact opens_integer n
  | text s => exact opens_of_ne (by decide) (by decide) _
  | @list _ items _ =>
      cases items <;> rw [Layout.tree] <;> exact opens_of_ne (by decide) (by decide) _
  | @record _ fields _ _ => cases fields <;> exact opens_of_ne (by decide) (by decide) _

namespace Bracketed

variable {cursor : Cursor}

theorem toToken_of_cons {c : Char} {more : List Char} (h : cursor.rest = c :: more)
    (hgap : (c != '#' && c != ' ' && !isBreak c && c != '.') = true)
    (hdash : c = '-' → ∃ d others, more = d :: others ∧ d ≠ '-') : toToken cursor = .ok cursor := by
  simp only [Bool.and_eq_true, bne_iff_ne, Bool.not_eq_true'] at hgap
  obtain ⟨⟨⟨hcomment, hspace⟩, hbreak⟩, hpoint⟩ := hgap
  have hlength : Cursor.gapLength false cursor.rest = 0 := by
    rw [h]
    simp [Cursor.gapLength, hcomment, hspace, hbreak]
  have hmarker : cursor.atMarker = false := by
    unfold Cursor.atMarker
    split
    · next rest hrest =>
        obtain ⟨rfl, hmore⟩ := List.cons.inj (h.symm.trans hrest)
        obtain ⟨d, others, hd, hne⟩ := hdash rfl
        exact absurd (List.cons.inj (hd.symm.trans hmore)).1 hne
    · next rest hrest => exact absurd (List.cons.inj (h.symm.trans hrest)).1 hpoint
    · rfl
  rw [toToken, Cursor.toToken_eq hlength]
  simp [hmarker]

theorem toToken_of_opens (h : Opens cursor.rest) : toToken cursor = .ok cursor := by
  obtain ⟨c, more, hrest, hc, hdash⟩ := h
  have hall : (openers.all fun c => c != '#' && c != ' ' && !isBreak c && c != '.') = true := by
    decide
  exact toToken_of_cons hrest (List.all_eq_true.1 hall c hc) hdash

/-- The comma, the colon and the closing brackets. -/
theorem toToken_of_mark {c : Char} {more : List Char} (h : cursor.rest = c :: more)
    (hc : c ∈ ",:]\x7d".toList) : toToken cursor = .ok cursor := by
  have hall : (",:]\x7d".toList.all fun c =>
      c != '#' && c != ' ' && !isBreak c && c != '.' && c != '-') = true := by decide
  have hmark := List.all_eq_true.1 hall c hc
  rw [Bool.and_eq_true, bne_iff_ne] at hmark
  exact toToken_of_cons h hmark.1 fun hdash => absurd hdash hmark.2

/-! ## Values -/

/-- Where a value is written as JSON, behind which an entry ends, the node of its rereading is
read. -/
def Reads (value : Value) : Prop :=
  ∀ (cursor : Cursor) (rest : List Char) (fuel : Nat),
    cursor.rest = Layout.compact.tree value ++ rest → Plain.EndsEntry rest →
    -- from a node to one inside it fuel is spent four times, and a bracket is passed
    4 * (Layout.compact.tree value).length < fuel →
    node fuel cursor = value.reread.map fun read =>
      (.ofValue read, cursor.skip (Layout.compact.tree value).length)

theorem node_of_scalar {c : Char} {more : List Char} (h : cursor.rest = c :: more) (hlist : c ≠ '[')
    (hrecord : c ≠ '\x7b') (fuel : Nat) : node (fuel + 1) cursor = scalar cursor := by
  rw [node]
  split
  · next rest hrest => exact absurd (List.cons.inj (h.symm.trans hrest)).1 hlist
  · next rest hrest => exact absurd (List.cons.inj (h.symm.trans hrest)).1 hrecord
  · rfl

theorem scalar_string {s : String} {rest : List Char}
    (h : cursor.rest = Layout.compact.string s ++ rest) :
    scalar cursor = (Quoted.reread s).map fun read =>
      (.quoted read, cursor.skip (Layout.compact.string s).length) := by
  have hcons : cursor.rest = '"' :: (s.toList.flatMap Layout.compact.escape ++ ['"'] ++ rest) := h
  simp only [scalar, hcons, Quoted.scalar_string h]
  cases Quoted.reread s <;> rfl

theorem reads_null : Reads .null := by
  intro cursor rest fuel h hrest hfuel
  obtain ⟨fuel, rfl⟩ := Nat.exists_eq_add_one.2 (Nat.zero_lt_of_lt hfuel)
  have hcons : cursor.rest = 'n' :: ("ull".toList ++ rest) := h
  rw [node_of_scalar hcons (by decide) (by decide)]
  exact scalar_plain h (List.all_eq_true.1 (by decide)) hrest (by decide) (by decide) rfl

theorem reads_bool (b : Bool) : Reads (.bool b) := by
  intro cursor rest fuel h hrest hfuel
  cases b with
  | true =>
      obtain ⟨fuel, rfl⟩ := Nat.exists_eq_add_one.2 (Nat.zero_lt_of_lt hfuel)
      have hcons : cursor.rest = 't' :: ("rue".toList ++ rest) := h
      rw [node_of_scalar hcons (by decide) (by decide)]
      exact scalar_plain h (List.all_eq_true.1 (by decide)) hrest (by decide) (by decide) rfl
  | false =>
      obtain ⟨fuel, rfl⟩ := Nat.exists_eq_add_one.2 (Nat.zero_lt_of_lt hfuel)
      have hcons : cursor.rest = 'f' :: ("alse".toList ++ rest) := h
      rw [node_of_scalar hcons (by decide) (by decide)]
      exact scalar_plain h (List.all_eq_true.1 (by decide)) hrest (by decide) (by decide) rfl

theorem reads_int (n : Int) : Reads (.int n) := by
  intro cursor rest fuel h hrest hfuel
  obtain ⟨c, run, hrun, hc⟩ := exists_cons_integer n
  rw [Layout.tree] at h hfuel ⊢
  obtain ⟨fuel, rfl⟩ := Nat.exists_eq_add_one.2 (Nat.zero_lt_of_lt hfuel)
  have hcons : cursor.rest = c :: (run ++ rest) := by rw [h, hrun, List.cons_append]
  have hbrackets : c ≠ '[' ∧ c ≠ '\x7b' := by
    rcases hc with rfl | hc
    · decide
    · have hdigit := of_isDigit (fun c => c != '[' && c != '\x7b') (by decide) hc
      simpa using hdigit
  rw [node_of_scalar hcons hbrackets.1 hbrackets.2]
  exact scalar_integer h hrest

theorem reads_text (s : String) : Reads (.text s) := by
  intro cursor rest fuel h hrest hfuel
  rw [Layout.tree] at h hfuel ⊢
  obtain ⟨fuel, rfl⟩ := Nat.exists_eq_add_one.2 (Nat.zero_lt_of_lt hfuel)
  have hcons : cursor.rest = '"' :: (s.toList.flatMap Layout.compact.escape ++ ['"'] ++ rest) := h
  rw [node_of_scalar hcons (by decide) (by decide), scalar_string h, Value.reread]
  cases Quoted.reread s <;> rfl

/-! ## Entries one after another -/

theorem head?_ne_of_opens (h : Opens cursor.rest) {c : Char} (hc : c ∉ openers) :
    cursor.rest.head? ≠ some c := by
  obtain ⟨d, more, hrest, hd, -⟩ := h
  rw [hrest]
  rintro heq
  exact hc (Option.some.inj heq ▸ hd)

section Entries

variable {close : Char} {found : Entry} {after : Cursor} {rest : List Char} {fuel : Nat}

/-- Where an entry cannot be read, entries cannot. -/
theorem entries_error {fault : Fault} (hopens : Opens cursor.rest)
    (hclose : close = ']' ∨ close = '\x7d') (hentry : entry fuel close cursor = .error fault) :
    entries (fuel + 1) close cursor = .error fault := by
  have hhead : cursor.rest.head? ≠ some close :=
    head?_ne_of_opens hopens (by rcases hclose with rfl | rfl <;> decide)
  rw [entries, toToken_of_opens hopens, ok_bind, if_neg hhead, hentry]
  rfl

/-- An entry before the closing bracket is the last one. -/
theorem entries_last (hopens : Opens cursor.rest) (hclose : close = ']' ∨ close = '\x7d')
    (hentry : entry fuel close cursor = .ok (found, after)) (hafter : after.rest = close :: rest) :
    entries (fuel + 1) close cursor = .ok ([found], after.next) := by
  have hhead : cursor.rest.head? ≠ some close :=
    head?_ne_of_opens hopens (by rcases hclose with rfl | rfl <;> decide)
  have hmark : toToken after = .ok after :=
    toToken_of_mark hafter (by rcases hclose with rfl | rfl <;> decide)
  rw [entries, toToken_of_opens hopens, ok_bind, if_neg hhead, hentry]
  show (toToken _ >>= _) = _
  rw [hmark, ok_bind, if_pos (by rw [hafter]; rfl)]
  rfl

/-- Behind a comma come more entries. -/
theorem entries_more (hopens : Opens cursor.rest) (hclose : close = ']' ∨ close = '\x7d')
    (hentry : entry fuel close cursor = .ok (found, after)) (hafter : after.rest = ',' :: rest) :
    entries (fuel + 1) close cursor =
      (entries fuel close after.next).map fun (more, cursor) => (found :: more, cursor) := by
  have hhead : cursor.rest.head? ≠ some close :=
    head?_ne_of_opens hopens (by rcases hclose with rfl | rfl <;> decide)
  have hcomma : after.rest.head? ≠ some close := by
    rw [hafter]
    rcases hclose with rfl | rfl <;> simp
  rw [entries, toToken_of_opens hopens, ok_bind, if_neg hhead, hentry]
  show (toToken _ >>= _) = _
  rw [toToken_of_mark hafter (by decide), ok_bind, if_neg hcomma,
    if_pos (by rw [hafter]; rfl)]
  cases entries fuel close after.next <;> rfl

/-- A closing bracket at the start ends a collection without entries. -/
theorem entries_close (hclose : close = ']' ∨ close = '\x7d') (h : cursor.rest = close :: rest) :
    entries (fuel + 1) close cursor = .ok ([], cursor.next) := by
  rw [entries, toToken_of_mark h (by rcases hclose with rfl | rfl <;> decide), ok_bind,
    if_pos (by rw [h]; rfl)]
  rfl

end Entries

/-- Where `text` stands before a comma or the closing bracket, an entry is read or refused. -/
structure ReadsEntry (close : Char) (text : List Char) (outcome : Except Fault Entry) : Prop where
  opens : Opens text
  reads : ∀ (cursor : Cursor) (c : Char) (more : List Char) (fuel : Nat),
    cursor.rest = text ++ c :: more → c = ',' ∨ c = close → 4 * text.length + 1 < fuel →
    entry fuel close cursor = outcome.map fun found => (found, cursor.skip text.length)

/-- The characters of entries behind other ones, up to the closing bracket. -/
def closing (close : Char) : List (List Char) → List Char
  | [] => [close]
  | text :: texts => ',' :: (text ++ closing close texts)

/-- The characters of all entries, up to the closing bracket. -/
def enclosed (close : Char) : List (List Char) → List Char
  | [] => [close]
  | text :: texts => text ++ closing close texts

section Enclosed

variable {α : Type} {text : α → List Char} {outcome : α → Except Fault Entry} {close : Char}
  {rest : List Char} {fuel : Nat}

theorem entries_closing (hclose : close = ']' ∨ close = '\x7d') {first : α} {others : List α}
    (hreads : ∀ x ∈ first :: others, ReadsEntry close (text x) (outcome x))
    (h : cursor.rest = text first ++ (closing close (others.map text) ++ rest))
    (hfuel : 4 * ((text first).length + (closing close (others.map text)).length) ≤ fuel) :
    entries fuel close cursor = ((first :: others).mapM outcome).map fun found =>
      (found, cursor.skip ((text first).length + (closing close (others.map text)).length)) := by
  -- on the entries that follow; the last one stands before the closing character
  induction others generalizing first cursor fuel with
  | nil =>
      have hfirst := hreads first List.mem_cons_self
      have hopens : Opens cursor.rest := h ▸ hfirst.opens.append _
      have hlength : (closing close ([].map text)).length = 1 := rfl
      obtain ⟨fuel, rfl⟩ : ∃ g, fuel = g + 1 := ⟨fuel - 1, by omega⟩
      have hentry := hfirst.reads cursor close rest fuel h (.inr rfl) (by omega)
      rw [List.mapM_cons]
      cases houtcome : outcome first with
      | error fault =>
          rw [houtcome] at hentry
          exact entries_error hopens hclose hentry
      | ok found =>
          rw [houtcome] at hentry
          rw [entries_last hopens hclose hentry (Cursor.rest_skip_of_append h),
            Cursor.next_eq_skip, Cursor.skip_skip]
          rfl
  | cons next others ih =>
      have hfirst := hreads first List.mem_cons_self
      have hopens : Opens cursor.rest := h ▸ hfirst.opens.append _
      rw [List.map_cons, closing, List.cons_append, List.append_assoc] at h
      rw [List.map_cons, closing, List.length_cons, List.length_append] at hfuel ⊢
      obtain ⟨fuel, rfl⟩ : ∃ g, fuel = g + 1 := ⟨fuel - 1, by omega⟩
      have hentry := hfirst.reads cursor ',' _ fuel h (.inl rfl) (by omega)
      have hbehind := Cursor.rest_skip_of_append h
      have hmore := ih (fun x hx => hreads x (List.mem_cons_of_mem _ hx))
        (Cursor.rest_next_of_cons hbehind) (by omega : _ ≤ fuel)
      rw [List.mapM_cons]
      -- an entry that cannot be read ends the reading, whatever follows
      cases houtcome : outcome first with
      | error fault =>
          rw [houtcome] at hentry
          exact entries_error hopens hclose hentry
      | ok found =>
          rw [houtcome] at hentry
          rw [entries_more hopens hclose hentry hbehind, hmore, Cursor.next_eq_skip,
            Cursor.skip_skip, Cursor.skip_skip]
          cases (next :: others).mapM outcome with
          | error fault => rfl
          | ok others =>
              simp only [Except.map, bind, Except.bind, pure, Except.pure, Nat.add_comm 1,
                Nat.add_assoc]

/-- Enclosed entries are read one by one. -/
theorem entries_enclosed (hclose : close = ']' ∨ close = '\x7d') {xs : List α}
    (hreads : ∀ x ∈ xs, ReadsEntry close (text x) (outcome x))
    (h : cursor.rest = enclosed close (xs.map text) ++ rest)
    (hfuel : 4 * (enclosed close (xs.map text)).length ≤ fuel) :
    entries fuel close cursor = (xs.mapM outcome).map fun found =>
      (found, cursor.skip (enclosed close (xs.map text)).length) := by
  cases xs with
  | nil =>
      have hlength : (enclosed close ([].map text)).length = 1 := rfl
      obtain ⟨fuel, rfl⟩ : ∃ g, fuel = g + 1 := ⟨fuel - 1, by omega⟩
      rw [entries_close hclose h]
      rfl
  | cons first others =>
      rw [List.map_cons, enclosed, List.append_assoc] at h
      rw [List.map_cons, enclosed, List.length_append] at hfuel ⊢
      exact entries_closing hclose hreads h hfuel

end Enclosed

/-! ## Items -/

theorem restOfList_eq (items : List Value) :
    Layout.compact.restOfList items = closing ']' (items.map Layout.compact.tree) := by
  induction items with
  | nil => rfl
  | cons item items ih =>
      show ',' :: (Layout.compact.tree item ++ Layout.compact.restOfList items) = _
      rw [ih]
      rfl

theorem tree_list (items : List Value) :
    Layout.compact.tree (.list items) = '[' :: enclosed ']' (items.map Layout.compact.tree) := by
  cases items with
  | nil => rfl
  | cons item items =>
      show '[' :: (Layout.compact.tree item ++ Layout.compact.restOfList items) = _
      rw [restOfList_eq]
      rfl

/-- The entry of an item. -/
def itemEntry (value : Value) : Entry := ⟨.ofValue value, none⟩

theorem readsEntry_item {value : Value} (hreads : Reads value)
    (hopens : Opens (Layout.compact.tree value)) :
    ReadsEntry ']' (Layout.compact.tree value) (value.reread.map itemEntry) where
  opens := hopens
  reads cursor c more fuel h hc hfuel := by
    obtain ⟨fuel, rfl⟩ := Nat.exists_eq_add_one.2 (Nat.zero_lt_of_lt hfuel)
    have hends : Plain.EndsEntry (c :: more) := by
      rintro d hd
      obtain rfl : c = d := Option.some.inj hd
      exact hc.imp_right .inl
    have hquestion : cursor.rest.head? ≠ some '?' :=
      head?_ne_of_opens (h ▸ hopens.append _) (by decide)
    have hbehind : (cursor.skip (Layout.compact.tree value).length).rest = c :: more :=
      Cursor.rest_skip_of_append h
    have htoken := toToken_of_mark hbehind (by rcases hc with rfl | rfl <;> decide)
    -- no colon follows, so the entry is not taken for a key
    have hcolon : (cursor.skip (Layout.compact.tree value).length).rest.head? ≠ some ':' := by
      rw [hbehind]
      rcases hc with rfl | rfl <;> simp
    rw [entry, if_neg hquestion, hreads cursor _ fuel h hends (by omega)]
    cases value.reread with
    | error fault => rfl
    | ok read =>
        show (toToken _ >>= _) = _
        rw [htoken, ok_bind, if_neg hcolon]
        rfl

theorem mapM_itemEntry (items : List Value) :
    (items.mapM fun item => item.reread.map itemEntry) =
      (Value.rereadItems items).map (List.map itemEntry) := by
  induction items with
  | nil => rfl
  | cons item items ih =>
      rw [List.mapM_cons, ih, Value.rereadItems]
      cases item.reread <;> cases Value.rereadItems items <;> rfl

theorem map_itemEntry (items : List Value) :
    (items.map itemEntry).map Entry.item = Node.ofItems items := by
  rw [List.map_map, Node.ofItems_eq]
  rfl

theorem node_list {rest : List Char} (h : cursor.rest = '[' :: rest) (fuel : Nat) :
    node (fuel + 1) cursor = (entries fuel ']' cursor.next).map fun found =>
      (.list (found.1.map Entry.item), found.2) := by
  rw [node]
  simp only [h]
  cases entries fuel ']' cursor.next <;> rfl

theorem reads_list {items : List Value} (hreads : ∀ item ∈ items, Reads item)
    (hopens : ∀ item ∈ items, Opens (Layout.compact.tree item)) : Reads (.list items) := by
  intro cursor rest fuel h hrest hfuel
  obtain ⟨fuel, rfl⟩ := Nat.exists_eq_add_one.2 (Nat.zero_lt_of_lt hfuel)
  rw [tree_list, List.cons_append] at h
  rw [tree_list, List.length_cons] at hfuel ⊢
  have hroom : 4 * (enclosed ']' (items.map Layout.compact.tree)).length ≤ fuel := by omega
  have hentries := entries_enclosed (.inl rfl)
    (fun item hitem => readsEntry_item (hreads item hitem) (hopens item hitem))
    (Cursor.rest_next_of_cons h) hroom
  rw [node_list h, hentries, mapM_itemEntry, Value.reread, Cursor.next_eq_skip, Cursor.skip_skip]
  cases Value.rereadItems items with
  | error fault => rfl
  | ok read => simp only [Except.map, map_itemEntry, Node.ofValue, Nat.add_comm 1]

/-! ## Fields -/

/-- The characters of a field: the name in quotes, the colon, and the value. -/
def fieldText (field : String × Value) : List Char :=
  Layout.compact.string field.1 ++ ':' :: Layout.compact.tree field.2

theorem restOfRecord_eq (fields : List (String × Value)) :
    Layout.compact.restOfRecord (Value.named fields) = closing '\x7d' (fields.map fieldText) := by
  induction fields with
  | nil => rfl
  | cons field fields ih =>
      show [','] ++ Layout.compact.string field.1 ++ [':'] ++ Layout.compact.tree field.2 ++
        Layout.compact.restOfRecord (Value.named fields) = _
      rw [ih, List.map_cons, closing, fieldText]
      simp only [List.append_assoc, List.cons_append, List.nil_append]

theorem tree_ofFields (fields : List (String × Value)) :
    Layout.compact.tree (.ofFields fields) = '\x7b' :: enclosed '\x7d' (fields.map fieldText) := by
  cases fields with
  | nil => rfl
  | cons field fields =>
      show '\x7b' :: (Layout.compact.string field.1 ++ [':'] ++ Layout.compact.tree field.2 ++
        Layout.compact.restOfRecord (Value.named fields)) = _
      rw [restOfRecord_eq, List.map_cons, enclosed, fieldText]
      simp only [List.append_assoc, List.cons_append, List.nil_append]

/-- The entry of a field. -/
def fieldEntry (field : Key × Value) : Entry := ⟨.quoted field.1.name, some (.ofValue field.2)⟩

theorem readsEntry_field {field : String × Value} (hname : isWord field.1 = true)
    (hreads : Reads field.2) (hopens : Opens (Layout.compact.tree field.2)) :
    ReadsEntry '\x7d' (fieldText field)
      (field.2.reread.map fun read => fieldEntry (.text field.1, read)) where
  opens := opens_of_ne (by decide) (by decide) _
  reads cursor c more fuel h hc hfuel := by
    obtain ⟨name, value⟩ := field
    have hlength : (fieldText (name, value)).length =
        (Layout.compact.string name).length + ((Layout.compact.tree value).length + 1) := by
      rw [fieldText, List.length_append, List.length_cons]
    obtain ⟨fuel, rfl⟩ : ∃ g, fuel = g + 2 := ⟨fuel - 2, by omega⟩
    let colon := cursor.skip (Layout.compact.string name).length
    have hstring : cursor.rest =
        Layout.compact.string name ++ ':' :: (Layout.compact.tree value ++ c :: more) := by
      rw [h, fieldText, List.append_assoc, List.cons_append]
    have hquote : cursor.rest = '"' :: (name.toList ++ ['"'] ++
        ':' :: (Layout.compact.tree value ++ c :: more)) := by
      rw [hstring, (isWord_spec hname).string_eq]
      simp
    have hcolon : colon.rest = ':' :: (Layout.compact.tree value ++ c :: more) :=
      Cursor.rest_skip_of_append hstring
    have hvalue : colon.next.rest = Layout.compact.tree value ++ c :: more :=
      Cursor.rest_next_of_cons hcolon
    have hopen : Opens colon.next.rest := hvalue ▸ hopens.append _
    have hends : Plain.EndsEntry (c :: more) := by
      rintro d hd
      obtain rfl : c = d := Option.some.inj hd
      exact hc.imp_right .inr
    -- the name is a word, which is read as it stands
    have hkey : node (fuel + 1) cursor = .ok (.quoted name, colon) := by
      rw [node_of_scalar hquote (by decide) (by decide)]
      rw [scalar_string hstring, Quoted.reread_eq_ok_iff.2 (isWord_spec hname).unfolded]
      rfl
    have hcloses : closesKey cursor colon = true := (isWord_spec hname).closesKey hstring
    -- the value begins neither with the closing character nor with a comma, so it is there
    have hnode : nodeOrAbsent (fuel + 1) '\x7d' colon.next = value.reread.map fun read =>
        (.ofValue read, colon.next.skip (Layout.compact.tree value).length) := by
      rw [nodeOrAbsent]
      obtain ⟨d, others, hcons, hd, -⟩ := hopen
      have hne : ¬ (d = '\x7d' ∨ d = ',') := by
        rintro (rfl | rfl) <;> exact absurd hd (by decide)
      rw [hcons, List.head?_cons]
      simp only [if_neg hne]
      have hroom : 4 * (Layout.compact.tree value).length < fuel := by omega
      exact hreads colon.next _ fuel hvalue hends hroom
    rw [entry, if_neg (by rw [hquote]; simp), hkey, ok_bind]
    show (toToken colon >>= _) = _
    rw [toToken_of_mark hcolon (by decide), ok_bind, if_pos (by rw [hcolon]; rfl),
      if_pos hcloses, toToken_of_opens hopen, ok_bind]
    have hskip : colon.next.skip (Layout.compact.tree value).length =
        cursor.skip (fieldText (name, value)).length := by
      rw [Cursor.next_eq_skip, Cursor.skip_skip, Cursor.skip_skip, hlength, Nat.add_comm 1]
    rw [hnode, hskip]
    cases value.reread <;> rfl

theorem mapM_fieldEntry (fields : List (String × Value)) :
    (fields.mapM fun field => field.2.reread.map fun read => fieldEntry (.text field.1, read)) =
      (Value.rereadFields (Value.named fields)).map (List.map fieldEntry) := by
  induction fields with
  | nil => rfl
  | cons field fields ih =>
      rw [List.mapM_cons, ih, Value.named_cons, Value.rereadFields]
      cases field.2.reread <;> cases Value.rereadFields (Value.named fields) <;> rfl

theorem map_fieldEntry (fields : List (Key × Value)) :
    (fields.map fieldEntry).map Entry.field = Node.ofFields fields := by
  rw [List.map_map, Node.ofFields_eq]
  rfl

theorem node_record {rest : List Char} (h : cursor.rest = '\x7b' :: rest) (fuel : Nat) :
    node (fuel + 1) cursor = (entries fuel '\x7d' cursor.next).map fun found =>
      (.record (found.1.map Entry.field), found.2) := by
  rw [node]
  simp only [h]
  cases entries fuel '\x7d' cursor.next <;> rfl

theorem reads_record {fields : List (String × Value)}
    (hnames : ∀ field ∈ fields, isWord field.1 = true) (hreads : ∀ field ∈ fields, Reads field.2)
    (hopens : ∀ field ∈ fields, Opens (Layout.compact.tree field.2)) :
    Reads (.ofFields fields) := by
  intro cursor rest fuel h hrest hfuel
  obtain ⟨fuel, rfl⟩ := Nat.exists_eq_add_one.2 (Nat.zero_lt_of_lt hfuel)
  rw [tree_ofFields, List.cons_append] at h
  rw [tree_ofFields, List.length_cons] at hfuel ⊢
  have hroom : 4 * (enclosed '\x7d' (fields.map fieldText)).length ≤ fuel := by omega
  have hentries := entries_enclosed (.inr rfl)
    (fun field hfield =>
      readsEntry_field (hnames field hfield) (hreads field hfield) (hopens field hfield))
    (Cursor.rest_next_of_cons h) hroom
  rw [node_record h, hentries, mapM_fieldEntry, Value.ofFields_eq, Value.reread,
    Cursor.next_eq_skip, Cursor.skip_skip]
  cases Value.rereadFields (Value.named fields) with
  | error fault => rfl
  | ok read => simp only [Except.map, map_fieldEntry, Node.ofValue, Nat.add_comm 1]

/-- Between brackets stored data is read as the node of what its texts are read as. -/
theorem reads {depth : Nat} {value : Value} (h : Storable depth value) (hworded : Worded value) :
    Reads value := by
  induction h with
  | null => exact reads_null
  | bool b => exact reads_bool b
  | int n => exact reads_int n
  | text s => exact reads_text s
  | list hitems ih =>
      exact reads_list (fun item hitem => ih item hitem (worded_list.1 hworded item hitem))
        fun item hitem => opens_tree (hitems item hitem)
  | record _ hfields ih =>
      have hwords := worded_ofFields.1 hworded
      exact reads_record (fun field hfield => (hwords field hfield).1)
        (fun field hfield => ih field hfield (hwords field hfield).2)
        fun field hfield => opens_tree (hfields field hfield)

end Bracketed

end Lineage.Yaml
