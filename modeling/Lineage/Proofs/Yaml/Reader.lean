import Lineage.Proofs.Yaml.Content
import Lineage.Yaml.Reader

/-!
# Compact JSON is read as YAML

A record that is written as compact JSON is the only token of its text, so its
text is read as the content of its node.  What can keep the text from being cut
into tokens at all is a character that no text may hold, and such a character
stands in the text just if it stands in a text of the record, since all other
characters of JSON are allowed and control characters are escaped.  What can keep
the content from being a value is an integer with too many digits.  Data without
either is `Legible`, and read as what its texts are read as
(`read_compact_eq_ok_iff`).
-/

namespace Lineage.Yaml

open Json

/-! ## The characters of a tree -/

/-- Whether all characters are among those that a text may hold. -/
def Allowed (text : List Char) : Prop := ∀ c ∈ text, isAllowed c = true

instance (text : List Char) : Decidable (Allowed text) :=
  decidable_of_iff (text.all isAllowed = true) List.all_eq_true

theorem allowed_append {text more : List Char} :
    Allowed (text ++ more) ↔ Allowed text ∧ Allowed more :=
  List.forall_mem_append

theorem allowed_cons {c : Char} {text : List Char} (hc : isAllowed c = true) :
    Allowed (c :: text) ↔ Allowed text := by
  rw [Allowed, List.forall_mem_cons, and_iff_right hc]
  rfl

theorem allowed_integer (n : Int) : Allowed (integer n) := by
  have hdigits : Allowed (Nat.toDigits 10 n.natAbs) := fun c hc =>
    of_isDigit isAllowed (by decide) (isDigit_of_mem_toDigits hc)
  rw [integer]
  split
  · exact (allowed_cons (by decide)).2 hdigits
  · exact hdigits

theorem allowed_closing {close : Char} (hclose : isAllowed close = true)
    (texts : List (List Char)) :
    Allowed (Bracketed.closing close texts) ↔ ∀ text ∈ texts, Allowed text := by
  induction texts with
  | nil => exact iff_of_true (List.forall_mem_singleton.2 hclose) (List.forall_mem_nil _)
  | cons text texts ih =>
      rw [Bracketed.closing, allowed_cons (by decide), allowed_append, ih, List.forall_mem_cons]

theorem allowed_enclosed {close : Char} (hclose : isAllowed close = true)
    (texts : List (List Char)) :
    Allowed (Bracketed.enclosed close texts) ↔ ∀ text ∈ texts, Allowed text := by
  cases texts with
  | nil => exact iff_of_true (List.forall_mem_singleton.2 hclose) (List.forall_mem_nil _)
  | cons text texts =>
      rw [Bracketed.enclosed, allowed_append, allowed_closing hclose, List.forall_mem_cons]

theorem allowed_fieldText {field : String × Value} (hname : isWord field.1 = true) :
    Allowed (Bracketed.fieldText field) ↔ Allowed (Layout.compact.tree field.2) := by
  have hstring : Allowed (Layout.compact.string field.1) :=
    Quoted.isAllowed_string_iff.2 fun c hc => .inr ((isWord_spec hname).letter c hc).allowed
  rw [Bracketed.fieldText, allowed_append, and_iff_right hstring, allowed_cons (by decide)]

/-- Whether all characters of a text are escaped or among those that may stand in a text. -/
def isLegible (text : List Char) : Bool := text.all fun c => decide (c.toNat < 0x20) || isAllowed c

theorem isLegible_iff {s : String} :
    isLegible s.toList = true ↔ Allowed (Layout.compact.string s) := by
  rw [Allowed, Quoted.isAllowed_string_iff, isLegible, List.all_eq_true]
  simp only [Bool.or_eq_true, decide_eq_true_eq]

/-- The characters of a tree are allowed just if its texts are legible. -/
theorem allowed_tree {depth : Nat} {value : Value} (h : Storable depth value)
    (hworded : Worded value) :
    Allowed (Layout.compact.tree value) ↔ ∀ s ∈ value.texts, isLegible s.toList = true := by
  induction h with
  | null => exact iff_of_true (by decide) (List.forall_mem_nil _)
  | bool b => cases b <;> exact iff_of_true (by decide) (List.forall_mem_nil _)
  | int n => exact iff_of_true (allowed_integer n) (List.forall_mem_nil _)
  | text s => rw [Layout.tree, Value.texts, List.forall_mem_singleton, isLegible_iff]
  | list _ ih =>
      have hitems := worded_list.1 hworded
      rw [Bracketed.tree_list, allowed_cons (by decide), allowed_enclosed (by decide),
        List.forall_mem_map, Value.forall_texts_list,
        forall₂_congr fun item hitem => ih item hitem (hitems item hitem)]
  | record _ _ ih =>
      have hfields := worded_ofFields.1 hworded
      rw [Bracketed.tree_ofFields, allowed_cons (by decide), allowed_enclosed (by decide),
        List.forall_mem_map, Value.forall_texts_ofFields]
      refine forall₂_congr fun field hfield => ?_
      rw [allowed_fieldText (hfields field hfield).1, ih field hfield (hfields field hfield).2]

/-! ## Tokens -/

namespace Token

namespace Progress

/-- The progress at the head of a text. -/
def atHead (text : List Char) : Progress := ⟨⟨text, 0, 0, 0⟩, [], [], true⟩

variable {text more : List Char} {found : Node} {after : Cursor}

theorem start_ofList (htext : text = '\x7b' :: more) :
    start (String.ofList text) = atHead text := by
  rw [start, Cursor.ofText, String.toList_ofList, htext, if_neg (by simp)]
  rfl

theorem toToken_atHead (htext : text = '\x7b' :: more) : (atHead text).toToken = atHead text := by
  have hcursor : (atHead text).cursor.toToken = (atHead text).cursor :=
    Cursor.toToken_eq (by simp [atHead, htext, Cursor.gapLength, isBreak])
  simp only [toToken, hcursor]
  rfl

theorem token_atHead {outcome : Except Fault Node} (htext : text = '\x7b' :: more)
    (hfound : Bracketed.collection (atHead text).cursor = outcome.map fun found => (found, after))
    (hafter : after.rest = []) :
    (atHead text).token = outcome.map fun found => (atHead text).add [.node found] after false := by
  have hend : after.toToken.rest = [] := by rw [Cursor.toToken_eq (by rw [hafter]; rfl), hafter]
  have hmarker : (atHead text).cursor.atMarker = false := by simp [atHead, htext, Cursor.atMarker]
  have hnode (found : Node) : (atHead text).node found after false =
      .ok ((atHead text).add [.node found] after false) := by
    simp [node, hend, atHead]
  have hrest : (atHead text).cursor.rest = '\x7b' :: more := htext
  have hother (c : Char) (hc : '\x7b' ≠ c) : ¬ ('\x7b' = c ∧ wordEnds more = true) :=
    fun h => hc h.1
  rw [token]
  simp only [hrest, hmarker, Bool.false_eq_true, and_false, if_false,
    if_neg (hother '-' (by decide)), if_neg (hother '?' (by decide)),
    if_neg (hother ':' (by decide)), or_true, if_true, hfound]
  cases outcome with
  | error fault => rfl
  | ok found => exact hnode found

/-- Where the text ends and no collection is open the tokens are complete. -/
theorem finish_of_end {progress : Progress} (hend : progress.cursor.rest = [])
    (hmargins : progress.margins = []) (fuel : Nat) :
    finish (fuel + 1) progress = progress.tokens.reverse := by
  have hcursor : progress.cursor.toToken = progress.cursor :=
    Cursor.toToken_eq (by rw [hend]; rfl)
  simp [finish, toToken, hcursor, hend, close, hmargins]

end Progress

/-- A text that is one collection between brackets has one token, and it is the tree. -/
theorem ofTokens_of_collection {text more : List Char} {outcome : Except Fault Node}
    {after : Cursor} (htext : text = '\x7b' :: more) (hallowed : Allowed text)
    (hfound : Bracketed.collection ⟨text, 0, 0, 0⟩ = outcome.map fun found => (found, after))
    (hafter : after.rest = []) : Node.ofTokens (ofText (String.ofList text)) = outcome := by
  have hhead := Progress.token_atHead htext hfound hafter
  have hrest : ¬ (Progress.atHead text).cursor.rest.isEmpty = true := by
    simp [Progress.atHead, htext]
  have hclose (closes : Nat → Bool) : (Progress.atHead text).close closes = Progress.atHead text :=
    rfl
  rw [ofText, String.toList_ofList, if_pos (List.all_eq_true.2 hallowed),
    Progress.start_ofList htext, htext, List.length_cons, ← htext, Progress.finish,
    Progress.toToken_atHead htext]
  simp only [if_neg hrest, hclose, hhead]
  cases outcome with
  | error fault => rfl
  | ok found =>
      show Node.ofTokens (Progress.finish _ _) = _
      rw [Progress.finish_of_end hafter rfl more.length]
      rfl

/-- A text with a character that is not allowed is not cut at all. -/
theorem ofText_of_not_allowed {text : String} (h : ¬ Allowed text.toList) :
    ofText text = [.broken .malformed] := by
  rw [ofText, if_neg]
  rwa [List.all_eq_true]

end Token

/-! ## Texts -/

/-- Data of which YAML may read the texts and the integers. -/
structure Legible (value : Value) : Prop where
  texts : ∀ s ∈ value.texts, isLegible s.toList = true
  integers : ∀ n ∈ value.integers, Scalar.IsShort n.natAbs

section

variable {depth : Nat} {fields : List (String × Value)} (h : Storable depth (.ofFields fields))
  (hworded : Worded (.ofFields fields))

include h hworded

/-- With an illegible text nothing is read. -/
theorem read_compact_of_illegible {s : String} (hs : s ∈ (Value.ofFields fields).texts)
    (hillegible : isLegible s.toList = false) :
    read (compact (.ofFields fields)) = .error .malformed := by
  have hnone : ¬ Allowed (compact (.ofFields fields)).toList := by
    rw [compact, Layout.write, String.toList_ofList, allowed_tree h hworded]
    intro hall
    simp [hall s hs] at hillegible
  rw [read, Token.ofText_of_not_allowed hnone]
  rfl

/-- Otherwise the tree of the text is that of what its texts are read as. -/
theorem ofTokens_compact (htexts : ∀ s ∈ (Value.ofFields fields).texts, isLegible s.toList = true) :
    Node.ofTokens (Token.ofText (compact (.ofFields fields))) =
      (Value.ofFields fields).reread.map Node.ofValue := by
  let text := Layout.compact.tree (.ofFields fields)
  let start : Cursor := ⟨text, 0, 0, 0⟩
  obtain ⟨more, hmore⟩ : ∃ more, text = '\x7b' :: more := ⟨_, Bracketed.tree_ofFields fields⟩
  have hnode : Bracketed.collection start = (Value.ofFields fields).reread.map fun found =>
      (.ofValue found, start.skip text.length) :=
    Bracketed.reads h hworded start [] _ (List.append_nil _).symm (by rintro c ⟨⟩)
      (Nat.lt_add_of_pos_right (by decide))
  have hend : (start.skip text.length).rest = [] :=
    Cursor.rest_skip_of_append (List.append_nil _).symm
  refine Token.ofTokens_of_collection hmore ((allowed_tree h hworded).2 htexts) ?_ hend
  rw [hnode]
  cases (Value.ofFields fields).reread <;> rfl

/-- From the compact text of a record its rereading is read, if the record is legible, and nothing
else. -/
theorem read_compact_eq_ok_iff {found : Value} : read (compact (.ofFields fields)) = .ok found ↔
    Legible (.ofFields fields) ∧ (Value.ofFields fields).reread = .ok found := by
  -- an illegible character is refused before anything else is read
  by_cases htexts : ∀ s ∈ (Value.ofFields fields).texts, isLegible s.toList = true
  · have hroot := ofTokens_compact h hworded htexts
    cases hread : (Value.ofFields fields).reread with
    | error fault =>
        rw [hread] at hroot
        simp [read, hroot, Except.map]
    | ok again =>
        rw [hread] at hroot
        have hagain := Value.storable_of_reread h hread
        have hintegers (p : Int → Prop) := Value.forall_integers_of_reread h hread (p := p)
        -- what was read has the integers of the record, and only these can be at fault
        have hfaultless := Node.faultless_content_iff hagain
        rw [hintegers, ← Content.fault?_eq_none_iff] at hfaultless
        cases hfault : (Node.ofValue again).content.fault? with
        | some fault =>
            have hlong := hfaultless.not.1 (by simp [hfault])
            simp only [read, hroot, Except.map, hfault, reduceCtorEq, false_iff, not_and]
            exact fun hlegible => absurd hlegible.integers hlong
        | none =>
            have hshort := hfaultless.1 hfault
            simp only [read, hroot, Except.map, hfault,
              Node.value_content hagain ((hintegers _).2 hshort)]
            exact (and_iff_right ⟨htexts, hshort⟩).symm
  · obtain ⟨s, hs, hillegible⟩ :
        ∃ s ∈ (Value.ofFields fields).texts, isLegible s.toList = false := by
      simpa using htexts
    rw [read_compact_of_illegible h hworded hs hillegible]
    exact iff_of_false nofun fun hlegible => htexts hlegible.1.texts

end

end Lineage.Yaml
