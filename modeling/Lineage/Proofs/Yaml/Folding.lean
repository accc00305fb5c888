import Lineage.Yaml.Cursor

/-!
# Folds

Inside quotes YAML folds the breaks of a text: spaces next to a break are dropped,
and U+0085 counts as a line feed.  JSON writes U+0085, U+2028 and U+2029 as
themselves, so a text has folds if one of them stands next to spaces or is U+0085;
and behind one of them three dashes or points are a document mark, which is
refused.

Folding makes a text lighter.  With U+0085 counted twice, what is read of a text
weighs less than the text unless it is the same.
-/

namespace Lineage.Yaml

/-! ## Texts without folds -/

/-- The breaks that JSON writes as themselves. -/
def isRawBreak (c : Char) : Bool := c == '\x85' || c == '\u2028' || c == '\u2029'

theorem isBreak_of_isRawBreak {c : Char} (h : isRawBreak c = true) : isBreak c = true := by
  simp only [isRawBreak, Bool.or_eq_true, beq_iff_eq] at h
  rcases h with (rfl | rfl) | rfl <;> rfl

/-- Whether a document mark stands at the head of a text, with more of the text behind it. -/
def beginsMark : List Char → Bool
  | '-' :: '-' :: '-' :: c :: _ => c == ' ' || isRawBreak c
  | '.' :: '.' :: '.' :: c :: _ => c == ' ' || isRawBreak c
  | _ => false

/-- Whether there is nothing to fold in a text: no U+0085, no spaces next to a break, and no
document mark behind one. -/
def unfolded : List Char → Bool
  | [] => true
  | c :: rest =>
    c != '\x85' && !(c == ' ' && rest.head?.any isRawBreak) &&
      !(isRawBreak c && (rest.head? == some ' ' || beginsMark rest)) && unfolded rest

/-- The same where a line begins. -/
structure UnfoldedLine (text : List Char) : Prop where
  space : text.head? ≠ some ' '
  mark : beginsMark text = false
  text : unfolded text = true

variable {c : Char} {text rest more : List Char}

theorem unfolded_cons_of_ordinary (hspace : c ≠ ' ') (hbreak : isRawBreak c = false) :
    unfolded (c :: rest) = unfolded rest := by
  have hnext : c ≠ '\x85' := by
    rintro rfl
    cases hbreak
  simp [unfolded, hspace, hbreak, hnext]

theorem unfolded_cons_of_isRawBreak (hbreak : isRawBreak c = true) :
    unfolded (c :: rest) = true ↔ c ≠ '\x85' ∧ UnfoldedLine rest := by
  have hspace : c ≠ ' ' := by
    rintro rfl
    cases hbreak
  have hline : UnfoldedLine rest ↔
      (rest.head? ≠ some ' ' ∧ beginsMark rest = false) ∧ unfolded rest = true :=
    ⟨fun h => ⟨⟨h.space, h.mark⟩, h.text⟩, fun h => ⟨h.1.1, h.1.2, h.2⟩⟩
  simp [unfolded, hspace, hbreak, hline, and_assoc]

theorem unfolded_replicate (count : Nat) (more : List Char) :
    unfolded (List.replicate count ' ' ++ more) = true ↔
      (0 < count → more.head?.any isRawBreak = false) ∧ unfolded more = true := by
  have hspace : isRawBreak ' ' = false := rfl
  induction count with
  | zero => simp
  | succ count ih =>
      rw [List.replicate_succ, List.cons_append, unfolded]
      simp only [Bool.and_eq_true, ih]
      cases count <;> simp [List.replicate_succ, hspace]

/-- The spaces at the head of a text. -/
theorem exists_spaces (text : List Char) : ∃ count more,
    text = List.replicate count ' ' ++ more ∧ more.head? ≠ some ' ' := by
  induction text with
  | nil => exact ⟨0, [], rfl, by simp⟩
  | cons c text ih =>
      by_cases hc : c = ' '
      · obtain ⟨count, more, rfl, hmore⟩ := ih
        exact ⟨count + 1, more, by rw [hc]; rfl, hmore⟩
      · exact ⟨0, c :: text, rfl, by simpa using hc⟩

/-! ## Weight -/

/-- The number of characters, where U+0085 counts twice. -/
def weight (text : List Char) : Nat := text.length + text.count '\x85'

theorem weight_append (text more : List Char) :
    weight (text ++ more) = weight text + weight more := by
  simp only [weight, List.length_append, List.count_append]
  omega

theorem weight_cons (c : Char) (text : List Char) : weight (c :: text) = weight [c] + weight text :=
  weight_append [c] text

theorem weight_singleton (c : Char) : weight [c] = if c = '\x85' then 2 else 1 := by
  by_cases hc : c = '\x85' <;> simp [weight, hc]

theorem weight_replicate (count : Nat) : weight (List.replicate count ' ') = count := by
  simp [weight, List.count_replicate]

/-- What was written is read as it is, or as something lighter. -/
def Lightens (read written : List Char) : Prop := read = written ∨ weight read < weight written

theorem Lightens.weight_le {read written : List Char} (h : Lightens read written) :
    weight read ≤ weight written := by
  rcases h with rfl | h
  · exact Nat.le_refl _
  · exact Nat.le_of_lt h

theorem Lightens.append {read written readMore writtenMore : List Char} (h : Lightens read written)
    (hmore : Lightens readMore writtenMore) :
    Lightens (read ++ readMore) (written ++ writtenMore) := by
  have hle := h.weight_le
  have hmoreLe := hmore.weight_le
  rw [Lightens, weight_append, weight_append]
  rcases h with rfl | h
  · exact hmore.imp (congrArg _) fun h => by omega
  · exact .inr (by omega)

/-- Parts that lighten make up what was written just if each of them is what was written. -/
theorem Lightens.append_eq_iff {read written readMore writtenMore : List Char}
    (h : Lightens read written) (hmore : Lightens readMore writtenMore) :
    read ++ readMore = written ++ writtenMore ↔ read = written ∧ readMore = writtenMore := by
  refine ⟨fun heq => ?_, fun ⟨hread, hreadMore⟩ => by rw [hread, hreadMore]⟩
  have hweight := congrArg weight heq
  rw [weight_append, weight_append] at hweight
  have hle := h.weight_le
  have hmoreLe := hmore.weight_le
  exact ⟨h.resolve_right (by omega), hmore.resolve_right (by omega)⟩

end Lineage.Yaml
