import Mathlib.Data.List.Basic
import Lineage.Yaml.Cursor

/-!
# Moving a cursor

Whatever is read from a cursor, the cursor behind it is the first one moved over
the characters that were read.  So a cursor is followed through a text by what is
left of it, and by how many characters were passed; as long as these hold no
break, the line stays the same.
-/

namespace Lineage.Yaml.Cursor

/-! ## Characters passed -/

theorem next_eq_skip (cursor : Cursor) : cursor.next = cursor.skip 1 := rfl

theorem skip_skip (cursor : Cursor) (first second : Nat) :
    (cursor.skip first).skip second = cursor.skip (first + second) := by
  induction first generalizing cursor with
  | zero => rw [Nat.zero_add]; rfl
  | succ first ih => rw [Nat.succ_add]; exact ih cursor.next

theorem rest_next (cursor : Cursor) : cursor.next.rest = cursor.rest.tail := by
  obtain ⟨rest, index, line, column⟩ := cursor
  cases rest with
  | nil => rfl
  | cons c rest =>
      show (ite _ _ _ : Cursor).rest = rest
      split <;> rfl

theorem rest_skip (cursor : Cursor) (count : Nat) :
    (cursor.skip count).rest = cursor.rest.drop count := by
  induction count generalizing cursor with
  | zero => rfl
  | succ count ih => rw [skip, ih, rest_next, List.drop_tail]

/-- What is left behind characters at the head of what was left. -/
theorem rest_skip_of_append {cursor : Cursor} {read rest : List Char}
    (h : cursor.rest = read ++ rest) : (cursor.skip read.length).rest = rest := by
  rw [rest_skip, h, List.drop_left]

theorem rest_next_of_cons {cursor : Cursor} {c : Char} {rest : List Char}
    (h : cursor.rest = c :: rest) : cursor.next.rest = rest := by
  rw [rest_next, h, List.tail_cons]

/-! ## The line -/

theorem line_next_of_cons {cursor : Cursor} {c : Char} {rest : List Char}
    (h : cursor.rest = c :: rest) (hc : isBreak c = false) :
    cursor.next.line = cursor.line ∧ cursor.next.index = cursor.index + 1 := by
  obtain ⟨_, index, line, column⟩ := cursor
  obtain rfl : _ = c :: rest := h
  simp [next, hc]

/-- Characters on one line are passed without leaving the line. -/
theorem line_skip_of_append {cursor : Cursor} {read rest : List Char}
    (h : cursor.rest = read ++ rest) (hread : ∀ c ∈ read, isBreak c = false) :
    (cursor.skip read.length).line = cursor.line ∧
      (cursor.skip read.length).index = cursor.index + read.length := by
  induction read generalizing cursor with
  | nil => exact ⟨rfl, rfl⟩
  | cons c read ih =>
      obtain ⟨hline, hindex⟩ := line_next_of_cons h (hread c (by simp))
      obtain ⟨hlater, hcount⟩ := ih (rest_next_of_cons h) fun c hc => hread c (by simp [hc])
      rw [List.length_cons, skip, hlater, hcount, hline, hindex]
      exact ⟨rfl, by omega⟩

/-! ## What stands at a cursor -/

theorem break?_of_cons {cursor : Cursor} {c : Char} {rest : List Char} (h : cursor.rest = c :: rest)
    (hc : isBreak c = false) : cursor.break? = none := by
  unfold break?
  split
  · next more hmore =>
      rw [h] at hmore
      obtain ⟨rfl, -⟩ := List.cons.inj hmore
      cases hc
  · next d more _ hmore =>
      rw [h] at hmore
      obtain ⟨rfl, -⟩ := List.cons.inj hmore
      have hseparator : ¬ (c = '\u2028' ∨ c = '\u2029') := by
        rintro (rfl | rfl) <;> cases hc
      rw [if_neg hseparator, if_neg (by simp [hc])]
  · rfl

theorem break?_of_nil {cursor : Cursor} (h : cursor.rest = []) : cursor.break? = none := by
  rw [break?, h]

theorem toToken_eq {cursor : Cursor} (h : gapLength false cursor.rest = 0) :
    cursor.toToken = cursor := by
  rw [toToken, h]
  rfl

end Lineage.Yaml.Cursor
