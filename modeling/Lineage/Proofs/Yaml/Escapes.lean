import Lineage.Proofs.Json.Strings
import Lineage.Proofs.Yaml.Cursor
import Lineage.Yaml.Quoted

/-!
# Characters of JSON strings

A JSON string escapes quotes, backslashes and control characters, and YAML reads
every such escape as the character that it stands for.  All other characters are
written as themselves, so a string has characters that no YAML text may hold just
if the text in it has them.
-/

namespace Lineage.Yaml

open Json

namespace Quoted

/-! ## Escapes -/

/-- A character that is written as itself. -/
def IsPlain (c : Char) : Prop := 0x20 ≤ c.toNat ∧ c ≠ '"' ∧ c ≠ '\\'

theorem eq_of_not_isPlain {c : Char} (h : ¬ IsPlain c) (hcontrol : ¬ c.toNat < 0x20) :
    c = '"' ∨ c = '\\' := by
  by_contra hne
  rw [not_or] at hne
  exact h ⟨Nat.le_of_not_lt hcontrol, hne⟩

theorem escape_of_isPlain {c : Char} (h : IsPlain c) : Layout.compact.escape c = [c] := by
  obtain ⟨hcontrol, hquote, hbackslash⟩ := h
  have hother (d : Char) (hd : d.toNat < 0x20) : c ≠ d := by
    rintro rfl
    omega
  unfold Layout.escape
  rw [if_neg hquote, if_neg hbackslash, if_neg (hother _ (by decide)),
    if_neg (hother _ (by decide)), if_neg (hother _ (by decide)), if_neg (hother _ (by decide)),
    if_neg (hother _ (by decide)), if_neg (by simp [Layout.compact]; omega)]

theorem escape_letter {cursor : Cursor} {letter c : Char} {rest : List Char}
    (hrest : cursor.rest = letter :: rest) (hletter : escaped? letter = some c) :
    escape cursor = .ok ([c], cursor.next) := by
  unfold escape
  split
  · next h => simp [h] at hrest
  · next other more h =>
      obtain ⟨rfl, -⟩ := List.cons.inj (h.symm.trans hrest)
      rw [hletter]

theorem escape_unit {cursor : Cursor} {unit : Nat} {rest : List Char}
    (hrest : cursor.rest = 'u' :: (Hex.digits 4 unit ++ rest)) (hunit : unit < 0xD800) :
    escape cursor = .ok ([Char.ofNat unit], cursor.skip 5) := by
  have hread : Hex.read? 4 (Hex.digits 4 unit ++ rest) 0 = some (unit, rest) := by
    rw [Hex.read?_digits 4 0, Hex.read?]
    congr 2
    omega
  have hvalid : unit.isValidChar := .inl hunit
  unfold escape
  split
  · next h => simp [h] at hrest
  · next other more h =>
      obtain ⟨rfl, rfl⟩ := List.cons.inj (h.symm.trans hrest)
      have hletter : escaped? 'u' = none := rfl
      have hwidth : codeWidth? 'u' = some 4 := rfl
      simp only [hletter, hwidth, hread]
      rw [if_neg (by omega), if_neg (by omega), if_pos hvalid]

/-- Every other character is escaped, and YAML reads the escape as this character. -/
theorem escape_of_not_isPlain {c : Char} (h : ¬ IsPlain c) : ∃ more,
    Layout.compact.escape c = '\\' :: more ∧
    ∀ cursor rest, cursor.rest = more ++ rest →
      escape cursor = .ok ([c], cursor.skip more.length) := by
  have hletter (letter : Char) (hletter : escaped? letter = some c) : ∀ (cursor : Cursor) rest,
      cursor.rest = [letter] ++ rest → escape cursor = .ok ([c], cursor.skip 1) :=
    fun cursor rest hrest => escape_letter hrest hletter
  -- seven characters have letters, which mean the same in both; the others are written as code
  -- units
  unfold Layout.escape
  split
  · next hc => subst hc; exact ⟨_, rfl, hletter _ rfl⟩
  split
  · next hc => subst hc; exact ⟨_, rfl, hletter _ rfl⟩
  split
  · next hc => subst hc; exact ⟨_, rfl, hletter _ rfl⟩
  split
  · next hc => subst hc; exact ⟨_, rfl, hletter _ rfl⟩
  split
  · next hc => subst hc; exact ⟨_, rfl, hletter _ rfl⟩
  split
  · next hc => subst hc; exact ⟨_, rfl, hletter _ rfl⟩
  split
  · next hc => subst hc; exact ⟨_, rfl, hletter _ rfl⟩
  · next hquote hbackslash _ _ _ _ _ =>
      have hcontrol : c.toNat < 0x20 :=
        Nat.lt_of_not_le fun hle => h ⟨hle, hquote, hbackslash⟩
      rw [if_pos (.inl hcontrol), pointEscape, if_pos (by omega)]
      refine ⟨_, rfl, fun cursor rest hrest => ?_⟩
      rw [escape_unit hrest (by omega), Char.ofNat_toNat]
      rfl

/-! ## The text of a string -/

/-- A text as it stands in a JSON string, with the closing quote and what follows it. -/
def written (text rest : List Char) : List Char :=
  text.flatMap Layout.compact.escape ++ '"' :: rest

variable {text rest : List Char} {c : Char}

theorem written_append (text more rest : List Char) :
    written (text ++ more) rest = text.flatMap Layout.compact.escape ++ written more rest := by
  rw [written, List.flatMap_append, List.append_assoc, written]

theorem written_cons (c : Char) (text rest : List Char) :
    written (c :: text) rest = Layout.compact.escape c ++ written text rest := by
  rw [written, List.flatMap_cons, List.append_assoc, written]

theorem written_cons_of_isPlain (h : IsPlain c) (text rest : List Char) :
    written (c :: text) rest = c :: written text rest := by
  rw [written_cons, escape_of_isPlain h, List.singleton_append]

/-- A run of characters that are written as themselves. -/
theorem flatMap_escape_of_isPlain {run : List Char} (h : ∀ c ∈ run, IsPlain c) :
    run.flatMap Layout.compact.escape = run := by
  rw [List.flatMap_congr fun c hc => escape_of_isPlain (h c hc)]
  exact List.flatMap_singleton' run

theorem written_append_of_isPlain {run : List Char} (h : ∀ c ∈ run, IsPlain c)
    (text rest : List Char) : written (run ++ text) rest = run ++ written text rest := by
  rw [written_append, flatMap_escape_of_isPlain h]

/-- A text that stands in a string begins with a quote, a backslash or its own first character. -/
theorem written_cases {more : List Char} (h : written text rest = c :: more) :
    c = '"' ∨ c = '\\' ∨ ∃ tail, text = c :: tail ∧ IsPlain c ∧ more = written tail rest := by
  cases text with
  | nil => exact .inl (List.cons.inj h).1.symm
  | cons d tail =>
      by_cases hplain : IsPlain d
      · rw [written_cons_of_isPlain hplain] at h
        obtain ⟨rfl, rfl⟩ := List.cons.inj h
        exact .inr (.inr ⟨tail, rfl, hplain, rfl⟩)
      · obtain ⟨letters, hescape, -⟩ := escape_of_not_isPlain hplain
        rw [written_cons, hescape] at h
        exact .inr (.inl (List.cons.inj h).1.symm)

theorem length_le_written (text rest : List Char) : text.length ≤ (written text rest).length := by
  induction text with
  | nil => exact Nat.zero_le _
  | cons c tail ih =>
      have hpositive : 0 < (Layout.compact.escape c).length := by
        by_cases hplain : IsPlain c
        · rw [escape_of_isPlain hplain]
          exact Nat.one_pos
        · obtain ⟨more, hmore, -⟩ := escape_of_not_isPlain hplain
          rw [hmore]
          exact Nat.succ_pos _
      rw [written_cons, List.length_append, List.length_cons]
      omega

/-! ## Characters of a string -/

theorem isAllowed_escape_iff :
    (∀ d ∈ Layout.compact.escape c, isAllowed d = true) ↔ c.toNat < 0x20 ∨ isAllowed c = true := by
  by_cases hplain : IsPlain c
  · rw [escape_of_isPlain hplain, or_iff_right (Nat.not_lt_of_le hplain.1)]
    exact List.forall_mem_singleton
  · -- an escape is written in letters, whichever character it stands for
    refine iff_of_true ?_ ?_
    · by_cases hcontrol : c.toNat < 0x20
      · have hall : ∀ n < 0x20, (Layout.compact.escape (Char.ofNat n)).all isAllowed = true := by
          decide
        simpa using hall c.toNat hcontrol
      · rcases eq_of_not_isPlain hplain hcontrol with rfl | rfl <;>
          exact List.all_eq_true.1 (by decide)
    · by_cases hcontrol : c.toNat < 0x20
      · exact .inl hcontrol
      · rcases eq_of_not_isPlain hplain hcontrol with rfl | rfl <;> exact .inr (by decide)

theorem isAllowed_string_iff {s : String} :
    (∀ c ∈ Layout.compact.string s, isAllowed c = true) ↔
      ∀ c ∈ s.toList, c.toNat < 0x20 ∨ isAllowed c = true := by
  have hquote : isAllowed '"' = true := by decide
  rw [Layout.string, List.forall_mem_cons, List.forall_mem_append, List.forall_mem_singleton,
    and_iff_right hquote, and_iff_left hquote]
  simp only [List.mem_flatMap, forall_exists_index, and_imp, ← isAllowed_escape_iff]
  exact ⟨fun h c hc d => h d c hc, fun h d c hc => h c hc d⟩

end Quoted

end Lineage.Yaml
