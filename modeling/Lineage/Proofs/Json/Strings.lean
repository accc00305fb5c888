import Mathlib.Algebra.Order.Ring.Nat
import Mathlib.Tactic.Ring
import Lineage.Json.Printer
import Lineage.Json.Reader

/-!
# A string is read as it was written

In every layout the escape of a character is read as this character, and a
string as its text.  A character above U+FFFF that a layout escapes is written
as two surrogates, which are put together again; no other character is written
as a surrogate, since none is one.
-/

namespace Lineage

/-! ## Hexadecimal digits -/

namespace Hex

theorem value?_digit (d : Nat) (hd : d < 16) : value? (digit d) = some d := by
  have hall : ∀ d < 16, value? (digit d) = some d := by decide
  exact hall d hd

/-- Digits are read as the number that they write, behind what was read before. -/
theorem read?_digits (width more n total : Nat) (rest : List Char) :
    read? (width + more) (digits width n ++ rest) total =
      read? more rest (total * 16 ^ width + n % 16 ^ width) := by
  induction width generalizing more n rest with
  | zero => simp [digits, Nat.mod_one]
  | succ width ih =>
      have hmore : width + 1 + more = width + (more + 1) := by omega
      have hlast : n % 16 ^ (width + 1) = n % 16 + 16 * (n / 16 % 16 ^ width) := by
        rw [pow_succ', Nat.mod_mul]
      rw [digits, List.append_assoc, hmore, ih]
      simp only [List.cons_append, List.nil_append, read?,
        value?_digit _ (Nat.mod_lt n (by decide : 0 < 16))]
      rw [hlast]
      congr 1
      ring

end Hex

namespace Json

/-! ## Code units -/

/-- Four characters that stand for a code unit. -/
theorem exists_digits_of_unit {unit : Nat} (hunit : unit < 0x10000) :
    ∃ a b c d, Hex.digits 4 unit = [a, b, c, d] ∧ unit? a b c d = some unit := by
  obtain ⟨a, b, c, d, hdigits⟩ : ∃ a b c d, Hex.digits 4 unit = [a, b, c, d] := by
    simp [Hex.digits]
  have hread : Hex.read? 4 [a, b, c, d] 0 = some (unit, []) := by
    rw [← hdigits, ← List.append_nil (Hex.digits 4 unit), Hex.read?_digits 4 0, Hex.read?]
    congr 2
    omega
  exact ⟨a, b, c, d, hdigits, by rw [unit?, hread, Option.map_some]⟩

theorem stringBody_unitEscape {unit : Nat} (hunit : unit < 0x10000)
    (hplain : unit < 0xD800 ∨ 0xE000 ≤ unit) (rest : List Char) :
    stringBody (unitEscape unit ++ rest) =
      (stringBody rest).map fun (body, rest) => (Char.ofNat unit :: body, rest) := by
  obtain ⟨a, b, c, d, hdigits, hread⟩ := exists_digits_of_unit hunit
  have hlow : ¬ (0xDC00 ≤ unit ∧ unit < 0xE000) := by omega
  have hhigh : ¬ (0xD800 ≤ unit ∧ unit < 0xDC00) := by omega
  simp only [unitEscape, hdigits, List.cons_append, List.nil_append, stringBody, hread,
    if_neg hlow, if_neg hhigh]

theorem stringBody_surrogates {high low : Nat} (hhigh : 0xD800 ≤ high ∧ high < 0xDC00)
    (hlow : 0xDC00 ≤ low ∧ low < 0xE000) (rest : List Char) :
    stringBody (unitEscape high ++ unitEscape low ++ rest) =
      (stringBody rest).map fun (body, rest) =>
        (Char.ofNat (0x10000 + (high - 0xD800) * 0x400 + (low - 0xDC00)) :: body, rest) := by
  obtain ⟨a, b, c, d, hdigits, hread⟩ := exists_digits_of_unit (show high < 0x10000 by omega)
  obtain ⟨e, f, g, h, hdigits', hread'⟩ := exists_digits_of_unit (show low < 0x10000 by omega)
  have hnot : ¬ (0xDC00 ≤ high ∧ high < 0xE000) := by omega
  simp only [unitEscape, hdigits, hdigits', List.cons_append, List.nil_append, stringBody, hread,
    hread', if_neg hnot, if_pos hhigh, if_pos hlow]

/-! ## Characters -/

theorem codePoint_of_char (c : Char) :
    c.toNat < 0xD800 ∨ 0xE000 ≤ c.toNat ∧ c.toNat < 0x110000 := by
  have hvalid := c.valid
  simp only [UInt32.isValidChar, Nat.isValidChar] at hvalid
  simp only [Char.toNat]
  omega

theorem stringBody_pointEscape (c : Char) (rest : List Char) :
    stringBody (pointEscape c.toNat ++ rest) =
      (stringBody rest).map fun (body, rest) => (c :: body, rest) := by
  have hvalid := codePoint_of_char c
  unfold pointEscape
  split
  · next hsmall =>
      rw [stringBody_unitEscape hsmall (by omega), Char.ofNat_toNat]
  · next hlarge =>
      have hpoint : 0x10000 + (0xD800 + (c.toNat - 0x10000) / 0x400 - 0xD800) * 0x400 +
          (0xDC00 + (c.toNat - 0x10000) % 0x400 - 0xDC00) = c.toNat := by omega
      rw [stringBody_surrogates (by omega) (by omega), hpoint, Char.ofNat_toNat]

theorem stringBody_letter {letter c : Char} (hescaped : escaped? letter = some c)
    (rest : List Char) : stringBody ('\\' :: letter :: rest) =
      (stringBody rest).map fun (body, rest) => (c :: body, rest) := by
  -- the letter of a code unit is not among the letters that stand for a character
  have hunit : letter ≠ 'u' := by
    rintro rfl
    simp [escaped?] at hescaped
  rw [stringBody]
  · simp only [hescaped]
  · simp_all

theorem stringBody_escape (layout : Layout) (c : Char) (rest : List Char) :
    stringBody (layout.escape c ++ rest) =
      (stringBody rest).map fun (body, rest) => (c :: body, rest) := by
  -- seven characters have letters of their own; the others are points or stand for themselves
  unfold Layout.escape
  split
  · next hquote => subst hquote; exact stringBody_letter rfl rest
  split
  · next hbackslash => subst hbackslash; exact stringBody_letter rfl rest
  split
  · next hnewline => subst hnewline; exact stringBody_letter rfl rest
  split
  · next hreturn => subst hreturn; exact stringBody_letter rfl rest
  split
  · next htab => subst htab; exact stringBody_letter rfl rest
  split
  · next hbackspace => subst hbackspace; exact stringBody_letter rfl rest
  split
  · next hfeed => subst hfeed; exact stringBody_letter rfl rest
  split
  · exact stringBody_pointEscape c rest
  · next hquote hbackslash _ _ _ _ _ hplain =>
      have hcontrol : ¬ (c = '\\' ∨ c.toNat < 0x20) := by simp_all
      rw [List.singleton_append, stringBody, if_neg hcontrol] <;> simp_all

/-! ## Strings -/

/-- The text of a string is read up to the closing quote. -/
theorem stringBody_flatMap_escape (layout : Layout) (text rest : List Char) :
    stringBody (text.flatMap layout.escape ++ '"' :: rest) = some (text, rest) := by
  induction text with
  | nil => simp [stringBody]
  | cons c text ih =>
      rw [List.flatMap_cons, List.append_assoc, stringBody_escape, ih]
      rfl

end Json

end Lineage
