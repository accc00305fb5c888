import Lineage.Json.Printer
import Lineage.Json.Reader

/-!
# An integer is read as it was written

The decimal digits of an integer are read as this integer, provided that what
follows does not go on with the number.  The only thing that can go wrong is the
width: an integer with more digits than the limit is not read.
-/

namespace Lineage.Json

/-! ## Runs of digits -/

/-- Nothing at the head of a text goes on with a number before it. -/
def EndsNumber (rest : List Char) : Prop :=
  ∀ c, rest.head? = some c → c.isDigit = false ∧ c ≠ '.' ∧ c ≠ 'e' ∧ c ≠ 'E'

theorem endsNumber_nil : EndsNumber [] := fun _ h => nomatch h

theorem isDigit_of_mem_toDigits {n : Nat} {c : Char} (h : c ∈ Nat.toDigits 10 n) :
    c.isDigit = true :=
  Nat.isDigit_of_mem_toDigits (by decide : 0 < 10) (by decide : 10 ≤ 10) h

theorem exists_cons_toDigits (n : Nat) : ∃ c run, Nat.toDigits 10 n = c :: run :=
  List.exists_cons_of_ne_nil Nat.toDigits_ne_nil

/-- Only the digits of zero begin with zero. -/
theorem eq_zero_of_head_toDigits (n : Nat) {run : List Char}
    (h : Nat.toDigits 10 n = '0' :: run) : n = 0 := by
  induction n using Nat.strongRecOn generalizing run with
  | ind n ih =>
      by_cases hsmall : n < 10
      · rw [Nat.toDigits_of_lt_base hsmall] at h
        have hall : ∀ d < 10, d.digitChar = '0' → d = 0 := by decide
        exact hall n hsmall (List.cons.inj h).1
      · have hlarge : 10 ≤ n := Nat.le_of_not_lt hsmall
        obtain ⟨c, front, hfront⟩ := exists_cons_toDigits (n / 10)
        rw [Nat.toDigits_of_base_le (by decide) hlarge, hfront] at h
        obtain ⟨rfl, -⟩ := List.cons.inj h
        have := ih (n / 10) (by omega) hfront
        omega

section Run

variable {rest : List Char} (hrest : EndsNumber rest)
include hrest

theorem EndsNumber.takeWhile_eq_nil : rest.takeWhile Char.isDigit = [] := by
  cases rest with
  | nil => rfl
  | cons c rest => exact List.takeWhile_cons_of_neg (by simp [(hrest c rfl).1])

theorem EndsNumber.dropWhile_eq : rest.dropWhile Char.isDigit = rest := by
  cases rest with
  | nil => rfl
  | cons c rest => exact List.dropWhile_cons_of_neg (by simp [(hrest c rfl).1])

theorem digits_toDigits (n : Nat) :
    digits (Nat.toDigits 10 n ++ rest) = some (Nat.toDigits 10 n, rest) := by
  have hall : ∀ c ∈ Nat.toDigits 10 n, c.isDigit = true := fun c => isDigit_of_mem_toDigits
  obtain ⟨c, run, hrun⟩ := exists_cons_toDigits n
  rw [digits, List.takeWhile_append_of_pos hall, List.dropWhile_append_of_pos hall,
    hrest.takeWhile_eq_nil, hrest.dropWhile_eq, List.append_nil, hrun]

theorem wholePart_toDigits (n : Nat) :
    wholePart (Nat.toDigits 10 n ++ rest) = some (Nat.toDigits 10 n, rest) := by
  obtain ⟨c, run, hrun⟩ := exists_cons_toDigits n
  by_cases hzero : c = '0'
  · subst hzero
    have := eq_zero_of_head_toDigits n hrun
    subst this
    rw [Nat.toDigits_zero]
    rfl
  · have hdigits := digits_toDigits hrest n
    rw [hrun] at hdigits ⊢
    rw [← hdigits, List.cons_append, wholePart]
    intro _ h
    exact hzero (List.cons.inj h).1

/-! ## Integers -/

theorem EndsNumber.fractionPart_eq : fractionPart rest = some ([], rest) := by
  cases rest with
  | nil => rfl
  | cons c rest =>
      rw [fractionPart]
      intro _ h
      exact (hrest c rfl).2.1 (List.cons.inj h).1

theorem EndsNumber.exponentPart_eq : exponentPart rest = some (none, rest) := by
  cases rest with
  | nil => rfl
  | cons c rest =>
      have hletter : ¬ (c = 'e' ∨ c = 'E') := not_or.2 (hrest c rfl).2.2
      simp only [exponentPart, if_neg hletter]

omit hrest in
theorem minusSign_integer (n : Int) :
    minusSign (integer n ++ rest) = (decide (n < 0), Nat.toDigits 10 n.natAbs ++ rest) := by
  by_cases hnegative : n < 0
  · simp [integer, hnegative, minusSign]
  · obtain ⟨c, run, hrun⟩ := exists_cons_toDigits n.natAbs
    have hdigit : c.isDigit = true := isDigit_of_mem_toDigits (hrun ▸ List.mem_cons_self)
    have hminus : c ≠ '-' := by
      rintro rfl
      exact absurd hdigit (by decide)
    simp [integer, hnegative, hrun, minusSign, hminus]

/-- An integer is read as this integer if it has no more digits than allowed, and else not at
all. -/
theorem number_integer (width : Nat) (n : Int) :
    number width (integer n ++ rest) =
      if (Nat.toDigits 10 n.natAbs).length ≤ width then some (.int n, rest) else none := by
  have hvalue : (if n < 0 then -(n.natAbs : Int) else n.natAbs) = n := by
    split <;> omega
  simp only [number, minusSign_integer, wholePart_toDigits hrest, hrest.fractionPart_eq,
    hrest.exponentPart_eq, List.append_nil, Nat.ofDigitChars_ten_toDigits, decide_eq_true_eq, hvalue]
  by_cases hwidth : (Nat.toDigits 10 n.natAbs).length ≤ width
  · simp [hwidth]
  · rw [if_pos (Nat.lt_of_not_le hwidth), if_neg hwidth]

end Run

end Lineage.Json
