import Mathlib.Data.List.TakeWhile
import Lineage.Proofs.Json.Trees
import Lineage.Proofs.Yaml.Cursor
import Lineage.Yaml.Node
import Lineage.Yaml.Scalar

/-!
# JSON words and integers as plain scalars

What JSON writes without quotes is a plain scalar between brackets: a word of
characters none of which ends it.  The digits of an integer stand for this integer,
as they do in JSON, unless there are too many of them (`value_integer`).
-/

namespace Lineage.Yaml

open Json

/-- What holds of all ten digits. -/
theorem of_isDigit (p : Char → Bool) (h : "0123456789".toList.all p = true) {c : Char}
    (hc : c.isDigit = true) : p c = true := by
  have hall : ∀ n < 58, 48 ≤ n → Char.ofNat n ∈ "0123456789".toList := by decide
  simp only [Char.isDigit, Bool.and_eq_true, decide_eq_true_eq] at hc
  have hmem := hall c.toNat (Nat.lt_succ_of_le hc.2) hc.1
  rw [Char.ofNat_toNat] at hmem
  exact List.all_eq_true.1 h c hmem

/-! ## Words between brackets -/

namespace Plain

/-- What follows a value between brackets: nothing, a comma or a closing bracket. -/
def EndsEntry (rest : List Char) : Prop :=
  ∀ c, rest.head? = some c → c = ',' ∨ c = ']' ∨ c = '\x7d'

/-- A character that does not end a word between brackets. -/
def isInner (c : Char) : Bool := !isBlank c && !isBreak c && c != ':' && !endsInBrackets c

variable {run rest : List Char}

theorem word_append (hrun : ∀ c ∈ run, isInner c = true) (hrest : EndsEntry rest) :
    word true (run ++ rest) = run := by
  induction run with
  | nil =>
      cases rest with
      | nil => rfl
      | cons c rest =>
          have hends : endsInBrackets c = true := by
            rcases hrest c rfl with rfl | rfl | rfl <;> decide
          simp [word, hends]
  | cons c run ih =>
      obtain ⟨hc, hmore⟩ := List.forall_mem_cons.1 hrun
      simp only [isInner, Bool.and_eq_true, Bool.not_eq_true', bne_iff_ne] at hc
      simp [word, hc, ih hmore]

theorem EndsEntry.gap {cursor : Cursor} (hrest : EndsEntry cursor.rest) :
    gap cursor = ([], cursor, false) := by
  cases hcursor : cursor.rest with
  | nil => simp [Plain.gap, hcursor, Cursor.skip, Cursor.break?_of_nil hcursor]
  | cons c rest =>
      rw [hcursor] at hrest
      have hc : (c == ' ') = false ∧ isBreak c = false := by
        rcases hrest c rfl with rfl | rfl | rfl <;> decide
      simp [Plain.gap, hcursor, hc.1, Cursor.skip, Cursor.break?_of_cons hcursor hc.2]

theorem scalar_append {cursor : Cursor} (h : cursor.rest = run ++ rest)
    (hrun : ∀ c ∈ run, isInner c = true) (hrest : EndsEntry rest) (margin : Nat) :
    scalar true margin cursor = (String.ofList run, cursor.skip run.length, false) := by
  have hbehind : (cursor.skip run.length).rest = rest := Cursor.rest_skip_of_append h
  have hgap : gap (cursor.skip run.length) = ([], cursor.skip run.length, false) :=
    EndsEntry.gap (by rwa [hbehind])
  simp [scalar, words, h, word_append hrun hrest, hgap]

end Plain

namespace Bracketed

open Plain

theorem scalar_plain {cursor : Cursor} {c : Char} {run rest : List Char}
    (h : cursor.rest = c :: run ++ rest) (hrun : ∀ d ∈ c :: run, isInner d = true)
    (hrest : EndsEntry rest) (hdouble : c ≠ '"') (hsingle : c ≠ '\'')
    (hbegins : begins true (c :: run ++ rest) = true) :
    scalar cursor = .ok (.plain (String.ofList (c :: run)), cursor.skip (run.length + 1)) := by
  unfold scalar
  split
  · next more hmore => exact absurd (List.cons.inj (h.symm.trans hmore)).1 hdouble
  · next more hmore => exact absurd (List.cons.inj (h.symm.trans hmore)).1 hsingle
  · rw [h, if_pos hbegins, scalar_append h hrun hrest]
    rfl

theorem isInner_of_isDigit {c : Char} (h : c.isDigit = true) : isInner c = true :=
  of_isDigit isInner (by decide) h

/-- Digits begin a word. -/
theorem begins_of_isDigit {c : Char} (h : c.isDigit = true) (rest : List Char) :
    begins true (c :: rest) = true ∧ wordEnds (c :: rest) = false := by
  have hc := of_isDigit (fun c => !isBlank c && !isBreak c && !isIndicator c) (by decide) h
  simp only [Bool.and_eq_true, Bool.not_eq_true'] at hc
  simp [begins, wordEnds, hc]

theorem scalar_integer {cursor : Cursor} {n : Int} {rest : List Char}
    (h : cursor.rest = integer n ++ rest) (hrest : EndsEntry rest) :
    scalar cursor = .ok (.plain (String.ofList (integer n)), cursor.skip (integer n).length) := by
  obtain ⟨c, run, hrun⟩ := exists_cons_toDigits n.natAbs
  have hdigits : ∀ d ∈ c :: run, d.isDigit = true := fun d hd => isDigit_of_mem_toDigits (hrun ▸ hd)
  have hinner : ∀ d ∈ c :: run, isInner d = true := fun d hd => isInner_of_isDigit (hdigits d hd)
  obtain ⟨hbegins, hends⟩ := begins_of_isDigit (hdigits c (by simp)) (run ++ rest)
  unfold integer at h ⊢
  rw [hrun] at h ⊢
  -- a minus sign may begin a plain scalar, since what follows it is no blank
  split at h
  · next hnegative =>
      rw [if_pos hnegative]
      have hall : ∀ d ∈ '-' :: c :: run, isInner d = true :=
        List.forall_mem_cons.2 ⟨by decide, hinner⟩
      refine scalar_plain h hall hrest (by decide) (by decide) ?_
      simp [begins, isBlank, isBreak, hends]
  · next hpositive =>
      rw [if_neg hpositive]
      have hquotes := of_isDigit (fun c => c != '"' && c != '\'') (by decide) (hdigits c (by simp))
      simp only [Bool.and_eq_true, bne_iff_ne] at hquotes
      exact scalar_plain h hinner hrest hquotes.1 hquotes.2 hbegins

end Bracketed

/-! ## Values -/

namespace Scalar

/-- Digits of a number are read in base ten as this number. -/
theorem valueOf_toDigits (n : Nat) : valueOf 10 (Nat.toDigits 10 n) = n := by
  have hdigit : ∀ d < 10, Hex.value? d.digitChar = some d := by decide
  induction n using Nat.strongRecOn with
  | ind n ih =>
      by_cases hsmall : n < 10
      · simp [Nat.toDigits_of_lt_base hsmall, valueOf, hdigit n hsmall]
      · have hlarge : 10 ≤ n := Nat.le_of_not_lt hsmall
        have hfront := ih (n / 10) (by omega)
        rw [valueOf] at hfront
        rw [Nat.toDigits_of_base_le (by decide) hlarge, valueOf, List.filterMap_append,
          List.foldl_append, hfront]
        simp only [List.filterMap_cons, List.filterMap_nil,
          hdigit (n % 10) (Nat.mod_lt _ (by decide)), List.foldl_cons, List.foldl_nil]
        omega

/-- Whether the digits of a number are not too many to be read. -/
def IsShort (n : Nat) : Prop := (Nat.toDigits 10 n).length ≤ digitLimit

instance (n : Nat) : Decidable (IsShort n) :=
  inferInstanceAs (Decidable ((Nat.toDigits 10 n).length ≤ digitLimit))

/-- What the digits of a number are read as. -/
def ofDigits (n : Nat) : Except Fault Nat :=
  if IsShort n then .ok n else .error (.tooManyDigits (Nat.toDigits 10 n).length)

theorem natural?_toDigits (n : Nat) : natural? (Nat.toDigits 10 n) = some (ofDigits n) := by
  obtain ⟨c, run, hrun⟩ := exists_cons_toDigits n
  have hdigits : ∀ d ∈ c :: run, (isDigitOf 10 d && d != ':' && d != '_') = true := fun d hd =>
    of_isDigit (fun d => isDigitOf 10 d && d != ':' && d != '_') (by decide)
      (isDigit_of_mem_toDigits (hrun ▸ hd))
  simp only [Bool.and_eq_true, bne_iff_ne] at hdigits
  -- a leading zero is the mark of another base, and only zero has one
  by_cases hzero : c = '0'
  · subst hzero
    obtain rfl := eq_zero_of_head_toDigits n hrun
    rfl
  -- there is no colon, so no part counts as minutes or seconds
  · have hparts : parts (c :: run) = [c :: run] := by
      rw [parts, List.splitOn_eq_splitOnP, List.splitOnP_eq_singleton]
      intro d hd
      simpa using (hdigits d hd).1.2
    have hnumber : isNumber (c :: run) = true := by
      simp only [isNumber, isRun, List.head?_cons, Option.any_some, Bool.and_eq_true,
        List.all_eq_true, Bool.or_eq_true]
      exact ⟨(hdigits c (by simp)).1.1, fun d hd => .inl (hdigits d hd).1.1⟩
    have hcount : (c :: run).filter (· ≠ '_') = c :: run :=
      List.filter_eq_self.2 fun d hd => by simpa using (hdigits d hd).2
    have hdecimal : decimalDigits (c :: run) = ofDigits n := by
      rw [decimalDigits, hcount, ← hrun, ofDigits, valueOf_toDigits]
      by_cases hshort : IsShort n
      · rw [if_neg (Nat.not_lt_of_le hshort), if_pos hshort]
      · rw [if_pos (Nat.lt_of_not_le hshort), if_neg hshort]
    have hsum : (decimalDigits (c :: run)).map (fun whole =>
        [].foldl (fun total part => total * 60 + valueOf 10 part) whole) = ofDigits n := by
      rw [hdecimal]
      cases ofDigits n <;> rfl
    rw [hrun]
    unfold natural?
    split
    all_goals simp_all

/-- No word that begins otherwise is that of an integer. -/
theorem not_contains {words : List String} {c : Char} (hc : c = '-' ∨ c.isDigit = true)
    (run : List Char)
    (hwords : (words.all fun word =>
      word.toList.head?.all fun c => c != '-' && !c.isDigit) = true) :
    words.contains (String.ofList (c :: run)) = false := by
  rw [← Bool.not_eq_true, List.contains_iff_mem]
  intro hmem
  have hword := List.all_eq_true.1 hwords _ hmem
  rcases hc with rfl | hc <;> simp_all

theorem sign_integer (n : Int) : sign (integer n) = (decide (n < 0), Nat.toDigits 10 n.natAbs) := by
  unfold integer
  split
  · next hnegative => simp [sign, hnegative]
  · next hpositive =>
      obtain ⟨c, run, hrun⟩ := exists_cons_toDigits n.natAbs
      have hc := of_isDigit (fun c => c != '-' && c != '+') (by decide)
        (isDigit_of_mem_toDigits (hrun ▸ List.mem_cons_self))
      simp only [Bool.and_eq_true, bne_iff_ne] at hc
      rw [hrun, sign]
      · simp [hpositive]
      · rintro _ h
        exact hc.1 (List.cons.inj h).1
      · rintro _ h
        exact hc.2 (List.cons.inj h).1

theorem integer?_integer (n : Int) :
    integer? (integer n) = some ((ofDigits n.natAbs).map fun _ => n) := by
  have hvalue : (if n < 0 then -(n.natAbs : Int) else n.natAbs) = n := by
    split <;> omega
  simp only [integer?, sign_integer, natural?_toDigits, Option.map_some, decide_eq_true_eq]
  by_cases hshort : IsShort n.natAbs
  · rw [ofDigits, if_pos hshort]
    exact congrArg (fun m => some (Except.ok m)) hvalue
  · rw [ofDigits, if_neg hshort]
    rfl

theorem number?_integer (n : Int) : number? (integer n) = none := by
  obtain ⟨c, run, hrun, hc⟩ := exists_cons_integer n
  obtain ⟨digit, more, hmore⟩ := exists_cons_toDigits n.natAbs
  have hdigit : digit.isDigit = true := isDigit_of_mem_toDigits (hmore ▸ List.mem_cons_self)
  -- what is a number with a point, or a word for one, has a character that digits have not
  have hpoint : (Nat.toDigits 10 n.natAbs).dropWhile (· ≠ '.') = [] := by
    refine List.dropWhile_eq_nil_iff.2 fun d hd => ?_
    have := of_isDigit (fun d => d != '.') (by decide) (isDigit_of_mem_toDigits hd)
    simpa using this
  have hinfinite : infinityWords.contains (String.ofList (Nat.toDigits 10 n.natAbs)) = false := by
    rw [hmore]
    exact not_contains (.inr hdigit) more (by decide)
  have hundefined : undefinedWords.contains (String.ofList (integer n)) = false := by
    rw [hrun]
    exact not_contains hc run (by decide)
  have hpointed (negative : Bool) : pointed? negative (Nat.toDigits 10 n.natAbs) = none := by
    rw [pointed?, hpoint]
  rw [number?, sign_integer]
  simp only [hinfinite, hundefined, hpointed, Bool.false_eq_true, if_false]
  rw [hrun]
  split
  · next h =>
      obtain ⟨rfl, -⟩ := List.cons.inj h
      rcases hc with hc | hc <;> simp at hc
  · rfl

/-- The digits of an integer stand for this integer if there are not too many, and else for
nothing. -/
theorem value_integer (n : Int) : value (String.ofList (integer n)) =
    (ofDigits n.natAbs).map fun _ => .int n := by
  obtain ⟨c, run, hrun, hc⟩ := exists_cons_integer n
  -- the first character tells the digits from every word that has a meaning
  have hnull : nullWords.contains (String.ofList (integer n)) = false := by
    rw [hrun]
    exact not_contains hc run (by decide)
  have htrue : trueWords.contains (String.ofList (integer n)) = false := by
    rw [hrun]
    exact not_contains hc run (by decide)
  have hfalse : falseWords.contains (String.ofList (integer n)) = false := by
    rw [hrun]
    exact not_contains hc run (by decide)
  have hreserved : ¬ (String.ofList (integer n) = "<<" ∨ String.ofList (integer n) = "=") := by
    have hwords : ["<<", "="].contains (String.ofList (integer n)) = false := by
      rw [hrun]
      exact not_contains hc run (by decide)
    simpa using hwords
  simp only [value, hnull, htrue, hfalse, hreserved, Bool.false_eq_true, if_false,
    String.toList_ofList, number?_integer, integer?_integer]
  cases ofDigits n.natAbs <;> rfl

end Scalar

end Lineage.Yaml
