import Mathlib.Data.List.TakeWhile
import Lineage.Proofs.Yaml.Escapes
import Lineage.Proofs.Yaml.Folding

/-!
# JSON strings as quoted scalars

What a JSON string is read as depends on its text alone (`scalar_string`).  The text
is read piece by piece: a character, a run of spaces, or breaks with the spaces
around them, which are folded.  Every piece is read as it is or as something
lighter, so a text is read as itself just if there is nothing to fold in it
(`reread_eq_ok_iff`).
-/

namespace Lineage.Yaml

open Json

variable {c : Char} {text rest more : List Char}

namespace Quoted

variable {cursor : Cursor}

/-! ## The head of a written text -/

theorem isPlain_space : IsPlain ' ' := ⟨by decide, by decide, by decide⟩

theorem isPlain_of_isRawBreak (h : isRawBreak c = true) : IsPlain c := by
  simp only [isRawBreak, Bool.or_eq_true, beq_iff_eq] at h
  rcases h with (rfl | rfl) | rfl <;> exact ⟨by decide, by decide, by decide⟩

theorem isPlain_of_mem_replicate {count : Nat} : ∀ c ∈ List.replicate count ' ', IsPlain c :=
  fun _ hc => List.eq_of_mem_replicate hc ▸ isPlain_space

/-- A written text begins with a blank just if the text begins with a space, and with a break just
if the text begins with one that is written as itself. -/
theorem head_written (text rest : List Char) : ∃ c more, written text rest = c :: more ∧
    isBlank c = (text.head? == some ' ') ∧ isBreak c = text.head?.any isRawBreak := by
  cases text with
  | nil => exact ⟨'"', rest, rfl, rfl, rfl⟩
  | cons d tail =>
      -- an escape begins with a backslash, which is neither; all else stands for itself
      by_cases hplain : IsPlain d
      · refine ⟨d, _, written_cons_of_isPlain hplain tail rest, ?_, ?_⟩
        all_goals
          have hother (e : Char) (he : e.toNat < 0x20) : (d == e) = false := by
            rw [beq_eq_false_iff_ne]
            rintro rfl
            exact absurd he (Nat.not_lt_of_le hplain.1)
        · simp [isBlank, hother '\t' (by decide)]
        · simp [isBreak, isRawBreak, hother '\n' (by decide), hother '\r' (by decide)]
      · obtain ⟨letters, hescape, -⟩ := escape_of_not_isPlain hplain
        refine ⟨'\\', letters ++ written tail rest, by rw [written_cons, hescape]; rfl, ?_, ?_⟩
        · have hspace : d ≠ ' ' := fun h => hplain (h ▸ isPlain_space)
          simpa [isBlank] using hspace
        · have hbreak : isRawBreak d = false := by
            rw [← Bool.not_eq_true]
            exact fun h => hplain (isPlain_of_isRawBreak h)
          simpa [isBreak] using hbreak

theorem wordEnds_written (text rest : List Char) :
    wordEnds (written text rest) = text.head?.any (fun c => c == ' ' || isRawBreak c) := by
  obtain ⟨c, more, hwritten, hblank, hbreak⟩ := head_written text rest
  rw [hwritten, wordEnds, hblank, hbreak]
  cases text <;> simp

theorem written_eq_cons (hquote : c ≠ '"') (hbackslash : c ≠ '\\')
    (h : written text rest = c :: more) : ∃ tail, text = c :: tail ∧ more = written tail rest := by
  rcases written_cases h with hc | hc | ⟨tail, htext, -, hmore⟩
  · exact absurd hc hquote
  · exact absurd hc hbackslash
  · exact ⟨tail, htext, hmore⟩

/-- Three dashes or points in a written text are three of the text. -/
theorem exists_mark_of_written (hquote : c ≠ '"') (hbackslash : c ≠ '\\')
    (h : written text rest = c :: c :: c :: more) :
    ∃ tail, text = c :: c :: c :: tail ∧ more = written tail rest := by
  obtain ⟨_, rfl, hsecond⟩ := written_eq_cons hquote hbackslash h
  obtain ⟨_, rfl, hthird⟩ := written_eq_cons hquote hbackslash hsecond.symm
  obtain ⟨tail, rfl, hmore⟩ := written_eq_cons hquote hbackslash hthird.symm
  exact ⟨tail, rfl, hmore⟩

theorem atMarker_written (h : cursor.rest = written text rest) :
    cursor.atMarker = beginsMark text := by
  have hdash : IsPlain '-' := ⟨by decide, by decide, by decide⟩
  have hpoint : IsPlain '.' := ⟨by decide, by decide, by decide⟩
  unfold beginsMark
  split
  · simp [Cursor.atMarker, h, written_cons_of_isPlain hdash, wordEnds_written]
  · simp [Cursor.atMarker, h, written_cons_of_isPlain hpoint, wordEnds_written]
  · next hdashes hpoints =>
      unfold Cursor.atMarker
      -- three marks of the written text are marks of the text, since no escape begins with one
      split
      · next more hmore =>
          obtain ⟨tail, rfl, rfl⟩ :=
            exists_mark_of_written (by decide) (by decide) (h.symm.trans hmore)
          cases tail with
          | nil => rfl
          | cons d tail => exact absurd rfl (hdashes d tail)
      · next more hmore =>
          obtain ⟨tail, rfl, rfl⟩ :=
            exists_mark_of_written (by decide) (by decide) (h.symm.trans hmore)
          cases tail with
          | nil => rfl
          | cons d tail => exact absurd rfl (hpoints d tail)
      · rfl

/-! ## Spaces and breaks -/

/-- What a break of a written text counts as. -/
def counted (c : Char) : Char := if c = '\x85' then '\n' else c

theorem counted_eq_iff : counted c = c ↔ c ≠ '\x85' := by
  unfold counted
  split
  · next hc => subst hc; decide
  · next hc => exact iff_of_true rfl hc

theorem counted_ne (hbreak : isRawBreak c = true) : counted c ≠ ' ' ∧ counted c ≠ '\x85' := by
  simp only [isRawBreak, Bool.or_eq_true, beq_iff_eq] at hbreak
  rcases hbreak with (rfl | rfl) | rfl <;> decide

theorem break?_of_isRawBreak (h : cursor.rest = c :: more) (hbreak : isRawBreak c = true) :
    cursor.break? = some (counted c, cursor.next) := by
  simp only [isRawBreak, Bool.or_eq_true, beq_iff_eq] at hbreak
  rcases hbreak with (rfl | rfl) | rfl <;> simp [Cursor.break?, h, counted, isBreak]

theorem break?_written (h : cursor.rest = written text rest)
    (hbreak : text.head?.any isRawBreak = false) : cursor.break? = none := by
  obtain ⟨c, more, hwritten, -, hc⟩ := head_written text rest
  exact Cursor.break?_of_cons (h.trans hwritten) (hc.trans hbreak)

/-- Blanks of a written text are the spaces at its head. -/
theorem blanks_written {count : Nat} (hmore : more.head? ≠ some ' ')
    (h : cursor.rest = written (List.replicate count ' ' ++ more) rest) :
    cursor.rest.takeWhile isBlank = List.replicate count ' ' ∧
      (cursor.skip count).rest = written more rest := by
  rw [written_append_of_isPlain isPlain_of_mem_replicate] at h
  obtain ⟨c, tail, hwritten, hc, -⟩ := head_written more rest
  have hblank : isBlank c = false := hc.trans (beq_eq_false_iff_ne.2 hmore)
  have hspaces : ∀ d ∈ List.replicate count ' ', isBlank d = true := fun d hd =>
    List.eq_of_mem_replicate hd ▸ rfl
  constructor
  · rw [h, List.takeWhile_append_of_pos hspaces, hwritten,
      List.takeWhile_cons_of_neg (by simp [hblank]), List.append_nil]
  · have hbehind := Cursor.rest_skip_of_append h
    rwa [List.length_replicate] at hbehind

section Breaks

variable {count fuel : Nat} {d : Char} {tail : List Char}

theorem head?_ne_space_of_isRawBreak (hbreak : isRawBreak d = true) (tail : List Char) :
    (d :: tail).head? ≠ some ' ' := by
  intro hd
  rw [Option.some.inj hd] at hbreak
  cases hbreak

/-- The text goes on behind spaces and a break. -/
theorem rest_behind_break (hbreak : isRawBreak d = true)
    (h : cursor.rest = written (List.replicate count ' ' ++ d :: tail) rest) :
    (cursor.skip count).rest = d :: written tail rest ∧
      (cursor.skip (count + 1)).rest = written tail rest := by
  obtain ⟨-, hbehind⟩ := blanks_written (head?_ne_space_of_isRawBreak hbreak tail) h
  rw [written_cons_of_isPlain (isPlain_of_isRawBreak hbreak)] at hbehind
  refine ⟨hbehind, ?_⟩
  rw [← Cursor.skip_skip, ← Cursor.next_eq_skip, Cursor.rest_next_of_cons hbehind]

theorem breaks_mark (h : cursor.rest = written text rest) (hmark : beginsMark text = true) :
    breaks (fuel + 1) cursor = .error .malformed := by
  rw [breaks, atMarker_written h, hmark]
  rfl

theorem breaks_end (hmore : more.head? ≠ some ' ')
    (h : cursor.rest = written (List.replicate count ' ' ++ more) rest)
    (hmark : beginsMark (List.replicate count ' ' ++ more) = false)
    (hbreak : more.head?.any isRawBreak = false) :
    breaks (fuel + 1) cursor = .ok ([], cursor.skip count) := by
  obtain ⟨hblanks, hbehind⟩ := blanks_written hmore h
  simp only [breaks, atMarker_written h, hmark, Cursor.skipWhile, hblanks, List.length_replicate,
    break?_written hbehind hbreak, Bool.false_eq_true, if_false]

theorem breaks_break (hbreak : isRawBreak d = true)
    (h : cursor.rest = written (List.replicate count ' ' ++ d :: tail) rest)
    (hmark : beginsMark (List.replicate count ' ' ++ d :: tail) = false) :
    breaks (fuel + 1) cursor = (breaks fuel (cursor.skip (count + 1))).map
        fun (more, cursor) => (counted d :: more, cursor) := by
  obtain ⟨hblanks, -⟩ := blanks_written (head?_ne_space_of_isRawBreak hbreak tail) h
  simp only [breaks, atMarker_written h, hmark, Cursor.skipWhile, hblanks, List.length_replicate,
    break?_of_isRawBreak (rest_behind_break hbreak h).1 hbreak, Bool.false_eq_true, if_false,
    Cursor.next_eq_skip, Cursor.skip_skip]

end Breaks

/-- The breaks of a text at the start of a line: behind `run`, for which `found` is read, the line
goes on with `more`. -/
structure LineRead (text run more found : List Char) : Prop where
  split : text = run ++ more
  plain : ∀ c ∈ run, IsPlain c
  reads : ∀ (cursor : Cursor) (rest : List Char) (fuel : Nat), cursor.rest = written text rest →
    text.length < fuel → breaks fuel cursor = .ok (found, cursor.skip run.length)
  lightens : Lightens found run
  unfolded_iff : found = run ∧ unfolded more = true ↔ UnfoldedLine text

/-- A mark stands in the way of what is to be read behind the breaks. -/
structure LineRefused (text : List Char) : Prop where
  reads : ∀ (cursor : Cursor) (rest : List Char) (fuel : Nat), cursor.rest = written text rest →
    text.length < fuel → breaks fuel cursor = .error .malformed
  folded : ¬ UnfoldedLine text

section Lines

variable {count : Nat} {d : Char} {tail run found : List Char}

theorem unfoldedLine_replicate (hmore : more.head? ≠ some ' ')
    (hmark : beginsMark (List.replicate count ' ' ++ more) = false) :
    UnfoldedLine (List.replicate count ' ' ++ more) ↔ count = 0 ∧ unfolded more = true := by
  cases count with
  | zero => exact ⟨fun h => ⟨rfl, h.text⟩, fun h => ⟨hmore, hmark, h.2⟩⟩
  | succ count => exact iff_of_false (fun h => h.space rfl) (fun h => by cases h.1)

theorem lightens_counted (d : Char) : Lightens [counted d] [d] := by
  by_cases hd : d = '\x85'
  · subst hd
    exact .inr (by decide)
  · exact .inl (congrArg (fun c => [c]) (counted_eq_iff.2 hd))

theorem lightens_spaces (count : Nat) : Lightens [] (List.replicate count ' ') := by
  cases count with
  | zero => exact .inl rfl
  | succ count => exact .inr (by rw [weight_replicate]; exact Nat.succ_pos count)

theorem lineRead_end (hmore : more.head? ≠ some ' ')
    (hmark : beginsMark (List.replicate count ' ' ++ more) = false)
    (hbreak : more.head?.any isRawBreak = false) :
    LineRead (List.replicate count ' ' ++ more) (List.replicate count ' ') more [] where
  split := rfl
  plain := isPlain_of_mem_replicate
  reads cursor rest fuel h hfuel := by
    obtain ⟨fuel, rfl⟩ := Nat.exists_eq_add_one.2 (Nat.zero_lt_of_lt hfuel)
    rw [List.length_replicate]
    exact breaks_end hmore h hmark hbreak
  lightens := lightens_spaces count
  unfolded_iff := by
    rw [unfoldedLine_replicate hmore hmark, eq_comm, List.replicate_eq_nil_iff]

theorem LineRead.cons (hline : LineRead tail run more found) (hbreak : isRawBreak d = true)
    (hmark : beginsMark (List.replicate count ' ' ++ d :: tail) = false) :
    LineRead (List.replicate count ' ' ++ d :: tail) (List.replicate count ' ' ++ d :: run) more
      (counted d :: found) where
  split := by rw [hline.split, List.append_assoc, List.cons_append]
  plain := List.forall_mem_append.2 ⟨isPlain_of_mem_replicate,
    List.forall_mem_cons.2 ⟨isPlain_of_isRawBreak hbreak, hline.plain⟩⟩
  reads cursor rest fuel h hfuel := by
    obtain ⟨fuel, rfl⟩ := Nat.exists_eq_add_one.2 (Nat.zero_lt_of_lt hfuel)
    rw [List.length_append, List.length_cons] at hfuel
    rw [breaks_break hbreak h hmark,
      hline.reads _ rest fuel (rest_behind_break hbreak h).2 (by omega)]
    simp only [Except.map, Cursor.skip_skip, List.length_append, List.length_replicate,
      List.length_cons, Nat.add_assoc, Nat.add_comm 1]
  lightens := (lightens_spaces count).append ((lightens_counted d).append hline.lightens)
  unfolded_iff := by
    rw [unfoldedLine_replicate (head?_ne_space_of_isRawBreak hbreak tail) hmark,
      unfolded_cons_of_isRawBreak hbreak, ← hline.unfolded_iff]
    cases count with
    | zero => simp [counted_eq_iff, and_assoc]
    | succ count => simp [List.replicate_succ, (counted_ne hbreak).1]

theorem LineRefused.cons (hline : LineRefused tail) (hbreak : isRawBreak d = true)
    (hmark : beginsMark (List.replicate count ' ' ++ d :: tail) = false) :
    LineRefused (List.replicate count ' ' ++ d :: tail) where
  reads cursor rest fuel h hfuel := by
    obtain ⟨fuel, rfl⟩ := Nat.exists_eq_add_one.2 (Nat.zero_lt_of_lt hfuel)
    rw [List.length_append, List.length_cons] at hfuel
    rw [breaks_break hbreak h hmark,
      hline.reads _ rest fuel (rest_behind_break hbreak h).2 (by omega)]
    rfl
  folded := by
    rw [unfoldedLine_replicate (head?_ne_space_of_isRawBreak hbreak tail) hmark,
      unfolded_cons_of_isRawBreak hbreak]
    exact fun h => hline.folded h.2.2

end Lines

theorem lineRead_or_refused (text : List Char) :
    (∃ run more found, LineRead text run more found) ∨ LineRefused text := by
  -- the spaces at the head end the line here, or a break does and the next line is shorter
  induction hlength : text.length using Nat.strongRecOn generalizing text with
  | ind length ih =>
      cases hmark : beginsMark text with
      | true =>
          refine .inr ⟨fun cursor rest fuel h hfuel => ?_, fun hline => ?_⟩
          · obtain ⟨fuel, rfl⟩ := Nat.exists_eq_add_one.2 (Nat.zero_lt_of_lt hfuel)
            exact breaks_mark h hmark
          · simp [hline.mark] at hmark
      | false =>
          obtain ⟨count, more, rfl, hmore⟩ := exists_spaces text
          cases hbreak : more.head?.any isRawBreak with
          | false => exact .inl ⟨_, more, [], lineRead_end hmore hmark hbreak⟩
          | true =>
              cases more with
              | nil => cases hbreak
              | cons d tail =>
                  have hraw : isRawBreak d = true := hbreak
                  have hshorter : tail.length < length := by
                    rw [← hlength, List.length_append, List.length_cons]
                    omega
                  rcases ih tail.length hshorter tail rfl with ⟨_, more, _, hline⟩ | hline
                  · exact .inl ⟨_, more, _, hline.cons hraw hmark⟩
                  · exact .inr (hline.cons hraw hmark)

/-! ## Gaps -/

section Gaps

variable {count : Nat} {d : Char} {tail run found : List Char}

theorem gap_end (hmore : more.head? ≠ some ' ')
    (h : cursor.rest = written (List.replicate count ' ' ++ more) rest)
    (hbreak : more.head?.any isRawBreak = false) :
    gap cursor = .ok (List.replicate count ' ', cursor.skip count) := by
  obtain ⟨hblanks, hbehind⟩ := blanks_written hmore h
  simp only [gap, hblanks, List.length_replicate, break?_written hbehind hbreak]

theorem gap_break (hbreak : isRawBreak d = true)
    (h : cursor.rest = written (List.replicate count ' ' ++ d :: tail) rest) :
    gap cursor = (breaks ((written tail rest).length + 1) (cursor.skip (count + 1))).map
      fun (more, cursor) => (folded (counted d) more, cursor) := by
  obtain ⟨hblanks, -⟩ := blanks_written (head?_ne_space_of_isRawBreak hbreak tail) h
  obtain ⟨hbehind, hnext⟩ := rest_behind_break hbreak h
  simp only [gap, hblanks, List.length_replicate, break?_of_isRawBreak hbehind hbreak,
    Cursor.next_eq_skip, Cursor.skip_skip, hnext]

theorem folded_ne_nil (first : Char) (more : List Char) : folded first more ≠ [] := by
  unfold folded
  split
  · exact List.cons_ne_nil _ _
  · split
    · exact List.cons_ne_nil _ _
    · next hmore => simpa using hmore

/-- What a break and those that follow it fold into is lighter, unless it is all of them. -/
theorem folded_counted (hbreak : isRawBreak d = true) (hfound : Lightens found run) :
    Lightens (folded (counted d) found) (d :: run) ∧
      (folded (counted d) found = d :: run ↔ d ≠ '\x85' ∧ found = run) := by
  by_cases hd : d = '\x85'
  -- such a break is folded, and what comes of it weighs less
  · have hlight : weight (folded (counted d) found) < weight (d :: run) := by
      have hle := hfound.weight_le
      subst hd
      rw [weight_cons, weight_singleton, if_pos rfl]
      cases found with
      | nil => exact (by decide : 1 < 2).trans_le (Nat.le_add_right 2 _)
      | cons c found =>
          show weight (c :: found) < _
          omega
    exact ⟨.inr hlight, iff_of_false (fun h => hlight.ne (congrArg weight h)) (fun h => h.1 hd)⟩
  · have hfolded : folded (counted d) found = d :: found := by
      have hfeed : d ≠ '\n' := by
        rintro rfl
        cases hbreak
      rw [counted_eq_iff.2 hd, folded, if_pos hfeed]
    have hsame : Lightens [d] [d] := .inl rfl
    rw [hfolded]
    exact ⟨hsame.append hfound, by simp [hd]⟩

end Gaps

/-! ## Pieces -/

theorem body_quote (h : cursor.rest = '"' :: rest) (fuel : Nat) :
    body '"' (fuel + 1) cursor = .ok ([], cursor.next) := by
  simp [body, h]

theorem body_escape {piece : List Char} {later : Cursor} (h : cursor.rest = '\\' :: more)
    (hescape : escape cursor.next = .ok (piece, later)) (fuel : Nat) :
    body '"' (fuel + 1) cursor =
      (body '"' fuel later).map fun (text, cursor) => (piece ++ text, cursor) := by
  simp [body, h, hescape]

theorem body_plain (h : cursor.rest = c :: more) (hplain : IsPlain c)
    (hc : (isBlank c || isBreak c) = false) (fuel : Nat) :
    body '"' (fuel + 1) cursor =
      (body '"' fuel cursor.next).map fun (text, cursor) => ([c] ++ text, cursor) := by
  rw [body, h]
  simp only [if_neg hplain.2.1, hplain.2.2, false_and, if_false, hc, Bool.false_eq_true]

/-- Where a text begins with a space or a break, a gap is read. -/
theorem body_gap (h : cursor.rest = written text rest)
    (hgap : (text.head? == some ' ' || text.head?.any isRawBreak) = true) (fuel : Nat) :
    body '"' (fuel + 1) cursor = (gap cursor).bind fun found =>
      (body '"' fuel found.2).map fun (text, cursor) => (found.1 ++ text, cursor) := by
  obtain ⟨c, more, hwritten, hblank, hbreak⟩ := head_written text rest
  rw [← hblank, ← hbreak] at hgap
  have hquote : c ≠ '"' := by
    rintro rfl
    simp [isBlank, isBreak] at hgap
  have hbackslash : c ≠ '\\' := by
    rintro rfl
    simp [isBlank, isBreak] at hgap
  rw [body, h, hwritten]
  simp only [if_neg hquote, hbackslash, false_and, if_false, hgap, if_true]
  cases gap cursor <;> rfl

/-- The piece at the head of a text: for `run` is read `piece`, and then it goes on with `more`. -/
structure PieceRead (text run more piece : List Char) : Prop where
  split : text = run ++ more
  ne_nil : run ≠ [] ∧ piece ≠ []
  reads : ∀ (cursor : Cursor) (rest : List Char) (fuel : Nat), cursor.rest = written text rest →
    body '"' (fuel + 1) cursor =
      (body '"' fuel (cursor.skip (run.flatMap Layout.compact.escape).length)).map
        fun (text, cursor) => (piece ++ text, cursor)
  lightens : Lightens piece run
  unfolded_iff : piece = run ∧ unfolded more = true ↔ unfolded text = true

/-- A mark stands in the way of the text's end. -/
structure Refused (text : List Char) : Prop where
  reads : ∀ (cursor : Cursor) (rest : List Char) (fuel : Nat), cursor.rest = written text rest →
    body '"' (fuel + 1) cursor = .error .malformed
  folded : unfolded text = false

section Pieces

variable {count : Nat} {d : Char} {tail run found : List Char}

theorem pieceRead_escape (hplain : ¬ IsPlain c) (tail : List Char) :
    PieceRead (c :: tail) [c] tail [c] where
  split := rfl
  ne_nil := ⟨List.cons_ne_nil c [], List.cons_ne_nil c []⟩
  reads cursor rest fuel h := by
    obtain ⟨letters, hescape, hread⟩ := escape_of_not_isPlain hplain
    have hcons : cursor.rest = '\\' :: (letters ++ written tail rest) := by
      rw [h, written_cons, hescape]
      rfl
    rw [body_escape hcons (hread cursor.next _ (Cursor.rest_next_of_cons hcons)),
      List.flatMap_singleton, hescape]
    rfl
  lightens := .inl rfl
  unfolded_iff := by
    have hspace : c ≠ ' ' := fun h => hplain (h ▸ isPlain_space)
    have hbreak : isRawBreak c = false := by
      rw [← Bool.not_eq_true]
      exact fun h => hplain (isPlain_of_isRawBreak h)
    rw [unfolded_cons_of_ordinary hspace hbreak, and_iff_right rfl]

theorem pieceRead_plain (hplain : IsPlain c) (hspace : c ≠ ' ') (hbreak : isRawBreak c = false)
    (tail : List Char) : PieceRead (c :: tail) [c] tail [c] where
  split := rfl
  ne_nil := ⟨List.cons_ne_nil c [], List.cons_ne_nil c []⟩
  reads cursor rest fuel h := by
    obtain ⟨d, more, hwritten, hblank, hd⟩ := head_written (c :: tail) rest
    have hcons := h.trans (written_cons_of_isPlain hplain tail rest)
    obtain ⟨rfl, -⟩ := List.cons.inj (hwritten.symm.trans (h.symm.trans hcons))
    have hordinary : (isBlank d || isBreak d) = false := by simp [hblank, hd, hspace, hbreak]
    rw [body_plain hcons hplain hordinary, List.flatMap_singleton, escape_of_isPlain hplain]
    rfl
  lightens := .inl rfl
  unfolded_iff := by rw [unfolded_cons_of_ordinary hspace hbreak, and_iff_right rfl]

theorem pieceRead_spaces (hcount : 0 < count) (hmore : more.head? ≠ some ' ')
    (hbreak : more.head?.any isRawBreak = false) :
    PieceRead (List.replicate count ' ' ++ more) (List.replicate count ' ') more
      (List.replicate count ' ') where
  split := rfl
  ne_nil := by
    rw [ne_eq, List.replicate_eq_nil_iff]
    exact ⟨hcount.ne', hcount.ne'⟩
  reads cursor rest fuel h := by
    have hhead : (List.replicate count ' ' ++ more).head? = some ' ' := by
      obtain ⟨count, rfl⟩ := Nat.exists_eq_add_one.2 hcount
      rfl
    rw [body_gap h (by simp [hhead]), gap_end hmore h hbreak,
      flatMap_escape_of_isPlain isPlain_of_mem_replicate, List.length_replicate]
    rfl
  lightens := .inl rfl
  unfolded_iff := by
    rw [unfolded_replicate, and_iff_right rfl, and_iff_right fun _ => hbreak]

theorem head?_spaces_break (hbreak : isRawBreak d = true) :
    ((List.replicate count ' ' ++ d :: tail).head? == some ' ' ||
      (List.replicate count ' ' ++ d :: tail).head?.any isRawBreak) = true := by
  cases count with
  | zero => simp [hbreak]
  | succ count => simp [List.replicate_succ]

theorem unfolded_spaces_break (hbreak : isRawBreak d = true) :
    unfolded (List.replicate count ' ' ++ d :: tail) = true ↔
      count = 0 ∧ d ≠ '\x85' ∧ UnfoldedLine tail := by
  rw [unfolded_replicate, unfolded_cons_of_isRawBreak hbreak]
  simp [hbreak]

theorem pieceRead_break (hline : LineRead tail run more found) (hbreak : isRawBreak d = true) :
    PieceRead (List.replicate count ' ' ++ d :: tail) (List.replicate count ' ' ++ d :: run) more
      (folded (counted d) found) where
  split := by rw [hline.split, List.append_assoc, List.cons_append]
  ne_nil := ⟨by simp, folded_ne_nil _ _⟩
  reads cursor rest fuel h := by
    have hplain : ∀ c ∈ List.replicate count ' ' ++ d :: run, IsPlain c :=
      List.forall_mem_append.2 ⟨isPlain_of_mem_replicate,
        List.forall_mem_cons.2 ⟨isPlain_of_isRawBreak hbreak, hline.plain⟩⟩
    have hread := hline.reads _ rest _ (rest_behind_break hbreak h).2
      (Nat.lt_succ_of_le (length_le_written tail rest))
    rw [body_gap h (head?_spaces_break hbreak), gap_break hbreak h, hread,
      flatMap_escape_of_isPlain hplain]
    simp only [Except.map, Except.bind, Cursor.skip_skip, List.length_append,
      List.length_replicate, List.length_cons, Nat.add_assoc, Nat.add_comm 1]
  lightens := (lightens_spaces count).append (folded_counted hbreak hline.lightens).1
  unfolded_iff := by
    obtain ⟨hlight, heq⟩ := folded_counted hbreak hline.lightens
    have hsplit := (lightens_spaces count).append_eq_iff hlight
    rw [List.nil_append, eq_comm (a := []), List.replicate_eq_nil_iff, heq] at hsplit
    rw [unfolded_spaces_break hbreak, hsplit, ← hline.unfolded_iff]
    simp only [and_assoc]

theorem refused_break (hline : LineRefused tail) (hbreak : isRawBreak d = true) :
    Refused (List.replicate count ' ' ++ d :: tail) where
  reads cursor rest fuel h := by
    have hread := hline.reads _ rest _ (rest_behind_break hbreak h).2
      (Nat.lt_succ_of_le (length_le_written tail rest))
    rw [body_gap h (head?_spaces_break hbreak), gap_break hbreak h, hread]
    rfl
  folded := by
    rw [← Bool.not_eq_true, unfolded_spaces_break hbreak]
    exact fun h => hline.folded h.2.2

end Pieces

theorem pieceRead_or_refused (c : Char) (tail : List Char) :
    (∃ run more piece, PieceRead (c :: tail) run more piece) ∨ Refused (c :: tail) := by
  by_cases hplain : IsPlain c
  -- the spaces here belong to the break behind them, or else are a piece
  · obtain ⟨count, more, htext, hmore⟩ := exists_spaces (c :: tail)
    cases hbreak : more.head?.any isRawBreak with
    | true =>
        cases more with
        | nil => cases hbreak
        | cons d tail =>
            have hraw : isRawBreak d = true := hbreak
            rw [htext]
            rcases lineRead_or_refused tail with ⟨_, more, _, hline⟩ | hline
            · exact .inl ⟨_, more, _, pieceRead_break hline hraw⟩
            · exact .inr (refused_break hline hraw)
    | false =>
        cases count with
        | zero =>
            obtain rfl : c :: tail = more := htext
            have hspace : c ≠ ' ' := fun h => hmore (congrArg some h)
            exact .inl ⟨_, tail, _, pieceRead_plain hplain hspace hbreak tail⟩
        | succ count =>
            rw [htext]
            exact .inl ⟨_, more, _, pieceRead_spaces (Nat.succ_pos count) hmore hbreak⟩
  · exact .inl ⟨_, tail, _, pieceRead_escape hplain tail⟩

/-! ## Whole texts -/

/-- What a text is read as, wherever it stands. -/
structure TextRead (text : List Char) (result : Except Fault (List Char)) : Prop where
  reads : ∀ (cursor : Cursor) (rest : List Char) (fuel : Nat), cursor.rest = written text rest →
    text.length < fuel → body '"' fuel cursor = result.map fun read =>
      (read, cursor.skip ((text.flatMap Layout.compact.escape).length + 1))
  lightens : ∀ read, result = .ok read → Lightens read text
  nil : result = .ok [] → text = []
  unfolded_iff : result = .ok text ↔ unfolded text = true

theorem textRead_nil : TextRead [] (.ok []) where
  reads cursor rest fuel h hfuel := by
    obtain ⟨fuel, rfl⟩ := Nat.exists_eq_add_one.2 hfuel
    exact body_quote h fuel
  lightens _ h := .inl (Except.ok.inj h).symm
  nil _ := rfl
  unfolded_iff := iff_of_true rfl rfl

theorem PieceRead.textRead {run piece : List Char} {result : Except Fault (List Char)}
    (hpiece : PieceRead text run more piece) (hmore : TextRead more result) :
    TextRead text (result.map (piece ++ ·)) where
  reads cursor rest fuel h hfuel := by
    obtain ⟨fuel, rfl⟩ := Nat.exists_eq_add_one.2 (Nat.zero_lt_of_lt hfuel)
    have hbehind : (cursor.skip (run.flatMap Layout.compact.escape).length).rest =
        written more rest := by
      refine Cursor.rest_skip_of_append ?_
      rw [h, hpiece.split, written_append]
    have hshorter : more.length < fuel := by
      have hrun := List.length_pos_iff.2 hpiece.ne_nil.1
      rw [hpiece.split, List.length_append] at hfuel
      omega
    rw [hpiece.reads cursor rest fuel h, hmore.reads _ rest fuel hbehind hshorter, hpiece.split,
      List.flatMap_append, List.length_append, Cursor.skip_skip, Nat.add_assoc]
    cases result <;> rfl
  lightens read h := by
    cases result with
    | error fault => cases h
    | ok later =>
        obtain rfl := Except.ok.inj h
        rw [hpiece.split]
        exact hpiece.lightens.append (hmore.lightens later rfl)
  nil h := by
    cases result with
    | error fault => cases h
    | ok later => exact absurd (List.append_eq_nil_iff.1 (Except.ok.inj h)).1 hpiece.ne_nil.2
  unfolded_iff := by
    rw [← hpiece.unfolded_iff, ← hmore.unfolded_iff, hpiece.split]
    cases result with
    | error fault => exact iff_of_false (fun h => nomatch h) (fun h => nomatch h.2)
    | ok later =>
        -- no part weighs more than what it was read from, so the sum is the same only if each is
        have hparts := hpiece.lightens.append_eq_iff (hmore.lightens later rfl)
        simpa [Except.map] using hparts

theorem exists_textRead (text : List Char) : ∃ result, TextRead text result := by
  -- piece by piece: each takes at least one character, and what is left is a text again
  induction hlength : text.length using Nat.strongRecOn generalizing text with
  | ind length ih =>
      cases text with
      | nil => exact ⟨_, textRead_nil⟩
      | cons c tail =>
          rcases pieceRead_or_refused c tail with ⟨run, more, piece, hpiece⟩ | hrefused
          · have hshorter : more.length < length := by
              have hrun := List.length_pos_iff.2 hpiece.ne_nil.1
              rw [← hlength, hpiece.split, List.length_append]
              omega
            obtain ⟨result, hmore⟩ := ih more.length hshorter more rfl
            exact ⟨_, hpiece.textRead hmore⟩
          · refine ⟨.error .malformed, fun cursor rest fuel h hfuel => ?_, (fun _ h => nomatch h),
              (fun h => nomatch h), ?_⟩
            · obtain ⟨fuel, rfl⟩ := Nat.exists_eq_add_one.2 (Nat.zero_lt_of_lt hfuel)
              exact hrefused.reads cursor rest fuel h
            · simp [hrefused.folded]

/-- What YAML reads a JSON string as. -/
def reread (s : String) : Except Fault String :=
  (scalar '"' ⟨Layout.compact.string s, 0, 0, 0⟩).map Prod.fst

theorem TextRead.scalar_string {s : String} {result : Except Fault (List Char)}
    (h : TextRead s.toList result) (hcursor : cursor.rest = Layout.compact.string s ++ rest) :
    scalar '"' cursor = result.map fun read =>
      (String.ofList read, cursor.skip (Layout.compact.string s).length) := by
  have hcons : cursor.rest = '"' :: written s.toList rest := by
    simp [hcursor, Layout.string, written]
  have hfuel : s.toList.length < cursor.rest.length + 1 := by
    have := length_le_written s.toList rest
    rw [hcons, List.length_cons]
    omega
  rw [scalar, h.reads _ rest _ (Cursor.rest_next_of_cons hcons) hfuel, Cursor.next_eq_skip,
    Cursor.skip_skip]
  cases result <;>
    simp only [Except.map, Layout.string, List.length_cons, List.length_append, List.length_nil,
      Nat.add_comm 1]

theorem TextRead.reread_eq {s : String} {result : Except Fault (List Char)}
    (h : TextRead s.toList result) : reread s = result.map String.ofList := by
  rw [reread, h.scalar_string (List.append_nil _).symm]
  cases result <;> rfl

/-- A JSON string is read as its text is, whatever stands before and behind it. -/
theorem scalar_string {s : String} (h : cursor.rest = Layout.compact.string s ++ rest) :
    scalar '"' cursor =
      (reread s).map fun read => (read, cursor.skip (Layout.compact.string s).length) := by
  obtain ⟨result, hresult⟩ := exists_textRead s.toList
  rw [hresult.scalar_string h, hresult.reread_eq]
  cases result <;> rfl

/-- A text is read as itself just if there is nothing to fold in it. -/
theorem reread_eq_ok_iff {s : String} : reread s = .ok s ↔ unfolded s.toList = true := by
  obtain ⟨result, hresult⟩ := exists_textRead s.toList
  rw [hresult.reread_eq, ← hresult.unfolded_iff]
  cases result with
  | error fault => exact iff_of_false (fun h => nomatch h) (fun h => nomatch h)
  | ok read =>
      simp only [Except.map, Except.ok.injEq]
      exact ⟨fun h => by rw [← h, String.toList_ofList], fun h => by rw [h, String.ofList_toList]⟩

theorem lightens_reread {s read : String} (h : reread s = .ok read) :
    Lightens read.toList s.toList := by
  obtain ⟨result, hresult⟩ := exists_textRead s.toList
  rw [hresult.reread_eq] at h
  cases result with
  | error fault => cases h
  | ok text =>
      obtain rfl := Except.ok.inj h
      rw [String.toList_ofList]
      exact hresult.lightens text rfl

theorem reread_ne_empty {s read : String} (h : reread s = .ok read) (hs : s ≠ "") : read ≠ "" := by
  rintro rfl
  obtain ⟨result, hresult⟩ := exists_textRead s.toList
  rw [hresult.reread_eq] at h
  cases result with
  | error fault => cases h
  | ok text =>
      have htext : text = [] := by
        rw [← String.toList_ofList (l := text), Except.ok.inj h]
        rfl
      exact hs (String.toList_eq_nil_iff.1 (hresult.nil (by rw [htext])))

end Quoted

end Lineage.Yaml
