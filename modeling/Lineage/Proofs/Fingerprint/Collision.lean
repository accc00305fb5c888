import Mathlib.Data.Nat.Digits.Lemmas
import Mathlib.Data.Set.Function
import Lineage.Proofs.Fingerprint.Division

/-!
# Bytes that differ in one place have different fingerprints

Since steps of the division are linear, the bytes that go into the register may
as well be put in all at once, as a number with the first byte lowest, before all
the shifting (`Serial.foldl_absorbByte`).  So if bytes are exchanged, what this
does to the register at the end is what all later steps make of the exchanged
number alone (`Serial.register_window`): neither the bytes before it nor those
behind it have a part in it.

The exchanged number fits into the register if it has eight bytes at most.  And of
registers that fit nothing is lost in a step: the polynomial has its highest bit, so
the highest bit of the result says which bit was shifted out (`testBit_shiftOut`).
-/

namespace Lineage.Fingerprint

/-! ## A step loses nothing -/

/-- The bit that was shifted out can be read off the highest bit of the result. -/
theorem testBit_shiftOut {register : Nat} (h : register < 2 ^ 64) :
    (shiftOut register).testBit 63 = decide (register % 2 = 1) := by
  have hhalf : (register / 2).testBit 63 = false := Nat.testBit_lt_two_pow (by omega)
  have hpolynomial : polynomial.testBit 63 = true := by decide
  unfold shiftOut
  split
  · rename_i hone
    simp [hone, hhalf, hpolynomial]
  · rename_i hzero
    simp [hzero, hhalf]

theorem injOn_shiftOut : Set.InjOn shiftOut (Set.Iio (2 ^ 64)) := by
  intro a ha b hb heq
  have hparity : a % 2 = 1 ↔ b % 2 = 1 := by
    rw [← decide_eq_decide, ← testBit_shiftOut ha, ← testBit_shiftOut hb, heq]
  have hhalves : a / 2 = b / 2 := by
    unfold shiftOut at heq
    by_cases hone : b % 2 = 1
    · rw [if_pos hone, if_pos (hparity.2 hone)] at heq
      exact Nat.xor_left_injective heq
    · rwa [if_neg hone, if_neg (hone ∘ hparity.1)] at heq
  omega

theorem injOn_iterate_shiftOut (count : Nat) :
    Set.InjOn shiftOut^[count] (Set.Iio (2 ^ 64)) :=
  injOn_shiftOut.iterate (fun _ hregister => shiftOut_lt hregister) count

/-! ## Bytes put in all at once -/

/-- Bytes as a number, the first one lowest. -/
def number (bytes : List UInt8) : Nat := Nat.ofDigits (2 ^ 8) (bytes.map UInt8.toNat)

theorem number_cons (byte : UInt8) (rest : List UInt8) :
    number (byte :: rest) = byte.toNat ^^^ 2 ^ 8 * number rest := by
  rw [xor_two_pow_mul byte.toNat_lt, number, List.map_cons, Nat.ofDigits_cons]
  rfl

theorem digit_lt {bytes : List UInt8} {digit : Nat} (h : digit ∈ bytes.map UInt8.toNat) :
    digit < 2 ^ 8 := by
  obtain ⟨byte, -, rfl⟩ := List.mem_map.1 h
  exact byte.toNat_lt

theorem number_lt {bytes : List UInt8} (hwidth : bytes.length ≤ 8) : number bytes < 2 ^ 64 := by
  have hdigits : number bytes < (2 ^ 8) ^ (bytes.map UInt8.toNat).length :=
    Nat.ofDigits_lt_base_pow_length (by decide) fun _ => digit_lt
  rw [List.length_map, ← Nat.pow_mul] at hdigits
  exact hdigits.trans_le (Nat.pow_le_pow_right (by decide) (by omega))

theorem number_inj {first second : List UInt8} (hlength : first.length = second.length)
    (h : number first = number second) : first = second := by
  have hdigits : first.map UInt8.toNat = second.map UInt8.toNat :=
    Nat.ofDigits_inj_of_len_eq (by decide) (by simpa using hlength)
      (fun _ => digit_lt) (fun _ => digit_lt) h
  exact List.map_injective_iff.2 (fun _ _ => UInt8.toNat_inj.1) hdigits

namespace Serial

/-- Absorbing bytes is putting them in all at once, and then taking all the steps. -/
theorem foldl_absorbByte (bytes : List UInt8) (start : Nat) :
    bytes.foldl absorbByte start = shiftOut^[8 * bytes.length] (start ^^^ number bytes) := by
  induction bytes generalizing start with
  | nil => simp [number]
  | cons byte rest ih =>
      -- the bytes behind the first one stand where eight steps do not reach them
      have hrest : shiftOut^[8] (2 ^ 8 * number rest) = number rest := iterate_shiftOut_mul 8 _
      calc (byte :: rest).foldl absorbByte start
          = shiftOut^[8 * rest.length] (absorbByte start byte ^^^ number rest) := ih _
        _ = shiftOut^[8 * rest.length]
              (shiftOut^[8] (start ^^^ byte.toNat ^^^ 2 ^ 8 * number rest)) := by
            rw [iterate_shiftOut_xor 8, hrest, absorbByte]
        _ = shiftOut^[8 * (rest.length + 1)] (start ^^^ number (byte :: rest)) := by
            rw [← Function.iterate_add_apply, Nat.xor_assoc, ← number_cons, Nat.mul_succ]

/-- A difference at the start is shifted along, whatever bytes are absorbed. -/
theorem foldl_absorbByte_xor (bytes : List UInt8) (start difference : Nat) :
    bytes.foldl absorbByte (start ^^^ difference) =
      bytes.foldl absorbByte start ^^^ shiftOut^[8 * bytes.length] difference := by
  rw [foldl_absorbByte, foldl_absorbByte, ← iterate_shiftOut_xor, Nat.xor_assoc, Nat.xor_assoc,
    Nat.xor_comm difference]

/-- What a window of bytes does to the register at the end depends on nothing else but how many
bytes stand behind it. -/
theorem register_window (before window after : List UInt8) :
    register (before ++ window ++ after) =
      after.foldl absorbByte (shiftOut^[8 * window.length] (register before)) ^^^
        shiftOut^[8 * after.length + 8 * window.length] (number window) := by
  rw [register, List.foldl_append, List.foldl_append, ← register, foldl_absorbByte window,
    iterate_shiftOut_xor, foldl_absorbByte_xor, ← Function.iterate_add_apply]

theorem register_window_inj {before old new after : List UInt8}
    (hlength : old.length = new.length) (hwidth : old.length ≤ 8)
    (h : register (before ++ old ++ after) = register (before ++ new ++ after)) : old = new := by
  rw [register_window, register_window, ← hlength] at h
  have hnumbers := injOn_iterate_shiftOut _ (number_lt hwidth) (number_lt (hlength ▸ hwidth))
    (Nat.xor_right_injective h)
  exact number_inj hlength hnumbers

end Serial

/-! ## Fingerprints -/

theorem ofBytes_inj {first second : List UInt8} :
    ofBytes first = ofBytes second ↔ Serial.register first = Serial.register second := by
  rw [← toNat_register, ← toNat_register, UInt64.toNat_inj, ← UInt64.toBitVec_inj]
  exact BitVec.toInt_inj

/-- Bytes that are exchanged for as many others, eight at most, change the fingerprint. -/
theorem ofBytes_window_ne {before old new after : List UInt8} (hlength : old.length = new.length)
    (hwidth : old.length ≤ 8) (hne : old ≠ new) :
    ofBytes (before ++ old ++ after) ≠ ofBytes (before ++ new ++ after) := fun heq =>
  hne (Serial.register_window_inj hlength hwidth (ofBytes_inj.1 heq))

/-- Different bytes, as many of the one as of the other, that are the same but for a window of the
given width. -/
def DifferWithin (width : Nat) (first second : List UInt8) : Prop :=
  first.length = second.length ∧ first ≠ second ∧ ∃ start,
    first.take start = second.take start ∧ first.drop (start + width) = second.drop (start + width)

theorem DifferWithin.exists_window {width : Nat} {first second : List UInt8}
    (h : DifferWithin width first second) : ∃ before old new after,
      first = before ++ old ++ after ∧ second = before ++ new ++ after ∧
      old.length = new.length ∧ old.length ≤ width ∧ old ≠ new := by
  obtain ⟨hlength, hne, start, hbefore, hafter⟩ := h
  have hcut (bytes : List UInt8) :
      bytes = bytes.take start ++ (bytes.drop start).take width ++ bytes.drop (start + width) := by
    rw [List.append_assoc, ← List.drop_drop, List.take_append_drop, List.take_append_drop]
  have hsecond := hcut second
  rw [← hbefore, ← hafter] at hsecond
  refine ⟨_, _, _, _, hcut first, hsecond, ?_, List.length_take_le _ _, fun hwindow => hne ?_⟩
  · simp only [List.length_take, List.length_drop, hlength]
  · rw [hcut first, hsecond, hwindow]

/-- The same of bytes that are compared from outside the window. -/
theorem DifferWithin.ofBytes_ne {first second : List UInt8} (h : DifferWithin 8 first second) :
    ofBytes first ≠ ofBytes second := by
  obtain ⟨before, old, new, after, rfl, rfl, hlength, hwidth, hne⟩ := h.exists_window
  exact ofBytes_window_ne hlength hwidth hne

end Lineage.Fingerprint
