import Mathlib.Data.Nat.Bitwise
import Mathlib.Logic.Function.Iterate
import Lineage.Fingerprint

/-!
# The fingerprint is the remainder of a long division

The division is said here as it is done by hand, one bit after the other
(`Serial`), and on numbers that nothing cuts off.  The register of the fingerprint
takes eight bits at once, from a table, and is a word of 64 bits.  These are two
differences, and they are taken one at a time, with the table on numbers without
bound between them (`Unbounded`):

* a step of the division is linear in exclusive or (`shiftOut_xor`), so that eight
  of them may be taken of the low byte, which is what the table holds, and of the
  rest, which they only move down (`Serial.absorbByte_eq`);
* the polynomial has 64 bits and a step shifts before it subtracts, so that the
  register never leaves them (`shiftOut_lt`), and words compute the same as numbers.
-/

namespace Lineage.Fingerprint

/-! ## One step -/

/-- The polynomial as a number. -/
def polynomial : Nat := 0xC15D213AA4D7A795

/-- Shift a bit out of the register, and subtract the polynomial if it was a one. -/
def shiftOut (register : Nat) : Nat :=
  if register % 2 = 1 then register / 2 ^^^ polynomial else register / 2

theorem polynomial_lt : polynomial < 2 ^ 64 := by decide

theorem toNat_seed : seed.toNat = polynomial := rfl

theorem shiftOut_two_mul (register : Nat) : shiftOut (2 * register) = register := by
  rw [shiftOut, if_neg (by omega), Nat.mul_div_cancel_left _ (by decide)]

/-- Of two registers the ones shifted out of both cancel, and so do the polynomials subtracted. -/
theorem shiftOut_xor (a b : Nat) : shiftOut (a ^^^ b) = shiftOut a ^^^ shiftOut b := by
  have hcancel : a / 2 ^^^ polynomial ^^^ (b / 2 ^^^ polynomial) = a / 2 ^^^ b / 2 := by
    rw [Nat.xor_comm (b / 2), Nat.xor_assoc, Nat.xor_xor_cancel_left]
  simp only [shiftOut, Nat.xor_div_two, Nat.xor_mod_two_eq_one]
  by_cases ha : a % 2 = 1 <;> by_cases hb : b % 2 = 1
  · simp [ha, hb, hcancel]
  · simp [ha, hb, Nat.xor_assoc, Nat.xor_comm polynomial]
  · simp [ha, hb, Nat.xor_assoc]
  · simp [ha, hb]

theorem shiftOut_lt {register : Nat} (h : register < 2 ^ 64) : shiftOut register < 2 ^ 64 := by
  have hhalf : register / 2 < 2 ^ 64 := (Nat.div_le_self _ _).trans_lt h
  unfold shiftOut
  split
  · exact Nat.xor_lt_two_pow hhalf polynomial_lt
  · exact hhalf

/-! ## Several steps -/

theorem iterate_shiftOut_xor (count a b : Nat) :
    shiftOut^[count] (a ^^^ b) = shiftOut^[count] a ^^^ shiftOut^[count] b := by
  induction count generalizing a b with
  | zero => rfl
  | succ count ih => simp only [Function.iterate_succ_apply, shiftOut_xor, ih]

theorem iterate_shiftOut_mul (count register : Nat) :
    shiftOut^[count] (2 ^ count * register) = register := by
  induction count with
  | zero => simp
  | succ count ih =>
      rw [Function.iterate_succ_apply, Nat.pow_succ', Nat.mul_assoc, shiftOut_two_mul, ih]

theorem iterate_shiftOut_lt (count : Nat) {register : Nat} (h : register < 2 ^ 64) :
    shiftOut^[count] register < 2 ^ 64 := by
  induction count generalizing register with
  | zero => exact h
  | succ count ih =>
      rw [Function.iterate_succ_apply]
      exact ih (shiftOut_lt h)

/-- Bits that stand below others are added to them without a carry. -/
theorem xor_two_pow_mul {count low : Nat} (hlow : low < 2 ^ count) (high : Nat) :
    low ^^^ 2 ^ count * high = low + 2 ^ count * high := by
  have hdiv : (low ^^^ 2 ^ count * high) / 2 ^ count = high := by
    rw [Nat.xor_div_two_pow, Nat.div_eq_of_lt hlow, Nat.zero_xor,
      Nat.mul_div_cancel_left _ (Nat.two_pow_pos count)]
  have hmod : (low ^^^ 2 ^ count * high) % 2 ^ count = low := by
    rw [Nat.xor_mod_two_pow, Nat.mod_eq_of_lt hlow, Nat.mul_mod_right, Nat.xor_zero]
  calc low ^^^ 2 ^ count * high
      = (low ^^^ 2 ^ count * high) % 2 ^ count +
          2 ^ count * ((low ^^^ 2 ^ count * high) / 2 ^ count) := (Nat.mod_add_div _ _).symm
    _ = low + 2 ^ count * high := by rw [hdiv, hmod]

/-- Several steps act on as many low bits, and move the others down. -/
theorem iterate_shiftOut_eq (count register : Nat) :
    shiftOut^[count] register =
      register / 2 ^ count ^^^ shiftOut^[count] (register % 2 ^ count) := by
  have hlow : register % 2 ^ count < 2 ^ count := Nat.mod_lt _ (Nat.two_pow_pos count)
  have hsplit : register % 2 ^ count ^^^ 2 ^ count * (register / 2 ^ count) = register := by
    rw [xor_two_pow_mul hlow, Nat.mod_add_div]
  calc shiftOut^[count] register
      = shiftOut^[count] (register % 2 ^ count ^^^ 2 ^ count * (register / 2 ^ count)) := by
        rw [hsplit]
    _ = shiftOut^[count] (register % 2 ^ count) ^^^ register / 2 ^ count := by
        rw [iterate_shiftOut_xor, iterate_shiftOut_mul]
    _ = _ := Nat.xor_comm _ _

/-! ## The division, bit by bit -/

namespace Serial

/-- Put a byte into the low bits of the register, and shift eight bits out. -/
def absorbByte (register : Nat) (byte : UInt8) : Nat := shiftOut^[8] (register ^^^ byte.toNat)

/-- The register after all bytes. -/
def register (bytes : List UInt8) : Nat := bytes.foldl absorbByte polynomial

end Serial

/-! ## By a table, on numbers without bound -/

namespace Unbounded

/-- The entry of a low byte in the table, cut to 64 bits. -/
def entry (low : Nat) : Nat := shiftOut^[8] low &&& 0xFFFFFFFFFFFFFFFF

/-- The register after one more byte. -/
def absorbByte (register : Nat) (byte : UInt8) : Nat :=
  (register >>> 8) ^^^ entry ((register ^^^ byte.toNat) &&& 0xFF)

/-- The register after all bytes. -/
def register (bytes : List UInt8) : Nat := bytes.foldl absorbByte polynomial

/-- The table needs no cutting. -/
theorem entry_eq {low : Nat} (h : low < 2 ^ 8) : entry low = shiftOut^[8] low := by
  have hlow : low < 2 ^ 64 := h.trans (by decide)
  show shiftOut^[8] low &&& (2 ^ 64 - 1) = _
  rw [Nat.and_two_pow_sub_one_eq_mod, Nat.mod_eq_of_lt (iterate_shiftOut_lt 8 hlow)]

end Unbounded

/-- A byte from the table is a byte bit by bit. -/
theorem Serial.absorbByte_eq (register : Nat) (byte : UInt8) :
    Serial.absorbByte register byte = Unbounded.absorbByte register byte := by
  have hbyte : byte.toNat / 2 ^ 8 = 0 := Nat.div_eq_of_lt byte.toNat_lt
  have hlow : (register ^^^ byte.toNat) % 2 ^ 8 < 2 ^ 8 := Nat.mod_lt _ (Nat.two_pow_pos 8)
  have hmask : (register ^^^ byte.toNat) &&& 0xFF = (register ^^^ byte.toNat) % 2 ^ 8 :=
    Nat.and_two_pow_sub_one_eq_mod _ 8
  calc Serial.absorbByte register byte
      = (register ^^^ byte.toNat) / 2 ^ 8 ^^^
          shiftOut^[8] ((register ^^^ byte.toNat) % 2 ^ 8) := iterate_shiftOut_eq 8 _
    _ = register / 2 ^ 8 ^^^ shiftOut^[8] ((register ^^^ byte.toNat) % 2 ^ 8) := by
        rw [Nat.xor_div_two_pow, hbyte, Nat.xor_zero]
    _ = Unbounded.absorbByte register byte := by
        rw [Unbounded.absorbByte, hmask, Unbounded.entry_eq hlow, Nat.shiftRight_eq_div_pow]

theorem Serial.absorbByte_lt {register : Nat} (h : register < 2 ^ 64) (byte : UInt8) :
    Serial.absorbByte register byte < 2 ^ 64 :=
  iterate_shiftOut_lt 8 (Nat.xor_lt_two_pow h (byte.toNat_lt.trans (by decide)))

theorem Unbounded.register_eq (bytes : List UInt8) :
    Unbounded.register bytes = Serial.register bytes := by
  have hstep : Unbounded.absorbByte = Serial.absorbByte :=
    funext₂ fun register byte => (Serial.absorbByte_eq register byte).symm
  rw [Unbounded.register, Serial.register, hstep]

/-- The register of the division stays within 64 bits. -/
theorem Serial.register_lt (bytes : List UInt8) : Serial.register bytes < 2 ^ 64 := by
  suffices hfrom : ∀ start < 2 ^ 64, bytes.foldl Serial.absorbByte start < 2 ^ 64 from
    hfrom polynomial polynomial_lt
  induction bytes with
  | nil => exact fun start hstart => hstart
  | cons byte rest ih => exact fun start hstart => ih _ (Serial.absorbByte_lt hstart byte)

/-! ## Words compute the same -/

theorem toNat_absorbBit (word : UInt64) : (absorbBit word).toNat = shiftOut word.toNat := by
  have hbit : (word &&& 1 = 1) ↔ word.toNat % 2 = 1 := by
    rw [← UInt64.toNat_inj, UInt64.toNat_and, ← Nat.and_one_is_mod]
    rfl
  have hhalf : (word >>> 1).toNat = word.toNat / 2 := by
    rw [UInt64.toNat_shiftRight]
    exact Nat.shiftRight_eq_div_pow _ 1
  unfold absorbBit shiftOut
  rw [← hhalf, ← toNat_seed, ← UInt64.toNat_xor]
  simp only [hbit]
  split <;> rfl

theorem toNat_absorbBits (count : Nat) (word : UInt64) :
    (absorbBits count word).toNat = shiftOut^[count] word.toNat := by
  induction count generalizing word with
  | zero => rfl
  | succ count ih => rw [absorbBits, ih, toNat_absorbBit, Function.iterate_succ_apply]

theorem toNat_table_get {low : Nat} (h : low < 256) :
    (table.get ⟨low, h⟩).toNat = shiftOut^[8] low := by
  have hentry : table.get ⟨low, h⟩ = absorbBits 8 (UInt64.ofNat low) := Vector.getElem_ofFn h
  have hlow : low < 2 ^ 64 := h.trans (by decide)
  rw [hentry, toNat_absorbBits, UInt64.toNat_ofNat_of_lt' hlow]

theorem toNat_absorbByte (word : UInt64) (byte : UInt8) :
    (absorbByte word byte).toNat = Serial.absorbByte word.toNat byte := by
  have hindex : (word ^^^ byte.toUInt64).toNat = word.toNat ^^^ byte.toNat := by
    rw [UInt64.toNat_xor, UInt8.toNat_toUInt64]
  have hlow : (word.toNat ^^^ byte.toNat) % 256 < 2 ^ 8 := Nat.mod_lt _ (by decide)
  have hmask : (word.toNat ^^^ byte.toNat) &&& 0xFF = (word.toNat ^^^ byte.toNat) % 256 :=
    Nat.and_two_pow_sub_one_eq_mod _ 8
  rw [Serial.absorbByte_eq, Unbounded.absorbByte, hmask, Unbounded.entry_eq hlow, absorbByte,
    UInt64.toNat_xor, UInt64.toNat_shiftRight, toNat_table_get, hindex]
  rfl

/-- The register of the fingerprint holds what the division bit by bit leaves. -/
theorem toNat_register (bytes : List UInt8) :
    (register bytes).toNat = Serial.register bytes := by
  suffices hfrom : ∀ word : UInt64, (bytes.foldl absorbByte word).toNat =
      bytes.foldl Serial.absorbByte word.toNat from hfrom seed
  induction bytes with
  | nil => exact fun word => rfl
  | cons byte rest ih =>
      intro word
      rw [List.foldl_cons, ih, toNat_absorbByte, List.foldl_cons]

/-! ## The signed value -/

/-- A number of 64 bits read as a two's complement integer. -/
def twosComplement (register : Nat) : Int :=
  if register < 2 ^ 63 then register else register - 2 ^ 64

theorem signed_eq (word : UInt64) : signed word = twosComplement word.toNat := by
  have hlt : word.toNat < 2 ^ 64 := word.toNat_lt
  rw [signed, BitVec.toInt_eq_toNat_cond, twosComplement]
  show (if 2 * word.toNat < 2 ^ 64 then (word.toNat : Int) else word.toNat - (2 ^ 64 : Nat)) = _
  split <;> split <;> omega

theorem twosComplement_bounds {register : Nat} (h : register < 2 ^ 64) :
    -2 ^ 63 ≤ twosComplement register ∧ twosComplement register < 2 ^ 63 := by
  unfold twosComplement
  split <;> omega

/-- The fingerprint is the register of the division bit by bit, as a signed integer.  On numbers
without bound the table gives the same register.  At the end and after each byte, each bit of the
division, and each bit that goes into the table, a register has 64 bits, so the fingerprint is a
signed integer of 64 bits. -/
theorem ofBytes_eq_serial (bytes : List UInt8) :
    ofBytes bytes = twosComplement (Serial.register bytes) ∧
    (∀ length, (register (bytes.take length)).toNat = Serial.register (bytes.take length) ∧
      Unbounded.register (bytes.take length) = Serial.register (bytes.take length) ∧
      Unbounded.register (bytes.take length) < 2 ^ 64) ∧
    (∀ (length : Nat) (byte : UInt8) (count : Nat),
      shiftOut^[count] (Serial.register (bytes.take length) ^^^ byte.toNat) < 2 ^ 64) ∧
    (∀ (low : UInt8) (count : Nat), shiftOut^[count] low.toNat < 2 ^ 64) ∧
    -2 ^ 63 ≤ ofBytes bytes ∧ ofBytes bytes < 2 ^ 63 := by
  have hbyte (byte : UInt8) : byte.toNat < 2 ^ 64 := byte.toNat_lt.trans (by decide)
  have hvalue : ofBytes bytes = twosComplement (Serial.register bytes) := by
    rw [ofBytes, signed_eq, toNat_register]
  refine ⟨hvalue, fun length => ?_, fun length byte count => ?_, fun low count => ?_, ?_⟩
  · rw [toNat_register, Unbounded.register_eq]
    exact ⟨rfl, rfl, Serial.register_lt _⟩
  · exact iterate_shiftOut_lt count (Nat.xor_lt_two_pow (Serial.register_lt _) (hbyte byte))
  · exact iterate_shiftOut_lt count (hbyte low)
  · rw [hvalue]
    exact twosComplement_bounds (Serial.register_lt bytes)

/-- The word int between double quotes, whose fingerprint is known. -/
example : twosComplement (Serial.register [0x22, 0x69, 0x6e, 0x74, 0x22]) =
    8247732601305521295 := by decide +kernel

end Lineage.Fingerprint
