/-!
# The 64-bit fingerprint of bytes

A Rabin fingerprint: the bytes are the coefficients of a polynomial over the
field of two elements, and the register holds its remainder by a fixed
polynomial of degree 64.  `absorbBit` is one step of the long division.  A byte
takes eight of them; `absorbByte` takes all eight at once by looking the effect
of the low byte up in a table of 256 words.

The fingerprint is the register read as a signed integer.
-/

namespace Lineage.Fingerprint

/-- The polynomial, and also the register before any byte is absorbed. -/
def seed : UInt64 := 0xC15D213AA4D7A795

/-- One step of the division: shift right, and subtract the polynomial if a one fell out. -/
def absorbBit (register : UInt64) : UInt64 :=
  if register &&& 1 = 1 then (register >>> 1) ^^^ seed else register >>> 1

/-- Several steps of the division. -/
def absorbBits : Nat → UInt64 → UInt64
  | 0, register => register
  | count + 1, register => absorbBits count (absorbBit register)

/-- What eight steps make of each low byte. -/
def table : Vector UInt64 256 := Vector.ofFn fun i => absorbBits 8 (UInt64.ofNat i)

/-- The register after one more byte. -/
def absorbByte (register : UInt64) (byte : UInt8) : UInt64 :=
  (register >>> 8) ^^^ table.get ⟨(register ^^^ byte.toUInt64).toNat % 256, Nat.mod_lt _ (by decide)⟩

/-- The register after all bytes. -/
def register (bytes : List UInt8) : UInt64 := bytes.foldl absorbByte seed

/-- A word read as a two's complement integer. -/
def signed (word : UInt64) : Int := word.toBitVec.toInt

/-- The fingerprint of a sequence of bytes. -/
def ofBytes (bytes : List UInt8) : Int := signed (register bytes)

/-- The fingerprint of the UTF-8 encoding of a text. -/
def ofText (text : String) : Int := ofBytes text.toUTF8.toList

end Lineage.Fingerprint
