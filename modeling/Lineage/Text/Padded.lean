/-!
# Numbers of a fixed width

The parts of a date and of a time of day are written with zeros in front.
-/

namespace Lineage.Text

/-- A number with zeros in front of it up to a width. -/
def padded (width n : Nat) : String :=
  let digits := Nat.toDigits 10 n
  String.ofList (List.replicate (width - digits.length) '0' ++ digits)

end Lineage.Text
