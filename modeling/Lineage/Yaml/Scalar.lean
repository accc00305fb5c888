import Lineage.Text.Hex
import Lineage.Value
import Lineage.Yaml.Moment

/-!
# What plain scalars stand for

A plain scalar is null, a truth value, an integer, a number with a point, a date,
or else a text.  Integers are written in base two, eight, ten, sixteen or sixty,
and underscores in them do not count; in base ten they have a limited number of
digits.  A number has a point, and its exponent a sign.  Two scalars that are left
for other uses, `<<` and `=`, stand for nothing.
-/

namespace Lineage.Yaml.Scalar

/-! ## Words -/

def nullWords : List String := ["", "~", "null", "Null", "NULL"]

def trueWords : List String :=
  ["yes", "Yes", "YES", "true", "True", "TRUE", "on", "On", "ON"]

def falseWords : List String :=
  ["no", "No", "NO", "false", "False", "FALSE", "off", "Off", "OFF"]

/-! ## Digits -/

def sign : List Char → Bool × List Char
  | '-' :: rest => (true, rest)
  | '+' :: rest => (false, rest)
  | rest => (false, rest)

def isDigitOf (base : Nat) (c : Char) : Bool := (Hex.value? c).any (· < base)

/-- Digits of a base and underscores. -/
def isRun (base : Nat) (text : List Char) : Bool :=
  text.all fun c => isDigitOf base c || c == '_'

/-- A digit, and after it digits and underscores. -/
def isNumber (text : List Char) : Bool := text.head?.any (isDigitOf 10) && isRun 10 text

/-- The number that digits of a base and underscores write. -/
def valueOf (base : Nat) (text : List Char) : Nat :=
  (text.filterMap Hex.value?).foldl (fun total digit => total * base + digit) 0

def parts (text : List Char) : List (List Char) := text.splitOn ':'

/-- One or two digits that write a number below sixty. -/
def isSixtieth : List Char → Bool
  | [a] => isDigitOf 10 a
  | [a, b] => isDigitOf 6 a && isDigitOf 10 b
  | _ => false

/-! ## Integers -/

/-- The digits behind the mark of a base. -/
def based (base : Nat) (text : List Char) : Except Fault Nat :=
  if text.all (· == '_') then .error (.noDigits base) else .ok (valueOf base text)

def digitLimit : Nat := 4300

def decimalDigits (text : List Char) : Except Fault Nat :=
  let count := (text.filter (· ≠ '_')).length
  if digitLimit < count then .error (.tooManyDigits count) else .ok (valueOf 10 text)

def natural? (text : List Char) : Option (Except Fault Nat) :=
  match text with
  | ['0'] => some (.ok 0)
  | '0' :: 'b' :: rest =>
    if rest ≠ [] ∧ isRun 2 rest then some (based 2 rest) else none
  | '0' :: 'x' :: rest =>
    if rest ≠ [] ∧ isRun 16 rest then some (based 16 rest) else none
  -- a leading zero alone means base eight, and then eight and nine are no digits
  | '0' :: rest => if isRun 8 rest then some (.ok (valueOf 8 rest)) else none
  | _ =>
    match parts text with
    | first :: more =>
      if isNumber first ∧ more.all isSixtieth then
        some ((decimalDigits first).map fun whole =>
          more.foldl (fun total part => total * 60 + valueOf 10 part) whole)
      else none
    | [] => none

def integer? (text : List Char) : Option (Except Fault Int) :=
  let (negative, text) := sign text
  (natural? text).map fun found => found.map fun n => if negative then -(n : Int) else n

/-! ## Numbers with a point -/

def exponent? : List Char → Option Int
  | [] => some 0
  | e :: mark :: digits =>
    if (e = 'e' ∨ e = 'E') ∧ (mark = '-' ∨ mark = '+') ∧ digits ≠ [] ∧ digits.all Char.isDigit then
      some (if mark = '-' then -(valueOf 10 digits : Int) else valueOf 10 digits)
    else none
  | _ => none

/-- The number whose digits are `whole`, as a number already read, and those of a fraction. -/
def decimal (negative : Bool) (whole : Nat) (fraction : List Char) (exponent : Int) : Decimal :=
  let digits := fraction.filter (· ≠ '_')
  ⟨negative, whole * tenTo digits.length + valueOf 10 digits, exponent - digits.length⟩

/-- The number with the given digits in base sixty, the most significant first.  The terms are
added from the least significant one on, and each sum is rounded to a double. -/
def sixtieths (negative : Bool) (digits : List Decimal) : Numeral :=
  let total := (digits.reverse.foldl (fun (sum : Float × Nat) digit =>
    (sum.1 + digit.toFloat * (⟨false, sum.2, 0⟩ : Decimal).toFloat, sum.2 * 60)) (0, 1)).1
  .ofFloat (if negative then -total else total)

/-- The digits of a fraction and an exponent behind them. -/
def fraction? (text : List Char) : Option (List Char × Int) :=
  let isPart (c : Char) : Bool := c.isDigit || c == '_'
  (exponent? (text.dropWhile isPart)).map fun exponent => (text.takeWhile isPart, exponent)

def infinityWords : List String := [".inf", ".Inf", ".INF"]
def undefinedWords : List String := [".nan", ".NaN", ".NAN"]

def pointed? (negative : Bool) (text : List Char) : Option Numeral :=
  match text.dropWhile (· ≠ '.') with
  | '.' :: rest =>
    match parts (text.takeWhile (· ≠ '.')), fraction? rest with
    | [whole], some (fraction, exponent) =>
      if isNumber whole then some (.finite (decimal negative (valueOf 10 whole) fraction exponent))
      else none
    | first :: more, some (fraction, _) =>
      if isNumber first ∧ more.all isSixtieth ∧ isRun 10 rest then
        let last := decimal false ((more.getLast?.map (valueOf 10)).getD 0) fraction 0
        let before := (first :: more.dropLast).map fun part => decimal false (valueOf 10 part) [] 0
        some (sixtieths negative (before ++ [last]))
      else none
    | _, _ => none
  | _ => none

def number? (text : List Char) : Option Numeral :=
  let (negative, unsigned) := sign text
  if infinityWords.contains (String.ofList unsigned) then some (.infinite negative)
  else if undefinedWords.contains (String.ofList text) then some .undefined
  else
    match text with
    | '.' :: rest =>
      if rest.head?.any Char.isDigit then
        (fraction? rest).map fun (fraction, exponent) => .finite (decimal false 0 fraction exponent)
      else none
    | _ => pointed? negative unsigned

/-! ## All scalars -/

def value (text : String) : Except Fault Value :=
  if nullWords.contains text then .ok .null
  else if trueWords.contains text then .ok (.bool true)
  else if falseWords.contains text then .ok (.bool false)
  else if text = "<<" ∨ text = "=" then .error .malformed
  else
    match number? text.toList, integer? text.toList, Moment.ofText? text.toList with
    | some x, _, _ => .ok (.number x)
    | none, some n, _ => n.map Value.int
    | none, none, some moment =>
      match moment.fault? with
      | some fault => .error fault
      | none => .ok (.moment moment)
    | none, none, none => .ok (.text text)

end Lineage.Yaml.Scalar
