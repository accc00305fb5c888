import Lineage.Stored.Issue
import Lineage.Text.Blank

/-!
# Checked reading

A check reads a part of a data tree and either has a result or has issues.
Checks that stand side by side (`Check.zip`, `Check.each`) report the issues of
all of them, in order; a check that needs the result of another one follows it
in a `do` block and reports the first one's issues only.
-/

namespace Lineage

/-- A result, or the issues that stood in its way. -/
abbrev Check (α : Type) := Except (List Issue) α

namespace Check

variable {α β : Type}

/-- A check that fails for one trouble at the place it looks at. -/
def fail (trouble : Trouble) : Check α := .error [⟨[], trouble⟩]

/-- Both results, or the issues of both. -/
def zip : Check α → Check β → Check (α × β)
  | .ok a, .ok b => .ok (a, b)
  | .error issues, .ok _ => .error issues
  | .ok _, .error issues => .error issues
  | .error issues, .error more => .error (issues ++ more)

/-- The check of a part, reached by one step. -/
def under (step : PathStep) : Check α → Check α
  | .ok a => .ok a
  | .error issues => .error (issues.map fun issue => { issue with path := step :: issue.path })

/-- The check of every item, the first of which is reached by the given index. -/
def each (check : Value → Check α) : Int → List Value → Check (List α)
  | _, [] => .ok []
  | index, item :: items =>
    match (check item).under (.index index), each check (index + 1) items with
    | .ok a, .ok rest => .ok (a :: rest)
    | .error issues, .ok _ => .error issues
    | .ok _, .error issues => .error issues
    | .error issues, .error more => .error (issues ++ more)

/-! ## Fields of a record -/

/-- The fields of a record. -/
def record (model : String) : Value → Check (List (Key × Value))
  | .record fields => .ok fields
  | _ => fail (.notRecord model)

/-- A field that has to be there. -/
def required (fields : List (Key × Value)) (name : String) (check : Value → Check α) : Check α :=
  match Value.lookup? fields name with
  | some value => (check value).under (.key name)
  | none => .error [⟨[.key name], .missing⟩]

/-- A field that may be absent. -/
def optional (fields : List (Key × Value)) (name : String) (default : α)
    (check : Value → Check α) : Check α :=
  match Value.lookup? fields name with
  | some value => (check value).under (.key name)
  | none => .ok default

/-- The step to a field.  A name that counts as an integer of 64 bits is shown as an index, one that
is no text as it stands inside data. -/
def stepTo : Key → PathStep
  | .text name => .key name
  | .bool b => .index (if b then 1 else 0)
  | .int n => if fitsWord n then .index n else .key (toString n)
  | key => .key key.literal

/-- What is wrong with a field that nobody asked for. -/
def strayIssue (key : Key) : Issue :=
  ⟨[stepTo key], if key matches .text _ then .unknownField else .fieldNotNamed⟩

/-- There are no fields but the known ones. -/
def closed (fields : List (Key × Value)) (known : List String) : Check Unit :=
  match fields.filter fun entry => !known.any fun name => entry.1 == .text name with
  | [] => .ok ()
  | strays => .error (strays.map fun entry => strayIssue entry.1)

/-! ## Scalars -/

def text : Value → Check String
  | .text s => .ok s
  | _ => fail .notText

def name : Value → Check Name
  | .text s =>
    match Name.ofText? s with
    | some name => .ok name
    | none => fail .emptyText
  | _ => fail .notText

/-- Null, or what another check accepts. -/
def nullable (check : Value → Check α) : Value → Check (Option α)
  | .null => .ok none
  | value => (check value).map some

/-- One of several words. -/
def oneOf (choices : List String) : Value → Check String
  | .text s => if choices.contains s then .ok s else fail (.notOneOf choices)
  | _ => fail (.notOneOf choices)

/-- A list of items that each pass a check. -/
def list (check : Value → Check α) : Value → Check (List α)
  | .list items => each check 0 items
  | _ => fail .notList

/-- A set, given as a list in any order and with repetitions. -/
def set [Ord α] [Std.TransOrd α] [Std.LawfulEqOrd α] (check : Value → Check α) :
    Value → Check (SortedSet α)
  | .list items => (each check 0 items).map SortedSet.ofList
  | _ => fail .notSet

/-! ## Integers from looser data -/

/-- How many digits an integer may have, as in JSON. -/
def integerLengthLimit : Nat := 4300

/-- A text behind a zero, without the zeros and underscores that follow.  Before a point one zero
stays.  A minus sign may follow; of a text of zeros and underscores the last character is left. -/
def behindZeros? (last : Char) : List Char → Option (List Char)
  | [] => some [last]
  | c :: rest =>
    if c = '0' ∨ c = '_' then behindZeros? c rest
    else if c = '-' ∨ c.isDigit then some (c :: rest)
    else if c = '.' then some (last :: c :: rest)
    else none

/-- A text that begins with a digit or a minus sign, without leading zeros. -/
def withoutZeros? : List Char → Option (List Char)
  | '0' :: rest => behindZeros? '0' rest
  | c :: rest => if c = '-' ∨ c.isDigit then some (c :: rest) else none
  | [] => none

/-- A text without a point and the zeros after it, of which there is at least one. -/
def withoutFraction? (text : List Char) : Option (List Char) :=
  match text.dropWhile (· ≠ '.') with
  | [] => some text
  | _ :: zeros =>
    if zeros ≠ [] ∧ zeros.all (· = '0') then some (text.takeWhile (· ≠ '.')) else none

/-- Whether some underscore follows another one. -/
def hasDoubleUnderscore : List Char → Bool
  | '_' :: '_' :: _ => true
  | _ :: rest => hasDoubleUnderscore rest
  | [] => false

/-- A text without its underscores, if each stands alone and neither at the start nor at the end. -/
def withoutUnderscores? (text : List Char) : Option (List Char) :=
  if text.head? = some '_' ∨ text.getLast? = some '_' ∨ hasDoubleUnderscore text then none
  else some (text.filter (· ≠ '_'))

/-- The integer that digits write behind a minus sign or none.  Zero alone begins with zero. -/
def plainInteger (text : List Char) : Except Trouble Int :=
  let (negative, digits) : Bool × List Char :=
    match text with
    | '-' :: digits => (true, digits)
    | digits => (false, digits)
  let run := digits.takeWhile Char.isDigit
  if run = [] ∨ (run.head? = some '0' ∧ run ≠ ['0']) then .error .notIntegerText
  else if integerLengthLimit < run.length then .error .integerTooLarge
  else if run ≠ digits then .error .notIntegerText
  else
    let magnitude : Int := Nat.ofDigitChars 10 run 0
    .ok (if negative then -magnitude else magnitude)

/-- The integer that a text shows.  White space around it does not count, nor do a plus sign before
a digit, leading zeros, single underscores and a fraction of zeros. -/
def integerOfText (text : String) : Except Trouble Int :=
  let trimmed := Text.trimWhile Text.isSpace text.toList
  let unsigned : Option (List Char) :=
    match trimmed with
    | '+' :: '-' :: _ => none
    | '+' :: rest => some rest
    | rest => some rest
  match ((unsigned.bind withoutZeros?).bind withoutFraction?).bind withoutUnderscores? with
  | some digits => plainInteger digits
  | none => .error .notIntegerText

/-- The integer that a number is: it has no fraction, and its magnitude is below that of the least
word of 64 bits. -/
def integerOfNumber (x : Numeral) : Except Trouble Int :=
  match x.dyadic? with
  | none => .error .integerNotFinite
  | some value =>
    match value.toInt? with
    | none => .error .integerWithFraction
    | some n => if n.natAbs < twoTo 63 then .ok n else .error .integerTooLarge

/-- An integer: a number without fraction, a truth value counted as one or zero, or a text that
shows an integer. -/
def integer : Value → Check Int
  | .int n => .ok n
  | .bool b => .ok (if b then 1 else 0)
  | .number x =>
    match integerOfNumber x with
    | .ok n => .ok n
    | .error trouble => fail trouble
  | .text s =>
    match integerOfText s with
    | .ok n => .ok n
    | .error trouble => fail trouble
  | _ => fail .notInteger

/-! ## Truth values from looser data -/

def falseWords : List String := ["0", "off", "f", "false", "n", "no"]
def trueWords : List String := ["1", "on", "t", "true", "y", "yes"]

/-- One stands for true and zero for false. -/
def boolOfInteger (n : Int) : Check Bool :=
  if n = 1 then .ok true else if n = 0 then .ok false else fail .unclearBool

/-- A truth value: one or zero, or one of the words for it in letters of either case.  An integer
beyond 64 bits is not looked at. -/
def bool : Value → Check Bool
  | .bool b => .ok b
  | .int n => if fitsWord n then boolOfInteger n else fail .notBool
  | .number x =>
    match integerOfNumber x with
    | .ok n => boolOfInteger n
    | .error _ => fail .notBool
  | .text s =>
    let word := Text.lower s
    if trueWords.contains word then .ok true
    else if falseWords.contains word then .ok false
    else fail .unclearBool
  | _ => fail .notBool

end Check

end Lineage
