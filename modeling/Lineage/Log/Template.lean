import Lineage.Value

/-!
# Message templates

A message may hold places for arguments: `%s` takes any value as it is shown,
`%d` takes a number and shows it without its fraction, and `%%` is a percent
sign.  A message without arguments is no template and stands as it is.
-/

namespace Lineage.Template

/-- What does not fit between a template and its arguments. -/
inductive Mismatch where
  | tooFewArguments
  | tooManyArguments
  | notNumber (kind : String)
  | endsInPercent
  | unknownPlace (c : Char) (index : Nat)
deriving DecidableEq, Repr

/-- The sentence for a mismatch. -/
def Mismatch.message : Mismatch → String
  | tooFewArguments => "not enough arguments for format string"
  | tooManyArguments => "not all arguments converted during string formatting"
  | notNumber kind => "%d format: a real number is required, not " ++ kind
  | endsInPercent => "incomplete format"
  | unknownPlace c index =>
    "unsupported format character '" ++
      String.singleton (if 31 ≤ c.toNat ∧ c.toNat ≤ 126 then c else '?') ++ "' (0x" ++
      String.ofList (Nat.toDigits 16 c.toNat) ++ ") at index " ++ toString index

/-- Whether the mismatch is between the arguments and the places for them. -/
def Mismatch.ofArguments : Mismatch → Bool
  | endsInPercent | unknownPlace .. => false
  | _ => true

/-- A number without its fraction. -/
def whole : Value → Except Mismatch String
  | .int n => .ok (toString n)
  | .bool b => .ok (if b then "1" else "0")
  | .number x =>
    match x.dyadic? with
    | some value => .ok (toString value.truncate)
    | none => .error (.notNumber (Value.kindName (.number x)))
  | value => .error (.notNumber value.kindName)

/-- The characters of a template from the given index on, with the arguments in place; and the
arguments left over. -/
def fill : Nat → List Char → List Value → Except Mismatch (List Char × List Value)
  | _, [], arguments => .ok ([], arguments)
  | index, '%' :: '%' :: rest, arguments => do
    let (filled, left) ← fill (index + 2) rest arguments
    return ('%' :: filled, left)
  | index, '%' :: 's' :: rest, arguments =>
    match arguments with
    | [] => .error .tooFewArguments
    | argument :: arguments => do
      let (filled, left) ← fill (index + 2) rest arguments
      return (argument.display.toList ++ filled, left)
  | index, '%' :: 'd' :: rest, arguments =>
    match arguments with
    | [] => .error .tooFewArguments
    | argument :: arguments => do
      let shown ← whole argument
      let (filled, left) ← fill (index + 2) rest arguments
      return (shown.toList ++ filled, left)
  | _, ['%'], _ => .error .endsInPercent
  | index, c :: rest, arguments =>
    if c = '%' then
      if arguments.isEmpty then .error .tooFewArguments
      else .error (.unknownPlace (rest.headD '%') (index + 1))
    else do
      let (filled, left) ← fill (index + 1) rest arguments
      return (c :: filled, left)

/-- A message with its arguments in place.  Every argument has to be used, save for a record with
fields that is the only one. -/
def apply (message : String) (arguments : List Value) : Except Mismatch String :=
  if arguments.isEmpty then .ok message
  else
    match fill 0 message.toList arguments with
    | .error mismatch => .error mismatch
    | .ok (filled, []) => .ok (String.ofList filled)
    | .ok (filled, [.record (_ :: _)]) =>
      if arguments.length = 1 then .ok (String.ofList filled) else .error .tooManyArguments
    | .ok _ => .error .tooManyArguments

end Lineage.Template
