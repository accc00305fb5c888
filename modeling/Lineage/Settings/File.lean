import Lineage.Settings.Basic

/-!
# The settings file

The file holds one variable a line, a name, an equals sign and a value, with
blanks around them and perhaps the word `export` in front.  A value may stand
in quotes, and then it may go over several lines and hold escapes; without
quotes it ends before a blank that is followed by a number sign.  A name without
an equals sign has no value, and a line that cannot be read is passed over.

A value may refer to other variables by their names in braces behind a dollar
sign, with a default behind a colon and a minus sign.  A name means the variable
that the file has set so far, or else that of the environment; its value stands
as it is, whatever it holds.
-/

namespace Lineage.SettingsFile

/-! ## Lines -/

/-- A text in which a line feed ends every line, without a mark of byte order at its start. -/
def plainLines : List Char → List Char
  | '\r' :: '\n' :: rest => '\n' :: plainLines rest
  | '\r' :: rest => '\n' :: plainLines rest
  | c :: rest => c :: plainLines rest
  | [] => []

def withoutMark : List Char → List Char
  | '\uFEFF' :: rest => rest
  | text => text

def isInlineBlank (c : Char) : Bool := Text.isBlank c && c != '\n'

def afterLine (text : List Char) : List Char := (text.dropWhile (· ≠ '\n')).drop 1

/-! ## Values -/

/-- The characters up to the closing mark, which counts as closing also after a backslash if no
other one follows. -/
def quotedBody (mark : Char) : List Char → Option (List Char × List Char)
  | [] => none
  | '\\' :: c :: rest =>
    if c = mark then
      match quotedBody mark rest with
      | some (body, rest) => some ('\\' :: c :: body, rest)
      | none => some (['\\'], rest)
    else (quotedBody mark (c :: rest)).map fun (body, rest) => ('\\' :: body, rest)
  | c :: rest =>
    if c = mark then some ([], rest)
    else (quotedBody mark rest).map fun (body, rest) => (c :: body, rest)

/-- The character that a letter after a backslash stands for between two marks. -/
def escaped? (mark letter : Char) : Option Char :=
  if letter = '\\' ∨ letter = '\'' then some letter
  else if mark = '\'' then none
  else
    match letter with
    | '"' => some '"'
    | 'a' => some '\x07'
    | 'b' => some '\x08'
    | 'f' => some '\x0c'
    | 'n' => some '\n'
    | 'r' => some '\r'
    | 't' => some '\t'
    | 'v' => some '\x0b'
    | _ => none

def unescape (mark : Char) : List Char → List Char
  | '\\' :: letter :: rest =>
    match escaped? mark letter with
    | some c => c :: unescape mark rest
    | none => '\\' :: unescape mark (letter :: rest)
  | c :: rest => c :: unescape mark rest
  | [] => []

/-- A text without quotes, up to the first blank that a number sign follows. -/
def beforeComment : List Char → List Char
  | [] => []
  | c :: rest =>
    if Text.isBlank c && (rest.dropWhile Text.isBlank).head? == some '#' then []
    else c :: beforeComment rest

def value? (text : List Char) : Option (String × List Char) :=
  match text with
  | [] => some ("", [])
  | c :: rest =>
    if c = '\'' ∨ c = '"' then
      (quotedBody c rest).map fun (body, rest) => (String.ofList (unescape c body), rest)
    else
      some (String.ofList (Text.dropEndWhile Text.isBlank (beforeComment (text.takeWhile (· ≠ '\n')))),
        text.dropWhile (· ≠ '\n'))

/-! ## Bindings -/

/-- The name at the head of a text. -/
def name? : List Char → Option (String × List Char)
  | '\'' :: rest =>
    match rest.takeWhile (· ≠ '\''), rest.dropWhile (· ≠ '\'') with
    | [], _ | _, [] => none
    | name, _ :: rest => some (String.ofList name, rest)
  | text =>
    let fits (c : Char) : Bool := c != '=' && c != '#' && !Text.isBlank c
    match text.takeWhile fits with
    | [] => none
    | name => some (String.ofList name, text.dropWhile fits)

/-- A text without the word `export` and the blanks after it. -/
def skipExport (text : List Char) : List Char :=
  match text with
  | 'e' :: 'x' :: 'p' :: 'o' :: 'r' :: 't' :: c :: rest =>
    if isInlineBlank c then rest.dropWhile isInlineBlank else text
  | _ => text

/-- Whether nothing but a comment is left on the current line. -/
def lineIsDone (text : List Char) : Bool :=
  match text.dropWhile isInlineBlank with
  | [] => true
  | c :: _ => c == '\n' || c == '#'

def line (text : List Char) : Option (String × Option String) × List Char :=
  match name? (skipExport text) with
  | none => (none, afterLine text)
  | some (name, rest) =>
    match rest.dropWhile isInlineBlank with
    | '=' :: rest =>
      match value? (rest.dropWhile isInlineBlank) with
      | none => (none, afterLine rest)
      | some (value, rest) =>
        (if lineIsDone rest then some (name, some value) else none, afterLine rest)
    | rest => (if lineIsDone rest then some (name, none) else none, afterLine rest)

/-- What the lines of a text say; `fuel` bounds their number. -/
def lines : Nat → List Char → Variables
  | 0, _ => []
  | fuel + 1, text =>
    match text.dropWhile Text.isBlank with
    | [] => []
    | text =>
      let (said, rest) := line text
      said.toList ++ lines fuel rest

/-! ## References -/

/-- The name and the default of the reference whose brace was opened before a text, and the rest
behind it. -/
def reference? (text : List Char) : Option (List Char × List Char × List Char) :=
  let name := text.takeWhile fun c => c ≠ ':' ∧ c ≠ '\x7d'
  match text.drop name.length with
  | '\x7d' :: rest => some (name, [], rest)
  | ':' :: '-' :: rest =>
    match rest.dropWhile (· ≠ '\x7d') with
    | _ :: after => some (name, rest.takeWhile (· ≠ '\x7d'), after)
    | [] => none
  | _ => none

/-- A text with its references replaced.  A variable without value counts as empty, and one that is
not there as the default.  `fuel` bounds the steps. -/
def expand (known : String → Option (Option String)) : Nat → List Char → List Char
  | 0, text => text
  | fuel + 1, text =>
    match text with
    | [] => []
    | '$' :: '\x7b' :: inside =>
      match reference? inside with
      | some (name, default, rest) =>
        let value :=
          match known (String.ofList name) with
          | some value => (value.getD "").toList
          | none => default
        value ++ expand known fuel rest
      | none => '$' :: expand known fuel ('\x7b' :: inside)
    | c :: rest => c :: expand known fuel rest

/-- The variables with one more, in whose value the references are replaced. -/
def bind (environment known : Variables) (said : String × Option String) : Variables :=
  let find? (name : String) : Option (Option String) :=
    (known.lookup name).or (environment.lookup name)
  known.set said.1 (said.2.map fun value =>
    String.ofList (expand find? (value.toList.length + 1) value.toList))

def read (environment : Variables) (text : String) : Variables :=
  let text := plainLines (withoutMark text.toList)
  (lines (text.length + 1) text).foldl (bind environment) []

end Lineage.SettingsFile
