import Lineage.Yaml.Token

/-!
# The tree of a token sequence

Tokens of the indented language make up one tree.  What may stand at a place
depends on the next token alone: an item or a value that is left out is seen by
the token that would follow it.  The items of a list that is the value of a key
may stand in the column of the key; such a list has no start and no end of its
own.

A text holds one document, or none, which is an absent node.
-/

namespace Lineage.Yaml.Structure

/-- Whether a place is left empty if this is the next token: an item, a key, a value or an end.
Tokens that follow only inside records are counted on request. -/
def endsPlace (inRecord : Bool) : List Token → Bool
  | .collectionEnd :: _ => true
  | .item :: _ => !inRecord
  | .key :: _ => inRecord
  | .value :: _ => inRecord
  | _ => false

def endsBareItem : List Token → Bool
  | .collectionEnd :: _ | .item :: _ | .key :: _ | .value :: _ => true
  | _ => false

/-- What is wrong with a token sequence whose next token does not fit. -/
def unfit : List Token → Fault
  | .broken fault :: _ => fault
  | _ => .malformed

mutual

/-- The node at the head of a token sequence, and the rest.  `bare` says whether a list without
start may stand there; `fuel` bounds the steps. -/
def node : Nat → Bool → List Token → Except Fault (Node × List Token)
  | 0, _, _ => .error .malformed
  | fuel + 1, bare, tokens =>
    match tokens with
    | .node found :: rest => .ok (found, rest)
    | .listStart :: rest => (items fuel rest).map fun (items, rest) => (.list items, rest)
    | .recordStart :: rest => (fields fuel rest).map fun (fields, rest) => (.record fields, rest)
    | .item :: _ =>
      if bare then (bareItems fuel tokens).map fun (items, rest) => (.list items, rest)
      else .error .malformed
    | _ => .error (unfit tokens)

def items : Nat → List Token → Except Fault (List Node × List Token)
  | 0, _ => .error .malformed
  | fuel + 1, tokens =>
    match tokens with
    | .collectionEnd :: rest => .ok ([], rest)
    | .item :: rest => do
      let (first, rest) ← if endsPlace false rest then .ok (.absent, rest) else node fuel false rest
      let (more, rest) ← items fuel rest
      return (first :: more, rest)
    | _ => .error (unfit tokens)

def bareItems : Nat → List Token → Except Fault (List Node × List Token)
  | 0, _ => .error .malformed
  | fuel + 1, tokens =>
    match tokens with
    | .item :: rest => do
      let (first, rest) ← if endsBareItem rest then .ok (.absent, rest) else node fuel false rest
      let (more, rest) ← bareItems fuel rest
      return (first :: more, rest)
    | _ => .ok ([], tokens)

def fields : Nat → List Token → Except Fault (List (Node × Node) × List Token)
  | 0, _ => .error .malformed
  | fuel + 1, tokens =>
    match tokens with
    | .collectionEnd :: rest => .ok ([], rest)
    | .key :: rest => do
      let (key, rest) ← if endsPlace true rest then .ok (.absent, rest) else node fuel true rest
      let (value, rest) ← value fuel rest
      let (more, rest) ← fields fuel rest
      return ((key, value) :: more, rest)
    | _ => .error (unfit tokens)

def value : Nat → List Token → Except Fault (Node × List Token)
  | 0, _ => .error .malformed
  | fuel + 1, tokens =>
    match tokens with
    | .value :: rest => if endsPlace true rest then .ok (.absent, rest) else node fuel true rest
    | _ => .ok (.absent, tokens)

end

/-- The node of a document, behind its mark if it has one, and the rest. -/
def content (fuel : Nat) : List Token → Except Fault (Node × List Token)
  | [] => .ok (.absent, [])
  | .documentStart :: rest =>
    match rest with
    | [] | .documentStart :: _ | .documentEnd :: _ => .ok (.absent, rest)
    | _ => node fuel false rest
  | tokens => node fuel false tokens

end Structure

/-- The tree of a token sequence.  Behind the document there are at most marks of its end. -/
def Node.ofTokens (tokens : List Token) : Except Fault Node :=
  match Structure.content (2 * tokens.length + 2) tokens with
  | .error fault => .error fault
  | .ok (root, rest) =>
    match rest.dropWhile fun token => token matches .documentEnd with
    | [] => .ok root
    | rest => .error (Structure.unfit rest)

end Lineage.Yaml
