import Lineage.Yaml.Content
import Lineage.Yaml.Structure

/-!
# Reading YAML

A text is cut into tokens, the tokens make up a tree, and the value of the text
is that of the tree's content.

This is YAML without anchors, aliases, tags and directives: a text that has one
is refused as malformed.  What is proved of JSON texts needs none of them, and
what is proved of loading holds for any other decoder as well.
-/

namespace Lineage.Yaml

def read (text : String) : Except Fault Value :=
  match Node.ofTokens (Token.ofText text) with
  | .error fault => .error fault
  | .ok root =>
    match root.content.fault? with
    | some fault => .error fault
    | none => .ok root.content.value

end Lineage.Yaml
