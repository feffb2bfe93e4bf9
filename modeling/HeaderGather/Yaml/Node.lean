import HeaderGather.Yaml.Token.Lexer

/-! YAML nodes. An anchor gives a node a number, and an alias stands for the last
node of its document that has the number, though it may come after the alias or
have the alias inside. -/
namespace HeaderGather.Yaml

inductive Node where
  /-- With the whole tag, if there is one. -/
  | scalar (text : String) (style : Style) (tag : Option Text.Bytes)
  | sequence (items : List Node)
  | mapping (entries : List (Node × Node))
  | anchored (number : Nat) (node : Node)
  | alias (number : Nat)
  deriving Repr, Inhabited

namespace Node

def empty (tag : Option Text.Bytes) : Node := .scalar "" .plain tag

mutual

/-- The anchored nodes in a node, the last first, before those found already. -/
def anchorsOnto (found : List (Nat × Node)) : Node → List (Nat × Node)
  | .anchored number node => anchorsOnto ((number, node) :: found) node
  | .sequence items => itemAnchorsOnto found items
  | .mapping entries => entryAnchorsOnto found entries
  | .scalar _ _ _ | .alias _ => found

def itemAnchorsOnto (found : List (Nat × Node)) : List Node → List (Nat × Node)
  | [] => found
  | item :: rest => itemAnchorsOnto (anchorsOnto found item) rest

def entryAnchorsOnto (found : List (Nat × Node)) : List (Node × Node) → List (Nat × Node)
  | [] => found
  | (key, value) :: rest =>
    entryAnchorsOnto (anchorsOnto (anchorsOnto found key) value) rest

end

def anchors (document : Node) : List (Nat × Node) := document.anchorsOnto []

/-- The node behind an anchor or an alias. -/
def resolve (anchors : List (Nat × Node)) : Node → Node
  | .anchored _ node => node
  | .alias number => (anchors.lookup number).getD (.alias number)
  | node => node

/-- The node behind an anchor or an alias, with the items behind theirs. -/
def resolveItems (anchors : List (Nat × Node)) (node : Node) : Node :=
  match node.resolve anchors with
  | .sequence items => .sequence (items.map (resolve anchors))
  | node => node

end Node

end HeaderGather.Yaml
