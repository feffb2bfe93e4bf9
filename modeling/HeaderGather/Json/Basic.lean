import HeaderGather.Text.Numeral

/-! JSON values and their written forms. Objects keep the order of their members. -/
namespace HeaderGather

inductive Json where
  | null
  | bool (value : Bool)
  /-- A number as it is written. -/
  | number (digits : String)
  | text (value : String)
  | list (items : List Json)
  | object (members : List (String × Json))
  /-- Well-formed JSON that holds half a surrogate pair, which is in no text. -/
  | illegible
  deriving Repr, Inhabited

namespace Json

def ofNat (n : Nat) : Json := .number (toString n)

def escape (c : Char) : List Char :=
  if c = '"' then ['\\', '"']
  else if c = '\\' then ['\\', '\\']
  else if c = '\x08' then ['\\', 'b']
  else if c = '\x0c' then ['\\', 'f']
  else if c = '\n' then ['\\', 'n']
  else if c = '\r' then ['\\', 'r']
  else if c = '\t' then ['\\', 't']
  else if c.toNat < 0x20 then
    ['\\', 'u', '0', '0', Text.hexDigit (c.toNat / 16), Text.hexDigit (c.toNat % 16)]
  else [c]

def quote (text : String) : List Char :=
  '"' :: text.toList.flatMap escape ++ ['"']

structure Layout where
  /-- What a part at a depth begins with. -/
  before : Nat → List Char
  colon : List Char

/-- Nothing but what has to be. -/
def Layout.compact : Layout := ⟨fun _ => [], [':']⟩

/-- Each part on a line of its own, two spaces in. -/
def Layout.pretty : Layout :=
  ⟨fun depth => '\n' :: List.replicate (2 * depth) ' ', [':', ' ']⟩

mutual

def write (l : Layout) (depth : Nat) : Json → List Char
  | .null => "null".toList
  | .bool true => "true".toList
  | .bool false => "false".toList
  | .number digits => digits.toList
  | .text value => quote value
  | .list [] => ['[', ']']
  | .list (item :: items) =>
    '[' :: l.before (depth + 1) ++ write l (depth + 1) item ++ writeItems l (depth + 1) items
      ++ l.before depth ++ [']']
  | .object [] => ['{', '}']
  | .object ((key, value) :: members) =>
    '{' :: l.before (depth + 1) ++ quote key ++ l.colon ++ write l (depth + 1) value
      ++ writeMembers l (depth + 1) members ++ l.before depth ++ ['}']
  | .illegible => "null".toList

def writeItems (l : Layout) (depth : Nat) : List Json → List Char
  | [] => []
  | item :: items => ',' :: l.before depth ++ write l depth item ++ writeItems l depth items

def writeMembers (l : Layout) (depth : Nat) : List (String × Json) → List Char
  | [] => []
  | (key, value) :: members =>
    ',' :: l.before depth ++ quote key ++ l.colon ++ write l depth value
      ++ writeMembers l depth members

end

def compact (j : Json) : String := String.ofList (j.write .compact 0)

def pretty (j : Json) : String := String.ofList (j.write .pretty 0)

def member? (key : String) : Json → Option Json
  | .object members => members.lookup key
  | _ => none

end Json

end HeaderGather
