import HeaderGather.FileTree.Access
import HeaderGather.Failure
import HeaderGather.Yaml.Document

/-! Settings from a YAML document. It is a mapping from names of settings to their
values; a setting that it does not name has its usual value, and a name that is
none of a setting's is passed over with whatever value it has. -/
namespace HeaderGather

namespace Yaml.Node

/-- A scalar as text, whatever it is written like. -/
def text? : Node → Option String
  | .scalar text _ _ => some text
  | _ => none

/-- Nothing at all, as an absent value leaves it. -/
def isAbsent : Node → Bool
  | .scalar text style _ => text = "" && style = .plain
  | _ => false

def texts? : Node → Option (List String)
  | .sequence items => items.mapM text?
  | node => if node.isAbsent then some [] else none

/-- Plain scalars, and literal ones with the tag of the type, are more than text. -/
def valueText? (type : String) : Node → Option String
  | .scalar text style tag =>
    if style = .plain || (style = .literal && tag = some (typeTag type)) then
      some text
    else none
  | _ => none

def bool? (node : Node) : Option Bool := do
  let text ← node.valueText? "bool"
  if text ∈ ["true", "True", "TRUE"] then some true
  else if text ∈ ["false", "False", "FALSE"] then some false
  else none

/-- Whether a number is written with a zero too many in front. -/
def hasLeadingZero (digits : List Char) : Bool :=
  1 < digits.length && digits.head? = some '0' && digits.all Char.isDigit

def startsSigned (cs : List Char) : Bool := cs.head? = some '+' || cs.head? = some '-'

/-- A number in base 16, 8 or 2 after its mark, if it is one. -/
def markedNumber? (cs : List Char) : Option Nat :=
  match cs with
  | '0' :: 'x' :: digits => Text.number? 16 digits
  | '0' :: 'o' :: digits => Text.number? 8 digits
  | '0' :: 'b' :: digits => Text.number? 2 digits
  | _ => none

/-- A whole number below 2^64, with a plus sign or without. -/
def natOf? (text : String) : Option Nat :=
  let cs := text.toList
  let body := if cs.head? = some '+' then cs.tail else cs
  let number :=
    match markedNumber? body with
    | some n => some n
    | none => if startsSigned body || hasLeadingZero body then none else Text.number? 10 body
  number.filter (· < UInt64.size)

def isNull (text : String) : Bool := text ∈ ["null", "Null", "NULL", "~"]

/-- A number, or null where none is wanted. -/
def optionalNat? (node : Node) : Option (Option Nat) :=
  match node with
  | .scalar text style tag =>
    let null : Bool :=
      if style ≠ .plain then false
      else match tag with
        | none => text = "" || isNull text
        | some tag => tag = typeTag "null" && isNull text
    if null then some none
    else if style = .plain && tag = some (typeTag "null") then none
    else ((node.valueText? "int").bind natOf?).map some
  | _ => none

end Yaml.Node

namespace Settings

open Yaml (Node)

/-- The settings with one named value, if the name is that of a setting. -/
def assign? (s : Settings) (name : String) (value : Node) : Option Settings :=
  if name = "cache_file_name" then value.text?.map fun v => { s with cacheFile := v }
  else if name = "source_root_key" then value.text?.map fun v => { s with rootKey := v }
  else if name = "patterns" then value.texts?.map fun v => { s with patterns := v }
  else if name = "include_window" then value.optionalNat?.map fun v => { s with window := v }
  else if name = "recursive" then value.bool?.map fun v => { s with recursive := v }
  else if name = "exclude_dirs" then value.texts?.map fun v => { s with excludedDirs := v }
  else if name = "dry_run" then value.bool?.map fun v => { s with dryRun := v }
  else some s

def names : List String :=
  ["cache_file_name", "source_root_key", "patterns", "include_window", "recursive",
    "exclude_dirs", "dry_run"]

/-- The settings of a mapping, where no setting is named twice. Names, values and
items of values may be aliases. -/
def ofEntries? (anchors : List (Nat × Node)) :
    (seen : List String) → Settings → List (Node × Node) → Option Settings
  | _, s, [] => some s
  | seen, s, (key, value) :: rest => do
    let name ← (key.resolve anchors).text?
    if names.contains name && seen.contains name then none
    else ofEntries? anchors (name :: seen) (← s.assign? name (value.resolveItems anchors)) rest

def ofDocument? (document : Node) : Option Settings :=
  match document.resolve document.anchors with
  | .mapping entries => ofEntries? document.anchors [] {} entries
  | node => if node.isAbsent then some {} else none

/-- The settings that a text holds, in one document at most. -/
def parse? (text : String) : Option Settings :=
  match Yaml.Document.readAll? text with
  | some [] => some {}
  | some [document] => ofDocument? document
  | _ => none

def ofYaml (text : String) : Except Failure Settings :=
  match parse? text with
  | none => .error (.settings .unreadable)
  | some s =>
    let s := { s with window := s.effectiveWindow }
    match s.problem? with
    | some problem => .error (.settings problem)
    | none => .ok s

def load (t : FileTree) (p : Path) : Except Failure Settings :=
  match t.readText p with
  | .error fault => .error (.settingsFile fault)
  | .ok text => ofYaml text

end Settings

end HeaderGather
