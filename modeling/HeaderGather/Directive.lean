import HeaderGather.Text.Blank

/-! Include directives, one line at a time. A directive names its header between
angle brackets or quotes, up to the last closing character of the line. -/
namespace HeaderGather

inductive Directive where
  /-- A line that is no include directive. -/
  | other
  /-- A directive that names no header. -/
  | malformed
  | include (text name : List Char)
  deriving DecidableEq, Repr

namespace Directive

def keyword : List Char := "#include ".toList

def isSeparator (c : Char) : Bool := c = '/' || c = '\\'

def baseName (text : List Char) : List Char :=
  (text.reverse.takeWhile fun c => !isSeparator c).reverse

def closing? (c : Char) : Option Char :=
  if c = '<' then some '>' else if c = '"' then some '"' else none

def beforeLast? (c : Char) (text : List Char) : Option (List Char) :=
  match text.reverse.dropWhile (· ≠ c) with
  | [] => none
  | _ :: before => some before.reverse

/-- The argument of a directive, from its opening character on. -/
def ofArgument : List Char → Directive
  | [] => .malformed
  | opening :: body =>
    match (closing? opening).bind fun c => beforeLast? c body with
    | none => .malformed
    | some text =>
      if baseName text = [] then .malformed else .include text (baseName text)

def ofLine (line : List Char) : Directive :=
  match keyword.isPrefixOf? line with
  | none => .other
  | some rest => ofArgument (Text.trimStart rest)

end Directive

end HeaderGather
