/-! A place in a YAML text: the characters to come, and where in its lines the
next of them stands. -/
namespace HeaderGather.Yaml

/-- A line break, or the end of the text. -/
def isBreak (c : Char) : Bool := c = '\n' || c = '\u2028' || c = '\u2029'

def isBlank (c : Char) : Bool := c = ' ' || c = '\t'

/-- Whether nothing, a blank or a break comes here. -/
def isGap : Option Char → Bool
  | none => true
  | some c => isBlank c || isBreak c

/-- Letters of names: of anchors, of tag handles and of directives. -/
def isWordChar (c : Char) : Bool := c.isAlphanum || c = '_' || c = '-'

/-- Control characters, surrogates and the last two code points of the first
plane are not in a YAML text. -/
def isAllowed (c : Char) : Bool :=
  let n := c.toNat
  n = 0x09 || n = 0x0A || n = 0x0D || (0x20 ≤ n && n ≤ 0x7E) || n = 0x85
    || (0xA0 ≤ n && n ≤ 0xFFFD) || 0x10000 ≤ n

/-- The text with every line break of one or two characters written as a newline. -/
def withNewlines : List Char → List Char
  | '\r' :: '\n' :: rest => '\n' :: withNewlines rest
  | c :: rest => (if c = '\r' || c = '\u0085' then '\n' else c) :: withNewlines rest
  | [] => []

structure Cursor where
  rest : List Char
  column : Nat := 0
  line : Nat := 0
  /-- How many bytes the characters passed take. -/
  index : Nat := 0
  deriving Repr

namespace Cursor

def peek? (k : Cursor) : Option Char := k.rest.head?

def peekAt? (k : Cursor) (n : Nat) : Option Char := k.rest[n]?

def next (k : Cursor) : Cursor :=
  match k.rest with
  | [] => k
  | c :: rest =>
    if isBreak c then ⟨rest, 0, k.line + 1, k.index + c.utf8Size⟩
    else ⟨rest, k.column + 1, k.line, k.index + c.utf8Size⟩

def skip : Nat → Cursor → Cursor
  | 0, k => k
  | n + 1, k => skip n k.next

def skipWhile (k : Cursor) (p : Char → Bool) : Cursor := k.skip (k.rest.takeWhile p).length

def span (k : Cursor) (p : Char → Bool) : List Char × Cursor :=
  let taken := k.rest.takeWhile p
  (taken, k.skip taken.length)

/-- Three dashes or dots that begin a line and stand alone. -/
def atMark (k : Cursor) (c : Char) : Bool :=
  k.column = 0 && k.rest.take 3 = [c, c, c] && isGap (k.peekAt? 3)

def atDocumentMark (k : Cursor) : Bool := k.atMark '-' || k.atMark '.'

/-- The rest of a line that holds no more than blanks and a comment. -/
def finishLine? (k : Cursor) : Option Cursor :=
  let k := k.skipWhile isBlank
  let k := if k.peek? = some '#' then k.skipWhile fun c => !isBreak c else k
  match k.peek? with
  | none => some k
  | some c => if isBreak c then some k.next else none

end Cursor

end HeaderGather.Yaml
