import HeaderGather.Yaml.Token.Tag

/-! YAML tokens. Indentation opens and closes block collections. A key is known
as one only by the colon after it, so the place of each possible key is kept, and
a colon puts the tokens of the key before it. -/
namespace HeaderGather.Yaml

inductive Style where
  | plain
  | literal
  | quoted
  deriving DecidableEq, Repr

inductive Token where
  | directive (line : Line)
  | documentStart
  | documentEnd
  | blockSequence
  | blockMapping
  | blockEnd
  | flowSequence
  | flowSequenceEnd
  | flowMapping
  | flowMappingEnd
  | blockEntry
  | flowEntry
  | key
  | value
  | alias (name : String)
  | anchor (name : String)
  | tag (tag : Tag)
  | scalar (text : String) (style : Style)
  | streamEnd
  deriving DecidableEq, Repr

/-- A place where a key may have begun, before the token of number `at_`. -/
structure PossibleKey where
  /-- Nothing but a key can stand here. -/
  required : Bool
  place : Nat
  start : Cursor

structure Lexing where
  cursor : Cursor
  tokens : Array Token := #[]
  /-- The place of a possible key outside flow collections. -/
  blockKey : Option PossibleKey := none
  /-- The place of a possible key in each flow collection around, the innermost first. -/
  flowKeys : List (Option PossibleKey) := []
  indent : Int := -1
  indents : List Int := []
  keyAllowed : Bool := true

namespace Lexing

def inFlow (s : Lexing) : Bool := !s.flowKeys.isEmpty

def key? (s : Lexing) : Option PossibleKey := s.flowKeys.head?.getD s.blockKey

def setKey (s : Lexing) (key : Option PossibleKey) : Lexing :=
  match s.flowKeys with
  | [] => { s with blockKey := key }
  | _ :: outer => { s with flowKeys := key :: outer }

def column (s : Lexing) : Int := s.cursor.column

def push (s : Lexing) (token : Token) : Lexing := { s with tokens := s.tokens.push token }

def allow (s : Lexing) (keyAllowed : Bool) : Lexing := { s with keyAllowed }

def skip (s : Lexing) (n : Nat) : Lexing := { s with cursor := s.cursor.skip n }

/-- Passes blanks, comments and breaks. A tab may not stand where a key may. -/
def toNextToken : (fuel : Nat) → Lexing → Lexing
  | 0, s => s
  | fuel + 1, s =>
    let k := s.cursor
    let k := if k.column = 0 && k.peek? = some '\uFEFF' then k.next else k
    let k := k.skipWhile fun c => c = ' ' || (c = '\t' && (s.inFlow || !s.keyAllowed))
    let k := if k.peek? = some '#' then k.skipWhile fun c => !isBreak c else k
    if k.peek?.any isBreak then
      toNextToken fuel { s with cursor := k.next, keyAllowed := s.keyAllowed || !s.inFlow }
    else { s with cursor := k }

/-- A key ends on the line where it began, within 1024 bytes. -/
def isStale (s : Lexing) (key : PossibleKey) : Bool :=
  key.start.line < s.cursor.line || key.start.index + 1024 < s.cursor.index

/-- Forgets the possible key of the innermost collection if it is stale. A required
one, which no flow collection has, may not become stale. -/
def dropStaleKey? (s : Lexing) : Option Lexing :=
  if s.blockKey.any fun key => key.required && s.isStale key then none
  else if s.key?.any s.isStale then some (s.setKey none)
  else some s

/-- Closes the block collections that are indented more than a column. -/
def closeBlocks : (indents : List Int) → Int → Lexing → Lexing
  | indents, column, s =>
    if column < s.indent then
      match indents with
      | [] => { s with indent := -1, indents := [] }.push .blockEnd
      | outer :: rest =>
        closeBlocks rest column ({ s with indent := outer, indents := rest }.push .blockEnd)
    else s

def unindent (s : Lexing) (column : Int) : Lexing :=
  if s.inFlow then s else closeBlocks s.indents column s

/-- Opens a block collection at a column, before the token of a given number. -/
def indentAt (s : Lexing) (column : Int) (place : Nat) (token : Token) : Lexing :=
  if s.inFlow || column ≤ s.indent then s
  else
    { s with
      indent := column
      indents := s.indent :: s.indents
      tokens := s.tokens.insertIdxIfInBounds place token }

def indentHere (s : Lexing) (token : Token) : Lexing :=
  s.indentAt s.column s.tokens.size token

/-- Forgets the possible key of the innermost collection, unless it is required. -/
def dropKey? (s : Lexing) : Option Lexing :=
  if s.key?.any (·.required) then none else some (s.setKey none)

/-- Keeps this place as that of a possible key, if a key may stand here. -/
def keepKey? (s : Lexing) : Option Lexing :=
  if s.keyAllowed then do
    let s ← s.dropKey?
    let required := !s.inFlow && s.indent = s.column
    pure (s.setKey (some ⟨required, s.tokens.size, s.cursor⟩))
  else some s

def openFlow? (s : Lexing) (token : Token) : Option Lexing := do
  let s ← s.keepKey?
  pure (({ s with flowKeys := none :: s.flowKeys }.allow true).skip 1 |>.push token)

def closeFlow? (s : Lexing) (token : Token) : Option Lexing := do
  let s ← s.dropKey?
  pure (({ s with flowKeys := s.flowKeys.tail }.allow false).skip 1 |>.push token)

def item? (s : Lexing) : Option Lexing := do
  let s ←
    if s.inFlow then some s
    else if s.keyAllowed then some (s.indentHere .blockSequence)
    else none
  let s ← s.dropKey?
  pure ((s.allow true).skip 1 |>.push .blockEntry)

def explicitKey? (s : Lexing) : Option Lexing := do
  let s ←
    if s.inFlow then some s
    else if s.keyAllowed then some (s.indentHere .blockMapping)
    else none
  let s ← s.dropKey?
  pure ((s.allow !s.inFlow).skip 1 |>.push .key)

def colon? (s : Lexing) : Option Lexing :=
  match s.key? with
  | some key =>
    let s := { s with tokens := s.tokens.insertIdxIfInBounds key.place .key }
    let s := s.indentAt key.start.column key.place .blockMapping
    some (((s.setKey none).allow false).skip 1 |>.push .value)
  | none => do
    let s ←
      if s.inFlow then some s
      else if s.keyAllowed then some (s.indentHere .blockMapping)
      else none
    pure ((s.allow !s.inFlow).skip 1 |>.push .value)

def documentMark? (s : Lexing) (token : Token) : Option Lexing := do
  let s ← (s.unindent (-1)).dropKey?
  pure ((s.allow false).skip 3 |>.push token)

def directiveLine? (s : Lexing) : Option Lexing := do
  let s ← (s.unindent (-1)).dropKey?
  let (line, cursor) ← directive? s.cursor
  pure ({ s with cursor, keyAllowed := false }.push (.directive line))

/-- A token that may be a key or begin one. -/
def leaf? (s : Lexing) (read : Cursor → Option (Token × Cursor)) : Option Lexing := do
  let s ← s.keepKey?
  let (token, cursor) ← read s.cursor
  pure ({ s with cursor, keyAllowed := false }.push token)

def blockScalar? (s : Lexing) (fuel : Nat) (literal : Bool) : Option Lexing := do
  let s ← s.dropKey?
  let (text, cursor) ← block? fuel literal s.indent s.cursor
  pure ({ s with cursor, keyAllowed := true }.push
    (.scalar (String.ofList text) (if literal then .literal else .quoted)))

def quotedScalar? (s : Lexing) (fuel : Nat) (single : Bool) : Option Lexing :=
  s.leaf? fun k => (quoted? fuel single k).map fun (text, k) =>
    (.scalar (String.ofList text) .quoted, k)

def plainScalar? (s : Lexing) (fuel : Nat) : Option Lexing := do
  let s ← s.keepKey?
  let (text, cursor, broken) ← plain? fuel s.inFlow (s.indent + 1) s.cursor
  pure ({ s with cursor, keyAllowed := broken }.push (.scalar (String.ofList text) .plain))

/-- Characters that begin a plain scalar under a condition or not at all. -/
def isIndicator (c : Char) : Bool :=
  c ∈ ['-', '?', ':', ',', '[', ']', '{', '}', '#', '&', '*', '!', '|', '>', '\'', '"', '%', '@',
    '\x60']

def startsPlain (s : Lexing) (c : Char) : Bool :=
  let after := s.cursor.peekAt? 1
  (!isGap (some c) && !isIndicator c)
    || (c = '-' && !after.any isBlank)
    || (!s.inFlow && (c = '?' || c = ':') && !isGap after)

/-- The token that begins with this character. The fuel is enough when it is the
number of characters to come. -/
def token? (s : Lexing) (fuel : Nat) (c : Char) : Option Lexing :=
  let k := s.cursor
  let apart := isGap (k.peekAt? 1)
  if k.column = 0 && c = '%' then s.directiveLine?
  else if k.atMark '-' then s.documentMark? .documentStart
  else if k.atMark '.' then s.documentMark? .documentEnd
  else if c = '[' then s.openFlow? .flowSequence
  else if c = '{' then s.openFlow? .flowMapping
  else if c = ']' then s.closeFlow? .flowSequenceEnd
  else if c = '}' then s.closeFlow? .flowMappingEnd
  else if c = ',' then do
    let s ← s.dropKey?
    pure ((s.allow true).skip 1 |>.push .flowEntry)
  else if c = '-' && apart then s.item?
  else if c = '?' && (s.inFlow || apart) then s.explicitKey?
  else if c = ':' && (s.inFlow || apart) then s.colon?
  else if c = '*' then
    s.leaf? fun k => (anchorName? k).map fun (name, k) => (.alias name, k)
  else if c = '&' then
    s.leaf? fun k => (anchorName? k).map fun (name, k) => (.anchor name, k)
  else if c = '!' then s.leaf? fun k => (tag? s.inFlow k).map fun (tag, k) => (.tag tag, k)
  else if c = '|' && !s.inFlow then s.blockScalar? fuel true
  else if c = '>' && !s.inFlow then s.blockScalar? fuel false
  else if c = '\'' then s.quotedScalar? fuel true
  else if c = '"' then s.quotedScalar? fuel false
  else if s.startsPlain c then s.plainScalar? fuel
  else none

/-- The end of the text closes every block. -/
def finish? (s : Lexing) : Option Lexing := do
  let s ← (s.unindent (-1)).dropKey?
  pure (s.push .streamEnd)

/-- Reads the tokens left; every token takes a character at least, and so does every
break before it. -/
def run? : (fuel : Nat) → Lexing → Option Lexing
  | 0, _ => none
  | fuel + 1, s => do
    let s ← (s.toNextToken (fuel + 1)).dropStaleKey?
    let s := s.unindent s.column
    match s.cursor.peek? with
    | none => s.finish?
    | some c => run? fuel (← s.token? (fuel + 1) c)

end Lexing

def tokens? (text : String) : Option (List Token) :=
  if text.toList.all isAllowed then
    let rest := withNewlines text.toList
    (Lexing.run? (rest.length + 1) { cursor := { rest } }).map fun s => s.tokens.toList
  else none

end HeaderGather.Yaml
