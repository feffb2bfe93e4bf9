import HeaderGather.Text.Numeral
import HeaderGather.Yaml.Cursor

/-! Scalars. A line break between two parts of a plain or quoted scalar becomes a
space, and each further break a newline. A block scalar keeps its breaks, or folds
them likewise between lines that do not begin with a blank. The fuel of a reader is
enough when it is the number of characters from the beginning of the scalar on. -/
namespace HeaderGather.Yaml

/-- Blanks and breaks between two parts of a scalar. -/
structure Gap where
  blanks : List Char := []
  /-- Whether a break was met; the blanks around breaks are dropped. -/
  broken : Bool := false
  first : List Char := []
  further : List Char := []
  length : Nat := 0
  deriving Repr

namespace Gap

def text (g : Gap) : List Char :=
  if !g.broken then g.blanks
  else if g.first = ['\n'] then if g.further = [] then [' '] else g.further
  else g.first ++ g.further

/-- Reads a gap; the text ends with it or goes on with another character. A tab
in the indentation, before the column `indent`, is refused. -/
def read (indent : Int) : Gap → (column : Nat) → List Char → Option Gap
  | g, _, [] => some g
  | g, column, c :: rest =>
    let length := g.length + 1
    if isBlank c then
      if g.broken && c = '\t' && (column : Int) < indent then none
      else if g.broken then read indent { g with length } (column + 1) rest
      else read indent { g with blanks := g.blanks ++ [c], length } (column + 1) rest
    else if isBreak c then
      if g.broken then read indent { g with further := g.further ++ [c], length } 0 rest
      else read indent { broken := true, first := [c], length } 0 rest
    else some g

end Gap

/-! Plain scalars. -/

def isFlowMark (c : Char) : Bool := c ∈ [',', '[', ']', '{', '}']

/-- The part of a plain scalar up to a blank, a break or a mark that ends it. In
flow context a colon before a mark is refused. -/
def plainPart? (flow : Bool) : List Char → Option (List Char)
  | [] => some []
  | c :: rest =>
    if isGap (some c) then some []
    else if flow && c = ':' && rest.head?.any (fun d => isFlowMark d || d = '?') then none
    else if (c = ':' && isGap rest.head?) || (flow && isFlowMark c) then some []
    else (plainPart? flow rest).map (c :: ·)

/-- A plain scalar from a part of it on: the text from the gap before that part on,
where it ends, and whether its last gap broke the line. -/
def plainFrom (flow : Bool) (indent : Int) :
    (fuel : Nat) → (gap : Gap) → Cursor → Option (List Char × Cursor × Bool)
  | 0, _, _ => none
  | fuel + 1, gap, k =>
    if k.atDocumentMark || k.peek? = some '#' then some ([], k, gap.broken)
    else do
      let part ← plainPart? flow k.rest
      if part = [] then some ([], k, gap.broken)
      else
        let text := gap.text ++ part
        let k := k.skip part.length
        if k.rest = [] || !isGap k.peek? then some (text, k, false)
        else
          let gap ← Gap.read indent {} k.column k.rest
          let k := k.skip gap.length
          if !flow && (k.column : Int) < indent then some (text, k, gap.broken)
          else
            let (more, k, broken) ← plainFrom flow indent fuel gap k
            pure (text ++ more, k, broken)

def plain? (fuel : Nat) (flow : Bool) (indent : Int) (k : Cursor) :
    Option (List Char × Cursor × Bool) :=
  plainFrom flow indent fuel {} k

/-! Quoted scalars. -/

/-- The character with a code, unless the code is that of a surrogate or too large. -/
def charOfCode? (n : Nat) : Option Char :=
  if (0xD800 ≤ n && n < 0xE000) || 0x10FFFF < n then none else some (Char.ofNat n)

def shortEscape? (c : Char) : Option Char :=
  [('0', '\x00'), ('a', '\x07'), ('b', '\x08'), ('t', '\t'), ('\t', '\t'), ('n', '\n'),
    ('v', '\x0b'), ('f', '\x0c'), ('r', '\r'), ('e', '\x1b'), (' ', ' '), ('"', '"'),
    ('/', '/'), ('\\', '\\'), ('N', '\u0085'), ('_', '\u00a0'), ('L', '\u2028'),
    ('P', '\u2029')].lookup c

/-- How many hexadecimal digits follow the letter of an escape. -/
def escapeDigits? (c : Char) : Option Nat := [('x', 2), ('u', 4), ('U', 8)].lookup c

/-- One escape after its backslash: the character and how many it took. -/
def escape? : List Char → Option (Char × Nat)
  | [] => none
  | c :: rest =>
    match escapeDigits? c with
    | none => (shortEscape? c).map fun d => (d, 1)
    | some n =>
      if (rest.take n).length = n then
        ((Text.number? 16 (rest.take n)).bind charOfCode?).map fun d => (d, n + 1)
      else none

/-- The next character of a quoted scalar and how many characters spell it; none
at a blank, a break, the end or the closing quote. -/
inductive QuotedStep where
  | char (c : Char) (length : Nat)
  /-- A backslash before a break, which drops the break. -/
  | joinLines
  | stop
  | refused

def quotedStep (single : Bool) (rest : List Char) : QuotedStep :=
  match rest with
  | [] => .stop
  | c :: after =>
    if isGap (some c) then .stop
    else if single then
      if c = '\'' then if after.head? = some '\'' then .char '\'' 2 else .stop
      else .char c 1
    else if c = '"' then .stop
    else if c = '\\' then
      if after.head?.any isBreak then .joinLines
      else match escape? after with
        | some (d, n) => .char d (n + 1)
        | none => .refused
    else .char c 1

/-- The part of a quoted scalar up to a gap or the closing quote, and whether a
backslash ended its line. -/
def quotedPart? (single : Bool) : (fuel : Nat) → Cursor → Option (List Char × Cursor × Bool)
  | 0, _ => none
  | fuel + 1, k =>
    match quotedStep single k.rest with
    | .stop => some ([], k, false)
    | .joinLines => some ([], k.skip 2, true)
    | .refused => none
    | .char c n => do
      let (part, k, joined) ← quotedPart? single fuel (k.skip n)
      pure (c :: part, k, joined)

def quotedFrom (single : Bool) : (fuel : Nat) → Cursor → Option (List Char × Cursor)
  | 0, _ => none
  | fuel + 1, k =>
    if k.atDocumentMark || k.rest = [] then none
    else do
      let (part, k, joined) ← quotedPart? single (fuel + 1) k
      if k.peek? = some (if single then '\'' else '"') then some (part, k.next)
      else
        let gap ← Gap.read 0 { broken := joined } k.column k.rest
        let (more, k) ← quotedFrom single fuel (k.skip gap.length)
        pure (part ++ gap.text ++ more, k)

/-- A quoted scalar, from its opening quote on. -/
def quoted? (fuel : Nat) (single : Bool) (k : Cursor) : Option (List Char × Cursor) :=
  quotedFrom single fuel k.next

/-! Block scalars. -/

/-- What the header of a block scalar says of the breaks at its end. -/
inductive Chomping where
  | strip
  | clip
  | keep
  deriving DecidableEq

structure BlockHeader where
  chomping : Chomping := .clip
  /-- Spaces of indentation beyond that around the scalar, if given. -/
  indent : Option Nat := none

def chompingOf? (c : Char) : Option Chomping :=
  if c = '+' then some .keep else if c = '-' then some .strip else none

/-- One or both of a chomping mark and a digit, in either order. -/
def blockHeader? (k : Cursor) : Option (BlockHeader × Cursor) :=
  let digit? (k : Cursor) : Option (Option Nat × Cursor) :=
    match k.peek? with
    | some c =>
      if c = '0' then none
      else if c.isDigit then some (some (c.toNat - 0x30), k.next)
      else some (none, k)
    | none => some (none, k)
  match k.peek?.bind chompingOf? with
  | some chomping => (digit? k.next).map fun (indent, k) => (⟨chomping, indent⟩, k)
  | none =>
    match digit? k with
    | none => none
    | some (none, k) => some ({}, k)
    | some (some n, k) =>
      match k.peek?.bind chompingOf? with
      | some chomping => some (⟨chomping, some n⟩, k.next)
      | none => some (⟨.clip, some n⟩, k)

/-- Breaks and the indentation after them: the breaks, the widest indentation met,
and how many characters they took. -/
structure Breaks where
  breaks : List Char := []
  widest : Nat := 0
  length : Nat := 0

/-- Reads breaks and indentation, up to `indent` spaces if it is known. -/
def Breaks.read? (indent : Option Nat) : Breaks → (column : Nat) → List Char → Option Breaks
  | b, column, [] => some { b with widest := max b.widest column }
  | b, column, c :: rest =>
    let inside := indent.all (column < ·)
    let length := b.length + 1
    if c = ' ' && inside then read? indent { b with length } (column + 1) rest
    else
      let widest := max b.widest column
      if c = '\t' && inside then none
      else if isBreak c then read? indent ⟨b.breaks ++ [c], widest, length⟩ 0 rest
      else some { b with widest }

/-- What stands before a line of a block scalar: the break after the last line,
those after that one, and whether the last line began with a blank. -/
structure LineGap where
  lineBreak : List Char := []
  breaks : List Char := []
  afterBlank : Bool := false

def LineGap.text (literal : Bool) (g : LineGap) (blank : Bool) : List Char :=
  if !literal && g.lineBreak = ['\n'] && !g.afterBlank && !blank then
    if g.breaks = [] then [' '] else g.breaks
  else g.lineBreak ++ g.breaks

/-- The lines of a block scalar from a gap on, and the gap after the last of them. -/
def blockLines (literal : Bool) (indent : Nat) :
    (fuel : Nat) → LineGap → Cursor → Option (List Char × LineGap × Cursor)
  | 0, _, _ => none
  | fuel + 1, gap, k =>
    if k.column ≠ indent || k.rest = [] then some ([], gap, k)
    else do
      let blank := k.peek?.any isBlank
      let (line, k) := k.span fun c => !isBreak c
      let lineBreak := k.rest.take 1
      let k := k.next
      let b ← Breaks.read? (some indent) {} k.column k.rest
      let (more, last, k) ←
        blockLines literal indent fuel ⟨lineBreak, b.breaks, blank⟩ (k.skip b.length)
      pure (gap.text literal blank ++ line ++ more, last, k)

/-- A block scalar, from its mark on; `around` is the indentation around it. -/
def block? (fuel : Nat) (literal : Bool) (around : Int) (k : Cursor) :
    Option (List Char × Cursor) := do
  let (header, k) ← blockHeader? k.next
  let k ← k.finishLine?
  let given := header.indent.map fun n => if 0 ≤ around then around.toNat + n else n
  let b ← Breaks.read? given {} k.column k.rest
  let indent := given.getD (max b.widest (max (around + 1).toNat 1))
  let (text, last, k) ← blockLines literal indent fuel { breaks := b.breaks } (k.skip b.length)
  let kept := if header.chomping = .strip then text else text ++ last.lineBreak
  pure (if header.chomping = .keep then kept ++ last.breaks else kept, k)

end HeaderGather.Yaml
