import HeaderGather.Pattern.Basic

/-! The spelling of patterns. A question mark is any byte, a star any bytes, a
pair of stars beside slashes any directories, brackets hold a class, braces hold
branches, and a backslash takes the next character as it is. A slash has no
other privilege. -/
namespace HeaderGather.Pattern

inductive Problem where
  | unclosedClass
  | invalidRange (low high : Char)
  | unclosedGroup
  | unopenedGroup
  | danglingEscape
  deriving DecidableEq, Repr

def Problem.message : Problem → String
  | .unclosedClass => "unclosed character class; missing ']'"
  | .invalidRange low high =>
    "invalid range; '" ++ low.toString ++ "' > '" ++ high.toString ++ "'"
  | .unclosedGroup =>
    "unclosed alternate group; missing '\x7d' (maybe escape '\x7b' with '[\x7b]'?)"
  | .unopenedGroup =>
    "unopened alternate group; missing '\x7b' (maybe escape '\x7d' with '[\x7d]'?)"
  | .danglingEscape => "dangling '\\'"

def slash : Pattern := .byte (.single 0x2F)

inductive Token where
  | literal (c : Char)
  | any
  | star
  /-- Two stars at the beginning: any directories, or none. -/
  | leading
  /-- Two stars at the end, with the slash before them. -/
  | trailing
  /-- Two stars in the middle, with the slashes around them. -/
  | inner
  | ofClass (negated : Bool) (ranges : List (Char × Char))
  /-- A closed group; a group whose branches are all empty says nothing. -/
  | group (pattern : Option Pattern)
  deriving DecidableEq, Repr

/-- A class holds bytes: a range runs from the last byte of its lower end to the
first byte of its upper end, and the other bytes stand for themselves. -/
def byteRanges (low high : Char) : List (UInt8 × UInt8) :=
  let single (b : UInt8) := (b, b)
  let lows := String.utf8EncodeChar low
  let highs := String.utf8EncodeChar high
  if low = high then lows.map single
  else
    lows.dropLast.map single
      ++ (lows.getLast?.bind fun a => highs.head?.map fun b => (a, b)).toList
      ++ highs.tail.map single

def Token.pattern? : Token → Option Pattern
  | .literal c => some (exactly (String.utf8EncodeChar c))
  | .any => some (.byte .all)
  | .star => some .run
  | .leading => some (.either .blank (.either slash (.seq .run slash)))
  | .trailing => some (.seq slash .run)
  | .inner => some (.either slash (.seq slash (.seq .run slash)))
  | .ofClass negated ranges =>
    some (.byte ⟨negated, ranges.flatMap fun r => byteRanges r.1 r.2⟩)
  | .group pattern => pattern

def ofTokens? (tokens : List Token) : Option Pattern :=
  match tokens.filterMap Token.pattern? with
  | [] => none
  | ps => some (seqAll ps)

/-- A group begun and not closed: the tokens before it and its finished branches. -/
structure OpenGroup where
  before : List Token
  branches : List (List Token)
  deriving Repr

/-- A pattern half read, the last token first. -/
structure Reading where
  tokens : List Token
  groups : List OpenGroup
  deriving Repr

namespace Reading

def push (r : Reading) (token : Token) : Reading := { r with tokens := token :: r.tokens }

def openGroup (r : Reading) : Reading := ⟨[], ⟨r.tokens, []⟩ :: r.groups⟩

/-- A comma ends a branch; outside groups it is a character like others. -/
def comma (r : Reading) : Reading :=
  match r.groups with
  | [] => r.push (.literal ',')
  | g :: gs => ⟨[], { g with branches := r.tokens.reverse :: g.branches } :: gs⟩

/-- Empty branches are left out. -/
def closeGroup (r : Reading) : Except Problem Reading :=
  match r.groups with
  | [] => .error .unopenedGroup
  | g :: gs =>
    let branches := (r.tokens.reverse :: g.branches).reverse.filterMap ofTokens?
    let pattern := if branches = [] then none else some (oneOf branches)
    .ok ⟨.group pattern :: g.before, gs⟩

/-- A pair of stars takes the place of the token before it, unless that token is
a pair of stars already. -/
def replaceLast (r : Reading) (token : Token) : Reading :=
  match r.tokens with
  | .leading :: _ => r
  | .trailing :: _ => r
  | _ :: before => { r with tokens := token :: before }
  | [] => r.push token

/-- Two stars between the characters `prev` and `next`, and whether they take
`next`, a slash, with them. Elsewhere than beside slashes they are two stars. -/
def doubleStar (r : Reading) (prev next : Option Char) : Reading × Bool :=
  let plain := ((r.push .star).push .star, false)
  if r.tokens = [] then
    match next with
    | none => (r.push .leading, false)
    | some c => if c = '/' then (r.push .leading, true) else plain
  else if prev ≠ some '/' && (r.groups.isEmpty || (prev ≠ some ',' && prev ≠ some '{')) then plain
  else
    match next with
    | none => (r.replaceLast .trailing, false)
    | some c =>
      if c = '/' then (r.replaceLast .inner, true)
      else if (c = ',' || c = '}') && !r.groups.isEmpty then (r.replaceLast .trailing, false)
      else plain

end Reading

/-- A class begun and not closed, the last range first. -/
structure OpenClass where
  negated : Bool
  ranges : List (Char × Char)
  /-- A range whose upper end is to come. -/
  inRange : Bool
  /-- No character read yet: a bracket or a dash stands for itself. -/
  first : Bool
  deriving Repr

namespace OpenClass

def opened (negated : Bool) : OpenClass := ⟨negated, [], false, true⟩

/-- A dash without an upper end stands for itself. -/
def close (k : OpenClass) : Token :=
  let ranges := if k.inRange then ('-', '-') :: k.ranges else k.ranges
  .ofClass k.negated ranges.reverse

/-- A character of the class, as a new range or as the upper end of the last. -/
def add (k : OpenClass) (c : Char) : Except Problem OpenClass :=
  match k.inRange, k.ranges with
  | true, (low, _) :: ranges =>
    if c < low then .error (.invalidRange low c)
    else .ok { k with ranges := (low, c) :: ranges, inRange := false, first := false }
  | _, _ => .ok { k with ranges := (c, c) :: k.ranges, inRange := false, first := false }

/-- The class after one more character, or the token of a class that it closes. -/
def step (k : OpenClass) (c : Char) : Except Problem (OpenClass ⊕ Token) :=
  if c = ']' && !k.first then .ok (.inr k.close)
  else if c = '-' && !k.first && !k.inRange then .ok (.inl { k with inRange := true })
  else (k.add c).map .inl

end OpenClass

/-- Reads characters into a pattern half read; `prev` is the character before. -/
def read : Option OpenClass → Reading → Option Char → List Char → Except Problem Reading
  | some _, _, _, [] => .error .unclosedClass
  | some k, r, _, c :: rest =>
    match k.step c with
    | .error problem => .error problem
    | .ok (.inl k) => read (some k) r (some c) rest
    | .ok (.inr token) => read none (r.push token) (some c) rest
  | none, r, _, [] => .ok r
  | none, _, _, ['\\'] => .error .danglingEscape
  | none, r, _, '\\' :: c :: rest => read none (r.push (.literal c)) (some c) rest
  | none, r, prev, '*' :: '*' :: rest =>
    match rest with
    | [] => .ok (r.doubleStar prev none).1
    | next :: after =>
      match r.doubleStar prev (some next) with
      | (r, true) => read none r (some next) after
      | (r, false) => read none r (some '*') (next :: after)
  | none, r, _, '[' :: '!' :: rest => read (some (.opened true)) r (some '!') rest
  | none, r, _, '[' :: '^' :: rest => read (some (.opened true)) r (some '^') rest
  | none, r, _, c :: rest =>
    if c = '[' then read (some (.opened false)) r (some c) rest
    else if c = '}' then
      match r.closeGroup with
      | .error problem => .error problem
      | .ok r => read none r (some c) rest
    else
      let r :=
        if c = '?' then r.push .any
        else if c = '*' then r.push .star
        else if c = '{' then r.openGroup
        else if c = ',' then r.comma
        else r.push (.literal c)
      read none r (some c) rest

/-- The pattern that a text spells. Two stars alone match every name. -/
def ofText (text : String) : Except Problem Pattern :=
  match read none ⟨[], []⟩ none text.toList with
  | .error problem => .error problem
  | .ok ⟨_, _ :: _⟩ => .error .unclosedGroup
  | .ok ⟨[.leading], []⟩ => .ok .run
  | .ok ⟨tokens, []⟩ => .ok ((ofTokens? tokens.reverse).getD .blank)

end HeaderGather.Pattern
