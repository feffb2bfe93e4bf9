import HeaderGather.Text.Utf8
import HeaderGather.Yaml.Token.Scalar

/-! Tags, anchors and directives. A tag is a handle and a suffix, or a whole tag
between angle brackets, whose handle is empty. A suffix is bytes, since it may spell
any of them, and it is over at a zero byte. -/
namespace HeaderGather.Yaml

structure Tag where
  handle : String
  suffix : Text.Bytes
  deriving DecidableEq, Repr

/-- Characters of a tag; in a whole tag also a comma and brackets. -/
def isTagChar (whole : Bool) (c : Char) : Bool :=
  isWordChar c || c ∈ ";/?:@&=+$.%!~*'()".toList || (whole && c ∈ [',', '[', ']'])

/-- How many bytes go on with the character that a byte begins. -/
def continuations? (b : UInt8) : Option Nat :=
  if b < 0x80 then some 0
  else if 0xC0 ≤ b && b < 0xE0 then some 1
  else if 0xE0 ≤ b && b < 0xF0 then some 2
  else if 0xF0 ≤ b && b < 0xF8 then some 3
  else none

/-- The bytes that the characters of a tag spell: a percent sign and two digits
spell one, any other character itself. After the first byte of a longer character,
the `awaited` bytes that go on with it come spelled likewise. -/
def tagBytes? : (awaited : Nat) → List Char → Option Text.Bytes
  | 0, [] => some []
  | _ + 1, [] => none
  | awaited, '%' :: a :: b :: rest => do
    let byte := UInt8.ofNat (← Text.number? 16 [a, b])
    let more ←
      match awaited with
      | 0 => continuations? byte
      | n + 1 => if 0x80 ≤ byte && byte < 0xC0 then some n else none
    (tagBytes? more rest).map (byte :: ·)
  | 0, c :: rest =>
    if c = '%' then none else (tagBytes? 0 rest).map (UInt8.ofNat c.toNat :: ·)
  | _ + 1, _ => none

/-- What a tag says before the first zero byte. -/
def upToZero (bytes : Text.Bytes) : Text.Bytes := bytes.takeWhile (· ≠ 0)

/-- The tag of a type that every document knows. -/
def typeTag (type : String) : Text.Bytes := Text.encode ("tag:yaml.org,2002:" ++ type).toList

/-- The bytes that the characters from here on spell, as far as a tag goes. -/
def tagText? (whole : Bool) (k : Cursor) : Option (Text.Bytes × Cursor) :=
  let (raw, k) := k.span (isTagChar whole)
  (tagBytes? 0 raw).map fun bytes => (bytes, k)

/-- A handle: an exclamation mark, and perhaps a word and a second mark. -/
def tagHandle? (k : Cursor) : Option (List Char × Cursor) :=
  if k.peek? = some '!' then
    let (word, k) := k.next.span isWordChar
    if k.peek? = some '!' then some ('!' :: word ++ ['!'], k.next) else some ('!' :: word, k)
  else none

/-- A tag without a handle; if nothing follows its mark, it is the mark. -/
def Tag.local (suffix : Text.Bytes) : Tag :=
  if suffix = [] then ⟨"", Text.encode ['!']⟩ else ⟨"!", suffix⟩

/-- A tag, from its exclamation mark on. It ends at a gap, or at a comma in flow
context. -/
def tag? (flow : Bool) (k : Cursor) : Option (Tag × Cursor) := do
  let (tag, k) ←
    if k.peekAt? 1 = some '<' then do
      let (suffix, k) ← tagText? true (k.skip 2)
      if suffix = [] || k.peek? ≠ some '>' then none else pure (⟨"", upToZero suffix⟩, k.next)
    else do
      let (handle, k) ← tagHandle? k
      if 2 ≤ handle.length && handle.getLast? = some '!' then
        let (suffix, k) ← tagText? false k
        if suffix = [] then none else pure (⟨String.ofList handle, upToZero suffix⟩, k)
      else
        let (more, k) ← tagText? false k
        pure (Tag.local (upToZero (Text.encode handle.tail ++ more)), k)
  if isGap k.peek? || (flow && k.peek? = some ',') then pure (tag, k) else none

def anchorName? (k : Cursor) : Option (String × Cursor) :=
  let (name, k) := k.next.span isWordChar
  let ends := isGap k.peek? || k.peek?.any fun c =>
    c ∈ ['?', ':', ',', ']', '}', '%', '@', '\x60']
  if name ≠ [] && ends then some (String.ofList name, k) else none

inductive Line where
  | version (major minor : Nat)
  | tagPrefix (handle : String) (start : Text.Bytes)
  deriving DecidableEq, Repr

def versionNumber? (k : Cursor) : Option (Nat × Cursor) :=
  let (digits, k) := k.span Char.isDigit
  if 9 < digits.length then none else (Text.number? 10 digits).map fun n => (n, k)

/-- A directive, from its percent sign to the end of its line. -/
def directive? (k : Cursor) : Option (Line × Cursor) := do
  let (name, k) := k.next.span isWordChar
  if !isGap k.peek? then none
  let k := k.skipWhile isBlank
  let (line, k) ←
    if name = "YAML".toList then do
      let (major, k) ← versionNumber? k
      if k.peek? ≠ some '.' then none
      let (minor, k) ← versionNumber? k.next
      pure (Line.version major minor, k)
    else if name = "TAG".toList then do
      let (handle, k) ← tagHandle? k
      if handle.length ≠ 1 && handle.getLast? ≠ some '!' then none
      if !k.peek?.any isBlank then none
      let (start, k) ← tagText? true (k.skipWhile isBlank)
      if start = [] || !isGap k.peek? then none
      pure (Line.tagPrefix (String.ofList handle) (upToZero start), k)
    else none
  (k.finishLine?).map fun k => (line, k)

end HeaderGather.Yaml
