/-! Bytes and characters. Decoding reads one byte at a time: a byte either
continues the character begun before it, or cuts that character off and starts
afresh. Each cut leaves one mark, so a text that cannot be decoded still keeps
its place and its line ends. -/
namespace HeaderGather.Text

abbrev Bytes := List UInt8

/-- A character begun and not finished. The next byte lies between `low` and
`high`, `further` bytes follow it, and `value` holds the bits read so far. -/
structure Begun where
  further : Nat
  low : UInt8
  high : UInt8
  value : Nat
  deriving DecidableEq, Repr

/-- One decoded item: a character, or the mark of a cut. -/
abbrev Decoded := Option Char

/-- What a byte outside any character begins. -/
def start (b : UInt8) : List Decoded × Option Begun :=
  if b < 0x80 then ([some (Char.ofNat b.toNat)], none)
  else if b < 0xC2 then ([none], none)
  else if b < 0xE0 then ([], some ⟨0, 0x80, 0xBF, b.toNat - 0xC0⟩)
  else if b = 0xE0 then ([], some ⟨1, 0xA0, 0xBF, 0⟩)
  else if b = 0xED then ([], some ⟨1, 0x80, 0x9F, 0xD⟩)
  else if b < 0xF0 then ([], some ⟨1, 0x80, 0xBF, b.toNat - 0xE0⟩)
  else if b = 0xF0 then ([], some ⟨2, 0x90, 0xBF, 0⟩)
  else if b < 0xF4 then ([], some ⟨2, 0x80, 0xBF, b.toNat - 0xF0⟩)
  else if b = 0xF4 then ([], some ⟨2, 0x80, 0x8F, 4⟩)
  else ([none], none)

/-- A byte out of range cuts the character and is read again as a first byte. -/
def step : Option Begun → UInt8 → List Decoded × Option Begun
  | none, b => start b
  | some k, b =>
    if k.low ≤ b ∧ b ≤ k.high then
      let value := k.value * 64 + (b.toNat - 0x80)
      match k.further with
      | 0 => ([some (Char.ofNat value)], none)
      | n + 1 => ([], some ⟨n, 0x80, 0xBF, value⟩)
    else
      let (out, next) := start b
      (none :: out, next)

def decodeFrom : Option Begun → Bytes → List Decoded
  | none, [] => []
  | some _, [] => [none]
  | k, b :: rest => (step k b).1 ++ decodeFrom (step k b).2 rest

/-- Every cut becomes one replacement character. -/
def decodeLossy (bytes : Bytes) : List Char :=
  (decodeFrom none bytes).map fun d => d.getD '\uFFFD'

/-- The text of the bytes, if no character is cut. -/
def decode? (bytes : Bytes) : Option (List Char) :=
  (decodeFrom none bytes).mapM id

def encode (text : List Char) : Bytes :=
  text.flatMap String.utf8EncodeChar

end HeaderGather.Text
