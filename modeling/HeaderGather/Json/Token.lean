import HeaderGather.Json.Basic

/-! JSON tokens. Characters are read one at a time; blanks end a word and are
dropped, a quote begins a text that ends with the next quote not escaped. -/
namespace HeaderGather.Json

inductive Token where
  | openList
  | closeList
  | openObject
  | closeObject
  | comma
  | colon
  /-- A text between quotes, unless it holds half a surrogate pair. -/
  | text (value : Option String)
  /-- A word without quotes: a number, a truth value or null. -/
  | word (value : Json)

def isBlank (c : Char) : Bool := c = ' ' || c = '\n' || c = '\t' || c = '\r'

def mark? (c : Char) : Option Token :=
  if c = '[' then some .openList
  else if c = ']' then some .closeList
  else if c = '{' then some .openObject
  else if c = '}' then some .closeObject
  else if c = ',' then some .comma
  else if c = ':' then some .colon
  else none

/-! Numbers: a sign, digits without a leading zero, and, each optional, a
fraction and an exponent. -/

def isDigits (cs : List Char) : Bool := !cs.isEmpty && cs.all Char.isDigit

def isWhole (cs : List Char) : Bool := isDigits cs && (cs.length = 1 || cs.head? != some '0')

def dropSign (signs : List Char) : List Char → List Char
  | [] => []
  | c :: rest => if c ∈ signs then rest else c :: rest

def isNumber (cs : List Char) : Bool :=
  let body := dropSign ['-'] cs
  let mantissa := body.takeWhile fun c => c != 'e' && c != 'E'
  let exponent := body.drop mantissa.length
  let whole := mantissa.takeWhile (· != '.')
  let fraction := mantissa.drop whole.length
  isWhole whole && (fraction.isEmpty || isDigits fraction.tail)
    && (exponent.isEmpty || isDigits (dropSign ['+', '-'] exponent.tail))

def word? (cs : List Char) : Option Token :=
  if cs = "null".toList then some (.word .null)
  else if cs = "true".toList then some (.word (.bool true))
  else if cs = "false".toList then some (.word (.bool false))
  else if isNumber cs then some (.word (.number (String.ofList cs)))
  else none

/-! Texts between quotes. -/

def shortEscape? (c : Char) : Option Char :=
  if c = '"' then some '"'
  else if c = '\\' then some '\\'
  else if c = '/' then some '/'
  else if c = 'b' then some '\x08'
  else if c = 'f' then some '\x0c'
  else if c = 'n' then some '\n'
  else if c = 'r' then some '\r'
  else if c = 't' then some '\t'
  else none

/-- A piece of a text: a character, or a code unit written as an escape. -/
inductive Piece where
  | char (c : Char)
  | unit (n : Nat)
  deriving DecidableEq, Repr

/-- The pieces of what stands between quotes. Control characters have to be
escaped. -/
def pieces? : List Char → Option (List Piece)
  | [] => some []
  | '\\' :: 'u' :: a :: b :: c :: d :: rest => do
    pure (.unit (← Text.number? 16 [a, b, c, d]) :: (← pieces? rest))
  | '\\' :: c :: rest => do pure (.char (← shortEscape? c) :: (← pieces? rest))
  | ['\\'] => none
  | c :: rest => if c.toNat < 0x20 then none else (pieces? rest).map (.char c :: ·)

/-- The characters of the pieces, where a high unit and the low unit after it
make one character and no unit of either kind stands alone. -/
def joinPieces? : List Piece → Option (List Char)
  | [] => some []
  | .char c :: rest => (joinPieces? rest).map (c :: ·)
  | .unit high :: .unit low :: rest =>
    if 0xD800 ≤ high && high < 0xDC00 then
      if 0xDC00 ≤ low && low < 0xE000 then
        (joinPieces? rest).map
          (Char.ofNat (0x10000 + (high - 0xD800) * 0x400 + (low - 0xDC00)) :: ·)
      else none
    else if 0xDC00 ≤ high && high < 0xE000 then none
    else (joinPieces? (.unit low :: rest)).map (Char.ofNat high :: ·)
  | .unit n :: rest =>
    if 0xD800 ≤ n && n < 0xE000 then none else (joinPieces? rest).map (Char.ofNat n :: ·)

def text? (body : List Char) : Option Token :=
  (pieces? body).map fun pieces => .text ((joinPieces? pieces).map String.ofList)

/-- Where reading stands: between tokens, in a word, or in a text. The
characters read of a word or text are kept, the last first. -/
inductive Mode where
  | between
  | word (read : List Char)
  | text (read : List Char)
  /-- In a text, after a backslash. -/
  | escaped (read : List Char)

def begin? (c : Char) : Option (List Token × Mode) :=
  if isBlank c then some ([], .between)
  else if c = '"' then some ([], .text [])
  else match mark? c with
    | some token => some ([token], .between)
    | none => some ([], .word [c])

/-- One more character; the tokens it completes. -/
def next? : Mode → Char → Option (List Token × Mode)
  | .between, c => begin? c
  | .word read, c =>
    if isBlank c || c = '"' || (mark? c).isSome then do
      let token ← word? read.reverse
      let (tokens, mode) ← begin? c
      pure (token :: tokens, mode)
    else some ([], .word (c :: read))
  | .text read, c =>
    if c = '"' then (text? read.reverse).map fun token => ([token], .between)
    else if c = '\\' then some ([], .escaped (c :: read))
    else some ([], .text (c :: read))
  | .escaped read, c => some ([], .text (c :: read))

def tokensFrom? : Mode → List Char → Option (List Token)
  | .between, [] => some []
  | .word read, [] => (word? read.reverse).map ([·])
  | .text _, [] => none
  | .escaped _, [] => none
  | mode, c :: rest => do
    let (tokens, mode) ← next? mode c
    pure (tokens ++ (← tokensFrom? mode rest))

def tokens? (text : String) : Option (List Token) := tokensFrom? .between text.toList

end HeaderGather.Json
