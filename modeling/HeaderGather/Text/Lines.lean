import HeaderGather.Text.Utf8

/-! Lines. A file is cut after every newline byte, and each piece is decoded on
its own. No character has a newline byte inside it, so the lines are those of
the decoded text. -/
namespace HeaderGather.Text

/-- The pieces between the separators, one more than there are separators. -/
def splitOn {α : Type} [DecidableEq α] (sep : α) : List α → List (List α)
  | [] => [[]]
  | a :: rest =>
    if a = sep then [] :: splitOn sep rest
    else match splitOn sep rest with
      | [] => [[a]]
      | piece :: pieces => (a :: piece) :: pieces

/-- The pieces that end with the separator, and a last one without it when the
list does not end there. No piece is empty. -/
def splitAfter {α : Type} [DecidableEq α] (sep : α) : List α → List (List α)
  | [] => []
  | a :: rest =>
    if a = sep then [a] :: splitAfter sep rest
    else match splitAfter sep rest with
      | [] => [[a]]
      | piece :: pieces => (a :: piece) :: pieces

def newline : UInt8 := 0x0A

def isLineEnd (c : Char) : Bool := c = '\n' || c = '\r'

def dropEnd (p : Char → Bool) (text : List Char) : List Char :=
  (text.reverse.dropWhile p).reverse

/-- A line as the rest of the library sees it: decoded, without its line end. -/
def lineOf (piece : Bytes) : List Char :=
  dropEnd isLineEnd (decodeLossy piece)

end HeaderGather.Text
