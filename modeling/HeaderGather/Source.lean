import HeaderGather.Fault
import HeaderGather.Text.Lines

/-! A source is what a reader delivers: bytes, and then the end or a fault. A
reader that fails in the middle of a line delivers nothing of that line. -/
namespace HeaderGather

structure Source where
  bytes : Text.Bytes
  /-- How reading ends when it does not reach the end of the file. -/
  fault? : Option Fault := none
  deriving DecidableEq, Repr

namespace Source

def pieces (s : Source) : List Text.Bytes :=
  let all := Text.splitAfter Text.newline s.bytes
  if s.fault? = none then all else all.filter fun p => p.getLast? = some Text.newline

def lines (s : Source) : List (List Char) := s.pieces.map Text.lineOf

end Source

end HeaderGather
