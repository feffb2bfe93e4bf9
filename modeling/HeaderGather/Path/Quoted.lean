import HeaderGather.Path
import HeaderGather.Text.Hidden
import HeaderGather.Text.Numeral

/-! A path between quotes, as a message shows it. Every path shows on one line,
and two paths that look alike can be told apart. -/
namespace HeaderGather.Path

/-- A character that stands for itself nowhere between quotes, after a backslash. -/
def escaped (c : Char) : List Char :=
  if c = '"' then ['\\', '"']
  else if c = '\\' then ['\\', '\\']
  else if c = '\n' then ['\\', 'n']
  else if c = '\t' then ['\\', 't']
  else if c = '\r' then ['\\', 'r']
  else if c = '\x00' then ['\\', '0']
  else if Text.isHidden c then Text.byCode c
  else [c]

def quoted (p : Path) : String :=
  String.ofList ('"' :: p.text.toList.flatMap escaped ++ ['"'])

end HeaderGather.Path
