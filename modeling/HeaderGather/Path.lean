import HeaderGather.Text.Lines

/-! Paths are texts. Two spellings of one path have the same components: an
empty component, a dot after the beginning and a slash at the end do not count. -/
namespace HeaderGather

structure Path where
  text : String
  deriving DecidableEq, Repr, Inhabited

namespace Path

inductive Component where
  | root
  /-- The dot that a relative path begins with. -/
  | here
  | up
  | name (text : String)
  deriving DecidableEq, Repr

def isAbsolute (p : Path) : Bool := p.text.toList.head? = some '/'

def endsInSlash (p : Path) : Bool := p.text.toList.getLast? = some '/'

/-- The parts between slashes that are not empty. -/
def segments (p : Path) : List String :=
  (Text.splitOn '/' p.text.toList).filterMap fun part =>
    if part = [] then none else some (String.ofList part)

/-- What a segment says wherever it stands; a dot says nothing. -/
def Component.ofSegment? (segment : String) : Option Component :=
  if segment = "." then none
  else if segment = ".." then some .up
  else some (.name segment)

def components (p : Path) : List Component :=
  let beginning :=
    if p.isAbsolute then [Component.root]
    else if p.segments.head? = some "." then [.here]
    else []
  beginning ++ p.segments.filterMap Component.ofSegment?

/-- Equality of paths, as opposed to equality of their texts. -/
def same (p q : Path) : Bool := p.components = q.components

/-- `q` as seen from the directory `p`; an absolute `q` stays as it is. -/
def join (p q : Path) : Path :=
  if q.isAbsolute then q
  else if p.text = "" || p.endsInSlash then ⟨p.text ++ q.text⟩
  else ⟨p.text ++ "/" ++ q.text⟩

def extend (p : Path) (names : List String) : Path :=
  names.foldl (fun p name => p.join ⟨name⟩) p

/-- Whether a part between slashes leads nowhere. -/
def isIdle (part : List Char) : Bool := part = [] || part = ['.']

/-- What stays of a path however many components are taken off it, and the rest: a
path has a slash or a dot at its beginning, or neither. -/
def stem (p : Path) : List Char × List Char :=
  match p.text.toList with
  | '/' :: rest => (['/'], rest)
  | ['.'] => (['.'], [])
  | '.' :: '/' :: rest => (['.'], '/' :: rest)
  | text => ([], text)

/-- The parts after the stem, the last first, without idle ones at the end. -/
def parts (p : Path) : List (List Char) :=
  (Text.splitOn '/' p.stem.2).reverse.dropWhile isIdle

def ofParts (stem : List Char) (parts : List (List Char)) : Path :=
  ⟨String.ofList (stem ++ ['/'].intercalate parts.reverse)⟩

end Path

end HeaderGather
