import HeaderGather.Catalog
import HeaderGather.FileTree.Access
import HeaderGather.Journal

/-! The search path: directories in which a header is looked for, in order. The
first directory that has the header as a file that can be opened wins; an absolute
text names its file alone. -/
namespace HeaderGather

structure SearchPath where
  dirs : List Path
  deriving DecidableEq, Repr

namespace SearchPath

/-- A repeated directory keeps its first position and spelling. -/
def add (s : SearchPath) (dir : Path) : SearchPath :=
  if s.dirs.any dir.same then s else ⟨s.dirs ++ [dir]⟩

def ofList (dirs : List Path) : SearchPath := dirs.foldl add ⟨[]⟩

def existing (s : SearchPath) (t : FileTree) : List Path := s.dirs.filter t.isDirectory

def missing (s : SearchPath) (t : FileTree) : List Path :=
  s.dirs.filter fun dir => !(s.existing t).any dir.same

def provider? (s : SearchPath) (t : FileTree) (text : Path) : Option Path :=
  s.dirs.find? fun dir => t.isReadable (dir.join text)

def find? (s : SearchPath) (t : FileTree) (text : Path) : Option Path :=
  if text.isAbsolute then
    if t.isReadable text then some text else none
  else (s.provider? t text).map fun dir => dir.join text

def told (s : SearchPath) (t : FileTree) (text : Path) : Event :=
  if text.isAbsolute then
    if t.isReadable text then .absoluteFound text.text else .absoluteMissing text.text
  else
    match s.provider? t text with
    | some dir => .foundIn text.text dir
    | none => .notFound text.text

/-- A search through a catalog, as far as it has come: the entries passed and what was
counted and told of them. -/
structure Pass where
  entries : List (String × Location) := []
  found : Nat := 0
  wanted : List String := []
  journal : Journal := []

/-- Goes on to the next entry. What is found already stays, and is not counted. -/
def passNext (s : SearchPath) (t : FileTree) (p : Pass) (e : String × Location) : Pass :=
  match e.2 with
  | .found _ => { p with entries := p.entries ++ [e] }
  | .wanted text =>
    match s.find? t ⟨text⟩ with
    | some path =>
      { p with
        entries := p.entries ++ [(e.1, .found path)]
        found := p.found + 1
        journal := p.journal ++ [s.told t ⟨text⟩] }
    | none =>
      { p with
        entries := p.entries ++ [e]
        wanted := p.wanted ++ [e.1]
        journal := p.journal ++ [s.told t ⟨text⟩, .lost e.1 text] }

def pass (s : SearchPath) (t : FileTree) (entries : List (String × Location)) : Pass :=
  entries.foldl (s.passNext t) {}

theorem names_passNext (s : SearchPath) (t : FileTree) (p : Pass) (e : String × Location) :
    (s.passNext t p e).entries.map Prod.fst = p.entries.map Prod.fst ++ [e.1] := by
  obtain ⟨name, location⟩ := e
  cases location with
  | found path => simp only [passNext, List.map_append, List.map_cons, List.map_nil]
  | wanted text =>
      cases h : s.find? t ⟨text⟩ <;>
        simp only [passNext, h, List.map_append, List.map_cons, List.map_nil]

theorem names_pass (s : SearchPath) (t : FileTree) (entries : List (String × Location)) :
    (s.pass t entries).entries.map Prod.fst = entries.map Prod.fst := by
  have names : ∀ p : Pass, (entries.foldl (s.passNext t) p).entries.map Prod.fst =
      p.entries.map Prod.fst ++ entries.map Prod.fst := by
    induction entries with
    | nil => simp
    | cons e entries ih =>
        intro p
        rw [List.foldl_cons, ih, names_passNext, List.map_cons, List.append_assoc,
          List.singleton_append]
  exact names {}

structure Outcome where
  found : Nat
  wanted : List String
  missingDirs : List Path
  deriving DecidableEq, Repr

def locateAll (s : SearchPath) (t : FileTree) (c : Catalog) : Catalog × Outcome × Journal :=
  let missing := s.missing t
  let p := s.pass t c.entries
  (⟨p.entries, by rw [names_pass]; exact c.distinct⟩, ⟨p.found, p.wanted, missing⟩,
    missing.map .noSuchDir ++ p.journal ++ [.located p.found s.dirs.length p.wanted.length])

end SearchPath

end HeaderGather
