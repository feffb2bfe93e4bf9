import HeaderGather.Journal
import HeaderGather.Source
import HeaderGather.Text.Search

/-! The cache of a build, lines of the form key, type and value. It names the
source root and the directories that are searched for headers. -/
namespace HeaderGather

structure BuildCache where
  sourceRoot : Path
  /-- In the order of the file, repetitions included. -/
  includeDirs : List Path
  deriving DecidableEq, Repr

namespace BuildCache

/-- Comments begin with two slashes or with a hash. -/
def isEntry (line : List Char) : Bool :=
  !line.isEmpty && !(['/', '/'].isPrefixOf line) && line.head? != some '#'

/-- The value of a line that names the source root: what follows the first
equals sign, if it is not blank. -/
def rootValue? (mark line : List Char) : Option (List Char) :=
  if mark.isPrefixOf line then
    match Text.cut? ['='] line with
    | some (_, after) =>
      let value := Text.trim after
      if value = [] then none else some value
    | none => none
  else none

/-- The key of a line ends before the first colon or equals sign. -/
def keyEnds (c : Char) : Bool := c = ':' || c = '='

inductive IncludeEntry where
  | dir (value : List Char)
  /-- An include entry whose value is blank or was not found by the build. -/
  | noDir
  | other
  deriving DecidableEq, Repr

/-- An include entry has the marker in its key, not at the beginning, and a path
in the rest of the line. -/
def includeEntry (line : List Char) : IncludeEntry :=
  let key := line.takeWhile fun c => !keyEnds c
  let rest := line.dropWhile fun c => !keyEnds c
  match Text.cut? "_INCLUDE_".toList key with
  | none => .other
  | some ([], _) => .other
  | some (_ :: _, _) =>
    match Text.cut? "PATH=".toList rest with
    | none => .other
    | some (_, after) =>
      let value := Text.trim after
      if value.isEmpty || Text.endsWith "-NOTFOUND".toList value then .noDir else .dir value

structure Reading where
  root? : Option Path
  dirs : List Path
  journal : Journal
  deriving Repr

namespace Reading

def empty : Reading := ⟨none, [], []⟩

def withRoot (line value : List Char) (r : Reading) : Reading :=
  { r with
    root? := some ⟨String.ofList value⟩
    journal := .rootLine (String.ofList line) :: r.journal }

/-- The reading with what a line gives that does not name the source root. -/
def withLine (line : List Char) (r : Reading) : Reading :=
  match includeEntry line with
  | .dir value =>
    { r with
      dirs := ⟨String.ofList value⟩ :: r.dirs
      journal := .includeDir (String.ofList value) :: r.journal }
  | .noDir => { r with journal := .noIncludeDir (String.ofList line) :: r.journal }
  | .other => r

end Reading

/-- Reads lines. The first that names the source root counts; a later one is a
line like others. -/
def readLines (mark : List Char) : (rootKnown : Bool) → List (List Char) → Reading
  | _, [] => .empty
  | true, line :: rest => (readLines mark true rest).withLine line
  | false, line :: rest =>
    match rootValue? mark line with
    | some value => (readLines mark true rest).withRoot line value
    | none => (readLines mark false rest).withLine line

/-- The key as an error names it: without the colons at its end. -/
def shownKey (mark : String) : String :=
  String.ofList (Text.dropEnd (· = ':') mark.toList)

/-- Reads a cache; `origin` is the path that errors name. -/
def read (s : Settings) (origin : Path) (source : Source) : Except Failure BuildCache × Journal :=
  let r := readLines s.rootMark.toList false (source.lines.filter isEntry)
  match source.fault?, r.root? with
  | some fault, _ => (.error (.cacheFile origin fault), r.journal)
  | none, none => (.error (.noSourceRoot (shownKey s.rootMark) origin), r.journal)
  | none, some root => (.ok ⟨root, r.dirs⟩, r.journal)

end BuildCache

end HeaderGather
