import HeaderGather.FileTree.Access
import HeaderGather.FileTree.Walk
import HeaderGather.Scan

/-! Scanning the files of a source tree that match a pattern. A file that cannot
be read is told, counted and passed over. -/
namespace HeaderGather

structure Scanner where
  window : Option Nat
  recursive : Bool
  excludedDirs : List String
  deriving DecidableEq, Repr

namespace Scanner

def ofSettings (s : Settings) : Scanner := ⟨s.effectiveWindow, s.recursive, s.excludedDirs⟩

/-- Scans the top level of a tree; a window of zero is none. -/
def ofWindow (window : Option Nat) : Scanner := ⟨Settings.positive window, false, []⟩

def walk (k : Scanner) (base : Path) : FileTree.Walk := ⟨base, k.recursive, k.excludedDirs⟩

/-- The entries below a base whose names from there match the pattern, as seen
through the base. A base that cannot be listed has none. -/
def selection (k : Scanner) (t : FileTree) (base : Path) (pattern : Pattern) :
    List Path × Journal :=
  match t.locate base with
  | .error fault => ([], [.unlisted base fault])
  | .ok place =>
    if t.get? place = some .directory then
      let visits := t.walk (k.walk base)
      (((visits.filterMap (·.file?)).filter fun names : Place =>
        pattern.accepts (Text.encode names.path.text.toList)).map fun names =>
          base.extend names,
        (visits.filterMap (·.refusal?)).map fun (names, fault) =>
          .unlisted (base.extend names) fault)
    else ([], [])

def matchingFiles (k : Scanner) (t : FileTree) (base : Path) (pattern : String) :
    Except Failure (List Path × Journal) :=
  match Pattern.ofText pattern with
  | .error problem => .error (.pattern pattern problem)
  | .ok p => .ok (k.selection t base p)

/-- What opening a file gives: what is then read of it, or why it cannot be opened. -/
abbrev Opener := Path → Except Fault Source

def scanOpened (k : Scanner) (file : Path) (opened : Except Fault Source) (catalog : Catalog) :
    Except Failure Scan :=
  match opened with
  | .error fault => .error (.sourceFile file fault)
  | .ok source => .ok (.ofSource k.window file source catalog)

def scanFile (k : Scanner) (t : FileTree) (file : Path) (catalog : Catalog) :
    Except Failure Scan :=
  k.scanOpened file (t.openSource file) catalog

def scanNext (k : Scanner) (opens : Opener) (s : Scan) (file : Path) : Scan :=
  match k.scanOpened file (opens file) s.catalog with
  | .error failure =>
    { s with
      counts := s.counts + { filesUnreadable := 1 }
      journal := s.journal ++ [.unopened failure] }
  | .ok one => ⟨one.catalog, s.counts + one.counts, s.journal ++ one.journal⟩

def scanFiles (k : Scanner) (opens : Opener) (files : List Path) (catalog : Catalog) : Scan :=
  files.foldl (k.scanNext opens) ⟨catalog, .zero, []⟩

/-- Scans the files that a pattern selects, however they open. The only failure is
that of the pattern. -/
def scanMatching (k : Scanner) (t : FileTree) (opens : Opener) (base : Path) (pattern : String)
    (catalog : Catalog) : Except Failure Scan :=
  match k.matchingFiles t base pattern with
  | .error failure => .error failure
  | .ok (files, told) =>
    let s := k.scanFiles opens files catalog
    .ok { s with
      journal := told ++ [.matched pattern files.length] ++ s.journal
        ++ [.scanned s.counts.filesScanned pattern s.counts.newHeaders] }

/-- Scans the files that a pattern selects, as the tree opens them. -/
def scanPattern (k : Scanner) (t : FileTree) (base : Path) (pattern : String)
    (catalog : Catalog) : Except Failure Scan :=
  k.scanMatching t t.openSource base pattern catalog

end Scanner

end HeaderGather
