import HeaderGather.Catalog
import HeaderGather.Directive
import HeaderGather.Journal
import HeaderGather.Source

/-! Scanning a source for headers. A source is read up to the point where a
window of lines without an include has passed since its last include; of the
lines read, every include adds its header to the catalog unless it is known. -/
namespace HeaderGather

structure Counts where
  filesScanned : Nat := 0
  filesUnreadable : Nat := 0
  includesSeen : Nat := 0
  malformed : Nat := 0
  newHeaders : Nat := 0
  deriving DecidableEq, Repr

namespace Counts

def zero : Counts := {}

def add (a b : Counts) : Counts where
  filesScanned := a.filesScanned + b.filesScanned
  filesUnreadable := a.filesUnreadable + b.filesUnreadable
  includesSeen := a.includesSeen + b.includesSeen
  malformed := a.malformed + b.malformed
  newHeaders := a.newHeaders + b.newHeaders

instance : Add Counts := ⟨add⟩

end Counts

structure Scan where
  catalog : Catalog
  counts : Counts
  journal : Journal

namespace Scan

/-- The number of other lines since the last include, once there was one. -/
abbrev Since := Option Nat

/-- Malformed directives neither count as other lines nor begin anew. -/
def since (m : Since) : Directive → Since
  | .other => m.map (· + 1)
  | .malformed => m
  | .include _ _ => some 0

def passed (window : Option Nat) (m : Since) : Bool :=
  match window, m with
  | some w, some n => w ≤ n
  | _, _ => false

/-- The lines read until the window has passed. -/
def consumed (window : Option Nat) : Since → List (List Char) → List (List Char)
  | _, [] => []
  | m, line :: rest =>
    if passed window m then []
    else line :: consumed window (since m (.ofLine line)) rest

def sinceAfter (lines : List (List Char)) : Since :=
  lines.foldl (fun m line => since m (.ofLine line)) none

/-- The scan with what was counted and told of an earlier line put before it. -/
def after (counts : Counts) (told : Journal) (s : Scan) : Scan :=
  { s with counts := counts + s.counts, journal := told ++ s.journal }

/-- Records lines in a catalog; `origin` is the path that the journal names. -/
def ofLines (origin : Path) : Catalog → List (List Char) → Scan
  | c, [] => ⟨c, .zero, []⟩
  | c, line :: rest =>
    match Directive.ofLine line with
    | .other => ofLines origin c rest
    | .malformed =>
      (ofLines origin c rest).after { malformed := 1 }
        [.malformed origin (String.ofList line)]
    | .include text name =>
      let text := String.ofList text
      let name := String.ofList name
      if name ∈ c.names then (ofLines origin c rest).after { includesSeen := 1 } []
      else
        (ofLines origin (c.add name text) rest).after { includesSeen := 1, newHeaders := 1 }
          [.newHeader origin name text]

/-- Scans one source into a catalog. A source whose reader fails before the window
has passed counts as unreadable, and what its lines gave is kept. -/
def ofSource (window : Option Nat) (origin : Path) (source : Source) (catalog : Catalog) : Scan :=
  let lines := consumed window none source.lines
  let s := ofLines origin catalog lines
  let m := sinceAfter lines
  if passed window m then
    { s with
      counts := s.counts + { filesScanned := 1 }
      journal := s.journal ++ [.windowPassed origin (m.getD 0)] }
  else
    match source.fault? with
    | none => { s with counts := s.counts + { filesScanned := 1 } }
    | some fault =>
      { s with
        counts := s.counts + { filesUnreadable := 1 }
        journal :=
          s.journal ++ [.cutShort (.sourceFile origin fault) s.counts.includesSeen] }

end Scan

end HeaderGather
