import HeaderGather.Program

/-! Which parts of a file tree a run looks at. A run needs little of a disk: what
it needs next follows from the part that is known already, so a tree can be read
in rounds, each of which asks for what the round before made known. -/
namespace HeaderGather

inductive Extent where
  | itself
  | children
  | everything
  deriving DecidableEq, Repr

structure Need where
  path : Path
  extent : Extent := .itself
  deriving DecidableEq, Repr

namespace SearchPath

/-- The paths under which a location may be found. -/
def candidates (s : SearchPath) : Location → List Path
  | .found _ => []
  | .wanted text =>
    if (Path.mk text).isAbsolute then [⟨text⟩] else s.dirs.map fun dir => dir.join ⟨text⟩

end SearchPath

namespace Options

def needsUnder (o : Options) (s : Settings) (t : FileTree) : List Need :=
  ⟨s.cachePath o.build, .itself⟩ ::
    match (s.readCache t o.build).1 with
    | .error _ => []
    | .ok cache =>
      let search := SearchPath.ofList cache.includeDirs
      ⟨cache.sourceRoot, if s.recursive then .everything else .children⟩ ::
        (search.dirs.map fun dir => ⟨dir, .itself⟩) ++
        match (s.scanTree t cache.sourceRoot).1 with
        | .error _ => []
        | .ok (catalog, _) =>
          let headers := (search.locateAll t catalog).1
          let candidates := catalog.entries.flatMap fun e => search.candidates e.2
          let dests := headers.entries.filterMap fun e =>
            e.2.path?.map fun header => o.out.destination header
          (candidates ++ dests).map fun p => ⟨p, .itself⟩

def needs (o : Options) (t : FileTree) : List Need :=
  ((o.config.toList ++ o.report.toList).map fun p => ⟨p, .itself⟩) ++
    match o.settings t with
    | .error _ => []
    | .ok s => o.needsUnder s t

end Options

namespace Program

def needs (t : FileTree) (arguments : List String) : List Need :=
  match CommandLine.parse arguments with
  | .run o => o.needs t
  | _ => []

/-- After so many rounds nothing new is asked for: the settings, the cache, the
source tree, the headers and their destinations each take one. -/
def rounds : Nat := 5

end Program

namespace FileTree

/-- The entries that are new or other than before, in an order in which they can
be made. -/
def changesSince (after before : FileTree) : List (Place × Entry) :=
  after.entries.filter fun e => before.get? e.1 ≠ some e.2

end FileTree

end HeaderGather
