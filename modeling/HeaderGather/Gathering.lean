import HeaderGather.BuildCache
import HeaderGather.Delivery
import HeaderGather.SearchPath
import HeaderGather.SourceTree

/-! Gathering the headers of a build, in four stages: the cache of the build is
read, the source tree scanned, each header searched for, and what was found
delivered below the output directory. -/
namespace HeaderGather

structure Report where
  sourceRoot : Path
  includeDirs : List Path
  scan : Counts
  search : SearchPath.Outcome
  delivery : Delivery
  headers : Catalog
  deriving DecidableEq

structure Run (α : Type) where
  result : Except Failure α
  tree : FileTree
  journal : Journal

namespace Settings

def check (s : Settings) : Except Failure Settings :=
  match s.problem? with
  | some problem => .error (.settings problem)
  | none => .ok s

def cachePath (s : Settings) (build : Path) : Path := build.join ⟨s.cacheFile⟩

def readCache (s : Settings) (t : FileTree) (build : Path) :
    Except Failure BuildCache × Journal :=
  let path := s.cachePath build
  match t.openSource path with
  | .error fault => (.error (.cacheFile path fault), [])
  | .ok source =>
    match BuildCache.read s path source with
    | (.error failure, journal) => (.error failure, journal)
    | (.ok cache, journal) =>
      (.ok cache, journal ++ [.cacheRead path cache.sourceRoot cache.includeDirs.length])

/-- A source root has to be a directory that can be listed. -/
def checkRoot (t : FileTree) (root : Path) : Except Failure Unit :=
  match t.openDirectory root with
  | .error fault => .error (.sourceRoot root fault)
  | .ok _ => .ok ()

/-- Scans with one pattern after the other, into one catalog. The first pattern
that spells nothing ends the scan. -/
def scanPatterns (k : Scanner) (t : FileTree) (root : Path) :
    List String → Scan → Except Failure Scan × Journal
  | [], s => (.ok s, s.journal)
  | pattern :: rest, s =>
    match k.scanPattern t root pattern s.catalog with
    | .error failure => (.error failure, s.journal)
    | .ok one =>
      scanPatterns k t root rest
        ⟨one.catalog, s.counts + one.counts, s.journal ++ one.journal⟩

def scanTree (s : Settings) (t : FileTree) (root : Path) :
    Except Failure (Catalog × Counts) × Journal :=
  match checkRoot t root with
  | .error failure => (.error failure, [])
  | .ok _ =>
    match scanPatterns (.ofSettings s) t root s.patterns ⟨.empty, .zero, []⟩ with
    | (.error failure, journal) => (.error failure, journal)
    | (.ok scan, journal) =>
      (.ok (scan.catalog, scan.counts),
        journal ++ [.collected scan.catalog.size scan.counts.filesScanned root])

/-- Runs the four stages. Before the delivery nothing is written. -/
def gather (s : Settings) (t : FileTree) (build out : Path) : Run Report :=
  match s.readCache t build with
  | (.error failure, journal) => ⟨.error failure, t, journal⟩
  | (.ok cache, cacheJournal) =>
    match s.scanTree t cache.sourceRoot with
    | (.error failure, journal) => ⟨.error failure, t, cacheJournal ++ journal⟩
    | (.ok (catalog, counts), scanJournal) =>
      let (headers, search, searchJournal) :=
        (SearchPath.ofList cache.includeDirs).locateAll t catalog
      let (tree, delivered, deliveryJournal) := Delivery.deliver s.dryRun out t headers
      let journal := cacheJournal ++ scanJournal ++ searchJournal ++ deliveryJournal
      match delivered with
      | .error failure => ⟨.error failure, tree, journal⟩
      | .ok delivery =>
        ⟨.ok ⟨cache.sourceRoot, cache.includeDirs, counts, search, delivery, headers⟩,
          tree, journal⟩

end Settings

end HeaderGather
