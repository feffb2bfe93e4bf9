import HeaderGather.Proofs.Catalog.History
import HeaderGather.Proofs.Gathering.Outcome
import HeaderGather.Proofs.Scan.Tally
import HeaderGather.Proofs.Search.Directories

/-! The numbers of a report. Each stage counts for itself; in the report of a run that ends
well the counts agree, and those of the scan with the tree that was scanned. -/
namespace HeaderGather

/-- Every header of the report is accounted for at each stage. -/
structure Report.Balanced (s : Settings) (t : FileTree) (r : Report) : Prop where
  newHeaders : r.headers.size = r.scan.newHeaders
  includesSeen : r.scan.newHeaders ≤ r.scan.includesSeen
  found : r.search.found = r.headers.foundCount
  wanted : r.search.wanted = r.headers.wantedNames
  located : r.search.found + r.search.wanted.length = r.headers.size
  skipped : r.delivery.skipped = r.search.wanted.length
  delivered : r.delivery.copied + r.delivery.failed + r.delivery.planned.length = r.search.found
  planned : s.dryRun = false → r.delivery.planned = []
  untouched : s.dryRun = true → r.delivery.copied = 0 ∧ r.delivery.failed = 0
  copied : s.dryRun = false → r.delivery.copied = 0 → r.search.found = 0
  /-- Every file that a pattern selects is counted once for that pattern. -/
  files : ∃ selected, (Scanner.ofSettings s).Selects t r.sourceRoot s.patterns selected ∧
    r.scan.filesScanned + r.scan.filesUnreadable = (selected.map List.length).sum
  missing : r.search.missingDirs =
    (SearchPath.firsts r.includeDirs).filter fun dir => !t.isDirectory dir

namespace Settings

variable {s : Settings} {t : FileTree} {build out : Path}

theorem size_located (t : FileTree) (cache : BuildCache) (catalog : Catalog) :
    (located t cache catalog).size = catalog.size := by
  rw [located, SearchPath.located_eq, Catalog.size, Catalog.mapLocations, List.length_map]
  rfl

/-- A scan finds nothing, so that whatever is found after the search was found by it. -/
theorem foundCount_scanTree {root : Path} {catalog : Catalog} {counts : Counts}
    (h : (s.scanTree t root).1 = .ok (catalog, counts)) : catalog.foundCount = 0 := by
  rw [Catalog.foundCount, List.countP_eq_zero]
  intro e he
  obtain ⟨text, hwanted⟩ := wanted_of_scanTree h e he
  rw [hwanted]
  exact Bool.false_ne_true

/-- The report of every run that ends well is balanced. -/
theorem gather_balanced {report : Report} (h : (s.gather t build out).result = .ok report) :
    report.Balanced s t := by
  obtain ⟨cache, catalog, counts, delivery, -, hscan, hdelivered, -, rfl⟩ := gather_eq_ok h
  obtain ⟨selected, hselected, hfiles, hheaders, hincludes⟩ := tallies_scanTree hscan
  obtain ⟨hdelivery, hattempted⟩ := Delivery.deliver_eq_ok hdelivered
  obtain ⟨hskipped, hcounted, hmode⟩ :=
    Delivery.accounts_progress s.dryRun out t (located t cache catalog)
  rw [← hdelivery] at hskipped hcounted hmode
  obtain ⟨hsize, -, -⟩ := (located t cache catalog).accounted
  have hfound : ((SearchPath.ofList cache.includeDirs).locateAll t catalog).2.1.found =
      (located t cache catalog).foundCount := by
    have hcount := SearchPath.found_located (.ofList cache.includeDirs) t catalog
    rw [foundCount_scanTree hscan, Nat.zero_add] at hcount
    exact hcount
  have hwanted : ((SearchPath.ofList cache.includeDirs).locateAll t catalog).2.1.wanted =
      (located t cache catalog).wantedNames :=
    SearchPath.wanted_located (.ofList cache.includeDirs) t catalog
  refine ⟨?_, hincludes, hfound, hwanted, ?_, ?_, ?_, ?_, ?_, ?_, ⟨selected, hselected, hfiles⟩, ?_⟩
  · dsimp only [reportOf]
    rw [size_located, hheaders]
    exact Nat.zero_add _
  · dsimp only [reportOf]
    rw [hfound, hwanted, hsize]
  · dsimp only [reportOf]
    rw [hskipped, hwanted, Catalog.length_wantedNames]
  · dsimp only [reportOf]
    rw [hfound]
    exact hcounted
  · intro hwet
    simpa [hwet, reportOf] using hmode
  · intro hdry
    simpa [hdry, reportOf, Delivery.attempted] using hmode
  · intro hwet hnone
    have hplanned : delivery.planned = [] := by simpa [hwet] using hmode
    rw [hattempted hnone, hplanned] at hcounted
    exact hfound.trans hcounted.symm
  · exact SearchPath.missing_ofList cache.includeDirs t

/-- A build with a header that is there and one that is lost. Its cache tells one directory
twice and another that is missing. -/
def lostHeader : FileTree :=
  FileTree.bare
    |>.add [] "build" .directory
    |>.add ["build"] "CMakeCache.txt" (.file (Text.encode
      ("ROOT:PATH=src\nA_INCLUDE_DIR:PATH=inc\n" ++
        "B_INCLUDE_DIR:PATH=inc/\nC_INCLUDE_DIR:PATH=gone\n").toList) 0o644)
    |>.add [] "src" .directory
    |>.add ["src"] "a.c" (.file (Text.encode "#include <a.h>\n#include <lost.h>\n".toList) 0o644)
    |>.add [] "inc" .directory
    |>.add ["inc"] "a.h" (.file (Text.encode "x\n".toList) 0o644)

/-- Two patterns select the one source file, so it is scanned twice. -/
def twoPatterns : Settings := { rootKey := "ROOT", patterns := ["*.c", "a.*"] }

theorem gather_lostHeader_balanced : ∃ report,
    (twoPatterns.gather lostHeader ⟨"build"⟩ ⟨"out"⟩).result = .ok report ∧
      report.scan = ⟨2, 0, 4, 0, 2⟩ ∧ report.search = ⟨1, ["lost.h"], [⟨"gone"⟩]⟩ ∧
      report.delivery = ⟨1, 1, 0, []⟩ ∧ report.Balanced twoPatterns lostHeader := by
  have told : (twoPatterns.gather lostHeader ⟨"build"⟩ ⟨"out"⟩).result.toOption.map (fun r =>
      (r.scan, r.search, r.delivery)) =
        some (⟨2, 0, 4, 0, 2⟩, ⟨1, ["lost.h"], [⟨"gone"⟩]⟩, ⟨1, 1, 0, []⟩) := by decide +kernel
  cases h : (twoPatterns.gather lostHeader ⟨"build"⟩ ⟨"out"⟩).result with
  | error failure => simp [h, Except.toOption] at told
  | ok report =>
      simp only [h, Except.toOption, Option.map_some, Option.some.injEq, Prod.mk.injEq] at told
      obtain ⟨hscan, hsearch, hdelivery⟩ := told
      exact ⟨report, rfl, hscan, hsearch, hdelivery, gather_balanced h⟩

end Settings

end HeaderGather
