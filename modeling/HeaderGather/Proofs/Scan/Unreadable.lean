import Mathlib.Algebra.BigOperators.Group.List.Basic
import HeaderGather.Proofs.Catalog.History
import HeaderGather.Proofs.Scan.CutShort

/-! Files that cannot be read. Whatever opening the files gives, a scan finds what the complete
lines of those say that were read, in their order; a file that gives nothing is counted, and the
scan goes on as if it were not there. -/
namespace HeaderGather

namespace Counts

attribute [ext] Counts

instance : Zero Counts := ⟨zero⟩

instance : AddCommMonoid Counts where
  add_assoc a b c := by ext <;> exact Nat.add_assoc _ _ _
  zero_add a := by ext <;> exact Nat.zero_add _
  add_zero a := by ext <;> exact Nat.add_zero _
  add_comm a b := by ext <;> exact Nat.add_comm _ _
  nsmul := nsmulRec

end Counts

namespace Scan

theorem ofSource_unread (window : Option Nat) (origin : Path) (fault : Fault) (c : Catalog) :
    (ofSource window origin (.cutShort [] fault) c).catalog = c ∧
      (ofSource window origin (.cutShort [] fault) c).counts = { filesUnreadable := 1 } := by
  cases window <;> exact ⟨rfl, rfl⟩

/-- Sources scanned one after the other, taken together as one scan that tells nothing. -/
def ofAll (window : Option Nat) (c : Catalog) (sources : List (Path × Source)) : Scan :=
  let scanned := ofSources window c sources
  ⟨scanned.1, scanned.2.sum, []⟩

theorem FindsSame.append {s s' next next' : Scan} (h : s.FindsSame s')
    (h' : next.FindsSame next') (journal journal' : Journal) :
    FindsSame ⟨next.catalog, s.counts + next.counts, journal⟩
      ⟨next'.catalog, s'.counts + next'.counts, journal'⟩ := by
  refine ⟨h'.catalog, ?_, ?_, ?_⟩
  · exact congrArg₂ (· + ·) h.includesSeen h'.includesSeen
  · exact congrArg₂ (· + ·) h.malformed h'.malformed
  · exact congrArg₂ (· + ·) h.newHeaders h'.newHeaders

end Scan

namespace Scanner

/-- What is read of a file: nothing if it cannot be opened or the first read fails, its complete
lines if a later read fails, and else the whole of it. -/
def reading? : Except Fault Source → Option Source
  | .error _ => none
  | .ok ⟨bytes, none⟩ => some (.complete bytes)
  | .ok ⟨[], some _⟩ => none
  | .ok ⟨byte :: bytes, some _⟩ => some (.complete (Text.untilLast Text.newline (byte :: bytes)))

/-- What is read of files, less those of which nothing is. -/
def readings (opens : Opener) (files : List Path) : List (Path × Source) :=
  files.filterMap fun file => (reading? (opens file)).map (file, ·)

/-- Nothing is read of the file. -/
def isUnread (opens : Opener) (file : Path) : Bool := (reading? (opens file)).isNone

theorem isUnread_iff {opens : Opener} {file : Path} :
    isUnread opens file = true ↔ reading? (opens file) = none := by
  rw [isUnread, Option.isNone_iff_eq_none]

/-- What a tree opens is read as a whole, or nothing of it is. -/
theorem reading?_openSource (t : FileTree) (file : Path) :
    reading? (t.openSource file) = (t.readBytes file).toOption.map Source.complete := by
  rw [FileTree.readBytes]
  obtain ⟨fault, h⟩ | ⟨bytes, h⟩ | h := FileTree.openSource_cases t file <;> rw [h] <;> rfl

theorem lines_of_reading? {opened source : Source} (h : reading? (.ok opened) = some source) :
    opened.lines = source.lines := by
  match opened, h with
  | ⟨bytes, none⟩, rfl => rfl
  | ⟨byte :: bytes, some fault⟩, rfl => exact Source.lines_cutShort (byte :: bytes) fault

variable {k : Scanner} {opens : Opener} {file : Path}

/-- What a file adds depends on the catalog and on nothing else that was found before. -/
theorem scanNext_adds (k : Scanner) (opens : Opener) (file : Path) (c : Catalog) :
    ∃ (after : Catalog) (more : Counts), ∀ s : Scan, s.catalog = c →
      (k.scanNext opens s file).catalog = after ∧
        (k.scanNext opens s file).counts = s.counts + more := by
  cases hopens : opens file with
  | error fault =>
      refine ⟨c, { filesUnreadable := 1 }, fun s hs => ?_⟩
      simp only [scanNext, hopens, scanOpened]
      exact ⟨hs, trivial⟩
  | ok source =>
      let one := Scan.ofSource k.window file source c
      refine ⟨one.catalog, one.counts, fun s hs => ?_⟩
      simp only [scanNext, hopens, scanOpened, hs]
      exact ⟨rfl, rfl⟩

/-- A file of which nothing is read is counted, and that is all. -/
theorem scanNext_unread (h : reading? (opens file) = none) (s : Scan) :
    (k.scanNext opens s file).catalog = s.catalog ∧
      (k.scanNext opens s file).counts = s.counts + { filesUnreadable := 1 } := by
  obtain ⟨_, -, hnext⟩ | ⟨source, hopens, hnext⟩ := k.scanNext_cases opens s file
  · rw [hnext]
    exact ⟨rfl, rfl⟩
  · rw [hnext]
    rw [hopens] at h
    match source, h with
    | ⟨[], some fault⟩, _ =>
        obtain ⟨hcatalog, hcounts⟩ := Scan.ofSource_unread k.window file fault s.catalog
        exact ⟨hcatalog, congrArg (s.counts + ·) hcounts⟩

/-- Any other file adds what is read of it. -/
theorem scanNext_read {source : Source} (h : reading? (opens file) = some source) {s s' : Scan}
    (hs : s.FindsSame s') :
    let one := Scan.ofSource k.window file source s'.catalog
    (k.scanNext opens s file).FindsSame ⟨one.catalog, s'.counts + one.counts, []⟩ := by
  intro one
  obtain ⟨_, hopens, -⟩ | ⟨opened, hopens, hnext⟩ := k.scanNext_cases opens s file
  · rw [hopens] at h
    exact nomatch h
  · rw [hopens] at h
    have hone : (Scan.ofSource k.window file opened s.catalog).FindsSame one := by
      rw [hs.catalog]
      exact Scan.findsSame_ofSource k.window file s'.catalog (lines_of_reading? h)
    rw [hnext]
    exact hs.append hone _ _

theorem findsSame_foldl (files : List Path) {s s' : Scan} (hs : s.FindsSame s') :
    let scanned := Scan.ofSources k.window s'.catalog (readings opens files)
    (files.foldl (k.scanNext opens) s).FindsSame
      ⟨scanned.1, s'.counts + scanned.2.sum, []⟩ := by
  induction files generalizing s s' with
  | nil =>
      simp only [readings, List.filterMap_nil, Scan.ofSources, List.sum_nil, add_zero]
      exact ⟨hs.catalog, hs.includesSeen, hs.malformed, hs.newHeaders⟩
  | cons file files ih =>
      cases hreading : reading? (opens file) with
      | none =>
          obtain ⟨hcatalog, hcounts⟩ := scanNext_unread (k := k) hreading s
          have hnext : (k.scanNext opens s file).FindsSame s' := by
            refine ⟨hcatalog.trans hs.catalog, ?_, ?_, ?_⟩
            · rw [hcounts, ← hs.includesSeen]
              rfl
            · rw [hcounts, ← hs.malformed]
              rfl
            · rw [hcounts, ← hs.newHeaders]
              rfl
          simpa [readings, hreading] using ih hnext
      | some source =>
          have hrest := ih (scanNext_read (k := k) hreading hs)
          simpa [readings, hreading, Scan.ofSources, add_assoc] using hrest

/-- Without the files of which nothing is read, all is found and counted that is found and
counted with them, but for their own number. -/
theorem foldl_filter_unread (k : Scanner) (opens : Opener) (files : List Path) {s s' : Scan}
    {n : Nat} (hcatalog : s.catalog = s'.catalog)
    (hcounts : s.counts = s'.counts + { filesUnreadable := n }) :
    let all := files.foldl (k.scanNext opens) s
    let others := (files.filter fun file => !isUnread opens file).foldl (k.scanNext opens) s'
    all.catalog = others.catalog ∧
      all.counts = others.counts + { filesUnreadable := n + files.countP (isUnread opens) } := by
  induction files generalizing s s' n with
  | nil => exact ⟨hcatalog, hcounts⟩
  | cons file files ih =>
      by_cases h : isUnread opens file = true
      · obtain ⟨hc, hk⟩ := scanNext_unread (k := k) (isUnread_iff.1 h) s
        have hmore : (k.scanNext opens s file).counts =
            s'.counts + { filesUnreadable := n + 1 } := by
          rw [hk, hcounts, add_assoc]
          rfl
        have hrest := ih (hc.trans hcatalog) hmore
        simpa [h, Nat.add_assoc, Nat.add_comm 1] using hrest
      · obtain ⟨after, more, hadds⟩ := scanNext_adds k opens file s'.catalog
        obtain ⟨hc, hk⟩ := hadds s hcatalog
        obtain ⟨hc', hk'⟩ := hadds s' rfl
        have hmore : (k.scanNext opens s file).counts =
            (k.scanNext opens s' file).counts + { filesUnreadable := n } := by
          rw [hk, hk', hcounts, add_right_comm]
        have hrest := ih (hc.trans hc'.symm) hmore
        simpa [h] using hrest

/-- A scan of files that is not disturbed by those that cannot be read. -/
structure Undisturbed (k : Scanner) (opens : Opener) (files : List Path) (c : Catalog)
    (s : Scan) : Prop where
  /-- It finds what the sources say that are read, one after the other. -/
  finds : s.FindsSame (.ofAll k.window c (readings opens files))
  /-- The other files are counted as unreadable and do nothing else. -/
  catalog : s.catalog =
    (k.scanFiles opens (files.filter fun file => !isUnread opens file) c).catalog
  counts : s.counts =
    (k.scanFiles opens (files.filter fun file => !isUnread opens file) c).counts +
      { filesUnreadable := files.countP (isUnread opens) }
  /-- Every file is counted once. -/
  files : s.counts.filesScanned + s.counts.filesUnreadable = files.length
  headers : s.catalog.size = c.size + s.counts.newHeaders

theorem undisturbed_scanFiles (k : Scanner) (opens : Opener) (files : List Path) (c : Catalog) :
    k.Undisturbed opens files c (k.scanFiles opens files c) := by
  have start : Scan.FindsSame ⟨c, .zero, []⟩ ⟨c, .zero, []⟩ := ⟨rfl, rfl, rfl, rfl⟩
  have hfinds : (k.scanFiles opens files c).FindsSame
      ⟨_, .zero + (Scan.ofSources k.window c (readings opens files)).2.sum, []⟩ :=
    findsSame_foldl files start
  obtain ⟨hcatalog, hcounts⟩ := foldl_filter_unread k opens files (s := ⟨c, .zero, []⟩) (n := 0)
    rfl rfl
  rw [Nat.zero_add] at hcounts
  obtain ⟨hfiles, hheaders, -⟩ := tallies_foldl_scanNext k opens files (Scan.tallies_nothing c [])
  rw [Nat.zero_add] at hfiles
  refine ⟨?_, hcatalog, hcounts, hfiles, hheaders⟩
  have hsum : ∀ counts : Counts, Counts.zero + counts = counts := zero_add
  rwa [hsum] at hfinds

/-- A scan with a pattern fails only if the pattern spells nothing, and the catalog is then as it
was. Else it ends well, however the selected files open. Where the tree opens them, those are
read that lead to a file which may be read, and no other. -/
theorem scanMatching_undisturbed (k : Scanner) (t : FileTree) (opens : Opener) (base : Path)
    (pattern : String) (c : Catalog) :
    (match Pattern.ofText pattern with
    | .error problem =>
      k.scanMatching t opens base pattern c = .error (.pattern pattern problem) ∧
        c.edit (.scanPattern k t base pattern) = c
    | .ok _ =>
      ∃ files told s, k.matchingFiles t base pattern = .ok (files, told) ∧
        k.scanMatching t opens base pattern c = .ok s ∧ k.Undisturbed opens files c s) ∧
      ∀ file, reading? (t.openSource file) = (t.readBytes file).toOption.map Source.complete := by
  refine ⟨?_, reading?_openSource t⟩
  cases hp : Pattern.ofText pattern with
  | error problem =>
      simp [scanMatching, matchingFiles, hp, Catalog.edit, scanPattern]
  | ok p =>
      obtain ⟨finds, catalog, counts, files, headers⟩ :=
        undisturbed_scanFiles k opens (k.selection t base p).1 c
      refine ⟨_, _, _, by rw [matchingFiles, hp], by rw [scanMatching, matchingFiles, hp], ?_⟩
      exact ⟨⟨finds.catalog, finds.includesSeen, finds.malformed, finds.newHeaders⟩, catalog,
        counts, files, headers⟩

end Scanner

end HeaderGather
