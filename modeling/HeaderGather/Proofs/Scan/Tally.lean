import Mathlib.Algebra.GroupWithZero.Nat
import HeaderGather.Proofs.Scan.Sources
import HeaderGather.Proofs.Scan.Stages

/-! What a scan counts, from one source up to all patterns. Every file that a pattern selects
is counted once, as scanned or as unreadable, and every new header is in the catalog. -/
namespace HeaderGather

/-- The counts of a scan of so many files that began with the catalog `before`. -/
structure Scan.Tallies (before : Catalog) (files : Nat) (s : Scan) : Prop where
  files : s.counts.filesScanned + s.counts.filesUnreadable = files
  headers : s.catalog.size = before.size + s.counts.newHeaders
  includes : s.counts.newHeaders ≤ s.counts.includesSeen

namespace Scan

theorem length_mentions (lines : List (List Char)) :
    (mentions lines).length = lines.countP isInclude := by
  induction lines with
  | nil => rfl
  | cons line lines ih =>
      rw [mentions_cons, List.length_append, ih, List.countP_cons, Nat.add_comm]
      cases h : Directive.ofLine line <;>
        simp [isInclude, h, Directive.isInclude, Directive.mention?]

theorem length_firstMentions_le (known : List String) (all : List (String × String)) :
    (firstMentions known all).length ≤ all.length := by
  rw [firstMentions, List.length_map]
  exact Nat.le_trans (List.length_filter_le _ _) (Nat.le_of_eq List.length_zipIdx)

/-- How a source is counted: as scanned if it is read to its end or the window passes before
that, and as unreadable if the fault of its reader is met. -/
inductive Counted (window : Option Nat) (source : Source) : Counts → Prop where
  | scanned (h : Stops window source.lines ∨ source.fault? = none) :
    Counted window source { filesScanned := 1 }
  | unreadable (open_ : ¬ Stops window source.lines) (h : source.fault? ≠ none) :
    Counted window source { filesUnreadable := 1 }

theorem Counted.one {window : Option Nat} {source : Source} {file : Counts}
    (h : Counted window source file) : file.filesScanned + file.filesUnreadable = 1 ∧
      file.includesSeen = 0 ∧ file.malformed = 0 ∧ file.newHeaders = 0 := by
  cases h with
  | scanned => exact ⟨rfl, rfl, rfl, rfl⟩
  | unreadable => exact ⟨rfl, rfl, rfl, rfl⟩

/-- A source is counted once, beside what its lines count. -/
theorem ofSource_counts (window : Option Nat) (origin : Path) (source : Source) (c : Catalog) :
    ∃ file, Counted window source file ∧
      (ofSource window origin source c).counts =
        countsOf c.names (consumed window none source.lines) + file := by
  simp only [ofSource, ← ofLines_counts origin]
  split
  case isTrue hpassed =>
      exact ⟨_, .scanned (.inl ((passed_consumed_iff _ _).1 hpassed)), rfl⟩
  case isFalse hopen =>
      cases hfault : source.fault? with
      | none => exact ⟨_, .scanned (.inr hfault), rfl⟩
      | some fault =>
          have hmet : source.fault? ≠ none := by simp [hfault]
          exact ⟨_, .unreadable (fun stops => hopen ((passed_consumed_iff _ _).2 stops)) hmet, rfl⟩

/-- What is counted of a source beside the source itself is counted of the lines read of it. -/
theorem ofSource_counts_lines (window : Option Nat) (origin : Path) (source : Source)
    (c : Catalog) :
    let s := ofSource window origin source c
    s.counts.includesSeen = (partOf window source).countP isInclude ∧
      s.counts.malformed = (partOf window source).countP isMalformed ∧
      s.counts.newHeaders = (firstMentions c.names (mentions (partOf window source))).length := by
  obtain ⟨file, hfile, hcounts⟩ := ofSource_counts window origin source c
  obtain ⟨-, hseen, hmalformed, hnew⟩ := hfile.one
  intro s
  rw [show s.counts = _ from hcounts]
  simp only [Counts.add_def, hseen, hmalformed, hnew, Nat.add_zero]
  exact ⟨rfl, rfl, rfl⟩

theorem tallies_ofSource (window : Option Nat) (origin : Path) (source : Source) (c : Catalog) :
    (ofSource window origin source c).Tallies c 1 := by
  obtain ⟨file, hfile, hcounts⟩ := ofSource_counts window origin source c
  obtain ⟨hseen, -, hnew⟩ := ofSource_counts_lines window origin source c
  have hfirst := length_firstMentions_le c.names (mentions (partOf window source))
  constructor
  · rw [hcounts]
    simpa [Counts.add_def, countsOf] using hfile.one.1
  · rw [hnew, ofSource_catalog, Catalog.size, ofLines_entries]
    simp [Catalog.size, partOf]
  · rwa [hseen, hnew, ← length_mentions]

theorem tallies_nothing (c : Catalog) (journal : Journal) :
    Tallies c 0 ⟨c, .zero, journal⟩ := ⟨rfl, rfl, Nat.le_refl 0⟩

/-- What two scans count, one after the other, is counted of both. -/
theorem Tallies.append {before : Catalog} {first second : Nat} {s next : Scan}
    (h : s.Tallies before first) (h' : next.Tallies s.catalog second) (journal : Journal) :
    Tallies before (first + second) ⟨next.catalog, s.counts + next.counts, journal⟩ := by
  obtain ⟨hfiles, hheaders, hincludes⟩ := h
  obtain ⟨hfiles', hheaders', hincludes'⟩ := h'
  refine ⟨?_, ?_, ?_⟩ <;> simp only [Counts.add_def] <;> omega

end Scan

namespace Scanner

variable {before : Catalog} {n : Nat} {s : Scan}

theorem tallies_scanNext (k : Scanner) (opens : Opener) (h : s.Tallies before n) (file : Path) :
    (k.scanNext opens s file).Tallies before (n + 1) := by
  obtain ⟨_, -, hnext⟩ | ⟨source, -, hnext⟩ := k.scanNext_cases opens s file
  · rw [hnext]
    have unread : Scan.Tallies s.catalog 1 ⟨s.catalog, { filesUnreadable := 1 }, []⟩ :=
      ⟨rfl, rfl, Nat.le_refl 0⟩
    exact h.append unread _
  · rw [hnext]
    exact h.append (Scan.tallies_ofSource k.window file source s.catalog) _

theorem tallies_foldl_scanNext (k : Scanner) (opens : Opener) (files : List Path)
    (h : s.Tallies before n) :
    (files.foldl (k.scanNext opens) s).Tallies before (n + files.length) := by
  induction files generalizing s n with
  | nil => exact h
  | cons file files ih =>
      have hrest := ih (tallies_scanNext k opens h file)
      rwa [Nat.add_assoc, Nat.add_comm 1] at hrest

theorem tallies_scanPattern {k : Scanner} {t : FileTree} {base : Path} {pattern : String}
    {c : Catalog} (h : k.scanPattern t base pattern c = .ok s) :
    ∃ files told, k.matchingFiles t base pattern = .ok (files, told) ∧
      s.Tallies c files.length := by
  obtain ⟨files, told, hfiles, rfl⟩ := scanPattern_eq_ok h
  have hall := tallies_foldl_scanNext k t.openSource files (Scan.tallies_nothing c [])
  rw [Nat.zero_add] at hall
  exact ⟨files, told, hfiles, hall.files, hall.headers, hall.includes⟩

/-- The files that each of some patterns selects. -/
def Selects (k : Scanner) (t : FileTree) (base : Path) (patterns : List String)
    (selected : List (List Path)) : Prop :=
  List.Forall₂ (fun pattern files => ∃ told, k.matchingFiles t base pattern = .ok (files, told))
    patterns selected

end Scanner

namespace Settings

theorem tallies_scanPatterns {k : Scanner} {t : FileTree} {root : Path} {patterns : List String}
    {before : Catalog} {n : Nat} {s after : Scan} (hs : s.Tallies before n)
    (h : (scanPatterns k t root patterns s).1 = .ok after) :
    ∃ selected, k.Selects t root patterns selected ∧
      after.Tallies before (n + (selected.map List.length).sum) := by
  induction patterns generalizing s n with
  | nil =>
      obtain rfl := Except.ok.inj h
      exact ⟨[], .nil, hs⟩
  | cons pattern patterns ih =>
      obtain ⟨one, hone, hscan⟩ := scanPatterns_cons_eq_ok h
      obtain ⟨files, told, hfiles, htally⟩ := Scanner.tallies_scanPattern hone
      obtain ⟨selected, hselected, hrest⟩ := ih (hs.append htally _) hscan
      refine ⟨files :: selected, .cons ⟨told, hfiles⟩ hselected, ?_⟩
      rwa [List.map_cons, List.sum_cons, ← Nat.add_assoc]

/-- What a scan of a tree counts. -/
theorem tallies_scanTree {s : Settings} {t : FileTree} {root : Path} {c : Catalog}
    {counts : Counts} (h : (s.scanTree t root).1 = .ok (c, counts)) :
    ∃ selected, (Scanner.ofSettings s).Selects t root s.patterns selected ∧
      Scan.Tallies .empty (selected.map List.length).sum ⟨c, counts, []⟩ := by
  obtain ⟨journal, hscan⟩ := scanTree_eq_ok h
  obtain ⟨selected, hselected, htally⟩ :=
    tallies_scanPatterns (Scan.tallies_nothing .empty []) hscan
  rw [Nat.zero_add] at htally
  exact ⟨selected, hselected, htally.files, htally.headers, htally.includes⟩

end Settings

end HeaderGather
