import Mathlib.Order.WithBot
import HeaderGather.Proofs.Scan.Tally

/-! Scans with two windows. Of every source the wider window reads all that the narrower one reads
of it. So no name is lost, although a header that is cut off in one source may be added under the
text of a later one. -/
namespace HeaderGather

namespace Settings

/-- How many lines a window has. One that is none has more than any number of them. -/
def extent (window : Option Nat) : WithTop Nat :=
  match positive window with
  | none => ⊤
  | some n => .some n

theorem extent_le_none (window : Option Nat) : extent window ≤ extent none := le_top

end Settings

namespace Scan

open Settings (extent positive)

variable {window wider : Option Nat}

/-- Where the wider window has passed, the narrower one has. -/
theorem passed_of_extent_le (h : extent window ≤ extent wider) {m : Since}
    (hpassed : passed (positive wider) m = true) : passed (positive window) m = true := by
  unfold extent at h
  cases hwider : positive wider with
  | none => simp [hwider, passed] at hpassed
  | some most =>
      cases hwindow : positive window with
      | none => simp [hwider, hwindow] at h
      | some least =>
          cases m with
          | none => simp [hwider, passed] at hpassed
          | some n =>
              have hle : least ≤ most := by simpa [hwider, hwindow] using h
              have hn : most ≤ n := by simpa [hwider, passed] using hpassed
              simpa [passed] using hle.trans hn

theorem consumed_isPrefix (h : extent window ≤ extent wider) (m : Since)
    (lines : List (List Char)) :
    consumed (positive window) m lines <+: consumed (positive wider) m lines := by
  induction lines generalizing m with
  | nil => exact List.prefix_rfl
  | cons line lines ih =>
      by_cases hpassed : passed (positive window) m = true
      · simp [consumed, hpassed]
      · have hopen : ¬ passed (positive wider) m = true :=
          fun hwide => hpassed (passed_of_extent_le h hwide)
        simp only [consumed, hpassed, hopen]
        exact (List.prefix_cons_inj line).2 (ih _)

theorem partOf_isPrefix (h : extent window ≤ extent wider) (source : Source) :
    partOf (positive window) source <+: partOf (positive wider) source :=
  consumed_isPrefix h none source.lines

theorem mem_namesIn_of_extent_le (h : extent window ≤ extent wider) {source : Source}
    {name : String} (hname : name ∈ namesIn (positive window) source) :
    name ∈ namesIn (positive wider) source :=
  (((partOf_isPrefix h source).sublist.filterMap _).map Prod.fst).subset hname

/-- More of a source adds to a catalog what less of it adds, and then more. -/
theorem ofSource_entries_isPrefix (h : extent window ≤ extent wider) (origin : Path)
    (source : Source) (c : Catalog) :
    (ofSource (positive window) origin source c).catalog.entries <+:
      (ofSource (positive wider) origin source c).catalog.entries := by
  obtain ⟨rest, hrest⟩ := partOf_isPrefix h source
  have hmentions : mentions (partOf (positive wider) source) =
      mentions (partOf (positive window) source) ++ mentions rest := by
    rw [← hrest, mentions, List.filterMap_append]
    rfl
  have hentries : ∀ w, (ofSource w origin source c).catalog.entries =
      c.entries ++ (firstMentions c.names (mentions (partOf w source))).map entryOf := by
    intro w
    rw [ofSource_catalog, ofLines_entries, partOf]
  rw [hentries, hentries, hmentions, firstMentions_append, List.map_append, ← List.append_assoc]
  exact List.prefix_append _ _

theorem names_ofSources_mono (h : extent window ≤ extent wider) (c : Catalog)
    (sources : List (Path × Source)) :
    ∀ name ∈ (ofSources (positive window) c sources).1.names,
      name ∈ (ofSources (positive wider) c sources).1.names := by
  intro name hname
  rw [mem_names_ofSources] at hname ⊢
  obtain hknown | ⟨source, hsource, hmentioned⟩ := hname
  · exact .inl hknown
  · exact .inr ⟨source, hsource, mem_namesIn_of_extent_le h hmentioned⟩

/-- The catalogs need not agree: what is counted here does not depend on what is known. -/
theorem counts_ofSources_mono (h : extent window ≤ extent wider) (c c' : Catalog)
    (sources : List (Path × Source)) :
    List.Forall₂ (fun few many : Counts =>
        few.includesSeen ≤ many.includesSeen ∧ few.malformed ≤ many.malformed)
      (ofSources (positive window) c sources).2 (ofSources (positive wider) c' sources).2 := by
  induction sources generalizing c c' with
  | nil => exact .nil
  | cons one sources ih =>
      obtain ⟨origin, source⟩ := one
      obtain ⟨hseen, hmalformed, -⟩ := ofSource_counts_lines (positive window) origin source c
      obtain ⟨hseen', hmalformed', -⟩ := ofSource_counts_lines (positive wider) origin source c'
      have hsub := (partOf_isPrefix h source).sublist
      refine .cons ⟨?_, ?_⟩ (ih _ _)
      · rw [hseen, hseen']
        exact hsub.countP_le
      · rw [hmalformed, hmalformed']
        exact hsub.countP_le

/-- A wider window loses no name. It sees in every source at least as many includes and malformed
directives, and a single source gives the same entries under it, with more after them. So what any
window finds is found without one. -/
theorem ofSources_wider (h : extent window ≤ extent wider) (c : Catalog)
    (sources : List (Path × Source)) :
    let narrow := ofSources (positive window) c sources
    let wide := ofSources (positive wider) c sources
    (∀ name ∈ narrow.1.names, name ∈ wide.1.names) ∧
      List.Forall₂ (fun few many : Counts =>
        few.includesSeen ≤ many.includesSeen ∧ few.malformed ≤ many.malformed)
        narrow.2 wide.2 ∧
      (∀ one, sources = [one] → narrow.1.entries <+: wide.1.entries) ∧
      ∀ name ∈ narrow.1.names, name ∈ (ofSources none c sources).1.names := by
  intro narrow wide
  refine ⟨names_ofSources_mono h c sources, counts_ofSources_mono h c c sources, ?_,
    names_ofSources_mono (Settings.extent_le_none window) c sources⟩
  rintro ⟨origin, source⟩ rfl
  exact ofSource_entries_isPrefix h origin source c

/-- A source with a header that a window of one line does not reach, and another that names that
header as well. -/
def twoSources : List (Path × Source) :=
  [(⟨"a.c"⟩, ⟨Text.encode "#include <a.h>\n\n#include <x/b.h>\nint".toList, some .isDirectory⟩),
    (⟨"b.c"⟩, .complete (Text.encode "#include <y/b.h>\n#include <c.h\n".toList))]

/-- The header is not lost to the narrow window, but it is wanted under another text. -/
theorem ofSources_wider_twoSources :
    extent (some 1) ≤ extent (some 0) ∧
      (ofSources (positive (some 1)) .empty twoSources).1.entries =
        [("a.h", .wanted "a.h"), ("b.h", .wanted "y/b.h")] ∧
      (ofSources (positive (some 0)) .empty twoSources).1.entries =
        [("a.h", .wanted "a.h"), ("b.h", .wanted "x/b.h")] ∧
      (∀ name ∈ (ofSources (positive (some 1)) .empty twoSources).1.names,
        name ∈ (ofSources (positive (some 0)) .empty twoSources).1.names) ∧
      List.Forall₂ (fun few many : Counts =>
        few.includesSeen ≤ many.includesSeen ∧ few.malformed ≤ many.malformed)
        (ofSources (positive (some 1)) .empty twoSources).2
        (ofSources (positive (some 0)) .empty twoSources).2 := by
  have h : extent (some 1) ≤ extent (some 0) := le_top
  obtain ⟨hnames, hcounts, -⟩ := ofSources_wider h .empty twoSources
  refine ⟨h, ?_, ?_, hnames, hcounts⟩
  · decide +kernel
  · decide +kernel

end Scan

end HeaderGather
