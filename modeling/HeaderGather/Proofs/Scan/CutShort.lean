import HeaderGather.Proofs.Scan.LineEnds
import HeaderGather.Proofs.Scan.Tally

/-! Sources whose reader fails. Such a source says what its complete lines say, and the fault is
met only if the window does not pass within these. -/
namespace HeaderGather

/-- Of the pieces, those that end with the separator are all but a last one without it. -/
theorem Text.filter_splitAfter {α : Type} [DecidableEq α] (sep : α) (l : List α) :
    ((splitAfter sep l).filter fun p => p.getLast? = some sep) =
      splitAfter sep (untilLast sep l) := by
  induction l using separated_induction sep with
  | last l h =>
      rw [untilLast_of_not_mem h]
      by_cases hne : l = []
      · rw [hne]
        rfl
      · have hlast : l.getLast? ≠ some sep := fun e => h (List.mem_of_getLast? e)
        rw [splitAfter_of_not_mem h hne]
        simp [hlast, splitAfter]
  | cut piece rest h ih =>
      rw [untilLast_append_sep, splitAfter_append _ h, splitAfter_append _ h, List.filter_cons, ih]
      simp

namespace Source

/-- A source whose reader fails after some bytes. -/
def cutShort (bytes : Text.Bytes) (fault : Fault) : Source := { bytes, fault? := some fault }

/-- Of the bytes before the fault the complete lines are read. -/
theorem lines_cutShort (bytes : Text.Bytes) (fault : Fault) :
    (cutShort bytes fault).lines = Text.linesOf (Text.untilLast Text.newline bytes) := by
  have hpieces : (cutShort bytes fault).pieces =
      Text.splitAfter Text.newline (Text.untilLast Text.newline bytes) :=
    Text.filter_splitAfter Text.newline bytes
  rw [lines, hpieces, Text.linesOf]

end Source

namespace Scan

/-- Two scans found the same, whatever became of the files. -/
structure FindsSame (s s' : Scan) : Prop where
  catalog : s.catalog = s'.catalog
  includesSeen : s.counts.includesSeen = s'.counts.includesSeen
  malformed : s.counts.malformed = s'.counts.malformed
  newHeaders : s.counts.newHeaders = s'.counts.newHeaders

/-- What is found in a source is found in its lines, however its reading ends. -/
theorem findsSame_ofSource (window : Option Nat) (origin : Path) (c : Catalog)
    {source other : Source} (h : source.lines = other.lines) :
    (ofSource window origin source c).FindsSame (ofSource window origin other c) := by
  obtain ⟨hseen, hmalformed, hnew⟩ := ofSource_counts_lines window origin source c
  obtain ⟨hseen', hmalformed', hnew'⟩ := ofSource_counts_lines window origin other c
  have hpart : partOf window source = partOf window other := by rw [partOf, partOf, h]
  rw [hpart] at hseen hmalformed hnew
  refine ⟨?_, hseen.trans hseen'.symm, hmalformed.trans hmalformed'.symm, hnew.trans hnew'.symm⟩
  rw [ofSource_catalog, ofSource_catalog, h]

/-- A source whose reader fails is scanned like the complete lines before the fault, read to
their end. It counts as scanned if the window passes within these lines, after the last of them
perhaps, and as unreadable if it does not. -/
theorem ofSource_cutShort (window : Option Nat) (origin : Path) (bytes : Text.Bytes)
    (fault : Fault) (c : Catalog) :
    let whole := Text.untilLast Text.newline bytes
    let w := Settings.positive window
    let s := ofSource w origin (.cutShort bytes fault) c
    (∃ rest, bytes = whole ++ rest ∧ Text.newline ∉ rest) ∧
      (whole = [] ∨ whole.getLast? = some Text.newline) ∧
      s.FindsSame (ofSource w origin (.complete whole) c) ∧
      (Stops w (Text.linesOf whole) ∧ s.counts.filesScanned = 1 ∧ s.counts.filesUnreadable = 0 ∨
        ¬ Stops w (Text.linesOf whole) ∧ s.counts.filesScanned = 0 ∧
          s.counts.filesUnreadable = 1) := by
  intro whole w s
  have hlines : (Source.cutShort bytes fault).lines = Text.linesOf whole :=
    Source.lines_cutShort bytes fault
  refine ⟨⟨Text.afterLast Text.newline bytes, ?_, Text.not_mem_afterLast _ _⟩,
    Text.getLast?_untilLast _ _, findsSame_ofSource w origin c hlines, ?_⟩
  · exact (Text.untilLast_append_afterLast Text.newline bytes).symm
  · obtain ⟨file, hfile, hcounts⟩ := ofSource_counts w origin (.cutShort bytes fault) c
    rw [show s.counts = _ from hcounts, ← hlines]
    cases hfile with
    | scanned h =>
        have hmet : (Source.cutShort bytes fault).fault? ≠ none := Option.some_ne_none fault
        exact .inl ⟨h.resolve_right hmet, rfl, rfl⟩
    | unreadable open_ => exact .inr ⟨open_, rfl, rfl⟩

end Scan

end HeaderGather
