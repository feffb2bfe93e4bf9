import HeaderGather.BuildCache
import HeaderGather.Proofs.Scan.Sources
import HeaderGather.Proofs.Text.Decoding

/-! How a source ends its lines does not matter: a carriage return before each newline and a
newline at the very end change nothing that is taken from the source. -/
namespace HeaderGather

namespace Text

def carriageReturn : UInt8 := 0x0D

/-- The bytes with a carriage return before every newline. -/
def withReturns (bytes : Bytes) : Bytes :=
  bytes.flatMap fun b => if b = newline then [carriageReturn, newline] else [b]

theorem withReturns_of_not_mem {bytes : Bytes} (h : newline ∉ bytes) :
    withReturns bytes = bytes := by
  induction bytes with
  | nil => rfl
  | cons b bytes ih =>
      rw [List.mem_cons, not_or] at h
      rw [withReturns, List.flatMap_cons, if_neg (Ne.symm h.1), ← withReturns, ih h.2,
        List.singleton_append]

theorem withReturns_append {piece : Bytes} (rest : Bytes) (h : newline ∉ piece) :
    withReturns (piece ++ newline :: rest) =
      (piece ++ [carriageReturn]) ++ newline :: withReturns rest := by
  rw [withReturns, List.flatMap_append, ← withReturns, withReturns_of_not_mem h]
  simp [withReturns]

theorem dropEnd_concat {p : Char → Bool} {c : Char} (text : List Char) (h : p c = true) :
    dropEnd p (text ++ [c]) = dropEnd p text := by
  simp [dropEnd, h]

theorem lineOf_newline (piece : Bytes) : lineOf (piece ++ [newline]) = lineOf piece := by
  have hend : decodeLossy (piece ++ [newline]) = decodeLossy piece ++ ['\n'] :=
    decodeLossy_append_newline piece []
  rw [lineOf, hend, dropEnd_concat _ rfl, ← lineOf]

theorem lineOf_carriageReturn (piece : Bytes) :
    lineOf (piece ++ [carriageReturn]) = lineOf piece := by
  have hend : decodeLossy (piece ++ [carriageReturn]) = decodeLossy piece ++ ['\r'] :=
    decodeLossy_append_single (by decide) piece []
  rw [lineOf, hend, dropEnd_concat _ rfl, ← lineOf]

theorem linesOf_append {piece : Bytes} (rest : Bytes) (h : newline ∉ piece) :
    linesOf (piece ++ newline :: rest) = lineOf piece :: linesOf rest := by
  rw [linesOf, splitAfter_append rest h, List.map_cons, lineOf_newline, linesOf]

/-- Lines are cut and decoded, or decoded and cut. -/
theorem linesOf_eq (bytes : Bytes) :
    linesOf bytes = (splitAfter '\n' (decodeLossy bytes)).map (dropEnd isLineEnd) := by
  rw [← map_decodeLossy_splitAfter, List.map_map]
  rfl

theorem linesOf_withReturns (bytes : Bytes) : linesOf (withReturns bytes) = linesOf bytes := by
  induction bytes using separated_induction newline with
  | last bytes h => rw [withReturns_of_not_mem h]
  | cut piece rest h ih =>
      have hreturn : newline ∉ piece ++ [carriageReturn] := by
        simpa [h] using (by decide : newline ≠ carriageReturn)
      rw [withReturns_append rest h, linesOf_append _ hreturn, linesOf_append rest h,
        lineOf_carriageReturn, ih]

/-- A newline at the end ends the last line, or else makes an empty one. -/
theorem linesOf_concat (bytes : Bytes) :
    linesOf (bytes ++ [newline]) = linesOf bytes ∨
      linesOf (bytes ++ [newline]) = linesOf bytes ++ [[]] := by
  induction bytes using separated_induction newline with
  | last bytes h =>
      by_cases hne : bytes = []
      · rw [hne]
        exact .inr rfl
      · rw [linesOf_append [] h, linesOf, linesOf, splitAfter_of_not_mem h hne]
        exact .inl rfl
  | cut piece rest h ih =>
      rw [List.append_assoc, List.cons_append, linesOf_append _ h, linesOf_append rest h,
        List.cons_append]
      exact ih.imp (congrArg _) (congrArg _)

end Text

namespace Scan

theorem consumed_concat (window : Option Nat) (m : Since) (lines : List (List Char)) :
    consumed window m (lines ++ [[]]) = consumed window m lines ∨
      consumed window m (lines ++ [[]]) = consumed window m lines ++ [[]] := by
  induction lines generalizing m with
  | nil =>
      by_cases h : passed window m <;> simp [consumed, h]
  | cons line lines ih =>
      by_cases h : passed window m
      · simp [consumed, h]
      · simp only [List.cons_append, consumed, h, Bool.false_eq_true, if_false]
        exact (ih _).imp (congrArg _) (congrArg _)

/-- An empty line mentions nothing and is not counted. -/
theorem ofSource_complete_concat (window : Option Nat) (origin : Path) (c : Catalog)
    {bytes other : Text.Bytes}
    (h : Text.linesOf other = Text.linesOf bytes ∨
      Text.linesOf other = Text.linesOf bytes ++ [[]]) :
    (ofSource window origin (.complete other) c).catalog =
        (ofSource window origin (.complete bytes) c).catalog ∧
      (ofSource window origin (.complete other) c).counts =
        (ofSource window origin (.complete bytes) c).counts := by
  have hparts : consumed window none (Text.linesOf other) =
        consumed window none (Text.linesOf bytes) ∨
      consumed window none (Text.linesOf other) =
        consumed window none (Text.linesOf bytes) ++ [[]] := by
    cases h with
    | inl h => rw [h]; exact .inl rfl
    | inr h => rw [h]; exact consumed_concat window none _
  have hempty : Directive.ofLine [] = .other := rfl
  have hmentions : mentions (consumed window none (Text.linesOf other)) =
      mentions (consumed window none (Text.linesOf bytes)) := by
    cases hparts with
    | inl h => rw [h]
    | inr h => simp [h, mentions, hempty, Directive.mention?]
  constructor
  · ext1
    simp only [ofSource_catalog, ofLines_entries, Source.lines_complete, hmentions]
  · simp only [ofSource_counts_complete, countsOf, hmentions]
    cases hparts with
    | inl h => rw [h]
    | inr h => simp [h, isInclude, isMalformed, hempty, Directive.isInclude]

end Scan

/-- Scans and readings of a build cache take the same from both sources. -/
structure Source.Agrees (s s' : Source) : Prop where
  scanned : ∀ window origin c,
    (Scan.ofSource window origin s' c).catalog = (Scan.ofSource window origin s c).catalog ∧
      (Scan.ofSource window origin s' c).counts = (Scan.ofSource window origin s c).counts
  read : ∀ settings origin,
    (BuildCache.read settings origin s').1 = (BuildCache.read settings origin s).1

theorem Source.agrees_of_lines {bytes other : Text.Bytes}
    (h : Text.linesOf other = Text.linesOf bytes ∨
      Text.linesOf other = Text.linesOf bytes ++ [[]]) :
    (Source.complete bytes).Agrees (.complete other) := by
  refine ⟨fun window origin c => Scan.ofSource_complete_concat window origin c h,
    fun settings origin => ?_⟩
  have hentries : (Text.linesOf other).filter BuildCache.isEntry =
      (Text.linesOf bytes).filter BuildCache.isEntry := by
    cases h with
    | inl h => rw [h]
    | inr h => simp [h, BuildCache.isEntry]
  simp only [BuildCache.read, Source.lines_complete, Source.fault?_complete, hentries]

/-- Bytes are read by lines as their text is, and how the lines end does not matter. -/
theorem Source.lines_as_text (bytes : Text.Bytes) :
    (Text.splitOn Text.newline bytes).map Text.decodeLossy =
        Text.splitOn '\n' (Text.decodeLossy bytes) ∧
      (Source.complete bytes).lines =
        (Text.splitAfter '\n' (Text.decodeLossy bytes)).map (Text.dropEnd Text.isLineEnd) ∧
      (Source.complete bytes).Agrees (.complete (Text.withReturns bytes)) ∧
      (Source.complete bytes).Agrees (.complete (bytes ++ [Text.newline])) :=
  ⟨Text.map_decodeLossy_splitOn bytes, Text.linesOf_eq bytes,
    Source.agrees_of_lines (.inl (Text.linesOf_withReturns bytes)),
    Source.agrees_of_lines (Text.linesOf_concat bytes)⟩

end HeaderGather
