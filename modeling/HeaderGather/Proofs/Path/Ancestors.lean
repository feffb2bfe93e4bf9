import HeaderGather.Proofs.Path.Components

/-! The paths around a path, by its spelling alone: what stays of it when parts are taken off
at its end. -/
namespace HeaderGather.Path

/-- The path goes on where the other one ends. -/
structure IsAncestor (around p : Path) : Prop where
  components : around.components <+: p.components
  proper : around.components ≠ p.components

theorem stem_append (p : Path) : p.stem.1 ++ p.stem.2 = p.text.toList := by
  unfold stem
  split <;> simp [*]

theorem isIdle_eq_false {part : List Char} : isIdle part = false ↔ part ≠ [] ∧ part ≠ ['.'] := by
  simp [isIdle]

theorem mem_segmentsOf_intercalate {pieces : List (List Char)} {part : List Char}
    (h : ∀ piece ∈ pieces, '/' ∉ piece) (hpart : part ∈ pieces) (hne : part ≠ []) :
    String.ofList part ∈ segmentsOf (['/'].intercalate pieces) := by
  rw [segmentsOf, Text.splitOn_intercalate (List.ne_nil_of_mem hpart) h]
  exact List.mem_filterMap.2 ⟨part, hpart, if_neg hne⟩

/-- A text that does not end in a slash has a segment. -/
theorem segmentsOf_ne_nil {text : List Char} {c : Char} (h : text.getLast? = some c)
    (hc : c ≠ '/') : segmentsOf text ≠ [] := by
  obtain ⟨front, rfl⟩ := List.getLast?_eq_some_iff.1 h
  have hlast : Text.afterLast '/' (front ++ [c]) ≠ [] := by simp [Text.afterLast, hc]
  intro hnil
  have hsome := getLast?_segmentsOf hlast
  rw [hnil] at hsome
  exact Option.some_ne_none _ hsome.symm

/-- A path that goes on after a slash with more than dots. -/
theorem isAncestor_of_text {around p : Path} {rest : List Char} {last : String}
    (htext : p.text.toList = around.text.toList ++ '/' :: rest) (hsegments : around.segments ≠ [])
    (hlast : last ∈ segmentsOf rest) (hdot : last ≠ ".") : around.IsAncestor p := by
  have hsegs : p.segments = around.segments ++ segmentsOf rest := by
    rw [segments_eq, htext, segmentsOf_append, segments_eq]
  have hbeginning : p.beginning = around.beginning := by
    have habsolute : p.isAbsolute = around.isAbsolute := by
      cases ht : around.text.toList with
      | nil => exact absurd (by rw [segments_eq, ht, segmentsOf_nil]) hsegments
      | cons c text => simp [isAbsolute, htext, ht]
    have hhead : p.segments.head? = around.segments.head? := by
      rw [hsegs, List.head?_append, List.head?_eq_some_head hsegments, Option.some_or]
    rw [beginning, beginning, habsolute, hhead]
  have hcomponents : p.components =
      around.components ++ (segmentsOf rest).filterMap Component.ofSegment? := by
    rw [components_eq, components_eq, hbeginning, hsegs, List.filterMap_append, List.append_assoc]
  constructor
  · rw [hcomponents]
    exact List.prefix_append _ _
  · intro hsame
    rw [hsame, List.self_eq_append_right, List.filterMap_eq_nil_iff] at hcomponents
    have hnone := hcomponents last hlast
    by_cases hup : last = ".."
    · simp [Component.ofSegment?, hup] at hnone
    · simp [Component.ofSegment?, hdot, hup] at hnone

/-- The parts after the stem, and idle ones after the last of them. -/
theorem splitOn_stem {p : Path} {last : List Char} {outer : List (List Char)}
    (h : p.parts = last :: outer) :
    isIdle last = false ∧
      ∃ idle, Text.splitOn '/' p.stem.2 = outer.reverse ++ last :: idle := by
  have hsplit := List.takeWhile_append_dropWhile (p := isIdle)
    (l := (Text.splitOn '/' p.stem.2).reverse)
  constructor
  · have hhead := List.head?_dropWhile_not isIdle (Text.splitOn '/' p.stem.2).reverse
    rw [← parts, h] at hhead
    simpa using hhead
  · rw [← parts, h] at hsplit
    refine ⟨((Text.splitOn '/' p.stem.2).reverse.takeWhile isIdle).reverse, ?_⟩
    simpa using (congrArg List.reverse hsplit).symm

theorem segments_ofParts_ne_nil {stem part : List Char} {outer : List (List Char)}
    (hne : part ≠ []) (hslash : '/' ∉ part) : (ofParts stem (part :: outer)).segments ≠ [] := by
  obtain ⟨front, hfront⟩ := Text.intercalate_concat '/' outer.reverse part
  have htext : (ofParts stem (part :: outer)).text.toList = stem ++ front ++ part := by
    simp [ofParts, hfront]
  have hlast : (stem ++ front ++ part).getLast? = some (part.getLast hne) := by
    rw [List.getLast?_append, List.getLast?_eq_some_getLast hne, Option.some_or]
  rw [segments_eq, htext]
  apply segmentsOf_ne_nil hlast
  intro e
  exact hslash (e ▸ List.getLast_mem hne)

/-- What stays of a path when some of its parts are taken off is an ancestor. -/
theorem isAncestor_ofParts {p : Path} {part : List Char} {outer : List (List Char)}
    (h : part :: outer <:+ p.parts.tail) (hidle : isIdle part = false) :
    (ofParts p.stem.1 (part :: outer)).IsAncestor p := by
  obtain ⟨between, hbetween⟩ := h
  cases hparts : p.parts with
  | nil => simp [hparts] at hbetween
  | cons last tail =>
      rw [hparts, List.tail_cons] at hbetween
      obtain ⟨hlast, idle, hpieces⟩ := splitOn_stem hparts
      obtain ⟨hlastNe, hlastDot⟩ := isIdle_eq_false.1 hlast
      obtain ⟨hpartNe, -⟩ := isIdle_eq_false.1 hidle
      have hslash : ∀ piece ∈ Text.splitOn '/' p.stem.2, '/' ∉ piece :=
        fun _ hpiece => Text.not_mem_of_mem_splitOn hpiece
      let front := (part :: outer).reverse
      let back := between.reverse ++ last :: idle
      have hsplit : Text.splitOn '/' p.stem.2 = front ++ back := by
        rw [hpieces, ← hbetween, List.reverse_append, List.append_assoc]
      have htext : p.text.toList =
          (ofParts p.stem.1 (part :: outer)).text.toList ++ '/' :: ['/'].intercalate back := by
        have hfront : front ≠ [] := by simp [front]
        have hback : back ≠ [] := by simp [back]
        rw [← stem_append, ← Text.intercalate_splitOn '/' p.stem.2, hsplit,
          Text.intercalate_append '/' hfront hback, ofParts, String.toList_ofList,
          List.append_assoc]
      have hpart : part ∈ front ++ back := by simp [front]
      apply isAncestor_of_text htext
      · exact segments_ofParts_ne_nil hpartNe (hslash part (hsplit ▸ hpart))
      · apply mem_segmentsOf_intercalate
        · exact fun piece hpiece => hslash piece (hsplit ▸ List.mem_append_right front hpiece)
        · exact List.mem_append_right _ List.mem_cons_self
        · exact hlastNe
      · intro hdot
        exact hlastDot (by simpa using congrArg String.toList hdot)

end HeaderGather.Path
