import HeaderGather.FileTree.Lookup
import HeaderGather.Proofs.Path.Ancestors

/-! The segments of what stays of a path when parts are taken off at its end: those of the
path, without those of the parts that were taken off. -/
namespace HeaderGather.Path

variable {p : Path} {part : List Char} {parts outer : List (List Char)}

/-- The names among pieces of a text. -/
def namesOf (pieces : List (List Char)) : List String :=
  pieces.filterMap fun part => if part = [] then none else some (String.ofList part)

theorem namesOf_append (a b : List (List Char)) : namesOf (a ++ b) = namesOf a ++ namesOf b :=
  List.filterMap_append

theorem namesOf_singleton (h : part ≠ []) : namesOf [part] = [String.ofList part] := by
  simp [namesOf, h]

theorem segmentsOf_intercalate {pieces : List (List Char)} (h : ∀ piece ∈ pieces, '/' ∉ piece) :
    segmentsOf (['/'].intercalate pieces) = namesOf pieces := by
  cases pieces with
  | nil => rfl
  | cons piece pieces =>
      rw [segmentsOf, Text.splitOn_intercalate (List.cons_ne_nil piece pieces) h]
      rfl

/-- After the stem nothing comes, or a slash where the stem is a dot. -/
theorem stem_cases (p : Path) : p.stem.1 = [] ∨ p.stem.1 = ['/'] ∨
    p.stem.1 = ['.'] ∧ (p.stem.2 = [] ∨ ∃ rest, p.stem.2 = '/' :: rest) := by
  unfold stem
  split
  · exact .inr (.inl rfl)
  · exact .inr (.inr ⟨rfl, .inl rfl⟩)
  · next rest _ => exact .inr (.inr ⟨rfl, .inr ⟨rest, rfl⟩⟩)
  · exact .inl rfl

theorem reverse_isPrefix (h : parts <:+ p.parts) :
    parts.reverse <+: Text.splitOn '/' p.stem.2 := by
  have hdropped : p.parts <:+ (Text.splitOn '/' p.stem.2).reverse := List.dropWhile_suffix isIdle
  simpa using List.reverse_prefix.2 (h.trans hdropped)

theorem noSlash_of_suffix (h : parts <:+ p.parts) : ∀ part ∈ parts, '/' ∉ part := by
  intro part hpart
  exact Text.not_mem_of_mem_splitOn
    ((reverse_isPrefix h).subset (List.mem_reverse.2 hpart))

/-- A dot that a path begins with is a segment. -/
def stemNames (p : Path) : List String := if p.stem.1 = ['.'] then ["."] else []

theorem segments_ofParts (h : parts <:+ p.parts) :
    (ofParts p.stem.1 parts).segments = p.stemNames ++ namesOf parts.reverse := by
  have hslash : ∀ piece ∈ parts.reverse, '/' ∉ piece := fun piece hpiece =>
    noSlash_of_suffix h piece (List.mem_reverse.1 hpiece)
  have htext : (ofParts p.stem.1 parts).text.toList =
      p.stem.1 ++ ['/'].intercalate parts.reverse := by simp [ofParts]
  rw [segments_eq, htext, stemNames]
  rcases stem_cases p with hstem | hstem | ⟨hstem, hrest⟩
  · rw [hstem, if_neg (by decide), List.nil_append, List.nil_append, segmentsOf_intercalate hslash]
  · have hcut : ['/'] ++ ['/'].intercalate parts.reverse =
        [] ++ '/' :: ['/'].intercalate parts.reverse := rfl
    rw [hstem, if_neg (by decide), hcut, segmentsOf_append, segmentsOf_nil,
      segmentsOf_intercalate hslash]
  · rw [hstem, if_pos rfl]
    have hfirst : ∀ piece more, parts.reverse = piece :: more → piece = [] := by
      intro piece more hpieces
      obtain ⟨back, hback⟩ := reverse_isPrefix h
      rw [hpieces, List.cons_append] at hback
      rcases hrest with hnil | ⟨rest, hcons⟩
      · rw [hnil] at hback
        exact (List.cons.inj hback).1
      · rw [hcons, ← List.nil_append ('/' :: rest), Text.splitOn_append] at hback
        exact (List.cons.inj hback).1
    cases hpieces : parts.reverse with
    | nil => rfl
    | cons piece more =>
        obtain rfl := hfirst piece more hpieces
        rw [hpieces] at hslash
        have hmore := segmentsOf_intercalate (List.forall_mem_cons.1 hslash).2
        cases more with
        | nil => rfl
        | cons second more =>
            have hcut : ['.'] ++ ['/'].intercalate ([] :: second :: more) =
                ['.'] ++ '/' :: ['/'].intercalate (second :: more) := by
              rw [List.intercalate_cons_of_ne_nil (List.cons_ne_nil second more)]
              rfl
            rw [hcut, segmentsOf_append, hmore]
            rfl

theorem segments_ofParts_cons (h : part :: outer <:+ p.parts) :
    (ofParts p.stem.1 (part :: outer)).segments =
      (ofParts p.stem.1 outer).segments ++ namesOf [part] := by
  have houter : outer <:+ p.parts := (List.suffix_cons part outer).trans h
  rw [segments_ofParts h, segments_ofParts houter, List.reverse_cons, namesOf_append,
    List.append_assoc]

theorem getLast?_ofParts (stem : List Char) (outer : List (List Char)) (hne : part ≠ []) :
    (ofParts stem (part :: outer)).text.toList.getLast? = part.getLast? := by
  obtain ⟨front, hfront⟩ := Text.intercalate_concat '/' outer.reverse part
  rw [ofParts, List.reverse_cons, hfront, String.toList_ofList, ← List.append_assoc,
    List.getLast?_append, List.getLast?_eq_some_getLast hne, Option.some_or]

/-- A path cut before its last segment, which is a name or two dots. -/
structure EndsWith (p : Path) (front : List String) (name : String) : Prop where
  segments : p.segments = front ++ [name]
  noSlash : p.endsInSlash = false
  notHere : name ≠ "."

/-- A part that is not idle adds its name. -/
theorem endsWith_ofParts (h : part :: outer <:+ p.parts) (hidle : isIdle part = false) :
    (ofParts p.stem.1 (part :: outer)).EndsWith (ofParts p.stem.1 outer).segments
      (String.ofList part) := by
  obtain ⟨hne, hdot⟩ := isIdle_eq_false.1 hidle
  refine ⟨?_, ?_, ?_⟩
  · rw [segments_ofParts_cons h, namesOf_singleton hne]
  · rw [endsInSlash, getLast?_ofParts p.stem.1 outer hne, decide_eq_false_iff_not]
    intro hlast
    exact noSlash_of_suffix h part List.mem_cons_self (List.mem_of_getLast? hlast)
  · intro e
    exact hdot (by simpa using congrArg String.toList e)

namespace EndsWith

variable {front : List String} {name : String} (h : p.EndsWith front name)
include h

theorem getLast? : p.segments.getLast? = some name := by
  rw [h.segments, List.getLast?_concat]

theorem text_ne : p.text ≠ "" := by
  intro e
  have hnil : p.segments = [] := by rw [segments_eq, e]; rfl
  have hlast := h.getLast?
  rw [hnil] at hlast
  exact nomatch hlast

end EndsWith

theorem intercalate_isPrefix {front pieces : List (List Char)} (h : front <+: pieces) :
    ['/'].intercalate front <+: ['/'].intercalate pieces := by
  obtain ⟨back, rfl⟩ := h
  by_cases hfront : front = []
  · rw [hfront]
    exact List.nil_prefix
  · by_cases hback : back = []
    · simp [hback]
    · rw [Text.intercalate_append '/' hfront hback]
      exact List.prefix_append _ _

theorem text_ofParts_isPrefix (stem : List Char) (h : outer <:+ parts) :
    (ofParts stem outer).text.toList <+: (ofParts stem parts).text.toList := by
  simp only [ofParts, String.toList_ofList]
  exact (List.prefix_append_right_inj stem).2 (intercalate_isPrefix (List.reverse_prefix.2 h))

theorem text_ofParts_isPrefix_text (h : parts <:+ p.parts) :
    (ofParts p.stem.1 parts).text.toList <+: p.text.toList := by
  have hpieces := intercalate_isPrefix (reverse_isPrefix h)
  rw [Text.intercalate_splitOn] at hpieces
  rw [← stem_append p, ofParts, String.toList_ofList]
  exact (List.prefix_append_right_inj p.stem.1).2 hpieces

theorem isAbsolute_of_prefix {q : Path} (h : q.text.toList <+: p.text.toList) (hne : q.text ≠ "") :
    q.isAbsolute = p.isAbsolute := by
  obtain ⟨rest, hrest⟩ := h
  rw [isAbsolute, isAbsolute, ← hrest, List.head?_append,
    List.head?_eq_some_head (toList_ne_nil hne), Option.some_or]

theorem fault?_eq_none_iff : p.fault? = none ↔
    '\x00' ∉ p.text.toList ∧ p.text ≠ "" ∧ p.text.utf8ByteSize < 4096 := by
  unfold fault?
  split
  · next h => simp [h]
  · split
    · next h => simp [h]
    · next hnul hne =>
      split
      · next h => simp [h]
      · next h => simp [hnul, hne, Nat.lt_of_not_le h]

theorem text_ne_of_prefix {q : Path} (h : q.text.toList <+: p.text.toList) (hne : q.text ≠ "") :
    p.text ≠ "" := by
  intro e
  rw [e] at h
  exact hne (String.toList_injective (List.prefix_nil.1 h))

/-- A path is accepted only if the paths that it begins with are. -/
theorem fault?_of_prefix {q : Path} (h : q.text.toList <+: p.text.toList) (hne : q.text ≠ "")
    (hp : p.fault? = none) : q.fault? = none := by
  obtain ⟨rest, hrest⟩ := h
  have htext : p.text = q.text ++ String.ofList rest := by
    apply String.toList_injective
    rw [← hrest, String.toList_append, String.toList_ofList]
  obtain ⟨hnul, -, hshort⟩ := fault?_eq_none_iff.1 hp
  refine fault?_eq_none_iff.2 ⟨fun hmem => hnul (hrest ▸ List.mem_append_left rest hmem), hne, ?_⟩
  rw [htext, String.utf8ByteSize_append] at hshort
  omega

end HeaderGather.Path
