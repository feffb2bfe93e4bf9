import HeaderGather.Delivery
import HeaderGather.Proofs.Text.Split

/-! The components of paths that are put together from a directory and names, and where
the trail of a path ends. -/
namespace HeaderGather

theorem isName_iff (text : String) :
    isName text = true ↔ text ≠ "" ∧ text ≠ "." ∧ text ≠ ".." ∧ '/' ∉ text.toList := by
  simp [isName, and_assoc]

theorem toList_ne_nil {text : String} (h : text ≠ "") : text.toList ≠ [] := by
  intro e
  exact h (String.toList_injective e)

namespace Path

theorem same_iff {p q : Path} : p.same q = true ↔ p.components = q.components := by
  simp [same]

/-- The segments of a text. -/
def segmentsOf (text : List Char) : List String :=
  (Text.splitOn '/' text).filterMap fun part =>
    if part = [] then none else some (String.ofList part)

theorem segments_eq (p : Path) : p.segments = segmentsOf p.text.toList := rfl

theorem segmentsOf_nil : segmentsOf [] = [] := rfl

theorem segmentsOf_append (a b : List Char) :
    segmentsOf (a ++ '/' :: b) = segmentsOf a ++ segmentsOf b := by
  simp only [segmentsOf, Text.splitOn_append, List.filterMap_append]

theorem segmentsOf_concat (a : List Char) : segmentsOf (a ++ ['/']) = segmentsOf a := by
  rw [segmentsOf_append, segmentsOf_nil, List.append_nil]

theorem segmentsOf_name {name : String} (h : name ≠ "") (hs : '/' ∉ name.toList) :
    segmentsOf name.toList = [name] := by
  simp [segmentsOf, Text.splitOn_of_not_mem hs, toList_ne_nil h]

theorem of_mem_segmentsOf {text : List Char} {s : String} (h : s ∈ segmentsOf text) :
    s ≠ "" ∧ '/' ∉ s.toList := by
  obtain ⟨part, hpart, hs⟩ := List.mem_filterMap.1 h
  by_cases e : part = []
  · simp [e] at hs
  · simp only [e, if_false, Option.some.injEq] at hs
    subst hs
    refine ⟨fun h => e ?_, by simpa using Text.not_mem_of_mem_splitOn hpart⟩
    simpa using congrArg String.toList h

theorem getLast?_segmentsOf {text : List Char} (h : Text.afterLast '/' text ≠ []) :
    (segmentsOf text).getLast? = some (String.ofList (Text.afterLast '/' text)) := by
  have hlast := Text.getLast?_splitOn '/' text
  obtain ⟨parts, hparts⟩ := List.getLast?_eq_some_iff.1 hlast
  simp [segmentsOf, hparts, h]

/-- How the components of a path begin. -/
def beginning (p : Path) : List Component :=
  if p.isAbsolute then [.root]
  else if p.segments.head? = some "." then [.here]
  else []

theorem components_eq (p : Path) :
    p.components = p.beginning ++ p.segments.filterMap Component.ofSegment? := rfl

section Name

variable {name : String} (h : isName name = true)
include h

theorem isAbsolute_name : (Path.mk name).isAbsolute = false := by
  obtain ⟨hne, -, -, hs⟩ := (isName_iff name).1 h
  cases ht : name.toList with
  | nil => simp [isAbsolute, ht]
  | cons c rest =>
      have hc : c ≠ '/' := by
        rintro rfl
        exact hs (ht ▸ List.mem_cons_self)
      simpa [isAbsolute, ht] using hc

theorem text_join (p : Path) :
    (p.join ⟨name⟩).text.toList =
      if p.text = "" ∨ p.endsInSlash then p.text.toList ++ name.toList
      else p.text.toList ++ '/' :: name.toList := by
  simp only [join, isAbsolute_name h, Bool.false_eq_true, if_false, Bool.or_eq_true,
    decide_eq_true_eq]
  split <;> simp

theorem segments_join (p : Path) : (p.join ⟨name⟩).segments = p.segments ++ [name] := by
  obtain ⟨hne, -, -, hs⟩ := (isName_iff name).1 h
  rw [segments_eq, segments_eq, text_join h]
  by_cases hp : p.text = ""
  · simp [hp, segmentsOf_nil, segmentsOf_name hne hs]
  · by_cases hslash : p.endsInSlash = true
    · obtain ⟨q, hq⟩ := List.getLast?_eq_some_iff.1 (by simpa [endsInSlash] using hslash)
      simp only [hslash, or_true, if_true, hq, segmentsOf_concat]
      rw [List.append_assoc, List.singleton_append, segmentsOf_append, segmentsOf_name hne hs]
    · rw [if_neg (by simp [hp, hslash]), segmentsOf_append, segmentsOf_name hne hs]

theorem isAbsolute_join (p : Path) : (p.join ⟨name⟩).isAbsolute = p.isAbsolute := by
  simp only [isAbsolute, text_join h]
  cases ht : p.text.toList with
  | nil =>
      have hp : p.text = "" := String.toList_injective ht
      simpa [hp, isAbsolute] using isAbsolute_name h
  | cons c rest => split <;> rfl

theorem beginning_join (p : Path) : (p.join ⟨name⟩).beginning = p.beginning := by
  obtain ⟨-, hdot, -, -⟩ := (isName_iff name).1 h
  simp only [beginning, isAbsolute_join h, segments_join h]
  cases hs : p.segments with
  | nil => simp [hdot]
  | cons s rest => simp

/-- One more name is one more component. -/
theorem components_join (p : Path) : (p.join ⟨name⟩).components = p.components ++ [.name name] := by
  obtain ⟨-, hdot, hup, -⟩ := (isName_iff name).1 h
  simp [components_eq, beginning_join h, segments_join h, Component.ofSegment?, hdot, hup]

end Name

theorem components_extend (p : Path) {names : List String} (h : ∀ n ∈ names, isName n = true) :
    (p.extend names).components = p.components ++ names.map .name := by
  induction names generalizing p with
  | nil => simp [extend]
  | cons name names ih =>
      have hrest := ih (p.join ⟨name⟩) fun n hn => h n (List.mem_cons_of_mem _ hn)
      rw [components_join (h name List.mem_cons_self)] at hrest
      simpa [extend] using hrest

/-- Other names lead to another path. -/
theorem same_extend_iff {p : Path} {names others : List String}
    (h : ∀ n ∈ names, isName n = true) (h' : ∀ n ∈ others, isName n = true) :
    (p.extend names).same (p.extend others) = true ↔ names = others := by
  rw [same_iff, components_extend p h, components_extend p h', List.append_cancel_left_eq]
  exact List.map_inj_right fun _ _ e => Component.name.inj e

theorem isName_of_mem_components {p : Path} {n : String} (h : .name n ∈ p.components) :
    isName n = true := by
  rw [components_eq, List.mem_append] at h
  cases h with
  | inl h =>
      simp only [beginning] at h
      split at h
      · simp at h
      · split at h <;> simp at h
  | inr h =>
      obtain ⟨s, hs, hc⟩ := List.mem_filterMap.1 h
      obtain ⟨hne, hslash⟩ := of_mem_segmentsOf hs
      by_cases hdot : s = "."
      · simp [Component.ofSegment?, hdot] at hc
      · by_cases hup : s = ".."
        · simp [Component.ofSegment?, hup] at hc
        · simp only [Component.ofSegment?, hdot, hup, if_false, Option.some.injEq,
            Component.name.injEq] at hc
          exact (isName_iff n).2 (hc ▸ ⟨hne, hdot, hup, hslash⟩)

theorem mem_turn {names : List String} {c : Component} {n : String} (h : n ∈ trail.turn names c) :
    n ∈ names ∨ c = .name n := by
  cases c with
  | name m =>
      cases List.mem_cons.1 h with
      | inl e => exact .inr (e ▸ rfl)
      | inr h => exact .inl h
  | up => exact .inl (List.mem_of_mem_tail h)
  | root => exact .inl h
  | here => exact .inl h

theorem mem_foldl_turn {cs : List Component} {names : List String} {n : String}
    (h : n ∈ cs.foldl trail.turn names) : n ∈ names ∨ .name n ∈ cs := by
  induction cs generalizing names with
  | nil => exact .inl h
  | cons c cs ih =>
      cases ih h with
      | inl h =>
          cases mem_turn h with
          | inl h => exact .inl h
          | inr e => exact .inr (e ▸ List.mem_cons_self)
      | inr h => exact .inr (List.mem_cons_of_mem _ h)

/-- The trail has names only. -/
theorem isName_of_mem_trail {p : Path} {n : String} (h : n ∈ p.trail) : isName n = true := by
  cases mem_foldl_turn (List.mem_reverse.1 h) with
  | inl h => exact absurd h List.not_mem_nil
  | inr h => exact isName_of_mem_components h

/-- A path that ends in a name leads to that name. -/
theorem getLast?_trail {p : Path} {s : String} (h : p.segments.getLast? = some s)
    (hdot : s ≠ ".") (hup : s ≠ "..") : p.trail.getLast? = some s := by
  obtain ⟨before, hs⟩ := List.getLast?_eq_some_iff.1 h
  have hc : p.components = (p.beginning ++ before.filterMap Component.ofSegment?) ++ [.name s] := by
    rw [components_eq, hs]
    simp [Component.ofSegment?, hdot, hup]
  rw [trail, hc, List.foldl_append]
  simp [trail.turn]

theorem components_destination (out header : Path) :
    (out.destination header).components = out.components ++ header.trail.map .name :=
  components_extend out fun _ => isName_of_mem_trail

end Path

end HeaderGather
