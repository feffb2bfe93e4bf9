import HeaderGather.Proofs.Path.Components
import HeaderGather.Proofs.Text.Search

/-! Spellings of one path. Paths with the same components differ in slashes and in dots
between them only, and so do the paths that a text makes when it is joined to them. -/
namespace HeaderGather

namespace Text

/-- Splitting loses nothing but separators. -/
theorem exists_mem_splitOn_iff {α : Type} [DecidableEq α] {sep a : α} (h : a ≠ sep) (l : List α) :
    (∃ piece ∈ splitOn sep l, a ∈ piece) ↔ a ∈ l := by
  induction l with
  | nil => simp [splitOn]
  | cons b l ih =>
      by_cases hb : b = sep
      · have hne : a ≠ b := fun e => h (e.trans hb)
        rw [List.mem_cons, or_iff_right hne, ← ih]
        simp [splitOn, hb]
      · cases hs : splitOn sep l with
        | nil => exact absurd hs (splitOn_ne_nil sep l)
        | cons first others =>
            rw [List.mem_cons, ← ih, hs]
            simp [splitOn, hb, hs, or_assoc]

end Text

namespace Path

variable {p q : Path}

/-- The segments that say something. -/
def turns (segments : List String) : List String := segments.filter (· ≠ ".")

theorem mem_text_iff {c : Char} (h : c ≠ '/') :
    c ∈ p.text.toList ↔ ∃ s ∈ p.segments, c ∈ s.toList := by
  rw [← Text.exists_mem_splitOn_iff h]
  simp only [segments, List.mem_filterMap]
  constructor
  · rintro ⟨piece, hpiece, hmem⟩
    refine ⟨String.ofList piece, ⟨piece, hpiece, if_neg (List.ne_nil_of_mem hmem)⟩, ?_⟩
    simpa using hmem
  · rintro ⟨s, ⟨piece, hpiece, hs⟩, hc⟩
    split at hs
    · exact nomatch hs
    · obtain rfl := Option.some.inj hs
      exact ⟨piece, hpiece, by simpa using hc⟩

theorem ofSegment?_of_ne {s : String} (h : s ≠ ".") :
    Component.ofSegment? s = some (if s = ".." then .up else .name s) := by
  rw [Component.ofSegment?, if_neg h]
  split <;> rfl

theorem filterMap_ofSegment? (segments : List String) :
    segments.filterMap Component.ofSegment? =
      (turns segments).map fun s => if s = ".." then Component.up else .name s := by
  induction segments with
  | nil => rfl
  | cons s segments ih =>
      by_cases h : s = "."
      · simpa [turns, h, Component.ofSegment?] using ih
      · simpa [turns, h, ofSegment?_of_ne h] using ih

theorem component_injective :
    Function.Injective fun s : String => if s = ".." then Component.up else .name s := by
  intro a b h
  by_cases ha : a = ".." <;> by_cases hb : b = ".." <;> simp_all

/-- Whether a component can stand at the beginning of a path only. -/
def Component.isBeginning : Component → Bool
  | .root => true
  | .here => true
  | _ => false

theorem isBeginning_of_mem_beginning {c : Component} (h : c ∈ p.beginning) :
    c.isBeginning = true := by
  unfold beginning at h
  split at h
  · obtain rfl := List.mem_singleton.1 h
    rfl
  · split at h
    · obtain rfl := List.mem_singleton.1 h
      rfl
    · exact absurd h List.not_mem_nil

theorem isBeginning_of_segment {s : String} {c : Component} (h : Component.ofSegment? s = some c) :
    c.isBeginning = false := by
  by_cases hs : s = "."
  · exact absurd h (by simp [Component.ofSegment?, hs])
  · rw [ofSegment?_of_ne hs] at h
    obtain rfl := Option.some.inj h
    split <;> rfl

/-- Paths with the same components begin alike, and say the same after that. -/
theorem same_split (h : p.same q = true) :
    p.beginning = q.beginning ∧ turns p.segments = turns q.segments := by
  have hhead : ∀ r : Path, ∀ c,
      (r.segments.filterMap Component.ofSegment?).head? = some c → c.isBeginning = false := by
    intro r c hc
    obtain ⟨s, -, hs⟩ := List.mem_filterMap.1 (List.mem_of_head? hc)
    exact isBeginning_of_segment hs
  have hall : ∀ r : Path, ∀ c ∈ r.beginning, c.isBeginning = true :=
    fun _ _ => isBeginning_of_mem_beginning
  have hcomponents := same_iff.1 h
  rw [components_eq, components_eq] at hcomponents
  constructor
  · have htake := congrArg (List.takeWhile Component.isBeginning) hcomponents
    rwa [Text.takeWhile_append_of_head (hall p) (hhead p),
      Text.takeWhile_append_of_head (hall q) (hhead q)] at htake
  · have hdrop := congrArg (List.dropWhile Component.isBeginning) hcomponents
    rw [Text.dropWhile_append_of_head (hall p) (hhead p),
      Text.dropWhile_append_of_head (hall q) (hhead q), filterMap_ofSegment?,
      filterMap_ofSegment?] at hdrop
    exact component_injective.list_map hdrop

section Same

variable (h : p.same q = true)
include h

theorem isAbsolute_of_same : p.isAbsolute = q.isAbsolute := by
  have iff : ∀ r : Path, r.isAbsolute = decide (Component.root ∈ r.beginning) := by
    intro r
    unfold beginning
    cases r.isAbsolute with
    | true => rfl
    | false => simp
  rw [iff p, iff q, (same_split h).1]

/-- All letters but slashes and dots are in both spellings. -/
theorem mem_text_of_same {c : Char} (hslash : c ≠ '/') (hdot : c ≠ '.') :
    c ∈ p.text.toList ↔ c ∈ q.text.toList := by
  have iff : ∀ r : Path, c ∈ r.text.toList ↔ ∃ s ∈ turns r.segments, c ∈ s.toList := by
    intro r
    rw [mem_text_iff hslash]
    constructor
    · rintro ⟨s, hs, hc⟩
      have hne : s ≠ "." := by
        rintro rfl
        exact hdot (by simpa using hc)
      exact ⟨s, by simp [turns, hs, hne], hc⟩
    · rintro ⟨s, hs, hc⟩
      exact ⟨s, (List.mem_filter.1 hs).1, hc⟩
  rw [iff p, iff q, (same_split h).2]

end Same

variable {text : Path}

/-- What a text adds to the steps of a directory. An empty text adds the slash before it. -/
def lastSteps (text : Path) : List String := if text.text = "" then [""] else text.steps

theorem text_of_components_nil (h : p.components = []) : p.text = "" := by
  by_contra hne
  cases ht : p.text.toList with
  | nil => exact toList_ne_nil hne ht
  | cons c rest =>
      by_cases hc : c = '/'
      · simp [components_eq, beginning, isAbsolute, ht, hc] at h
      · obtain ⟨s, hs, hmem⟩ := (mem_text_iff hc).1 (ht ▸ List.mem_cons_self)
        have hrelative : p.isAbsolute = false := by simp [isAbsolute, ht, hc]
        rw [components_eq, beginning, hrelative, List.append_eq_nil_iff] at h
        obtain ⟨hhead, hall⟩ := h
        cases hsegments : p.segments with
        | nil => exact absurd (hsegments ▸ hs) List.not_mem_nil
        | cons first others =>
            by_cases hdot : first = "."
            · simp [hsegments, hdot] at hhead
            · simp [hsegments, ofSegment?_of_ne hdot] at hall

theorem text_empty_of_same (h : p.same q = true) (hp : p.text = "") : q.text = "" := by
  apply text_of_components_nil
  rw [← same_iff.1 h, components_eq, beginning]
  simp [isAbsolute, segments, hp, Text.splitOn]

theorem lastSteps_ne_nil (h : text.isAbsolute = false) : text.lastSteps ≠ [] := by
  unfold lastSteps
  split
  · exact List.cons_ne_nil "" []
  · next hne =>
    intro hnil
    obtain ⟨hsegments, -⟩ := List.append_eq_nil_iff.1 hnil
    cases ht : text.text.toList with
    | nil => exact toList_ne_nil hne ht
    | cons c rest =>
        have hc : c ≠ '/' := by
          rintro rfl
          simp [isAbsolute, ht] at h
        obtain ⟨s, hs, -⟩ := (mem_text_iff hc).1 (ht ▸ List.mem_cons_self)
        exact absurd (hsegments ▸ hs) List.not_mem_nil

section Join

variable (hp : p.text ≠ "") (h : text.isAbsolute = false)
include hp h

/-- One slash stands between a directory and the text that is joined to it. -/
theorem toList_join : ∃ front, (p.text.toList = front ∨ p.text.toList = front ++ ['/']) ∧
    (p.join text).text.toList = front ++ '/' :: text.text.toList := by
  by_cases hslash : p.endsInSlash = true
  · obtain ⟨front, hfront⟩ := List.getLast?_eq_some_iff.1 (by simpa [endsInSlash] using hslash)
    exact ⟨front, .inr hfront, by simp [join, h, hslash, hfront]⟩
  · exact ⟨p.text.toList, .inl rfl, by simp [join, h, hp, hslash]⟩

theorem isAbsolute_joined : (p.join text).isAbsolute = p.isAbsolute := by
  obtain ⟨front, hfront, hjoin⟩ := toList_join hp h
  rw [isAbsolute, isAbsolute, hjoin]
  cases front with
  | nil =>
      cases hfront with
      | inl e => exact absurd e (toList_ne_nil hp)
      | inr e => rw [e]; rfl
  | cons c front => cases hfront with | _ e => rw [e]; rfl

theorem mem_text_joined {c : Char} (hc : c ≠ '/') :
    c ∈ (p.join text).text.toList ↔ c ∈ p.text.toList ∨ c ∈ text.text.toList := by
  obtain ⟨front, hfront, hjoin⟩ := toList_join hp h
  cases hfront with | _ e => simp [hjoin, e, hc]

/-- The steps of a joined path are those of the directory, and then those of the text. -/
theorem steps_joined : (p.join text).steps = p.segments ++ text.lastSteps := by
  obtain ⟨front, hfront, hjoin⟩ := toList_join hp h
  have hsegments : p.segments = segmentsOf front := by
    cases hfront with
    | inl e => rw [segments_eq, e]
    | inr e => rw [segments_eq, e, segmentsOf_concat]
  have hlast : (p.join text).endsInSlash =
      if text.text = "" then true else text.endsInSlash := by
    simp only [endsInSlash, hjoin, List.getLast?_append, List.getLast?_cons]
    split
    · next e => simp [e]
    · next hne =>
      rw [List.getLast?_eq_some_getLast (toList_ne_nil hne)]
      simp
  rw [steps, hlast, segments_eq, hjoin, segmentsOf_append, ← hsegments, List.append_assoc,
    lastSteps]
  congr 1
  split
  · next e => simp [e, segmentsOf_nil]
  · rfl

end Join

end Path

end HeaderGather
