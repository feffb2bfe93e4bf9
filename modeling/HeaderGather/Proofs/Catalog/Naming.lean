import HeaderGather.Proofs.Catalog.Extension
import HeaderGather.Proofs.FileTree.Writing
import HeaderGather.Proofs.Search.Pass

/-! Names and locations. A header is named by the text of a directive, cut at slashes and
backslashes, and is found under a path whose end is that text. So the name can still be read
off the last segment of the path, whatever the search path is. -/
namespace HeaderGather

namespace Directive

/-- The separators are slashes and backslashes. -/
theorem baseName_eq (text : List Char) :
    baseName text = Text.afterLast '\\' (Text.afterLast '/' text) := by
  have both : (fun c => !isSeparator c) =
      fun c : Char => decide (decide (c ≠ '\\') = true ∧ decide (c ≠ '/') = true) := by
    funext c
    by_cases hs : c = '/' <;> by_cases hb : c = '\\' <;> simp [isSeparator, hs, hb]
  rw [baseName, both, Text.afterLast, Text.afterLast, List.reverse_reverse,
    List.takeWhile_takeWhile]

end Directive

theorem Text.afterLast_nil {α : Type} [DecidableEq α] (sep : α) : afterLast sep [] = [] := rfl

namespace Path

/-- However a path is joined to a directory, it ends as before. -/
theorem afterLast_join (p q : Path) :
    Text.afterLast '/' (p.join q).text.toList = Text.afterLast '/' q.text.toList := by
  unfold join
  split
  · rfl
  · split
    · rename_i h
      rw [String.toList_append]
      cases (by simpa using h : p.text = "" ∨ p.endsInSlash = true) with
      | inl h => rw [h]; rfl
      | inr h =>
          obtain ⟨q', hq⟩ := List.getLast?_eq_some_iff.1 (by simpa [endsInSlash] using h)
          rw [hq, List.append_assoc, List.singleton_append, Text.afterLast_append_sep]
    · have cut : (p.text ++ "/" ++ q.text).toList = p.text.toList ++ '/' :: q.text.toList := by
        simp
      rw [cut, Text.afterLast_append_sep]

end Path

/-- A path that denotes a file does not end in dots. -/
theorem FileTree.getLast?_of_isFile {t : FileTree} {p : Path} {last : String}
    (h : t.isFile p = true) (hl : p.segments.getLast? = some last) : last ≠ "." ∧ last ≠ ".." := by
  obtain ⟨place, b, m, hp, hf⟩ := isFile_iff.1 h
  have turn (e : last = "." ∨ last = "..") : False := by
    have hd := locate_turn (p := p) (fun n hn => ?_) hp
    · exact nomatch hf.symm.trans hd
    · by_cases hs : p.endsInSlash = true
      · simp only [Path.steps, hs, if_true, List.getLast?_concat, Option.some.injEq] at hn
        exact .inl hn.symm
      · simp only [Path.steps, hs, List.append_nil, hl, Option.some.injEq, Bool.false_eq_true,
          if_false] at hn
        exact .inr (hn ▸ e)
  exact ⟨fun e => turn (.inl e), fun e => turn (.inr e)⟩

namespace SearchPath

theorem find?_relative (s : SearchPath) (t : FileTree) {text : Path} (h : text.isAbsolute = false) :
    s.find? t text = (s.provider? t text).map fun dir => dir.join text := by
  rw [find?, h, if_neg Bool.false_ne_true]

/-- What is found can be read. It is an absolute text itself, or a text as seen from a directory
of the search path. -/
theorem find?_cases {s : SearchPath} {t : FileTree} {text p : Path} (h : s.find? t text = some p) :
    t.isReadable p = true ∧ ((text.isAbsolute = true ∧ p = text) ∨
      (text.isAbsolute = false ∧ ∃ dir ∈ s.dirs, p = dir.join text)) := by
  cases ha : text.isAbsolute with
  | true =>
      rw [find?, ha, if_pos rfl, Option.ite_none_right_eq_some] at h
      obtain ⟨hreadable, hp⟩ := h
      obtain rfl := Option.some.inj hp
      exact ⟨hreadable, .inl ⟨rfl, rfl⟩⟩
  | false =>
      rw [find?_relative s t ha, Option.map_eq_some_iff] at h
      obtain ⟨dir, hdir, rfl⟩ := h
      unfold provider? at hdir
      have hreadable := List.find?_some hdir
      exact ⟨hreadable, .inr ⟨rfl, dir, List.mem_of_find?_eq_some hdir, rfl⟩⟩

/-- What is found can be read, under a path that ends as the text does. -/
theorem find?_spec {s : SearchPath} {t : FileTree} {text p : Path} (h : s.find? t text = some p) :
    t.isReadable p = true ∧
      Text.afterLast '/' p.text.toList = Text.afterLast '/' text.text.toList := by
  obtain ⟨hreadable, ⟨-, rfl⟩ | ⟨-, dir, -, rfl⟩⟩ := find?_cases h
  · exact ⟨hreadable, rfl⟩
  · exact ⟨hreadable, Path.afterLast_join dir text⟩

end SearchPath

/-- How a name follows from a location. -/
def Location.Names (name : String) : Location → Prop
  | .wanted text => Directive.IsNameOf name text
  | .found path => ∃ last, path.segments.getLast? = some last ∧ last ≠ "." ∧ last ≠ ".." ∧
      name.toList = Text.afterLast '\\' last.toList

theorem SearchPath.improve_names {s : SearchPath} {t : FileTree} {name : String}
    {location : Location} (h : location.Names name) : (s.improve t location).Names name := by
  cases location with
  | found path => exact h
  | wanted text =>
      cases hf : s.find? t ⟨text⟩ with
      | none => simpa only [improve, hf] using h
      | some path =>
          simp only [improve, hf]
          obtain ⟨hne, hname⟩ := h
          obtain ⟨hreadable, hend⟩ := find?_spec hf
          have hfile := FileTree.isFile_of_isReadable hreadable
          rw [Directive.baseName_eq, ← hend] at hname
          have hlast : Text.afterLast '/' path.text.toList ≠ [] := by
            intro e
            rw [e, Text.afterLast_nil] at hname
            exact toList_ne_nil hne hname
          have hseg := Path.getLast?_segmentsOf hlast
          obtain ⟨hdot, hup⟩ := FileTree.getLast?_of_isFile hfile hseg
          exact ⟨_, hseg, hdot, hup, by rw [hname, String.toList_ofList]⟩

namespace Catalog

/-- Every name follows from its location. -/
def WellNamed (c : Catalog) : Prop := ∀ e ∈ c.entries, e.2.Names e.1

theorem wellNamed_empty : empty.WellNamed := nofun

variable {c c' : Catalog}

theorem Extends.wellNamed (h : c.Extends c') (hc : c.WellNamed) : c'.WellNamed := by
  obtain ⟨new, hentries, hnew⟩ := h
  intro e he
  rw [hentries] at he
  cases List.mem_append.1 he with
  | inl he => exact hc e he
  | inr he =>
      obtain ⟨text, hwanted, hname⟩ := hnew e he
      rw [hwanted]
      exact hname

theorem wellNamed_locateAll (s : SearchPath) (t : FileTree) (hc : c.WellNamed) :
    (s.locateAll t c).1.WellNamed := by
  rw [SearchPath.located_eq]
  intro e he
  obtain ⟨old, hold, rfl⟩ := List.mem_map.1 he
  exact SearchPath.improve_names (hc old hold)

/-- The catalogs that scans and searches make from nothing, in any order and over any
trees. A scan with a pattern that spells nothing leaves the catalog as it is. -/
inductive Gathered : Catalog → Prop where
  | empty : Gathered .empty
  | scanSource {c : Catalog} (window : Option Nat) (origin : Path) (source : Source) :
    Gathered c → Gathered (Scan.ofSource window origin source c).catalog
  | scanPattern {c : Catalog} (k : Scanner) (t : FileTree) (base : Path) (pattern : String)
    {s : Scan} : Gathered c → k.scanPattern t base pattern c = .ok s → Gathered s.catalog
  | search {c : Catalog} (s : SearchPath) (t : FileTree) :
    Gathered c → Gathered (s.locateAll t c).1

theorem Gathered.wellNamed (h : Gathered c) : c.WellNamed := by
  induction h with
  | empty => exact wellNamed_empty
  | scanSource window origin source _ ih =>
      exact (Scan.extends_ofSource window origin source _).wellNamed ih
  | scanPattern k t base pattern _ hs ih => exact (Scanner.extends_scanPattern hs).wellNamed ih
  | search s t _ ih => exact wellNamed_locateAll s t ih

end Catalog

end HeaderGather
