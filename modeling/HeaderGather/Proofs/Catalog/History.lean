import Mathlib.Data.List.Induction
import HeaderGather.Proofs.Catalog.Found
import HeaderGather.Proofs.Catalog.Naming

/-! The history of a catalog: edits of four kinds, in any order. A name is first not there,
then wanted and then found, and never goes back; names keep their places; and whatever is found
was provided by a search, at the time of that search. -/
namespace HeaderGather

/-- The path is that of a file which can be read. It is the text itself if that is absolute,
and the text as seen from a directory of the search path if it is not. -/
structure SearchPath.Provides (s : SearchPath) (t : FileTree) (text path : Path) : Prop where
  readable : t.isReadable path = true
  spelled : (text.isAbsolute = true ∧ path = text) ∨
    (text.isAbsolute = false ∧ ∃ dir ∈ s.dirs, path = dir.join text)

theorem SearchPath.provides_of_find? {s : SearchPath} {t : FileTree} {text path : Path}
    (h : s.find? t text = some path) : s.Provides t text path := by
  obtain ⟨hreadable, hspelled⟩ := find?_cases h
  exact ⟨hreadable, hspelled⟩

namespace Catalog

variable {c c' : Catalog} {name : String}

theorem get?_eq_some_iff {location : Location} :
    c.get? name = some location ↔ (name, location) ∈ c.entries := by
  rw [get?, List.lookup_eq_some_iff]
  constructor
  · rintro ⟨before, after, h, -⟩
    rw [h]
    exact List.mem_append_right _ List.mem_cons_self
  · intro h
    obtain ⟨before, after, h⟩ := List.append_of_mem h
    have distinct := c.distinct
    rw [h, List.map_append, List.nodup_append] at distinct
    obtain ⟨-, -, apart⟩ := distinct
    refine ⟨before, after, h, ?_⟩
    intro e he
    exact bne_iff_ne.2 (Ne.symm (apart _ (List.mem_map_of_mem he) _ List.mem_cons_self))

theorem get?_append {new : List (String × Location)} (h : c'.entries = c.entries ++ new)
    (name : String) : c'.get? name = (c.get? name).or (new.lookup name) := by
  rw [get?, h, List.lookup_append, get?]

theorem get?_mapLocations (f : String → Location → Location) (name : String) :
    (c.mapLocations f).get? name = (c.get? name).map (f name) := by
  simp only [get?, mapLocations]
  induction c.entries with
  | nil => rfl
  | cons e entries ih =>
      obtain ⟨other, location⟩ := e
      by_cases h : name = other
      · subst h
        simp
      · simp only [List.map_cons, List.lookup_cons, beq_false_of_ne h]
        exact ih

/-- What is done to a catalog. The sources, the trees and the search paths may be other ones
each time. -/
inductive Edit where
  | add (name text : String)
  | scanSource (window : Option Nat) (origin : Path) (source : Source)
  | scanPattern (k : Scanner) (t : FileTree) (base : Path) (pattern : String)
  | search (s : SearchPath) (t : FileTree)

/-- The catalog after an edit. A pattern that spells nothing leaves it as it is. -/
def edit (c : Catalog) : Edit → Catalog
  | .add name text => c.add name text
  | .scanSource window origin source => (Scan.ofSource window origin source c).catalog
  | .scanPattern k t base pattern =>
    match k.scanPattern t base pattern c with
    | .error _ => c
    | .ok s => s.catalog
  | .search s t => (s.locateAll t c).1

def ofEdits (edits : List Edit) : Catalog := edits.foldl edit .empty

theorem ofEdits_append (edits more : List Edit) :
    ofEdits (edits ++ more) = more.foldl edit (ofEdits edits) := by
  simp only [ofEdits, List.foldl_append]

theorem ofEdits_concat (edits : List Edit) (e : Edit) :
    ofEdits (edits ++ [e]) = (ofEdits edits).edit e := ofEdits_append edits [e]

/-- What an edit may make of the location of a name. -/
inductive Edit.Moves (e : Edit) : Option Location → Option Location → Prop where
  | stays (location : Option Location) : e.Moves location location
  | appears (text : String) : e.Moves none (some (.wanted text))
  | found {s : SearchPath} {t : FileTree} {text : String} {path : Path} :
    e = .search s t → s.Provides t ⟨text⟩ path →
    e.Moves (some (.wanted text)) (some (.found path))

/-- What edits, one after the other, may make of a location. -/
inductive Becomes : Option Location → Option Location → Prop where
  | stays (location : Option Location) : Becomes location location
  | appears (location : Location) : Becomes none (some location)
  | found (text : String) (path : Path) : Becomes (some (.wanted text)) (some (.found path))

theorem Edit.Moves.becomes {e : Edit} {a b : Option Location} (h : e.Moves a b) : Becomes a b := by
  cases h with
  | stays => exact .stays _
  | appears text => exact .appears _
  | found => exact .found _ _

theorem Becomes.trans {a b c : Option Location} (h : Becomes a b) (h' : Becomes b c) :
    Becomes a c := by
  cases h with
  | stays => exact h'
  | appears location =>
      cases h' with
      | stays => exact .appears _
      | found => exact .appears _
  | found text path =>
      cases h' with
      | stays => exact .found _ _

/-- An edit puts wanted entries at the end, or it searches. -/
theorem edit_cases (c : Catalog) (e : Edit) :
    (∃ new, (c.edit e).entries = c.entries ++ new ∧ ∀ e' ∈ new, ∃ text, e'.2 = .wanted text) ∨
      ∃ s t, e = .search s t ∧ c.edit e = (s.locateAll t c).1 := by
  have extended : ∀ {c' : Catalog}, c.Extends c' →
      ∃ new, c'.entries = c.entries ++ new ∧ ∀ e' ∈ new, ∃ text, e'.2 = .wanted text := by
    rintro c' ⟨new, hentries, hnew⟩
    refine ⟨new, hentries, fun e' he' => ?_⟩
    obtain ⟨text, hwanted, -⟩ := hnew e' he'
    exact ⟨text, hwanted⟩
  cases e with
  | add name text =>
      refine .inl ?_
      by_cases hname : name ∈ c.names
      · exact ⟨[], by simp [edit, entries_add, hname], nofun⟩
      · exact ⟨[(name, .wanted text)], by simp [edit, entries_add, hname], by simp⟩
  | scanSource window origin source =>
      exact .inl (extended (Scan.extends_ofSource window origin source c))
  | scanPattern k t base pattern =>
      refine .inl (extended ?_)
      simp only [edit]
      cases h : k.scanPattern t base pattern c with
      | error failure => exact .refl c
      | ok s => exact Scanner.extends_scanPattern h
  | search s t => exact .inr ⟨s, t, rfl, rfl⟩

theorem moves_edit (c : Catalog) (e : Edit) (name : String) :
    e.Moves (c.get? name) ((c.edit e).get? name) := by
  obtain ⟨new, hentries, hnew⟩ | ⟨s, t, he, hedit⟩ := edit_cases c e
  · rw [get?_append hentries]
    cases hc : c.get? name with
    | some location => exact .stays _
    | none =>
        cases hn : new.lookup name with
        | none => exact .stays _
        | some location =>
            obtain ⟨before, after, rfl, -⟩ := List.lookup_eq_some_iff.1 hn
            obtain ⟨text, rfl⟩ := hnew _ (List.mem_append_right _ List.mem_cons_self)
            exact .appears text
  · rw [hedit, SearchPath.located_eq, get?_mapLocations]
    cases hc : c.get? name with
    | none => exact .stays _
    | some location =>
        cases location with
        | found path => exact .stays _
        | wanted text =>
            simp only [Option.map_some, SearchPath.improve]
            cases hf : s.find? t ⟨text⟩ with
            | none => exact .stays _
            | some path => exact .found he (SearchPath.provides_of_find? hf)

theorem names_edit (c : Catalog) (e : Edit) : c.names <+: (c.edit e).names := by
  obtain ⟨new, hentries, -⟩ | ⟨s, t, -, hedit⟩ := edit_cases c e
  · rw [names, names, hentries, List.map_append]
    exact List.prefix_append _ _
  · have hsame : (c.edit e).names = c.names := by
      rw [hedit, SearchPath.located_eq, names_mapLocations]
    exact hsame ▸ List.prefix_rfl

theorem names_edits (c : Catalog) (edits : List Edit) : c.names <+: (edits.foldl edit c).names := by
  induction edits generalizing c with
  | nil => exact List.prefix_refl c.names
  | cons e edits ih => exact (names_edit c e).trans (ih (c.edit e))

theorem becomes_edits (c : Catalog) (edits : List Edit) (name : String) :
    Becomes (c.get? name) ((edits.foldl edit c).get? name) := by
  induction edits generalizing c with
  | nil => exact .stays _
  | cons e edits ih => exact (moves_edit c e name).becomes.trans (ih (c.edit e))

/-- A search found the header under this path when it was wanted. -/
def FoundBySearch (edits : List Edit) (name : String) (path : Path) : Prop :=
  ∃ before s t after text, edits = before ++ .search s t :: after ∧
    (ofEdits before).get? name = some (.wanted text) ∧ s.Provides t ⟨text⟩ path

theorem FoundBySearch.append {edits : List Edit} {path : Path} (h : FoundBySearch edits name path)
    (more : List Edit) : FoundBySearch (edits ++ more) name path := by
  obtain ⟨before, s, t, after, text, rfl, hwanted, hprovides⟩ := h
  exact ⟨before, s, t, after ++ more, text, by simp, hwanted, hprovides⟩

theorem foundBySearch_of_get? {edits : List Edit} {path : Path}
    (h : (ofEdits edits).get? name = some (.found path)) : FoundBySearch edits name path := by
  induction edits using List.reverseRecOn with
  | nil => exact nomatch h
  | append_singleton edits e ih =>
      have moves := moves_edit (ofEdits edits) e name
      rw [← ofEdits_concat, h] at moves
      cases hbefore : (ofEdits edits).get? name with
      | none =>
          rw [hbefore] at moves
          exact nomatch moves
      | some location =>
          rw [hbefore] at moves
          cases moves with
          | stays => exact (ih hbefore).append [e]
          | found he hprovides => exact ⟨edits, _, _, [], _, by rw [he], hbefore, hprovides⟩

/-- Every header is found or wanted, and the wanted names are told in the order of the
catalog. -/
structure Accounted (c : Catalog) : Prop where
  size : c.size = c.foundCount + c.wantedNames.length
  inOrder : c.wantedNames.Sublist c.names
  wanted : ∀ name, name ∈ c.wantedNames ↔ ∃ text, c.get? name = some (.wanted text)

theorem accounted (c : Catalog) : c.Accounted := by
  refine ⟨?_, List.filter_sublist.map Prod.fst, ?_⟩
  · rw [size, foundCount, length_wantedNames,
      List.length_eq_countP_add_countP fun e => e.2.isFound]
    simp
  · intro name
    simp only [get?_eq_some_iff, wantedNames, List.mem_map, List.mem_filter, Prod.exists]
    constructor
    · rintro ⟨other, location, ⟨hmem, hwanted⟩, rfl⟩
      cases location with
      | wanted text => exact ⟨text, hmem⟩
      | found path => simp [Location.isFound] at hwanted
    · rintro ⟨text, hmem⟩
      exact ⟨name, _, ⟨hmem, rfl⟩, rfl⟩

/-- The life of the entries of a catalog that begins empty. At every point names are distinct
and all of them accounted for. No edit takes a name away or moves it, and each leaves a location
as it is or takes it one step on: to wanted, and then by a search to what the search provides.
So at any later point a location is the same or further on. -/
theorem history_forward (edits : List Edit) (e : Edit) (more : List Edit) :
    let c := ofEdits edits
    (c.names.Nodup ∧ c.Accounted ∧
        ∀ name path, c.get? name = some (.found path) → FoundBySearch edits name path) ∧
      (∀ name, e.Moves (c.get? name) ((ofEdits (edits ++ [e])).get? name)) ∧
      c.names <+: (ofEdits (edits ++ more)).names ∧
      ∀ name, Becomes (c.get? name) ((ofEdits (edits ++ more)).get? name) := by
  intro c
  refine ⟨⟨c.distinct, c.accounted, fun name path => foundBySearch_of_get?⟩, ?_, ?_, ?_⟩
  · intro name
    rw [ofEdits_concat]
    exact moves_edit c e name
  · rw [ofEdits_append]
    exact names_edits c more
  · intro name
    rw [ofEdits_append]
    exact becomes_edits c more name

end Catalog

end HeaderGather
