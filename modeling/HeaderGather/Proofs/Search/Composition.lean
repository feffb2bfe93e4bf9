import HeaderGather.Proofs.Catalog.History
import HeaderGather.Proofs.FileTree.Spelling
import HeaderGather.Proofs.Search.Directories

/-! Searches compose. To search some directories and then others is to search all of them at
once, although a directory that is told twice is dropped from the whole and not from the
parts. -/
namespace HeaderGather

namespace Catalog

variable {c : Catalog}

/-- The texts of the headers that are wanted. -/
def wantedTexts (c : Catalog) : List String :=
  c.entries.filterMap fun e =>
    match e.2 with
    | .wanted text => some text
    | .found _ => none

theorem mem_wantedTexts {name text : String} (h : (name, Location.wanted text) ∈ c.entries) :
    text ∈ c.wantedTexts :=
  List.mem_filterMap.2 ⟨_, h, rfl⟩

theorem mapLocations_mapLocations (f g : String → Location → Location) :
    (c.mapLocations f).mapLocations g = c.mapLocations fun name l => g name (f name l) := by
  ext1
  simp [mapLocations, Function.comp_def]

theorem mapLocations_congr {f g : String → Location → Location}
    (h : ∀ e ∈ c.entries, f e.1 e.2 = g e.1 e.2) : c.mapLocations f = c.mapLocations g := by
  ext1
  simp only [mapLocations]
  exact List.map_congr_left fun e he => by rw [h e he]

end Catalog

namespace SearchPath

variable {t : FileTree} {c : Catalog} {P Q : List Path}

/-- Of more directories, those count that no earlier one is the same as. -/
theorem firsts_append (P Q : List Path) :
    firsts (P ++ Q) = firsts P ++ (firsts Q).filter fun dir => !P.any dir.same := by
  induction Q using List.reverseRecOn with
  | nil => simp [firsts]
  | append_singleton Q last ih =>
      rw [← List.append_assoc, firsts_concat, firsts_concat, List.any_append, ih]
      by_cases hQ : Q.any last.same = true
      · simp only [hQ, Bool.or_true, if_true]
      · by_cases hP : P.any last.same = true
        · simp [hQ, hP]
        · simp [hQ, hP]

theorem mem_of_mem_firsts {dirs : List Path} {dir : Path} (h : dir ∈ firsts dirs) : dir ∈ dirs := by
  obtain ⟨⟨d, i⟩, hmem, rfl⟩ := List.mem_map.1 h
  exact List.fst_mem_of_mem_zipIdx (List.mem_filter.1 hmem).1

/-- Where the first directories do not have a text, no other spelling of them has it. -/
theorem not_isReadable_of_any_same {text dir : Path} (habsolute : text.isAbsolute = false)
    (short : ∀ dir ∈ P, (dir.join text).text.utf8ByteSize < 4096)
    (hdir : P.any dir.same = true)
    (hnone : ∀ other ∈ firsts P, t.isReadable (other.join text) = false) :
    t.isReadable (dir.join text) = false := by
  rw [← any_same_firsts, List.any_eq_true] at hdir
  obtain ⟨other, hother, hsame⟩ := hdir
  have hback : other.same dir = true := Path.same_iff.2 (Path.same_iff.1 hsame).symm
  rw [Bool.eq_false_iff]
  intro hreadable
  have hfirst := FileTree.isReadable_joined hback habsolute
    (short other (mem_of_mem_firsts hother)) hreadable
  exact Bool.false_ne_true ((hnone other hother).symm.trans hfirst)

/-- A text is searched for along the one list and, if it is not found, along the other. -/
theorem find?_append {text : Path}
    (short : ∀ dir ∈ P, (dir.join text).text.utf8ByteSize < 4096) :
    (ofList (P ++ Q)).find? t text = ((ofList P).find? t text).or ((ofList Q).find? t text) := by
  unfold find?
  cases habsolute : text.isAbsolute with
  | true => simp only [if_true, Option.or_self]
  | false =>
      simp only [Bool.false_eq_true, if_false, provider?, dirs_ofList, firsts_append,
        List.find?_append, List.find?_filter]
      cases hP : (firsts P).find? fun dir => t.isReadable (dir.join text) with
      | some dir => rfl
      | none =>
          rw [List.find?_eq_none] at hP
          simp only [Option.none_or, Option.map_none]
          congr 2
          funext dir
          cases hdrop : P.any dir.same with
          | false => simp
          | true =>
              have hnone := not_isReadable_of_any_same habsolute short hdrop fun other hother =>
                Bool.eq_false_iff.2 (hP other hother)
              simp [hnone]

/-- What was found along a search path is found along every longer one. -/
theorem find?_append_of_some {text path : Path} (h : (ofList P).find? t text = some path) :
    (ofList (P ++ Q)).find? t text = some path := by
  unfold find? at h ⊢
  by_cases habsolute : text.isAbsolute = true
  · simpa only [habsolute, if_true] using h
  · simp only [habsolute, Bool.false_eq_true, if_false, provider?, dirs_ofList, firsts_append,
      List.find?_append, Option.map_eq_some_iff] at h ⊢
    obtain ⟨dir, hdir, hpath⟩ := h
    exact ⟨dir, by rw [hdir, Option.some_or], hpath⟩

theorem improve_append {text : String}
    (short : ∀ dir ∈ P, (dir.join ⟨text⟩).text.utf8ByteSize < 4096) :
    (ofList Q).improve t ((ofList P).improve t (.wanted text)) =
      (ofList (P ++ Q)).improve t (.wanted text) := by
  simp only [improve, find?_append short]
  cases (ofList P).find? t ⟨text⟩ <;> rfl

/-- A search has nothing to add to what it has done. -/
theorem improve_improve (s : SearchPath) (t : FileTree) (location : Location) :
    s.improve t (s.improve t location) = s.improve t location := by
  cases location with
  | found path => rfl
  | wanted text => cases h : s.find? t ⟨text⟩ <;> simp only [improve, h]

theorem improve_append_of_found {location : Location} {path : Path}
    (h : (ofList P).improve t location = .found path) :
    (ofList (P ++ Q)).improve t location = .found path := by
  cases location with
  | found other => exact h
  | wanted text =>
      cases hfind : (ofList P).find? t ⟨text⟩ with
      | none => simp [improve, hfind] at h
      | some other =>
          simp only [improve, hfind] at h
          simp only [improve, find?_append_of_some hfind, h]

theorem get?_located (s : SearchPath) (t : FileTree) (c : Catalog) (name : String) :
    (s.locateAll t c).1.get? name = (c.get? name).map (s.improve t) := by
  rw [located_eq, Catalog.get?_mapLocations]

theorem located_append
    (short : ∀ dir ∈ P, ∀ text ∈ c.wantedTexts, (dir.join ⟨text⟩).text.utf8ByteSize < 4096) :
    ((ofList Q).locateAll t ((ofList P).locateAll t c).1).1 =
      ((ofList (P ++ Q)).locateAll t c).1 := by
  simp only [located_eq, Catalog.mapLocations_mapLocations]
  apply Catalog.mapLocations_congr
  rintro ⟨name, location⟩ he
  cases location with
  | found path => rfl
  | wanted text =>
      exact improve_append fun dir hdir => short dir hdir text (Catalog.mem_wantedTexts he)

theorem located_located (s : SearchPath) (t : FileTree) (c : Catalog) :
    (s.locateAll t (s.locateAll t c).1).1 = (s.locateAll t c).1 := by
  simp only [located_eq, Catalog.mapLocations_mapLocations, improve_improve]

theorem missing_append (P Q : List Path) (t : FileTree) :
    (ofList (P ++ Q)).missing t =
      (ofList P).missing t ++ ((ofList Q).missing t).filter fun dir => !P.any dir.same := by
  simp only [missing_ofList, firsts_append, List.filter_append, List.filter_filter, Bool.and_comm]

/-- Two searches, one after the other, do what one search along both lists does. A search
made again does nothing, and a longer one changes nothing that was found. -/
theorem locateAll_append
    (short : ∀ dir ∈ P, ∀ text ∈ c.wantedTexts, (dir.join ⟨text⟩).text.utf8ByteSize < 4096) :
    let first := (ofList P).locateAll t c
    let second := (ofList Q).locateAll t first.1
    let whole := (ofList (P ++ Q)).locateAll t c
    let again := (ofList P).locateAll t first.1
    second.1 = whole.1 ∧
      first.2.1.found + second.2.1.found = whole.2.1.found ∧
      second.2.1.wanted = whole.2.1.wanted ∧
      whole.2.1.missingDirs =
        first.2.1.missingDirs ++ second.2.1.missingDirs.filter (fun dir => !P.any dir.same) ∧
      (∀ name path, first.1.get? name = some (.found path) →
        whole.1.get? name = some (.found path)) ∧
      again.1 = first.1 ∧ again.2.1.found = 0 ∧ again.2.1.wanted = first.2.1.wanted := by
  intro first second whole again
  have hcatalog : second.1 = whole.1 := located_append short
  have hagain : again.1 = first.1 := located_located (ofList P) t c
  have hfirst : c.foundCount + first.2.1.found = first.1.foundCount := found_located _ t c
  have hsecond : first.1.foundCount + second.2.1.found = second.1.foundCount :=
    found_located _ t first.1
  have hwhole : c.foundCount + whole.2.1.found = whole.1.foundCount := found_located _ t c
  have hrepeat : first.1.foundCount + again.2.1.found = again.1.foundCount :=
    found_located _ t first.1
  refine ⟨hcatalog, ?_, ?_, missing_append P Q t, ?_, hagain, ?_, ?_⟩
  · have hcount : second.1.foundCount = whole.1.foundCount := by rw [hcatalog]
    omega
  · rw [wanted_located, wanted_located, hcatalog]
  · intro name path h
    rw [get?_located, Option.map_eq_some_iff] at h ⊢
    obtain ⟨location, hlocation, hfound⟩ := h
    exact ⟨location, hlocation, improve_append_of_found hfound⟩
  · have hcount : again.1.foundCount = first.1.foundCount := by rw [hagain]
    omega
  · rw [wanted_located, wanted_located, hagain]

/-- A header in both of two directories, and one in the second alone. -/
def twoDirs : FileTree :=
  FileTree.bare
    |>.add [] "a" .directory
    |>.add ["a"] "both.h" (.file [] 0o644)
    |>.add [] "b" .directory
    |>.add ["b"] "both.h" (.file [] 0o644)
    |>.add ["b"] "one.h" (.file [] 0o644)

def threeWanted : Catalog :=
  Catalog.empty |>.add "both.h" "both.h" |>.add "one.h" "one.h" |>.add "lost.h" "lost.h"

/-- The second search begins with another spelling of the directory searched first. -/
theorem locateAll_append_twoDirs :
    (∀ dir ∈ [Path.mk "a"], ∀ text ∈ threeWanted.wantedTexts,
      (dir.join ⟨text⟩).text.utf8ByteSize < 4096) ∧
    let first := (ofList [⟨"a"⟩]).locateAll twoDirs threeWanted
    let second := (ofList [⟨"a/."⟩, ⟨"b"⟩, ⟨"c"⟩]).locateAll twoDirs first.1
    let whole := (ofList [⟨"a"⟩, ⟨"a/."⟩, ⟨"b"⟩, ⟨"c"⟩]).locateAll twoDirs threeWanted
    second.1 = whole.1 ∧ first.2.1 = ⟨1, ["one.h", "lost.h"], []⟩ ∧
      whole.2.1 = ⟨2, ["lost.h"], [⟨"c"⟩]⟩ ∧
      whole.1.entries = [("both.h", .found ⟨"a/both.h"⟩), ("one.h", .found ⟨"b/one.h"⟩),
        ("lost.h", .wanted "lost.h")] := by
  have short : ∀ dir ∈ [Path.mk "a"], ∀ text ∈ threeWanted.wantedTexts,
      (dir.join ⟨text⟩).text.utf8ByteSize < 4096 := by decide +kernel
  obtain ⟨hcatalog, -⟩ := locateAll_append (t := twoDirs) (Q := [⟨"a/."⟩, ⟨"b"⟩, ⟨"c"⟩]) short
  exact ⟨short, hcatalog, by decide +kernel, by decide +kernel, by decide +kernel⟩

end SearchPath

end HeaderGather
