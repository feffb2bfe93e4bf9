import Mathlib.Data.List.Induction
import HeaderGather.SearchPath

/-! What a search makes of a catalog. It passes the entries one by one and counts as it goes;
the counts agree with the catalog that it leaves. -/
namespace HeaderGather.SearchPath

variable {s : SearchPath} {t : FileTree} {entries : List (String × Location)}

/-- A location after a search: what was wanted may be found, and what was found stays. -/
def improve (s : SearchPath) (t : FileTree) : Location → Location
  | .found path => .found path
  | .wanted text =>
    match s.find? t ⟨text⟩ with
    | some path => .found path
    | none => .wanted text

/-- What a search tells of an entry. -/
def report (s : SearchPath) (t : FileTree) (e : String × Location) : Journal :=
  match e.2 with
  | .found _ => []
  | .wanted text =>
    s.told t ⟨text⟩ :: if (s.find? t ⟨text⟩).isSome then [] else [.lost e.1 text]

/-- What a pass has counted and told agrees with the entries it has made of those it came by:
each that it found is counted, and each that is still wanted is named. -/
structure Pass.Tallies (s : SearchPath) (t : FileTree) (p : Pass)
    (entries : List (String × Location)) : Prop where
  improved : p.entries = entries.map fun e => (e.1, s.improve t e.2)
  counted : (entries.countP fun e => e.2.isFound) + p.found = p.entries.countP fun e => e.2.isFound
  named : p.wanted = (p.entries.filter fun e => !e.2.isFound).map Prod.fst
  told : p.journal = entries.flatMap (s.report t)

theorem Pass.Tallies.next {p : Pass} (h : p.Tallies s t entries) (e : String × Location) :
    (s.passNext t p e).Tallies s t (entries ++ [e]) := by
  obtain ⟨himproved, hcounted, hnamed, htold⟩ := h
  obtain ⟨name, location⟩ := e
  cases location with
  | found path =>
      refine ⟨?_, ?_, ?_, ?_⟩
      · simp [passNext, himproved, improve]
      · simp only [passNext, List.countP_append, List.countP_singleton, Location.isFound_found,
          if_true]
        omega
      · simp [passNext, hnamed]
      · simp [passNext, htold, report]
  | wanted text =>
      cases hfind : s.find? t ⟨text⟩ with
      | some path =>
          refine ⟨?_, ?_, ?_, ?_⟩
          · simp [passNext, hfind, himproved, improve]
          · simp only [passNext, hfind, List.countP_append, List.countP_singleton,
              Location.isFound_found, Location.isFound_wanted, if_true, Bool.false_eq_true,
              if_false]
            omega
          · simp [passNext, hfind, hnamed]
          · simp [passNext, hfind, htold, report]
      | none =>
          refine ⟨?_, ?_, ?_, ?_⟩
          · simp [passNext, hfind, himproved, improve]
          · simpa [passNext, hfind] using hcounted
          · simp [passNext, hfind, hnamed]
          · simp [passNext, hfind, htold, report]

theorem tallies_pass (s : SearchPath) (t : FileTree) (entries : List (String × Location)) :
    (s.pass t entries).Tallies s t entries := by
  induction entries using List.reverseRecOn with
  | nil => exact ⟨rfl, rfl, rfl, rfl⟩
  | append_singleton entries e ih =>
      rw [pass, List.foldl_append]
      exact ih.next e

theorem located_eq (s : SearchPath) (t : FileTree) (c : Catalog) :
    (s.locateAll t c).1 = c.mapLocations fun _ => s.improve t := by
  ext1
  exact (tallies_pass s t c.entries).improved

/-- What is found after a search was found before it or by it. -/
theorem found_cases {c : Catalog} {name : String} {path : Path}
    (h : (name, .found path) ∈ (s.locateAll t c).1.entries) :
    (name, .found path) ∈ c.entries ∨
      ∃ text, (name, .wanted text) ∈ c.entries ∧ s.find? t ⟨text⟩ = some path := by
  rw [located_eq] at h
  obtain ⟨⟨other, location⟩, hold, he⟩ := List.mem_map.1 h
  obtain ⟨rfl, hfound⟩ := Prod.mk.inj he
  cases location with
  | found old => exact .inl (Location.found.inj hfound ▸ hold)
  | wanted text =>
      cases hfind : s.find? t ⟨text⟩ with
      | none => simp [improve, hfind] at hfound
      | some p =>
          simp only [improve, hfind, Location.found.injEq] at hfound
          exact .inr ⟨text, hold, hfound ▸ hfind⟩

/-- A search counts what it finds on top of what was found before. -/
theorem found_located (s : SearchPath) (t : FileTree) (c : Catalog) :
    c.foundCount + (s.locateAll t c).2.1.found = (s.locateAll t c).1.foundCount :=
  (tallies_pass s t c.entries).counted

/-- A search names what is still wanted when it is over, in the order of the catalog. -/
theorem wanted_located (s : SearchPath) (t : FileTree) (c : Catalog) :
    (s.locateAll t c).2.1.wanted = (s.locateAll t c).1.wantedNames :=
  (tallies_pass s t c.entries).named

theorem told_located (s : SearchPath) (t : FileTree) (c : Catalog) :
    (s.locateAll t c).2.2 =
      (s.missing t).map .noSuchDir ++ c.entries.flatMap (s.report t) ++
        [.located (s.locateAll t c).2.1.found s.dirs.length
          (s.locateAll t c).2.1.wanted.length] := by
  rw [← (tallies_pass s t c.entries).told]
  rfl

end HeaderGather.SearchPath
