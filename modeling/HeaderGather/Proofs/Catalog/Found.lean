import HeaderGather.Catalog

/-! The found headers of a catalog. -/
namespace HeaderGather.Catalog

/-- The found headers, by name. -/
def found (c : Catalog) : List (String × Path) :=
  c.entries.filterMap fun e => e.2.path?.map fun path => (e.1, path)

def headers (c : Catalog) : List Path := c.entries.filterMap fun e => e.2.path?

theorem headers_eq (c : Catalog) : c.headers = c.found.map Prod.snd := by
  rw [headers, found, List.map_filterMap]
  congr 1
  funext e
  cases e.2.path? <;> rfl

theorem mem_found {c : Catalog} {name : String} {path : Path} :
    (name, path) ∈ c.found ↔ (name, .found path) ∈ c.entries := by
  simp only [found, List.mem_filterMap, Option.map_eq_some_iff, Prod.mk.injEq,
    exists_eq_right_right]
  constructor
  · rintro ⟨⟨other, location⟩, hmem, hpath, rfl⟩
    cases location with
    | wanted text => exact nomatch hpath
    | found p => exact Option.some.inj hpath ▸ hmem
  · intro h
    exact ⟨(name, .found path), h, rfl, rfl⟩

theorem mem_headers {c : Catalog} {path : Path} :
    path ∈ c.headers ↔ ∃ name, (name, Location.found path) ∈ c.entries := by
  simp only [headers_eq, List.mem_map, Prod.exists, exists_eq_right, mem_found]

/-- A name is found at one path at most. -/
theorem nodup_found (c : Catalog) : (c.found.map Prod.fst).Nodup := by
  have names : c.found.map Prod.fst =
      (c.entries.filter fun e => e.2.path?.isSome).map Prod.fst := by
    rw [found]
    induction c.entries with
    | nil => rfl
    | cons e entries ih =>
        obtain ⟨name, location⟩ := e
        cases location with
        | wanted text => simpa [Location.path?] using ih
        | found path => simpa [Location.path?] using ih
  rw [names]
  exact c.distinct.sublist (List.filter_sublist.map Prod.fst)

theorem length_headers (c : Catalog) : c.headers.length = c.foundCount := by
  rw [headers, foundCount]
  induction c.entries with
  | nil => rfl
  | cons e entries ih =>
      obtain ⟨name, location⟩ := e
      cases location with
      | wanted text => simpa [Location.path?, Location.isFound] using ih
      | found path => simpa [Location.path?, Location.isFound] using ih

theorem length_wantedNames (c : Catalog) :
    c.wantedNames.length = c.entries.countP fun e => !e.2.isFound := by
  rw [wantedNames, List.length_map, List.countP_eq_length_filter]

end HeaderGather.Catalog
