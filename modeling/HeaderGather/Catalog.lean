import HeaderGather.Path

/-! The catalog of headers, by base name and in the order of their first
appearance. A header is first wanted, under the text of the directive that named
it, and later found, at the path of a file. -/
namespace HeaderGather

inductive Location where
  /-- The text of the directive, not located yet. -/
  | wanted (text : String)
  | found (path : Path)
  deriving DecidableEq, Repr

namespace Location

def isFound : Location → Bool
  | .wanted _ => false
  | .found _ => true

@[simp] theorem isFound_wanted (text : String) : (wanted text).isFound = false := rfl

@[simp] theorem isFound_found (path : Path) : (found path).isFound = true := rfl

def path? : Location → Option Path
  | .wanted _ => none
  | .found path => some path

def display : Location → String
  | .wanted text => text ++ " (unresolved)"
  | .found path => path.text

/-- Wanted texts agree letter by letter, found paths as paths. -/
def same : Location → Location → Bool
  | .wanted a, .wanted b => a = b
  | .found p, .found q => p.same q
  | _, _ => false

end Location

structure Catalog where
  entries : List (String × Location)
  distinct : (entries.map Prod.fst).Nodup
  deriving DecidableEq, Repr

namespace Catalog

@[ext] theorem ext {c d : Catalog} (h : c.entries = d.entries) : c = d := by
  obtain ⟨entries, distinct⟩ := c
  obtain rfl := h
  rfl

def empty : Catalog := ⟨[], List.nodup_nil⟩

instance : Inhabited Catalog := ⟨empty⟩

def names (c : Catalog) : List String := c.entries.map Prod.fst

def size (c : Catalog) : Nat := c.entries.length

def get? (c : Catalog) (name : String) : Option Location := c.entries.lookup name

/-- A new name goes to the end. A known name keeps its place and its location. -/
def add (c : Catalog) (name text : String) : Catalog :=
  if h : name ∈ c.names then c
  else ⟨c.entries ++ [(name, .wanted text)], by
    simpa [names, List.nodup_append, c.distinct] using fun a b hb => by
      rintro rfl; exact h (List.mem_map_of_mem hb)⟩

theorem names_add (c : Catalog) (name text : String) :
    (c.add name text).names = if name ∈ c.names then c.names else c.names ++ [name] := by
  by_cases h : name ∈ c.names
  · simp [add, h]
  · rw [if_neg h, add, dif_neg h]
    simp [names]

theorem entries_add (c : Catalog) (name text : String) :
    (c.add name text).entries =
      if name ∈ c.names then c.entries else c.entries ++ [(name, .wanted text)] := by
  by_cases h : name ∈ c.names <;> simp [add, h]

/-- Locations change; names and their order do not. -/
def mapLocations (c : Catalog) (f : String → Location → Location) : Catalog :=
  ⟨c.entries.map fun e => (e.1, f e.1 e.2), by
    simpa [List.map_map, Function.comp_def] using c.distinct⟩

@[simp] theorem names_mapLocations (c : Catalog) (f : String → Location → Location) :
    (c.mapLocations f).names = c.names := by
  simp [names, mapLocations, List.map_map, Function.comp_def]

def set (c : Catalog) (name : String) (location : Location) : Catalog :=
  c.mapLocations fun other old => if other = name then location else old

/-- The last location given for a name counts, at the place of the first. -/
def ofEntries (entries : List (String × Location)) : Catalog :=
  entries.foldl (fun c e => (c.add e.1 "").set e.1 e.2) empty

def foundCount (c : Catalog) : Nat := c.entries.countP fun e => e.2.isFound

def wantedNames (c : Catalog) : List String :=
  (c.entries.filter fun e => !e.2.isFound).map Prod.fst

/-- Equality of catalogs as sets of entries. -/
def same (c d : Catalog) : Bool :=
  c.size = d.size && c.entries.all fun e =>
    match d.get? e.1 with
    | some location => e.2.same location
    | none => false

end Catalog

end HeaderGather
