import HeaderGather.Path
import HeaderGather.Text.Utf8

/-! A file tree, as a process sees it. Each entry stands at a place, the list of names
that leads to it from the root, and its parent is a directory. The root itself is always
there, and so is the current directory. What the process may do with the entries is told
by its rights. -/
namespace HeaderGather

/-- The names from the root to an entry. -/
abbrev Place := List String

inductive Entry where
  | file (bytes : Text.Bytes) (mode : Nat)
  | directory
  | link (target : Path)
  deriving DecidableEq, Repr

def Entry.isDirectory : Entry → Bool
  | .directory => true
  | _ => false

/-- Whether a text can name an entry: a slash would make two names of it, and a
dot or two lead elsewhere. -/
def isName (text : String) : Bool :=
  text != "" && text != "." && text != ".." && !text.toList.contains '/'

/-- There is a directory at the place; the root needs no entry. -/
def HoldsDirectory (entries : List (Place × Entry)) (place : Place) : Prop :=
  place = [] ∨ (place, Entry.directory) ∈ entries

theorem HoldsDirectory.mono {entries more : List (Place × Entry)} {place : Place}
    (h : HoldsDirectory entries place)
    (sub : (place, Entry.directory) ∈ entries → (place, Entry.directory) ∈ more) :
    HoldsDirectory more place :=
  h.imp id sub

/-- What a process may do: with a file by the mode of the file, and with a directory by
its place. The files are taken to be its own. -/
structure Rights where
  reads : Nat → Bool
  writes : Nat → Bool
  /-- The names in the directory may be told. -/
  lists : Place → Bool
  /-- A name may be looked up in the directory. -/
  searches : Place → Bool
  /-- A new name may be put into the directory. -/
  changes : Place → Bool

namespace Rights

/-- A process that no mode binds. -/
def superuser : Rights :=
  ⟨fun _ => true, fun _ => true, fun _ => true, fun _ => true, fun _ => true⟩

/-- A process bound by the modes of what it owns, those of directories being given by
their places. -/
def owner (modeOf : Place → Nat) : Rights where
  reads mode := mode.testBit 8
  writes mode := mode.testBit 7
  lists place := (modeOf place).testBit 8
  searches place := (modeOf place).testBit 6
  changes place := (modeOf place).testBit 7

end Rights

structure FileTree where
  entries : List (Place × Entry)
  /-- The directory from which relative paths are read. -/
  current : Place
  rights : Rights
  distinct : (entries.map Prod.fst).Nodup
  /-- Every entry has a name and stands in a directory. -/
  rooted : ∀ e ∈ entries, ∃ dir name,
    e.1 = dir ++ [name] ∧ isName name ∧ HoldsDirectory entries dir
  standing : HoldsDirectory entries current

namespace FileTree

def bare : FileTree := ⟨[], [], .superuser, List.nodup_nil, by simp, Or.inl rfl⟩

instance : Inhabited FileTree := ⟨bare⟩

/-- The tree as a process of these rights sees it. -/
def under (t : FileTree) (rights : Rights) : FileTree := { t with rights }

def get? (t : FileTree) (place : Place) : Option Entry :=
  if place = [] then some .directory else t.entries.lookup place

/-- The entries strictly below a place, at the names that lead to them from it. -/
def below (t : FileTree) (place : Place) : List (Place × Entry) :=
  t.entries.filterMap fun e =>
    match place.isPrefixOf? e.1 with
    | none => none
    | some [] => none
    | some (name :: names) => some (name :: names, e.2)

theorem mem_of_lookup {place : Place} {entry : Entry} {entries : List (Place × Entry)}
    (h : entries.lookup place = some entry) : (place, entry) ∈ entries := by
  induction entries with
  | nil => simp at h
  | cons e rest ih =>
    obtain ⟨p, v⟩ := e
    rw [List.lookup_cons] at h
    split at h
    · next hp => simp_all
    · exact List.mem_cons_of_mem _ (ih h)

theorem not_mem_of_lookup_none {place : Place} {entries : List (Place × Entry)}
    (h : entries.lookup place = none) : place ∉ entries.map Prod.fst := by
  induction entries with
  | nil => simp
  | cons e rest ih =>
    obtain ⟨p, v⟩ := e
    rw [List.lookup_cons] at h
    split at h
    · simp at h
    · next hp =>
      rw [List.map_cons, List.mem_cons, not_or]
      exact ⟨by simpa using hp, ih h⟩

theorem holdsDirectory_of_get? {t : FileTree} {place : Place}
    (h : t.get? place = some .directory) : HoldsDirectory t.entries place := by
  by_cases hp : place = []
  · exact Or.inl hp
  · exact Or.inr (mem_of_lookup (by simpa [get?, hp] using h))

/-- The tree as seen from another directory. Where there is none, nothing changes. -/
def enter (t : FileTree) (place : Place) : FileTree :=
  if h : t.get? place = some .directory then
    { t with current := place, standing := holdsDirectory_of_get? h }
  else t

/-- A new entry in a directory. Where the directory is missing, the name is taken
or is none, nothing changes. -/
def add (t : FileTree) (dir : Place) (name : String) (entry : Entry) : FileTree :=
  if h : isName name ∧ t.get? dir = some .directory ∧ t.get? (dir ++ [name]) = none then
    { t with
      entries := t.entries ++ [(dir ++ [name], entry)]
      distinct := by
        have hn : dir ++ [name] ∉ t.entries.map Prod.fst := by
          apply not_mem_of_lookup_none
          simpa [get?] using h.2.2
        rw [List.map_append, List.nodup_append]
        refine ⟨t.distinct, by simp, ?_⟩
        rintro a ha b hb rfl
        simp only [List.map_cons, List.map_nil, List.mem_singleton] at hb
        exact hn (hb ▸ ha)
      rooted := by
        intro e he
        rw [List.mem_append] at he
        rcases he with he | he
        · obtain ⟨d, n, hd, hn, hp⟩ := t.rooted e he
          exact ⟨d, n, hd, hn, hp.mono (List.mem_append_left _)⟩
        · rw [List.mem_singleton] at he
          exact ⟨dir, name, by rw [he], h.1,
            (holdsDirectory_of_get? h.2.1).mono (List.mem_append_left _)⟩
      standing := t.standing.mono (List.mem_append_left _) }
  else t

/-- An entry after new content was written to the file at `place`. -/
def rewritten (place : Place) (bytes : Text.Bytes) (mode : Nat → Nat) :
    Place × Entry → Place × Entry
  | (p, .file old m) => if p = place then (p, .file bytes (mode m)) else (p, .file old m)
  | (p, e) => (p, e)

theorem mem_rewritten_directory {place dir : Place} {bytes : Text.Bytes} {mode : Nat → Nat}
    {entries : List (Place × Entry)} (h : (dir, Entry.directory) ∈ entries) :
    (dir, Entry.directory) ∈ entries.map (rewritten place bytes mode) :=
  List.mem_map.2 ⟨(dir, .directory), h, rfl⟩

theorem rewritten_fst (place : Place) (bytes : Text.Bytes) (mode : Nat → Nat)
    (e : Place × Entry) : (rewritten place bytes mode e).1 = e.1 := by
  obtain ⟨p, e⟩ := e
  cases e with
  | file old m => simp only [rewritten]; split <;> rfl
  | directory => rfl
  | link target => rfl

/-- New content for the file at a place, whose mode becomes that given for the
old mode. Anything but a file stays as it is. -/
def overwrite (t : FileTree) (place : Place) (bytes : Text.Bytes) (mode : Nat → Nat) : FileTree :=
  { t with
    entries := t.entries.map (rewritten place bytes mode)
    distinct := by
      have same : (t.entries.map (rewritten place bytes mode)).map Prod.fst
          = t.entries.map Prod.fst := by
        rw [List.map_map]
        exact List.map_congr_left fun e _ => rewritten_fst place bytes mode e
      rw [same]
      exact t.distinct
    rooted := by
      intro e he
      obtain ⟨old, hold, rfl⟩ := List.mem_map.1 he
      obtain ⟨d, n, hd, hn, hp⟩ := t.rooted old hold
      exact ⟨d, n, by rw [rewritten_fst]; exact hd, hn, hp.mono mem_rewritten_directory⟩
    standing := t.standing.mono mem_rewritten_directory }

/-- The tree without a place and all that is below it. The current directory and
those around it stay. -/
def remove (t : FileTree) (place : Place) : FileTree :=
  if hc : place.isPrefixOf t.current then t
  else
    { t with
      entries := t.entries.filter fun e => !place.isPrefixOf e.1
      distinct := (t.distinct.sublist (List.Sublist.map _ List.filter_sublist))
      rooted := by
        intro e he
        rw [List.mem_filter] at he
        obtain ⟨d, n, hd, hn, hp⟩ := t.rooted e he.1
        refine ⟨d, n, hd, hn, hp.mono fun hm => List.mem_filter.2 ⟨hm, ?_⟩⟩
        have hk := he.2
        rw [hd] at hk
        simp only [Bool.not_eq_true', ← Bool.not_eq_true, List.isPrefixOf_iff_prefix] at hk ⊢
        exact fun h => hk (h.trans (List.prefix_append d [n]))
      standing := t.standing.mono fun hm =>
        List.mem_filter.2 ⟨hm, by rw [Bool.eq_false_iff.2 hc]; rfl⟩ }

end FileTree

end HeaderGather
