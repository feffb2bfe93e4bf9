import HeaderGather.FileTree.Lookup

/-! Walking through what is below a directory. The entries of a directory come in the
order of their names, compared as bytes, and what is below an entry comes before the
entry after it. Links are met and not followed. -/
namespace HeaderGather

namespace Place

/-- Places are compared name by name, and names as bytes. -/
def key (place : Place) : List Text.Bytes := place.map fun name => Text.encode name.toList

def path (place : Place) : Path := ⟨"/".intercalate place⟩

end Place

namespace FileTree

/-- The entries of a directory, by their names. -/
def members (t : FileTree) (dir : Place) : List (String × Entry) :=
  (t.below dir).filterMap fun e =>
    match e.1 with
    | [name] => some (name, e.2)
    | _ => none

def listing (t : FileTree) (dir : Place) : List (String × Entry) :=
  (t.members dir).mergeSort fun a b =>
    decide (Text.encode a.1.toList ≤ Text.encode b.1.toList)

/-- No place is longer. -/
def height (t : FileTree) : Nat := t.entries.foldr (fun e n => max e.1.length n) 0

structure Walk where
  base : Path
  recursive : Bool
  excluded : List String
  deriving DecidableEq, Repr

/-- What a walk tells, by the names that lead there from the base. -/
inductive Visit where
  | file (names : Place)
  /-- A directory that cannot be opened. -/
  | refused (names : Place) (fault : Fault)
  deriving DecidableEq, Repr

namespace Visit

def file? : Visit → Option Place
  | .file names => some names
  | .refused _ _ => none

def refusal? : Visit → Option (Place × Fault)
  | .file _ => none
  | .refused names fault => some (names, fault)

end Visit

/-- Walks through the directory that the names lead to from the base, so many levels
deep. Directories are opened under their paths from the base, unless they are excluded
by name; all other entries are told. -/
def visit (t : FileTree) (w : Walk) : (levels : Nat) → (names : Place) → List Visit
  | 0, _ => []
  | levels + 1, names =>
    match t.openDirectory (w.base.extend names) with
    | .error fault => [.refused names fault]
    | .ok dir =>
      (t.listing dir).flatMap fun (name, entry) =>
        if entry.isDirectory then
          if w.excluded.contains name then [] else t.visit w levels (names ++ [name])
        else [.file (names ++ [name])]

/-- A walk that is not recursive stays at the first level. -/
def Walk.levels (w : Walk) (t : FileTree) : Nat := if w.recursive then t.height else 1

def walk (t : FileTree) (w : Walk) : List Visit := t.visit w (w.levels t) []

end FileTree

end HeaderGather
