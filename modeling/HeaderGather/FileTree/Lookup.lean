import HeaderGather.Fault
import HeaderGather.FileTree.Basic

/-! Following a path through a tree, name by name. A link puts its target in its
place, at most forty times; two dots lead to the parent of the directory reached,
not of the name written. Whatever name is written, dots included, the directory
reached has to be one in which names may be looked up. -/
namespace HeaderGather

namespace Path

/-- The names to follow. A slash at the end asks for a directory, as an empty
name does. -/
def steps (p : Path) : List String :=
  p.segments ++ if p.endsInSlash then [""] else []

/-- A path that is refused before any name of it is looked up. -/
def fault? (p : Path) : Option Fault :=
  if '\x00' ∈ p.text.toList then some .nulInPath
  else if p.text = "" then some .notFound
  else if 4096 ≤ p.text.utf8ByteSize then some .nameTooLong
  else none

end Path

namespace FileTree

inductive Outcome where
  | found (place : Place)
  /-- No entry of this name in the directory reached; `rest` is not followed. -/
  | absent (dir : Place) (name : String) (rest : List String)
  /-- A file that the rest of the path takes for a directory. -/
  | blocked (place : Place) (rest : List String)
  | refused (fault : Fault)
  deriving DecidableEq, Repr

def longestName : Nat := 255

/-- Follows names from a directory; `onLink` goes on where a link is met. When the
last name is for `writing`, a slash after it is refused before it is looked up. -/
def follow (t : FileTree) (writing : Bool) (onLink : Path → Place → List String → Outcome) :
    Place → List String → Outcome
  | dir, [] => .found dir
  | dir, name :: rest =>
    if name = "" then follow t writing onLink dir rest
    else if !t.rights.searches dir then .refused .denied
    else if name = "." then follow t writing onLink dir rest
    else if name = ".." then follow t writing onLink dir.dropLast rest
    else if writing && rest = [""] then .refused .isDirectory
    else if longestName < name.utf8ByteSize then .refused .nameTooLong
    else match t.get? (dir ++ [name]) with
      | none => .absent dir name rest
      | some .directory => follow t writing onLink (dir ++ [name]) rest
      | some (.file _ _) =>
        if rest = [] then .found (dir ++ [name]) else .blocked (dir ++ [name]) rest
      | some (.link target) => onLink target dir rest

def followLinks (t : FileTree) (writing : Bool) :
    (links : Nat) → Place → List String → Outcome
  | 0 => follow t writing fun _ _ _ => .refused .tooManyLinks
  | links + 1 => follow t writing fun target dir rest =>
    followLinks t writing links (if target.isAbsolute then [] else dir) (target.steps ++ rest)

def linkLimit : Nat := 40

def startOf (t : FileTree) (p : Path) : Place := if p.isAbsolute then [] else t.current

def reach (t : FileTree) (writing : Bool) (p : Path) : Outcome :=
  match p.fault? with
  | some fault => .refused fault
  | none => followLinks t writing linkLimit (t.startOf p) p.steps

def locate (t : FileTree) (p : Path) : Except Fault Place :=
  match t.reach false p with
  | .found place => .ok place
  | .absent _ _ _ => .error .notFound
  | .blocked _ _ => .error .notDirectory
  | .refused fault => .error fault

def at? (t : FileTree) (p : Path) : Option Entry :=
  match t.locate p with
  | .ok place => t.get? place
  | .error _ => none

def isFile (t : FileTree) (p : Path) : Bool :=
  match t.at? p with
  | some (.file _ _) => true
  | _ => false

def isDirectory (t : FileTree) (p : Path) : Bool := t.at? p = some .directory

/-- The place of a directory whose entries can be listed. -/
def openDirectory (t : FileTree) (p : Path) : Except Fault Place :=
  match t.locate p with
  | .error fault => .error fault
  | .ok place =>
    if t.get? place = some .directory then
      if t.rights.lists place then .ok place else .error .denied
    else .error .notDirectory

end FileTree

end HeaderGather
