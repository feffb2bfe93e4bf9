import HeaderGather.FileTree.Lookup
import HeaderGather.Source

/-! Reading and writing through paths. Opening a directory for reading succeeds
and reading it fails; writing creates the last name of a path if it is missing. -/
namespace HeaderGather.FileTree

def openSource (t : FileTree) (p : Path) : Except Fault Source :=
  match t.locate p with
  | .error fault => .error fault
  | .ok place =>
    match t.get? place with
    | some (.file bytes mode) => if t.rights.reads mode then .ok { bytes } else .error .denied
    | _ =>
      if t.rights.lists place then .ok { bytes := [], fault? := some .isDirectory }
      else .error .denied

/-- A regular file that can be opened. -/
def isReadable (t : FileTree) (p : Path) : Bool := t.isFile p && (t.openSource p).isOk

def readBytes (t : FileTree) (p : Path) : Except Fault Text.Bytes :=
  match t.openSource p with
  | .error fault => .error fault
  | .ok source =>
    match source.fault? with
    | some fault => .error fault
    | none => .ok source.bytes

def readText (t : FileTree) (p : Path) : Except Fault String :=
  match t.readBytes p with
  | .error fault => .error fault
  | .ok bytes =>
    match Text.decode? bytes with
    | none => .error .notUtf8
    | some text => .ok (String.ofList text)

/-- Where a file opened for writing stands: at the place of an old file, or under
a new name in a directory. -/
inductive Opening where
  | old (place : Place)
  | new (dir : Place) (name : String)
  deriving DecidableEq, Repr

def openForWriting (t : FileTree) (p : Path) : Except Fault Opening :=
  match t.reach true p with
  | .found place =>
    match t.get? place with
    | some (.file _ mode) => if t.rights.writes mode then .ok (.old place) else .error .denied
    | _ => .error .isDirectory
  | .absent dir name rest =>
    if rest = [] then
      if t.rights.changes dir then .ok (.new dir name) else .error .denied
    else .error .notFound
  | .blocked _ _ => .error .notDirectory
  | .refused fault => .error fault

/-- The mode of a file that is created without a wish for another. -/
def commonMode : Nat := 0o644

/-- New content for an opened file: a new one gets the mode `fresh`, an old one the
mode given for that which it has. -/
def fill (t : FileTree) (bytes : Text.Bytes) (fresh : Nat) (kept : Nat → Nat) :
    Opening → FileTree
  | .old place => t.overwrite place bytes kept
  | .new dir name => t.add dir name (.file bytes fresh)

/-- Writes a file whole. A new file gets the common mode, an old one keeps its own. -/
def write (t : FileTree) (p : Path) (bytes : Text.Bytes) : Except Fault FileTree :=
  (t.openForWriting p).map (t.fill bytes commonMode id)

def install (t : FileTree) (p : Path) (bytes : Text.Bytes) (mode : Nat) :
    Except Fault FileTree :=
  (t.openForWriting p).map (t.fill bytes mode fun _ => mode)

/-- Copies a file with its mode. The destination is emptied before the source is
read, so a file copied onto itself ends up empty. -/
def copy (t : FileTree) (source dest : Path) : Except Fault FileTree :=
  match t.locate source with
  | .error fault => .error fault
  | .ok place =>
    match t.get? place with
    | some (.file bytes mode) =>
      if t.rights.reads mode then
        match t.openForWriting dest with
        | .error fault => .error fault
        | .ok opening =>
          .ok (t.fill (if opening = .old place then [] else bytes) mode (fun _ => mode) opening)
      else .error .denied
    | _ => .error (if t.rights.lists place then .notRegular else .denied)

/-- The directory in which the last name of a path stands, and that name. A link
of that name is not followed. -/
def lastName (t : FileTree) (p : Path) : Except Fault (Place × String) :=
  match p.fault?, p.segments.getLast? with
  | some fault, _ => .error fault
  | none, none => .error .exists
  | none, some name =>
    match followLinks t false linkLimit (t.startOf p) (p.segments.dropLast ++ [""]) with
    | .absent _ _ _ => .error .notFound
    | .blocked _ _ => .error .notDirectory
    | .refused fault => .error fault
    | .found dir =>
      if !t.rights.searches dir then .error .denied
      else if name = "." || name = ".." then .error .exists
      else if longestName < name.utf8ByteSize then .error .nameTooLong
      else .ok (dir, name)

/-- The directory and the name under which something new would stand. -/
def vacancy (t : FileTree) (p : Path) : Except Fault (Place × String) :=
  match t.lastName p with
  | .error fault => .error fault
  | .ok (dir, name) =>
    if t.get? (dir ++ [name]) ≠ none then .error .exists
    else if t.rights.changes dir then .ok (dir, name)
    else .error .denied

def makeDirectory (t : FileTree) (p : Path) : Except Fault FileTree :=
  (t.vacancy p).map fun (dir, name) => t.add dir name .directory

def makeLink (t : FileTree) (p target : Path) : Except Fault FileTree :=
  (t.vacancy p).map fun (dir, name) => t.add dir name (.link target)

/-- Removes what stands under the last name of a path, with all that is below it. -/
def erase (t : FileTree) (p : Path) : Except Fault FileTree :=
  (t.lastName p).map fun (dir, name) => t.remove (dir ++ [name])

/-- Makes a directory and, where they are missing, those around it. The path is
given by its stem and the parts after it, the last first; idle parts before a part
that is taken off go with it. A directory that is there already is as good as a new
one, and where no part is left one always stands. Directories made before a refusal
stay. -/
def makeDirectories (t : FileTree) (stem : List Char) :
    (parts : List (List Char)) → FileTree × Option Fault
  | [] => (t, none)
  | part :: outer =>
    if Path.isIdle part then t.makeDirectories stem outer
    else
      let p := Path.ofParts stem (part :: outer)
      match t.makeDirectory p with
      | .ok t => (t, none)
      | .error .notFound =>
        match t.makeDirectories stem outer with
        | (t, some fault) => (t, some fault)
        | (t, none) =>
          match t.makeDirectory p with
          | .ok t => (t, none)
          | .error fault => (t, if t.isDirectory p then none else some fault)
      | .error fault => (t, if t.isDirectory p then none else some fault)

def ensureDirectory (t : FileTree) (p : Path) : FileTree × Option Fault :=
  t.makeDirectories p.stem.1 p.parts

def ensureParent (t : FileTree) (p : Path) : FileTree × Option Fault :=
  t.makeDirectories p.stem.1 p.parts.tail

end HeaderGather.FileTree
