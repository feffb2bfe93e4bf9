import HeaderGather.Survey

/-! The program on a real disk. The parts of the disk that a run looks at are read
into a file tree, the run is made on the tree, and what it changed there is
written back. The mode of a file says no more than what the process may do with the
file, which is tried; of a directory it is known whether it may be listed. -/
namespace HeaderGather.Main

def textOf (place : Place) : String := "/" ++ "/".intercalate place

def namesOf (text : String) : List String := Path.segments ⟨text⟩

/-- Where a link leads when it leads nowhere: a path taken not to be on the disk. -/
def nowhere : Path := ⟨"/.nowhere"⟩

def targetOf (place : Place) : IO Path := do
  try
    return ⟨(← IO.FS.realPath (textOf place)).toString⟩
  catch _ => return nowhere

def opens (place : Place) (mode : IO.FS.Mode) : IO Bool := do
  try
    IO.FS.withFile ((← IO.currentDir) / textOf place) mode fun _ => return true
  catch _ => return false

/-- A file that may not be read is there all the same. -/
def fileAt (place : Place) : IO Entry := do
  let writes ← opens place .append
  if ← opens place .read then
    let bytes ← IO.FS.readBinFile ((← IO.currentDir) / textOf place)
    return .file bytes.data.toList (if writes then FileTree.commonMode else 0o444)
  else return .file [] (if writes then 0o200 else 0)

/-- The entry at a place on the disk, whose parent is no link. -/
def entryAt? (place : Place) : IO (Option Entry) := do
  try
    let file := (← IO.currentDir) / textOf place
    match (← file.symlinkMetadata).type with
    | .dir => return some .directory
    | .symlink => return some (.link (← targetOf place))
    | _ => return some (← fileAt place)
  catch _ => return none

/-- The names in a directory, if it may be listed. -/
def namesIn? (place : Place) : IO (Option (List String)) := do
  try
    let found ← ((← IO.currentDir) / textOf place).readDir
    return some (found.map fun e => e.fileName).toList
  catch _ => return none

def unlisted (t : FileTree) (place : Place) : FileTree :=
  t.under { t.rights with lists := fun other => other ≠ place && t.rights.lists other }

/-- Reads one entry into the tree, if it is not there yet. -/
def readEntry (t : FileTree) (dir : Place) (name : String) : IO FileTree := do
  if (t.get? (dir ++ [name])).isSome then return t
  match ← entryAt? (dir ++ [name]) with
  | some entry => return t.add dir name entry
  | none => return t

/-- Reads the entries along a path, and those that its links lead to. -/
partial def readAlong (t : FileTree) (links : Nat) : Place → List String → IO FileTree
  | _, [] => return t
  | dir, name :: rest => do
    if name = "." || name = "" then readAlong t links dir rest
    else if name = ".." then readAlong t links dir.dropLast rest
    else
      let t ← readEntry t dir name
      match t.get? (dir ++ [name]), links with
      | some .directory, _ => readAlong t links (dir ++ [name]) rest
      | some (.link target), links + 1 => readAlong t links [] (namesOf target.text ++ rest)
      | _, _ => return t

/-- Reads what is below a directory, as far as it is needed. -/
partial def readBelow (t : FileTree) (place : Place) (deep : Bool) : IO FileTree := do
  match ← namesIn? place with
  | none => return unlisted t place
  | some names =>
    let mut t := t
    for name in names do
      t ← readEntry t place name
      match t.get? (place ++ [name]) with
      | some .directory => if deep then t ← readBelow t (place ++ [name]) deep
      | some (.link target) => t ← readAlong t FileTree.linkLimit [] (namesOf target.text)
      | _ => pure ()
    return t

def readNeed (t : FileTree) (need : Need) : IO FileTree := do
  let t ← readAlong t FileTree.linkLimit (t.startOf need.path) need.path.segments
  match need.extent, t.locate need.path with
  | .itself, _ => return t
  | _, .error _ => return t
  | extent, .ok place => readBelow t place (extent = .everything)

def readTree (t : FileTree) (arguments : List String) : Nat → IO FileTree
  | 0 => return t
  | rounds + 1 => do
    let t ← (Program.needs t arguments).foldlM readNeed t
    readTree t arguments rounds

def accessOf (mode : Nat) : IO.FileRight :=
  ⟨access 6, access 3, access 0⟩
where
  access (low : Nat) : IO.AccessRight :=
    ⟨mode.testBit (low + 2), mode.testBit (low + 1), mode.testBit low⟩

/-- The mode is set where it is another one than before. -/
def writeEntry (before : FileTree) (e : Place × Entry) : IO Unit := do
  match e.2 with
  | .directory => IO.FS.createDirAll (textOf e.1)
  | .file bytes mode =>
    IO.FS.writeBinFile (textOf e.1) ⟨bytes.toArray⟩
    match before.get? e.1 with
    | some (.file _ old) => if old ≠ mode then IO.setAccessRights (textOf e.1) (accessOf mode)
    | _ => IO.setAccessRights (textOf e.1) (accessOf mode)
  | .link _ => return ()

def filterVariable : String := "RUST_LOG"

def run (arguments : List String) : IO UInt32 := do
  let current := namesOf (← IO.currentDir).toString
  let nothing := FileTree.bare.under (.owner fun _ => 0o755)
  let start ← readAlong nothing FileTree.linkLimit [] current
  let before ← readTree (start.enter current) arguments Program.rounds
  let answer := Program.run before arguments (← IO.getEnv filterVariable)
  (answer.tree.changesSince before).forM (writeEntry before)
  answer.output.forM fun line => IO.println line
  answer.errors.forM fun line => IO.eprintln line
  return UInt32.ofNat answer.exitCode

end HeaderGather.Main

def main (arguments : List String) : IO UInt32 := HeaderGather.Main.run arguments
