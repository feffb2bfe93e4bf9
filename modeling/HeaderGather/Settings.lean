import HeaderGather.Text.Blank

/-! The settings of a run: where to look for the source root, which files to
read and how far, and whether anything is copied. -/
namespace HeaderGather

structure Settings where
  cacheFile : String := "CMakeCache.txt"
  rootKey : String := "OSSIM_DEV_HOME"
  patterns : List String := ["*.cpp", "*.c"]
  /-- Lines without an include that a file may have after its last include
  before the rest of it is left unread. -/
  window : Option Nat := some 10
  recursive : Bool := false
  excludedDirs : List String := [".git"]
  /-- Name the copies and make none. -/
  dryRun : Bool := false
  deriving DecidableEq, Repr

namespace Settings

inductive Problem where
  | noCacheFile
  | noRootKey
  | noPattern
  /-- The settings file is not a document of settings. -/
  | unreadable
  deriving DecidableEq, Repr

def Problem.message : Problem → String
  | .noCacheFile => "cache_file_name must not be empty"
  | .noRootKey => "source_root_key must not be empty"
  | .noPattern => "at least one source pattern is required"
  | .unreadable => "the settings are not a valid YAML document of settings"

def isBlankText (text : String) : Bool := text.toList.all Text.isBlank

def problem? (s : Settings) : Option Problem :=
  if isBlankText s.cacheFile then some .noCacheFile
  else if isBlankText s.rootKey then some .noRootKey
  else if s.patterns = [] then some .noPattern
  else none

/-- A window of zero is no window. -/
def positive (window : Option Nat) : Option Nat := window.filter (0 < ·)

def effectiveWindow (s : Settings) : Option Nat := positive s.window

/-- What a line of the cache that names the source root begins with. -/
def rootMark (s : Settings) : String := s.rootKey ++ ":"

end Settings

end HeaderGather
