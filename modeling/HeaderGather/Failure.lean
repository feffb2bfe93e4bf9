import HeaderGather.Fault
import HeaderGather.Path
import HeaderGather.Pattern.Spelling
import HeaderGather.Settings

/-! What can go wrong in a run. A source file that cannot be read and a copy that
cannot be made are told and passed over; every other failure ends the run. -/
namespace HeaderGather

inductive Failure where
  | settingsFile (fault : Fault)
  | settings (problem : Settings.Problem)
  | cacheFile (path : Path) (fault : Fault)
  | noSourceRoot (key : String) (cache : Path)
  | sourceRoot (path : Path) (fault : Fault)
  | pattern (text : String) (problem : Pattern.Problem)
  | sourceFile (path : Path) (fault : Fault)
  | copy (source dest : Path) (fault : Fault)
  | everyCopy (attempted : Nat)
  deriving DecidableEq, Repr

namespace Failure

def isFatal : Failure → Bool
  | .sourceFile _ _ => false
  | .copy _ _ _ => false
  | _ => true

def message : Failure → String
  | .settingsFile fault => "IO error: " ++ fault.message
  | .settings problem => "Configuration error: " ++ problem.message
  | .cacheFile path fault =>
    "Failed to open build cache file " ++ path.text ++ ": " ++ fault.message
  | .noSourceRoot key cache =>
    "Could not find " ++ key ++ " in build cache file " ++ cache.text
  | .sourceRoot path fault =>
    "Failed to open source root directory " ++ path.text ++ ": " ++ fault.message
      ++ ". Check permissions."
  | .pattern text problem => "Invalid glob pattern '" ++ text ++ "': " ++ problem.message
  | .sourceFile path fault =>
    "Failed to open source file " ++ path.text ++ ": " ++ fault.message
  | .copy source dest fault =>
    "Failed to copy " ++ source.text ++ " to " ++ dest.text ++ ": " ++ fault.message
  | .everyCopy attempted => "All " ++ toString attempted ++ " header copies failed"

/-- The fault that the system gave as the reason, if it gave one. -/
def cause? : Failure → Option Fault
  | .settingsFile fault => some fault
  | .cacheFile _ fault => some fault
  | .sourceRoot _ fault => some fault
  | .sourceFile _ fault => some fault
  | .copy _ _ fault => some fault
  | _ => none

/-- The failure and its reason, as a run reports them when it ends. -/
def chain (f : Failure) : String :=
  match f.cause? with
  | some fault => f.message ++ ": " ++ fault.message
  | none => f.message

end Failure

end HeaderGather
