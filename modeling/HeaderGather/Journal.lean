import HeaderGather.Failure
import HeaderGather.Path.Quoted

/-! The journal of a run: what happened, in order. Each event has a level and a
place in the program that tells it, by which a reader of the journal can choose. -/
namespace HeaderGather

inductive Level where
  | off
  | error
  | warn
  | info
  | debug
  | trace
  deriving DecidableEq, Repr

namespace Level

def rank : Level → Nat
  | .off => 0
  | .error => 1
  | .warn => 2
  | .info => 3
  | .debug => 4
  | .trace => 5

def name : Level → String
  | .off => "OFF"
  | .error => "ERROR"
  | .warn => "WARN"
  | .info => "INFO"
  | .debug => "DEBUG"
  | .trace => "TRACE"

end Level

inductive Event where
  | rootLine (line : String)
  | includeDir (value : String)
  | noIncludeDir (line : String)
  | cacheRead (cache root : Path) (includeDirs : Nat)
  | unlisted (path : Path) (fault : Fault)
  | matched (pattern : String) (files : Nat)
  | unopened (failure : Failure)
  | cutShort (failure : Failure) (includes : Nat)
  | malformed (origin : Path) (line : String)
  | newHeader (origin : Path) (name text : String)
  | windowPassed (origin : Path) (lines : Nat)
  | scanned (files : Nat) (pattern : String) (headers : Nat)
  | collected (headers files : Nat) (root : Path)
  | noSuchDir (dir : Path)
  | absoluteFound (text : String)
  | absoluteMissing (text : String)
  | foundIn (text : String) (dir : Path)
  | notFound (text : String)
  | lost (name text : String)
  | located (headers dirs lost : Nat)
  | notCopied (name text : String)
  | planned (source dest : Path)
  | copied (source dest : Path)
  | copyRefused (failure : Failure)
  | delivered (out : Path) (copied skipped failed : Nat)
  | ended (reason : String)
  deriving DecidableEq, Repr

abbrev Journal := List Event

namespace Event

def level : Event → Level
  | .rootLine _ | .includeDir _ | .noIncludeDir _ | .matched _ _ | .newHeader _ _ _
  | .windowPassed _ _ | .absoluteFound _ | .absoluteMissing _ | .foundIn _ _ | .notFound _
  | .planned _ _ | .copied _ _ => .debug
  | .cacheRead _ _ _ | .scanned _ _ _ | .collected _ _ _ | .located _ _ _
  | .delivered _ _ _ _ => .info
  | .unlisted _ _ | .unopened _ | .cutShort _ _ | .malformed _ _ | .noSuchDir _ | .lost _ _
  | .notCopied _ _ | .copyRefused _ => .warn
  | .ended _ => .error

/-- The part of the program that tells an event, by the name that a filter knows. -/
def target : Event → String
  | .rootLine _ | .includeDir _ | .noIncludeDir _ | .cacheRead _ _ _ =>
    "headercrawl_parser::cmake_cache"
  | .unlisted _ _ | .matched _ _ | .unopened _ | .cutShort _ _ | .malformed _ _
  | .newHeader _ _ _ | .windowPassed _ _ | .scanned _ _ _ => "headercrawl_parser::includes"
  | .collected _ _ _ => "headercrawl_harvest"
  | .noSuchDir _ | .absoluteFound _ | .absoluteMissing _ | .foundIn _ _ | .notFound _
  | .lost _ _ | .located _ _ _ => "headercrawl_harvest::resolver"
  | .notCopied _ _ | .planned _ _ | .copied _ _ | .copyRefused _ | .delivered _ _ _ _ =>
    "headercrawl_harvest::materializer"
  | .ended _ => "headercrawl"

def text : Event → String
  | .rootLine line => "Source root line: " ++ line
  | .includeDir value => "Include path: " ++ value
  | .noIncludeDir line => "Skipping include entry without a directory: " ++ line
  | .cacheRead cache root n =>
    "Build cache " ++ cache.text ++ ": source root " ++ root.text ++ ", " ++ toString n
      ++ " include paths"
  | .unlisted path fault =>
    "Skipping unreadable directory entry: IO error for operation on " ++ path.text ++ ": "
      ++ fault.message
  | .matched pattern n => "Pattern " ++ pattern ++ " matched " ++ toString n ++ " files"
  | .unopened failure => failure.message
  | .cutShort failure n => failure.message ++ " (after " ++ toString n ++ " includes)"
  | .malformed origin line =>
    origin.text ++ ": could not find closing character in '" ++ line ++ "'"
  | .newHeader origin name text =>
    origin.text ++ ": new header " ++ name ++ " (" ++ text ++ ")"
  | .windowPassed origin n =>
    origin.text ++ ": stopping after " ++ toString n ++ " lines without an include"
  | .scanned files pattern headers =>
    "Scanned " ++ toString files ++ " files for " ++ pattern ++ ": " ++ toString headers
      ++ " new headers"
  | .collected headers files root =>
    "Found " ++ toString headers ++ " unique headers in " ++ toString files
      ++ " source files under " ++ root.text
  | .noSuchDir dir => "Include path " ++ dir.text ++ " is not a directory"
  | .absoluteFound text => "Resolved absolute include " ++ text
  | .absoluteMissing text => "Absolute include " ++ text ++ " does not exist"
  | .foundIn text dir => "Resolved " ++ text ++ " in " ++ dir.quoted
  | .notFound text => "Failed to resolve header: " ++ text
  | .lost name text => "Header " ++ name ++ " (" ++ text ++ ") not found in any include path"
  | .located headers dirs missing =>
    "Resolved " ++ toString headers ++ " headers against " ++ toString dirs
      ++ " include paths, " ++ toString missing ++ " unresolved"
  | .notCopied name text => "Not copying unresolved header " ++ name ++ " (" ++ text ++ ")"
  | .planned source dest => "Would copy " ++ source.text ++ " to " ++ dest.text
  | .copied source dest => "Copied " ++ source.text ++ " to " ++ dest.text
  | .copyRefused failure => failure.message
  | .delivered out made skipped failed =>
    "Materialized headers into " ++ out.text ++ ": " ++ toString made ++ " copied, "
      ++ toString skipped ++ " skipped, " ++ toString failed ++ " failed"
  | .ended reason => reason

/-- The controls below U+0080 that a terminal acts on. -/
def terminalControls : List Char := ['\x07', '\x08', '\x0c', '\x1b', '\x7f']

/-- A character in a line: what a terminal acts on is spelled by its code. -/
def shown (c : Char) : List Char :=
  if c ∈ terminalControls then
    ['\\', 'x', Text.hexDigit (c.toNat / 16), Text.hexDigit (c.toNat % 16)]
  else if 0x80 ≤ c.toNat && c.toNat < 0xA0 then Text.byCode c
  else [c]

def line (e : Event) : String :=
  e.level.name ++ " " ++ String.ofList (e.text.toList.flatMap shown)

end Event

end HeaderGather
