import HeaderGather.CommandLine
import HeaderGather.Journal.Filter
import HeaderGather.Report
import HeaderGather.Settings.Yaml

/-! The program: what a command line does to a file tree, what it prints, and the
code with which it ends. -/
namespace HeaderGather

namespace Options

/-- The settings of a file with those that the command line names in their place. -/
def override (o : Options) (s : Settings) : Settings :=
  { s with
    patterns := if o.patterns = [] then s.patterns else o.patterns
    window := match o.window with
      | none => s.window
      | some n => Settings.positive (some n)
    rootKey := o.rootKey.getD s.rootKey
    recursive := s.recursive || o.recursive
    dryRun := s.dryRun || o.dryRun }

def settings (o : Options) (t : FileTree) : Except String Settings :=
  match o.config with
  | none => .ok (o.override {})
  | some path =>
    match Settings.load t path with
    | .error failure => .error ("loading config " ++ path.text ++ ": " ++ failure.chain)
    | .ok s => .ok (o.override s)

def level (o : Options) : Level :=
  if o.verbose then .debug else if o.quiet then .warn else .info

end Options

namespace Program

def versionLine : String := "headercrawl 0.1.0"

def usageLine : String := "Usage: headercrawl [OPTIONS] <BUILD_DIR> <OUTPUT_DIR>"

def helpLines : List String :=
  ["Copy the headers a project includes", "", usageLine, "",
    "Arguments:",
    "  <BUILD_DIR>   Build directory holding the CMake cache",
    "  <OUTPUT_DIR>  Directory receiving the harvested headers", "",
    "Options:",
    "  -c, --config <FILE>          YAML configuration file",
    "  -p, --pattern <GLOB>         Source file glob (repeatable, replaces the defaults)",
    "      --include-window <N>     Lines without an include tolerated after the first one"
      ++ " (0 scans whole files)",
    "  -r, --recursive              Scan the whole source tree instead of its top level",
    "      --source-root-key <KEY>  Cache key naming the source root",
    "      --dry-run                Show what would be copied without writing anything",
    "      --report <FILE>          Write the header table and stage statistics as JSON",
    "  -v, --verbose                Log every header and file",
    "  -q, --quiet                  Only log warnings and errors",
    "  -h, --help                   Print help",
    "  -V, --version                Print version"]

structure Answer where
  exitCode : Nat
  output : List String
  errors : List String
  tree : FileTree

/-- Ends with an error, which the journal tells last. -/
def failed (f : Filter) (t : FileTree) (output : List String) (reason : String) : Answer :=
  ⟨1, output ++ f.lines [.ended reason], [], t⟩

def writeReport (f : Filter) (t : FileTree) (output : List String) (r : Report) :
    Option Path → Answer
  | none => ⟨0, output, [], t⟩
  | some path =>
    match t.write path (Text.encode r.toJson.pretty.toList) with
    | .error fault =>
      failed f t output ("writing report " ++ path.text ++ ": " ++ fault.message)
    | .ok t => ⟨0, output ++ ["   Report written to: " ++ path.text], [], t⟩

def gather (f : Filter) (t : FileTree) (o : Options) (s : Settings) : Answer :=
  let run := s.gather t o.build o.out
  let told := f.lines run.journal
  match run.result with
  | .error failure => failed f run.tree told failure.chain
  | .ok report =>
    writeReport f run.tree (told ++ report.summary s.dryRun) report o.report

def perform (f : Filter) (t : FileTree) (o : Options) : Answer :=
  match o.settings t with
  | .error reason => failed f t [] reason
  | .ok s =>
    match s.check with
    | .error failure => failed f t [] failure.chain
    | .ok s => gather f t o s

/-- What a command line does. A filter given in words replaces that of the
options, if it is one. -/
def run (t : FileTree) (arguments : List String) (filter : Option String) : Answer :=
  match CommandLine.parse arguments with
  | .help => ⟨0, helpLines, [], t⟩
  | .version => ⟨0, [versionLine], [], t⟩
  | .misuse => ⟨2, [], [usageLine], t⟩
  | .run o => perform (((filter.bind Filter.ofText?)).getD (.ofLevel o.level)) t o

end Program

end HeaderGather
