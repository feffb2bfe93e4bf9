import HeaderGather.Path
import HeaderGather.Text.Numeral

/-! The command line: a build directory, an output directory, and options among
them in any order. Options have long names, some have letters, and letters can
be written together. -/
namespace HeaderGather

structure Options where
  build : Path
  out : Path
  config : Option Path := none
  patterns : List String := []
  window : Option Nat := none
  recursive : Bool := false
  rootKey : Option String := none
  dryRun : Bool := false
  report : Option Path := none
  verbose : Bool := false
  quiet : Bool := false
  deriving DecidableEq, Repr

inductive Request where
  | run (options : Options)
  | help
  | version
  /-- A command line that asks for nothing that there is. -/
  | misuse
  deriving DecidableEq, Repr

namespace CommandLine

inductive Switch where
  | recursive
  | dryRun
  | verbose
  | quiet
  deriving DecidableEq, Repr

inductive Setting where
  | config
  | pattern
  | window
  | rootKey
  | report
  deriving DecidableEq, Repr

inductive Name where
  | switch (s : Switch)
  | setting (s : Setting)
  | help
  | version
  deriving DecidableEq, Repr

def longName? (name : String) : Option Name :=
  [("config", .setting .config), ("pattern", .setting .pattern),
    ("include-window", .setting .window), ("recursive", .switch .recursive),
    ("source-root-key", .setting .rootKey), ("dry-run", .switch .dryRun),
    ("report", .setting .report), ("verbose", .switch .verbose), ("quiet", .switch .quiet),
    ("help", Name.help), ("version", .version)].lookup name

def letter? (c : Char) : Option Name :=
  [('c', .setting .config), ('p', .setting .pattern), ('r', .switch .recursive),
    ('v', .switch .verbose), ('q', .switch .quiet), ('h', Name.help), ('V', .version)].lookup c

structure Draft where
  /-- The arguments that belong to no option. -/
  places : List String := []
  config : Option String := none
  patterns : List String := []
  window : Option Nat := none
  rootKey : Option String := none
  report : Option String := none
  switches : List Switch := []

namespace Draft

/-- A whole number below 2^64 in decimal digits, with a plus sign or without. -/
def number? (text : String) : Option Nat :=
  (Text.unsigned? 10 text.toList).filter (· < UInt64.size)

/-- Sets what was not set before. -/
def once? {α β : Type} (old : Option α) (value : Option α) (set : Option α → β) : Option β :=
  match old, value with
  | none, some v => some (set (some v))
  | _, _ => none

def fileName? (text : String) : Option String := if text = "" then none else some text

/-- The draft with a setting. All but patterns can be set once. -/
def set? (d : Draft) (s : Setting) (value : String) : Option Draft :=
  match s with
  | .config => once? d.config (fileName? value) fun v => { d with config := v }
  | .pattern => some { d with patterns := d.patterns ++ [value] }
  | .window => once? d.window (number? value) fun v => { d with window := v }
  | .rootKey => once? d.rootKey (some value) fun v => { d with rootKey := v }
  | .report => once? d.report (fileName? value) fun v => { d with report := v }

def turnOn? (d : Draft) (s : Switch) : Option Draft :=
  if d.switches.contains s then none else some { d with switches := s :: d.switches }

/-- The draft with one more place; there are two, and neither is empty. -/
def place? (d : Draft) (text : String) : Option Draft :=
  if text = "" || 2 ≤ d.places.length then none
  else some { d with places := d.places ++ [text] }

/-- The request of all the arguments. Verbose and quiet exclude each other. -/
def request (d : Draft) : Request :=
  match d.places with
  | [build, out] =>
    if d.switches.contains .verbose && d.switches.contains .quiet then .misuse
    else .run {
      build := ⟨build⟩
      out := ⟨out⟩
      config := d.config.map Path.mk
      patterns := d.patterns
      window := d.window
      recursive := d.switches.contains .recursive
      rootKey := d.rootKey
      dryRun := d.switches.contains .dryRun
      report := d.report.map Path.mk
      verbose := d.switches.contains .verbose
      quiet := d.switches.contains .quiet }
  | _ => .misuse

end Draft

inductive Standing where
  | ready (d : Draft)
  /-- The next argument is the value of a setting. -/
  | awaiting (d : Draft) (s : Setting)
  /-- All further arguments are places. -/
  | plain (d : Draft)
  | decided (r : Request)

def Standing.ofDraft : Option Draft → Standing
  | some d => .ready d
  | none => .decided .misuse

/-- A letter's value may follow it at once, after an equals sign or not. -/
def letters : Draft → List Char → Standing
  | d, [] => .ready d
  | d, c :: rest =>
    match letter? c with
    | none => .decided .misuse
    | some .help => .decided .help
    | some .version => .decided .version
    | some (.switch s) =>
      match d.turnOn? s with
      | some d => letters d rest
      | none => .decided .misuse
    | some (.setting s) =>
      match rest with
      | [] => .awaiting d s
      | '=' :: value => .ofDraft (d.set? s (String.ofList value))
      | value => .ofDraft (d.set? s (String.ofList value))

/-- A long name, and its value after an equals sign if there is one. -/
def long (d : Draft) (text : List Char) : Standing :=
  let name := text.takeWhile (· ≠ '=')
  let value := text.drop name.length
  match longName? (String.ofList name), value with
  | some (.switch s), [] => .ofDraft (d.turnOn? s)
  | some (.setting s), [] => .awaiting d s
  | some (.setting s), _ :: value => .ofDraft (d.set? s (String.ofList value))
  | some .help, [] => .decided .help
  | some .version, [] => .decided .version
  | _, _ => .decided .misuse

/-- An argument where any may stand. A dash alone is no option. -/
def argument (d : Draft) (text : String) : Standing :=
  match text.toList with
  | ['-', '-'] => .plain d
  | '-' :: '-' :: rest => long d rest
  | '-' :: c :: rest => letters d (c :: rest)
  | _ => .ofDraft (d.place? text)

/-- Whether an argument cannot be the value of a setting. -/
def isOption (text : String) : Bool :=
  match text.toList with
  | '-' :: _ :: _ => true
  | _ => false

def next (s : Standing) (text : String) : Standing :=
  match s with
  | .ready d => argument d text
  | .awaiting d setting =>
    if isOption text then .decided .misuse else .ofDraft (d.set? setting text)
  | .plain d =>
    match d.place? text with
    | some d => .plain d
    | none => .decided .misuse
  | .decided r => .decided r

def parse (arguments : List String) : Request :=
  match arguments.foldl next (.ready {}) with
  | .ready d => d.request
  | .awaiting _ _ => .misuse
  | .plain d => d.request
  | .decided r => r

end CommandLine

end HeaderGather
