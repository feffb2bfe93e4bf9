import HeaderGather.Program
import HeaderGather.Proofs.Gathering.Fidelity
import HeaderGather.Proofs.Gathering.Preview
import HeaderGather.Proofs.Text.Encoding

/-! How the program ends, and what it leaves behind. It ends well just if the headers are
gathered and the report, where one is asked for, can be written; and it changes what the
gathering changes and the file of the report. -/
namespace HeaderGather

namespace Options

variable {o : Options} {t : FileTree} {s s' : Settings}

/-- The settings are those of the command line and its settings file, and can be used. -/
def Settles (o : Options) (t : FileTree) (s : Settings) : Prop :=
  o.settings t = .ok s ∧ s.problem? = none

theorem Settles.unique (h : o.Settles t s) (h' : o.Settles t s') : s = s' :=
  Except.ok.inj (h.1.symm.trans h'.1)

/-- The command line asks for a dry run, or its settings file does. -/
def AsksDryRun (o : Options) (t : FileTree) : Prop :=
  o.dryRun = true ∨ ∃ path file, o.config = some path ∧ Settings.load t path = .ok file ∧
    file.dryRun = true

/-- The run of the library that the command line asks for, once the settings are settled. -/
def gathered (o : Options) (t : FileTree) (s : Settings) : Run Report := s.gather t o.build o.out

end Options

/-- The file of a report. -/
def Report.file (r : Report) : Text.Bytes := Text.encode r.toJson.pretty.toList

namespace Program

variable {t : FileTree} {o : Options} {s : Settings}

section Report

variable {report : Report} {path : Path} (hr : (o.gathered t s).result = .ok report)
include hr

end Report

/-- An answer that is true to the run of the library, in its exit code and in its effects. -/
structure Faithful (t : FileTree) (o : Options) (a : Answer) : Prop where
  success : a.exitCode = 0 ↔ ∃ s report, o.Settles t s ∧ (o.gathered t s).result = .ok report ∧
    ∀ path, o.report = some path → (o.gathered t s).tree.Writable path
  failure : a.exitCode ≠ 0 → a.exitCode = 1
  unsettled : (∀ s, ¬ o.Settles t s) → a.tree = t
  stopped : ∀ s failure, o.Settles t s → (o.gathered t s).result = .error failure →
    a.tree = (o.gathered t s).tree ∧ t.Widens a.tree
  /-- No report is asked for, or it cannot be written. -/
  unwritten : ∀ s report, o.Settles t s → (o.gathered t s).result = .ok report →
    (∀ path, o.report = some path → ¬ (o.gathered t s).tree.Writable path) →
    a.tree = (o.gathered t s).tree
  written : ∀ s (report : Report) path, o.Settles t s → (o.gathered t s).result = .ok report →
    o.report = some path → (o.gathered t s).tree.Writable path →
    (o.gathered t s).tree.Written a.tree path report.file ∧
      (a.tree.isReadable path = true → a.tree.readText path = .ok report.toJson.pretty)
  /-- The file of the report is neither made nor emptied, unless the run of the library ended well
  and left a file there that may not be written to. -/
  failing : a.exitCode = 1 → ∀ path place, o.report = some path →
    a.tree.locate path = .ok place → a.tree.contents place = t.contents place ∨
      ∃ s report bytes mode, o.Settles t s ∧ (o.gathered t s).result = .ok report ∧
        (o.gathered t s).tree.get? place = some (.file bytes mode) ∧ t.rights.writes mode = false
  dryRun : o.AsksDryRun t → a.tree = t ∨
    ∃ path, ∃ report : Report, o.report = some path ∧ t.Written a.tree path report.file

end Program

end HeaderGather
