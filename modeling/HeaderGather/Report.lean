import HeaderGather.Catalog.Json
import HeaderGather.Gathering

/-! The report of a run, as a JSON file and as a summary to read. -/
namespace HeaderGather

def Path.toJson (p : Path) : Json := .text p.text

def Counts.toJson (c : Counts) : Json := .object [
  ("files_scanned", .ofNat c.filesScanned),
  ("files_unreadable", .ofNat c.filesUnreadable),
  ("includes_seen", .ofNat c.includesSeen),
  ("malformed_includes", .ofNat c.malformed),
  ("new_headers", .ofNat c.newHeaders)]

def SearchPath.Outcome.toJson (o : SearchPath.Outcome) : Json := .object [
  ("resolved", .ofNat o.found),
  ("unresolved", .list (o.wanted.map .text)),
  ("missing_include_paths", .list (o.missingDirs.map Path.toJson))]

def Delivery.toJson (d : Delivery) : Json := .object [
  ("copied", .ofNat d.copied),
  ("skipped", .ofNat d.skipped),
  ("failed", .ofNat d.failed),
  ("planned", .list (d.planned.map Path.toJson))]

namespace Report

def toJson (r : Report) : Json := .object [
  ("source_root", r.sourceRoot.toJson),
  ("include_paths", .list (r.includeDirs.map Path.toJson)),
  ("scan", r.scan.toJson),
  ("resolve", r.search.toJson),
  ("copy", r.delivery.toJson),
  ("headers", r.headers.toJson)]

def summary (r : Report) (dryRun : Bool) : List String :=
  ["📂 Source root: " ++ r.sourceRoot.text,
    "   Include paths: " ++ toString r.includeDirs.length]
    ++ r.search.missingDirs.map (fun dir => "     ! missing " ++ dir.text)
    ++ ["   Scanned " ++ toString r.scan.filesScanned ++ " files ("
        ++ toString r.scan.filesUnreadable ++ " unreadable), " ++ toString r.headers.size
        ++ " unique headers",
      "   Resolved " ++ toString r.headers.foundCount ++ ", unresolved "
        ++ toString r.search.wanted.length]
    ++ r.search.wanted.map (fun name => "     ? " ++ name)
    ++ if dryRun then
        ["", "📋 Would copy " ++ toString r.delivery.planned.length ++ " headers:"]
          ++ r.delivery.planned.map fun dest => "   " ++ dest.text
      else
        ["", "📊 Copied " ++ toString r.delivery.copied ++ ", skipped "
          ++ toString r.delivery.skipped ++ ", failed " ++ toString r.delivery.failed]

end Report

end HeaderGather
