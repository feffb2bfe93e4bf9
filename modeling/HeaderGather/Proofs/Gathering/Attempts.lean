import HeaderGather.Proofs.Delivery.Copies
import HeaderGather.Proofs.Scan.Stages
import HeaderGather.Proofs.Search.Pass

/-! The copies of which a journal tells. No stage before the delivery copies anything; the
delivery tries each found header once, in the order of the catalog. -/
namespace HeaderGather

/-- The destination of a copy that was tried, whether it was made or refused. -/
def Event.attempt? : Event → Option Path
  | .copied _ dest => some dest
  | .copyRefused (.copy _ dest _) => some dest
  | _ => none

def Journal.attempts (j : Journal) : List Path := j.filterMap Event.attempt?

namespace Journal

@[simp] theorem attempts_nil : attempts [] = [] := rfl

@[simp] theorem attempts_cons (e : Event) (j : Journal) :
    attempts (e :: j) = e.attempt?.toList ++ j.attempts := by
  rw [attempts, List.filterMap_cons]
  cases e.attempt? <;> rfl

@[simp] theorem attempts_append (j k : Journal) : attempts (j ++ k) = j.attempts ++ k.attempts :=
  List.filterMap_append

/-- Events of one kind, none of which is a copy. -/
theorem attempts_map {α : Type} (tell : α → Event) (h : ∀ a, (tell a).attempt? = none)
    (l : List α) : attempts (l.map tell) = [] := by
  rw [attempts, List.filterMap_eq_nil_iff, List.forall_mem_map]
  exact fun a _ => h a

end Journal

open Journal

namespace BuildCache

theorem attempts_withLine (line : List Char) (r : Reading) :
    (r.withLine line).journal.attempts = r.journal.attempts := by
  unfold Reading.withLine
  cases includeEntry line <;> rfl

theorem attempts_readLines (mark : List Char) (known : Bool) (lines : List (List Char)) :
    (readLines mark known lines).journal.attempts = [] := by
  induction lines generalizing known with
  | nil => cases known <;> rfl
  | cons line lines ih =>
      cases known with
      | true => rw [readLines, attempts_withLine, ih]
      | false =>
          rw [readLines]
          cases rootValue? mark line with
          | none => rw [attempts_withLine, ih]
          | some value => exact ih true

theorem attempts_read (s : Settings) (origin : Path) (source : Source) :
    (read s origin source).2.attempts = [] := by
  have hlines := attempts_readLines s.rootMark.toList false (source.lines.filter isEntry)
  unfold read
  dsimp only
  split <;> exact hlines

end BuildCache

theorem Settings.attempts_readCache (s : Settings) (t : FileTree) (build : Path) :
    (s.readCache t build).2.attempts = [] := by
  unfold readCache
  dsimp only
  cases t.openSource (s.cachePath build) with
  | error fault => rfl
  | ok source =>
      have hread := BuildCache.attempts_read s (s.cachePath build) source
      dsimp only
      cases hr : BuildCache.read s (s.cachePath build) source with
      | mk result journal =>
          rw [hr] at hread
          cases result with
          | error failure => exact hread
          | ok cache => simp [hread, Event.attempt?]

namespace Scan

theorem attempts_ofLines (origin : Path) (c : Catalog) (lines : List (List Char)) :
    (ofLines origin c lines).journal.attempts = [] := by
  induction lines generalizing c with
  | nil => rfl
  | cons line lines ih =>
      rw [ofLines]
      cases Directive.ofLine line with
      | other => exact ih c
      | malformed => exact ih c
      | «include» text name =>
          dsimp only
          split <;> exact ih _

theorem attempts_ofSource (window : Option Nat) (origin : Path) (source : Source) (c : Catalog) :
    (ofSource window origin source c).journal.attempts = [] := by
  have hlines := attempts_ofLines origin c (consumed window none source.lines)
  unfold ofSource
  dsimp only
  split
  · simp [hlines, Event.attempt?]
  · cases source.fault? with
    | none => exact hlines
    | some fault => simp [hlines, Event.attempt?]

end Scan

namespace Scanner

variable {k : Scanner} {t : FileTree} {base : Path} {pattern : String} {c : Catalog} {s : Scan}

theorem attempts_scanNext (k : Scanner) (opens : Opener) (s : Scan) (file : Path) :
    (k.scanNext opens s file).journal.attempts = s.journal.attempts := by
  obtain ⟨_, -, h⟩ | ⟨source, -, h⟩ := k.scanNext_cases opens s file
  · rw [h]
    simp [Event.attempt?]
  · rw [h]
    simp [Scan.attempts_ofSource]

theorem attempts_scanFiles (k : Scanner) (opens : Opener) (files : List Path) (c : Catalog) :
    (k.scanFiles opens files c).journal.attempts = [] := by
  have run : ∀ s : Scan,
      (files.foldl (k.scanNext opens) s).journal.attempts = s.journal.attempts := by
    induction files with
    | nil => exact fun _ => rfl
    | cons file files ih =>
        intro s
        rw [List.foldl_cons, ih, attempts_scanNext]
  exact run _

theorem attempts_selection (k : Scanner) (t : FileTree) (base : Path) (p : Pattern) :
    (k.selection t base p).2.attempts = [] := by
  unfold selection
  cases t.locate base with
  | error fault => rfl
  | ok place =>
      dsimp only
      split
      · exact attempts_map _ (fun _ => rfl) _
      · rfl

theorem attempts_matchingFiles {files : List Path} {told : Journal}
    (h : k.matchingFiles t base pattern = .ok (files, told)) : told.attempts = [] := by
  unfold matchingFiles at h
  cases hp : Pattern.ofText pattern with
  | error problem => simp [hp] at h
  | ok p =>
      simp only [hp, Except.ok.injEq] at h
      rw [← attempts_selection k t base p, h]

theorem attempts_scanPattern (h : k.scanPattern t base pattern c = .ok s) :
    s.journal.attempts = [] := by
  obtain ⟨files, told, hfiles, rfl⟩ := scanPattern_eq_ok h
  simp [attempts_matchingFiles hfiles, attempts_scanFiles, Event.attempt?]

end Scanner

namespace Settings

theorem attempts_scanPatterns (k : Scanner) (t : FileTree) (root : Path) (patterns : List String)
    (s : Scan) : (scanPatterns k t root patterns s).2.attempts = s.journal.attempts := by
  induction patterns generalizing s with
  | nil => rfl
  | cons pattern patterns ih =>
      rw [scanPatterns]
      cases h : k.scanPattern t root pattern s.catalog with
      | error failure => rfl
      | ok one => simp [ih, Scanner.attempts_scanPattern h]

theorem attempts_scanTree (s : Settings) (t : FileTree) (root : Path) :
    (s.scanTree t root).2.attempts = [] := by
  have hall := attempts_scanPatterns (.ofSettings s) t root s.patterns ⟨.empty, .zero, []⟩
  unfold scanTree
  cases checkRoot t root with
  | error failure => rfl
  | ok _ =>
      dsimp only
      cases hs : scanPatterns (.ofSettings s) t root s.patterns ⟨.empty, .zero, []⟩ with
      | mk result journal =>
          rw [hs] at hall
          cases result with
          | error failure => exact hall
          | ok scan => simp [hall, Event.attempt?]

end Settings

namespace SearchPath

theorem attempt?_told (s : SearchPath) (t : FileTree) (text : Path) :
    (s.told t text).attempt? = none := by
  unfold told
  split
  · split <;> rfl
  · split <;> rfl

theorem attempts_report (s : SearchPath) (t : FileTree) (e : String × Location) :
    (s.report t e).attempts = [] := by
  unfold report
  cases e.2 with
  | found path => exact attempts_nil
  | wanted text =>
      dsimp only
      rw [attempts_cons, attempt?_told]
      split <;> rfl

theorem attempts_locateAll (s : SearchPath) (t : FileTree) (c : Catalog) :
    (s.locateAll t c).2.2.attempts = [] := by
  have hreports : attempts (c.entries.flatMap (s.report t)) = [] := by
    induction c.entries with
    | nil => exact attempts_nil
    | cons e entries ih =>
        rw [List.flatMap_cons, attempts_append, attempts_report, ih, List.nil_append]
  have hmissing := attempts_map Event.noSuchDir (fun _ => rfl) (s.missing t)
  rw [told_located]
  simp [hreports, hmissing, Event.attempt?]

end SearchPath

namespace Delivery

theorem attempts_deliverNext (dryRun : Bool) (out : Path) (p : Progress) (e : String × Location) :
    (deliverNext dryRun out p e).journal.attempts =
      p.journal.attempts ++ if dryRun then [] else e.2.path?.toList.map out.destination := by
  obtain ⟨name, location⟩ := e
  cases location with
  | wanted text =>
      have hnone := attempts_append p.journal [.notCopied name text]
      cases dryRun with
      | true => exact hnone
      | false => exact hnone
  | found header =>
      cases dryRun with
      | true => exact attempts_append _ [.planned header (out.destination header)]
      | false =>
          cases h : copyHeader p.tree out header with
          | mk t' result =>
              cases result with
              | ok dest =>
                  obtain ⟨rfl, -⟩ := copyHeader_ok h
                  rw [deliverNext_ok name h]
                  exact attempts_append _ [.copied header (out.destination header)]
              | error failure =>
                  obtain ⟨-, fault, rfl⟩ := copyHeader_error h
                  rw [deliverNext_error name h]
                  exact attempts_append _
                    [.copyRefused (.copy header (out.destination header) fault)]

theorem attempts_progress (dryRun : Bool) (out : Path) (t : FileTree) (c : Catalog) :
    (progress dryRun out t c).journal.attempts =
      if dryRun then [] else c.headers.map out.destination := by
  rw [progress, Catalog.headers]
  induction c.entries using List.reverseRecOn with
  | nil => cases dryRun <;> rfl
  | append_singleton entries e ih =>
      rw [List.foldl_append, List.foldl_cons, List.foldl_nil, attempts_deliverNext, ih]
      cases dryRun with
      | true => rfl
      | false =>
          rw [List.filterMap_append, List.map_append]
          cases hpath : e.2.path? with
          | none => simp [hpath]
          | some path => simp [hpath]

/-- Every found header is tried once, in the order of the catalog, but none in a dry run. -/
theorem attempts_deliver (dryRun : Bool) (out : Path) (t : FileTree) (c : Catalog) :
    (deliver dryRun out t c).2.2.attempts =
      if dryRun then [] else c.headers.map out.destination := by
  have hprogress := attempts_progress dryRun out t c
  unfold deliver
  dsimp only
  split <;> simp [hprogress, Event.attempt?]

end Delivery

end HeaderGather
