import HeaderGather.Proofs.Catalog.Naming
import HeaderGather.Proofs.Delivery.Replay
import HeaderGather.Proofs.Gathering.Outcome

/-! Whether the copies of a run are true to their headers. The output directory may be
anywhere, so that a destination may denote a header, or what another destination denotes. A
header copied onto itself is emptied, and the copy counts as made. The copies are true, and
the headers unharmed, exactly where nothing of the kind matters. -/
namespace HeaderGather

namespace FileTree

variable {t t' : FileTree}

theorem CopySpec.contents {source dest : Path} {s d : Place} (h : CopySpec t t' source dest s d) :
    t'.contents = (Copy.mk s d).run t.contents := by
  funext place
  obtain ⟨b, m, hsource, -⟩ := h.readable
  obtain ⟨m', -, hwritten⟩ := h.written
  have hs : t.contents s = some b := by simp [FileTree.contents, hsource]
  by_cases hp : place = d
  · subst hp
    have ht : t'.contents place = some (if s = place then [] else b) := by
      simp [FileTree.contents, hwritten, hsource]
    rw [ht, Copy.run, if_pos rfl, hs]
    exact apply_ite some (s = place) [] b
  · simp only [Copy.run, hp, if_false, FileTree.contents, h.others hp]

end FileTree

namespace Delivery

/-- The copy that a header stands for, in view of the trees before and after. -/
def copyOf (before after : FileTree) (out header : Path) : Copy :=
  ⟨before.placeOf header, after.placeOf (out.destination header)⟩

theorem copyOf_of_grows {t t' after : FileTree} {out header : Path} (hg : t.Grows t')
    (h : t.isFile header = true) : copyOf t' after out header = copyOf t after out header := by
  simp only [copyOf, hg.placeOf h]

/-- What is held after copies of headers is what it is after the moves they stand for. -/
theorem copyAll_replay (out : Path) {t after : FileTree} {headers : List Path}
    (hreadable : ∀ header ∈ headers, t.isReadable header = true)
    (hafter : (copyAll out t headers).1 = after) :
    after.contents = replay t.contents ((made out t headers).map (copyOf t after out)) ∧
      ∀ header ∈ made out t headers,
        after.Reads (out.destination header) (after.placeOf (out.destination header)) := by
  induction headers generalizing t with
  | nil => exact ⟨congrArg FileTree.contents hafter.symm, nofun⟩
  | cons header headers ih =>
      obtain ⟨hheader, hothers⟩ := List.forall_mem_cons.1 hreadable
      have hgrows := copyHeader_grows t out header
      have hrest : ∀ h ∈ headers, (copyHeader t out header).1.isReadable h = true :=
        fun h hh => copyHeader_isReadable out header (hothers h hh)
      cases hone : copyHeader t out header with
      | mk t' result =>
          rw [hone] at hgrows hrest
          rw [copyAll_cons headers hone] at hafter
          obtain ⟨hcontents, htargets⟩ := ih hrest hafter
          have hmap : (made out t' headers).map (copyOf t' after out) =
              (made out t' headers).map (copyOf t after out) := by
            apply List.map_congr_left
            intro h hh
            have hother := hothers h ((made_sublist out t' headers).subset hh)
            exact copyOf_of_grows hgrows (FileTree.isFile_of_isReadable hother)
          rw [hmap] at hcontents
          cases result with
          | error failure =>
              rw [made_cons_error headers hone]
              rw [(copyHeader_error hone).1.contents] at hcontents
              exact ⟨hcontents, htargets⟩
          | ok dest =>
              obtain ⟨-, mid, source, target, hwide, spec⟩ := copyHeader_ok hone
              have hlater : t'.Grows after := hafter ▸ copyAll_grows out t' headers
              have htarget := FileTree.locate_grows hlater spec.denotesDest
              obtain ⟨m, hm, hwritten⟩ := spec.written
              have hreads := copyAll_readableAt out headers ⟨_, m, hwritten, hm⟩
              rw [hafter] at hreads
              have hsource : t.placeOf header = source := by
                rw [← hwide.grows.placeOf (FileTree.isFile_of_isReadable hheader)]
                exact FileTree.placeOf_of_locate spec.denotesSource
              have hcopy : copyOf t after out header = ⟨source, target⟩ := by
                rw [copyOf, hsource, FileTree.placeOf_of_locate htarget]
              rw [made_cons_ok headers hone]
              constructor
              · rw [hcontents, spec.contents, hwide.contents, List.map_cons, hcopy]
                rfl
              · refine List.forall_mem_cons.2 ⟨?_, htargets⟩
                rw [FileTree.placeOf_of_locate htarget]
                exact ⟨htarget, hreads⟩

/-- The copies have the bytes that their headers had, and all headers have them still. -/
structure Faithful (before after : FileTree) (out : Path) (copied found : List Path) : Prop where
  copies : ∀ h ∈ copied, after.readBytes (out.destination h) = before.readBytes h
  headers : ∀ h ∈ found, after.readBytes h = before.readBytes h

/-- Nothing that matters is written over: no copy goes to the place of a header that held
something else, no two copies of different bytes go to one place, and no copy is emptied
that should hold something. -/
structure Apart (before after : FileTree) (out : Path) (copied found : List Path) : Prop where
  headers : ∀ h ∈ copied, ∀ g ∈ found,
    after.placeOf (out.destination h) = before.placeOf g →
      before.readBytes h = before.readBytes g
  copies : ∀ h ∈ copied, ∀ g ∈ copied,
    after.placeOf (out.destination h) = after.placeOf (out.destination g) →
      before.readBytes h = before.readBytes g
  emptied : ∀ h ∈ copied,
    after.placeOf (out.destination h) ∈ emptied (copied.map (copyOf before after out)) →
      before.readBytes h = .ok []

/-- What is known of the places of headers, and of their copies. -/
structure Placed (before after : FileTree) (out : Path) (copied found : List Path) : Prop where
  subset : ∀ h ∈ copied, h ∈ found
  headers : ∀ g ∈ found, before.Reads g (before.placeOf g)
  kept : ∀ g ∈ found, after.Reads g (before.placeOf g)
  targets : ∀ h ∈ copied,
    after.Reads (out.destination h) (after.placeOf (out.destination h))

section Placed

variable {before after : FileTree} {out : Path} {copied found : List Path}
  (placed : Placed before after out copied found)
include placed

theorem faithful_iff :
    Faithful before after out copied found ↔
      (∀ h ∈ copied, after.contents (after.placeOf (out.destination h)) =
          before.contents (before.placeOf h)) ∧
        ∀ g ∈ found, after.contents (before.placeOf g) = before.contents (before.placeOf g) := by
  have copy : ∀ h ∈ copied, (after.readBytes (out.destination h) = before.readBytes h ↔ _) :=
    fun h hh => (placed.targets h hh).readBytes_eq_iff (placed.headers h (placed.subset h hh))
  have header : ∀ g ∈ found, (after.readBytes g = before.readBytes g ↔ _) :=
    fun g hg => (placed.kept g hg).readBytes_eq_iff (placed.headers g hg)
  constructor
  · rintro ⟨hcopies, hheaders⟩
    exact ⟨fun h hh => (copy h hh).1 (hcopies h hh), fun g hg => (header g hg).1 (hheaders g hg)⟩
  · rintro ⟨hcopies, hheaders⟩
    exact ⟨fun h hh => (copy h hh).2 (hcopies h hh), fun g hg => (header g hg).2 (hheaders g hg)⟩

theorem apart_iff :
    Apart before after out copied found ↔
      Agrees before.contents (copied.map (copyOf before after out)) (found.map before.placeOf) ∧
        ∀ h ∈ copied,
          after.placeOf (out.destination h) ∈ emptied (copied.map (copyOf before after out)) →
            before.contents (before.placeOf h) = some [] := by
  have same : ∀ h ∈ found, ∀ g ∈ found, (before.readBytes h = before.readBytes g ↔ _) :=
    fun h hh g hg => (placed.headers h hh).readBytes_eq_iff (placed.headers g hg)
  have empty : ∀ h ∈ copied, (before.readBytes h = .ok [] ↔ _) :=
    fun h hh => (placed.headers h (placed.subset h hh)).readBytes_eq_nil_iff
  constructor
  · intro apart
    refine ⟨⟨?_, ?_⟩, fun h hh he => (empty h hh).1 (apart.emptied h hh he)⟩
    · simp only [List.forall_mem_map, copyOf]
      intro h hh htarget
      obtain ⟨g, hg, e⟩ := List.mem_map.1 htarget
      rw [← e]
      exact (same h (placed.subset h hh) g hg).1 (apart.headers h hh g hg e.symm)
    · simp only [List.forall_mem_map, copyOf]
      intro h hh g hg e
      exact (same h (placed.subset h hh) g (placed.subset g hg)).1 (apart.copies h hh g hg e)
  · rintro ⟨⟨hkept, hcopies⟩, hempty⟩
    simp only [List.forall_mem_map, copyOf] at hkept hcopies
    refine ⟨?_, ?_, fun h hh he => (empty h hh).2 (hempty h hh he)⟩
    · intro h hh g hg e
      rw [same h (placed.subset h hh) g hg, ← e]
      exact hkept h hh (List.mem_map.2 ⟨g, hg, e.symm⟩)
    · intro h hh g hg e
      exact (same h (placed.subset h hh) g (placed.subset g hg)).2 (hcopies h hh g hg e)

end Placed

/-- What the copies are true to is decided by the places alone. -/
theorem faithful_iff_apart (out : Path) {t after : FileTree} {headers : List Path}
    (hreadable : ∀ header ∈ headers, t.isReadable header = true)
    (hafter : (copyAll out t headers).1 = after) :
    Faithful t after out (made out t headers) headers ↔
      Apart t after out (made out t headers) headers := by
  obtain ⟨hcontents, htargets⟩ := copyAll_replay out hreadable hafter
  have hgrows : t.Grows after := hafter ▸ copyAll_grows out t headers
  have hheaders : ∀ g ∈ headers, t.Reads g (t.placeOf g) :=
    fun g hg => FileTree.reads_placeOf (hreadable g hg)
  have hkept : ∀ g ∈ headers, after.Reads g (t.placeOf g) := fun g hg =>
    (hheaders g hg).grows hgrows (hafter ▸ copyAll_readableAt out headers (hheaders g hg).readable)
  have placed : Placed t after out (made out t headers) headers :=
    ⟨fun h hh => (made_sublist out t headers).subset hh, hheaders, hkept, htargets⟩
  have hsources : ∀ c ∈ (made out t headers).map (copyOf t after out),
      c.source ∈ headers.map t.placeOf := by
    intro c hc
    obtain ⟨h, hh, rfl⟩ := List.mem_map.1 hc
    exact List.mem_map_of_mem (placed.subset h hh)
  have replayed := replay_faithful_iff t.contents hsources
  rw [← hcontents] at replayed
  simp only [List.forall_mem_map, copyOf] at replayed
  rw [faithful_iff placed, apart_iff placed]
  exact replayed

end Delivery

namespace Settings

variable {s : Settings} {t : FileTree} {build out : Path}

/-- What a run finds can be read. -/
theorem isReadable_of_located {cache : BuildCache} {catalog : Catalog}
    (hwanted : ∀ e ∈ catalog.entries, ∃ text, e.2 = .wanted text) {path : Path}
    (h : path ∈ (located t cache catalog).headers) : t.isReadable path = true := by
  obtain ⟨name, hmem⟩ := Catalog.mem_headers.1 h
  obtain hold | ⟨text, -, hfind⟩ := SearchPath.found_cases hmem
  · obtain ⟨text, htext⟩ := hwanted _ hold
    exact nomatch htext
  · exact (SearchPath.find?_spec hfind).1

/-- The copies of a run, and what it counts of them. -/
theorem gather_copyAll {report : Report} (hwet : s.dryRun = false)
    (h : (s.gather t build out).result = .ok report) :
    (∀ path ∈ report.headers.headers, t.isReadable path = true) ∧
      (Delivery.copyAll out t report.headers.headers).1 = (s.gather t build out).tree ∧
      (Delivery.made out t report.headers.headers).length = report.delivery.copied := by
  obtain ⟨cache, catalog, counts, delivery, -, hscan, hdelivered, htree, rfl⟩ := gather_eq_ok h
  obtain ⟨hafter, hcopied⟩ := Delivery.progress_copyAll out t (located t cache catalog)
  rw [hwet, Delivery.tree_deliver] at htree
  rw [hwet] at hdelivered
  refine ⟨?_, hafter.symm.trans htree.symm, ?_⟩
  · intro path hpath
    exact isReadable_of_located (wanted_of_scanTree hscan) hpath
  · have hdelivery := (Delivery.deliver_eq_ok hdelivered).1
    exact hcopied.symm.trans (congrArg Delivery.copied hdelivery.symm)

/-- When a run that copies is true to the headers. Of the headers that it found, those
counted as copied have their bytes at their destinations, and all are as before, if and only
if nothing that matters is written over. -/
theorem gather_faithful_iff {report : Report} (hwet : s.dryRun = false)
    (h : (s.gather t build out).result = .ok report) :
    (Delivery.made out t report.headers.headers).length = report.delivery.copied ∧
      (Delivery.Faithful t (s.gather t build out).tree out
          (Delivery.made out t report.headers.headers) report.headers.headers ↔
        Delivery.Apart t (s.gather t build out).tree out
          (Delivery.made out t report.headers.headers) report.headers.headers) := by
  obtain ⟨hreadable, hafter, hcopied⟩ := gather_copyAll hwet h
  exact ⟨hcopied, Delivery.faithful_iff_apart out hreadable hafter⟩

/-- A build whose only header is in the directory `inc`. -/
def oneHeader : FileTree :=
  FileTree.bare
    |>.add [] "build" .directory
    |>.add ["build"] "CMakeCache.txt" (.file (Text.encode
      "OSSIM_DEV_HOME:PATH=src\nA_INCLUDE_DIR:PATH=inc\n".toList) 0o644)
    |>.add [] "src" .directory
    |>.add ["src"] "a.c" (.file (Text.encode "#include <a.h>\n".toList) 0o644)
    |>.add [] "inc" .directory
    |>.add ["inc"] "a.h" (.file (Text.encode "x\n".toList) 0o644)

/-- Gathered into a directory of its own, the header is copied, and nothing is written over. -/
theorem gather_oneHeader_apart : ∃ report,
    (({} : Settings).gather oneHeader ⟨"build"⟩ ⟨"out"⟩).result = .ok report ∧
      report.delivery.copied = 1 ∧
      Delivery.made ⟨"out"⟩ oneHeader report.headers.headers = [⟨"inc/a.h"⟩] ∧
      Delivery.Apart oneHeader (({} : Settings).gather oneHeader ⟨"build"⟩ ⟨"out"⟩).tree ⟨"out"⟩
        (Delivery.made ⟨"out"⟩ oneHeader report.headers.headers) report.headers.headers ∧
      Delivery.Faithful oneHeader (({} : Settings).gather oneHeader ⟨"build"⟩ ⟨"out"⟩).tree ⟨"out"⟩
        (Delivery.made ⟨"out"⟩ oneHeader report.headers.headers) report.headers.headers := by
  have ends : ((({} : Settings).gather oneHeader ⟨"build"⟩ ⟨"out"⟩).result.toOption.map fun r =>
      (r.delivery.copied, r.headers.headers)) = some (1, [⟨"inc/a.h"⟩]) := by decide +kernel
  have copy : (({} : Settings).gather oneHeader ⟨"build"⟩ ⟨"out"⟩).tree.readBytes
      ((Path.mk "out").destination ⟨"inc/a.h"⟩) = oneHeader.readBytes ⟨"inc/a.h"⟩ := by
    decide +kernel
  have header : (({} : Settings).gather oneHeader ⟨"build"⟩ ⟨"out"⟩).tree.readBytes ⟨"inc/a.h"⟩ =
      oneHeader.readBytes ⟨"inc/a.h"⟩ := by decide +kernel
  cases h : (({} : Settings).gather oneHeader ⟨"build"⟩ ⟨"out"⟩).result with
  | error failure => simp [h, Except.toOption] at ends
  | ok report =>
      simp only [h, Except.toOption, Option.map_some, Option.some.injEq, Prod.mk.injEq] at ends
      obtain ⟨copied, headers⟩ := ends
      obtain ⟨length, iff⟩ := gather_faithful_iff rfl h
      have sublist := Delivery.made_sublist ⟨"out"⟩ oneHeader report.headers.headers
      refine ⟨report, rfl, copied, ?_⟩
      rw [headers] at length sublist iff ⊢
      have made : Delivery.made ⟨"out"⟩ oneHeader [⟨"inc/a.h"⟩] = [⟨"inc/a.h"⟩] :=
        sublist.eq_of_length (length.trans copied)
      have faithful : Delivery.Faithful oneHeader
          (({} : Settings).gather oneHeader ⟨"build"⟩ ⟨"out"⟩).tree ⟨"out"⟩
          (Delivery.made ⟨"out"⟩ oneHeader [⟨"inc/a.h"⟩]) [⟨"inc/a.h"⟩] := by
        rw [made]
        exact ⟨List.forall_mem_singleton.2 copy, List.forall_mem_singleton.2 header⟩
      exact ⟨made, iff.1 faithful, faithful⟩

/-- Gathered into the current directory, the header is its own destination. The run ends
well, counts the header as copied, and leaves it empty. -/
theorem gather_oneHeader_emptied :
    ¬ ∀ (s : Settings) (t : FileTree) (build out : Path) (report : Report),
      s.problem? = none → s.dryRun = false → (s.gather t build out).result = .ok report →
      Delivery.Faithful t (s.gather t build out).tree out
        (Delivery.made out t report.headers.headers) report.headers.headers := by
  intro claim
  have found : ((({} : Settings).gather oneHeader ⟨"build"⟩ ⟨"."⟩).result.toOption.map fun r =>
      (r.delivery.copied, r.headers.headers)) = some (1, [⟨"inc/a.h"⟩]) := by decide +kernel
  have before : (oneHeader.readBytes ⟨"inc/a.h"⟩).toOption = some [120, 10] := by decide +kernel
  have after : ((({} : Settings).gather oneHeader ⟨"build"⟩ ⟨"."⟩).tree.readBytes
      ⟨"inc/a.h"⟩).toOption = some [] := by decide +kernel
  cases h : (({} : Settings).gather oneHeader ⟨"build"⟩ ⟨"."⟩).result with
  | error failure => simp [h, Except.toOption] at found
  | ok report =>
      simp only [h, Except.toOption, Option.map_some, Option.some.injEq, Prod.mk.injEq] at found
      have faithful := claim {} oneHeader ⟨"build"⟩ ⟨"."⟩ report (by decide) rfl h
      have same := faithful.headers ⟨"inc/a.h"⟩ (by simp [found.2])
      rw [same, before] at after
      cases after

end Settings

end HeaderGather
