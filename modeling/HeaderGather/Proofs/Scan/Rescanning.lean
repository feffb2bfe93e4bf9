import HeaderGather.Proofs.Gathering.Stages
import HeaderGather.Proofs.Scan.Selection
import HeaderGather.Proofs.Scan.Unreadable
import HeaderGather.Proofs.Scan.Widening

/-! Sources scanned again, and in another order. What was read of a source before is known and
adds nothing; and which names there are in the end does not depend on the order of the sources,
only under which texts and where they stand. -/
namespace HeaderGather

theorem Catalog.size_eq_of_names {c d : Catalog} (h : ∀ name, name ∈ c.names ↔ name ∈ d.names) :
    c.size = d.size := by
  have hperm : c.names.Perm d.names := (List.perm_ext_iff_of_nodup c.distinct d.distinct).2 h
  simpa [Catalog.names, Catalog.size] using hperm.length_eq

namespace Scan

open Settings (extent positive)

variable {window later : Option Nat} {c : Catalog} {sources again others : List (Path × Source)}

theorem firstMentions_known {known : List String} {all : List (String × String)}
    (h : ∀ name ∈ all.map Prod.fst, name ∈ known) : firstMentions known all = [] := by
  induction all with
  | nil => rfl
  | cons m all ih =>
      obtain ⟨hm, hall⟩ := List.forall_mem_cons.1 h
      rw [firstMentions_cons, if_pos hm, ih hall]

theorem ofSource_known (origin : Path) {source : Source}
    (h : ∀ name ∈ namesIn window source, name ∈ c.names) :
    (ofSource window origin source c).catalog = c ∧
      (ofSource window origin source c).counts.newHeaders = 0 := by
  have hnone : firstMentions c.names (mentions (partOf window source)) = [] :=
    firstMentions_known h
  constructor
  · ext1
    rw [ofSource_catalog, ofLines_entries, ← partOf, hnone, List.map_nil, List.append_nil]
  · rw [(ofSource_counts_lines window origin source c).2.2, hnone, List.length_nil]

/-- Sources that mention known names only leave the catalog as it is. -/
theorem ofSources_known (h : ∀ one ∈ sources, ∀ name ∈ namesIn window one.2, name ∈ c.names) :
    (ofSources window c sources).1 = c ∧
      ∀ counts ∈ (ofSources window c sources).2, counts.newHeaders = 0 := by
  induction sources with
  | nil => exact ⟨rfl, nofun⟩
  | cons one sources ih =>
      obtain ⟨origin, source⟩ := one
      obtain ⟨hone, hothers⟩ := List.forall_mem_cons.1 h
      obtain ⟨hcatalog, hnew⟩ := ofSource_known origin hone
      obtain ⟨hrest, hrestNew⟩ := ih hothers
      simp only [ofSources, hcatalog]
      exact ⟨hrest, List.forall_mem_cons.2 ⟨hnew, hrestNew⟩⟩

theorem ofSources_append (window : Option Nat) (c : Catalog)
    (first rest : List (Path × Source)) :
    ofSources window c (first ++ rest) =
      ((ofSources window (ofSources window c first).1 rest).1,
        (ofSources window c first).2 ++
          (ofSources window (ofSources window c first).1 rest).2) := by
  induction first generalizing c with
  | nil => rfl
  | cons one first ih =>
      obtain ⟨origin, source⟩ := one
      simp only [List.cons_append, ofSources, ih]

theorem size_ofSources (window : Option Nat) (c : Catalog) (sources : List (Path × Source)) :
    (ofSources window c sources).1.size =
      c.size + (ofSources window c sources).2.sum.newHeaders := by
  induction sources generalizing c with
  | nil => rfl
  | cons one sources ih =>
      obtain ⟨origin, source⟩ := one
      simp only [ofSources, List.sum_cons, ih, (tallies_ofSource window origin source c).headers,
        Counts.add_def, Nat.add_assoc]

theorem includesSeen_ofSources (window : Option Nat) (c : Catalog)
    (sources : List (Path × Source)) :
    (ofSources window c sources).2.sum.includesSeen =
      ((sources.map Prod.snd).map fun source => (partOf window source).countP isInclude).sum := by
  induction sources generalizing c with
  | nil => rfl
  | cons one sources ih =>
      obtain ⟨origin, source⟩ := one
      simp only [ofSources, List.sum_cons, List.map_cons, Counts.add_def, ih,
        (ofSource_counts_lines window origin source c).1]

/-- What was scanned is absorbed, in any order and as often as one likes, by a window that is no
wider. -/
theorem ofSources_again (h : extent later ≤ extent window)
    (hagain : ∀ one ∈ again, one.2 ∈ sources.map Prod.snd) :
    let first := (ofSources (positive window) c sources).1
    (ofSources (positive later) first again).1 = first ∧
      ∀ counts ∈ (ofSources (positive later) first again).2, counts.newHeaders = 0 := by
  intro first
  apply ofSources_known
  intro one hone name hname
  exact (mem_names_ofSources _ _ _ _).2
    (.inr ⟨one.2, hagain one hone, mem_namesIn_of_extent_le h hname⟩)

/-- The order of sources decides on texts and places, not on names. -/
theorem ofSources_perm (h : (sources.map Prod.snd).Perm (others.map Prod.snd)) :
    let first := ofSources window c sources
    let second := ofSources window c others
    (∀ name, name ∈ first.1.names ↔ name ∈ second.1.names) ∧
      first.2.sum.newHeaders = second.2.sum.newHeaders ∧
      first.2.sum.includesSeen = second.2.sum.includesSeen := by
  intro first second
  have hnames : ∀ name, name ∈ first.1.names ↔ name ∈ second.1.names := by
    intro name
    simp only [first, second, mem_names_ofSources, h.mem_iff]
  refine ⟨hnames, ?_, ?_⟩
  · have hsize := Catalog.size_eq_of_names hnames
    rw [size_ofSources, size_ofSources] at hsize
    exact Nat.add_left_cancel hsize
  · rw [includesSeen_ofSources, includesSeen_ofSources]
    exact (h.map _).sum_eq

end Scan

namespace Scanner

variable {k : Scanner} {t : FileTree} {base : Path} {pattern : String} {c : Catalog} {s : Scan}

/-- The files that a pattern selects; none if it spells nothing. -/
def filesOf (k : Scanner) (t : FileTree) (base : Path) (pattern : String) : List Path :=
  match k.matchingFiles t base pattern with
  | .error _ => []
  | .ok (files, _) => files

theorem filesOf_eq (k : Scanner) {dir : Place} {p : Pattern} (hp : Pattern.ofText pattern = .ok p)
    (hdir : t.locate base = .ok dir) (hd : t.get? dir = some .directory) :
    k.filesOf t base pattern = (k.chosen t base p).map base.extend := by
  rw [← selection_directory k p hdir hd, filesOf, matchingFiles, hp]

/-- A pattern that matches more of what is below a directory selects more there. -/
theorem filesOf_mono (k : Scanner) {dir : Place} {other : String} {p q : Pattern}
    (hp : Pattern.ofText pattern = .ok p) (hq : Pattern.ofText other = .ok q)
    (hdir : t.locate base = .ok dir) (hd : t.get? dir = some .directory)
    (h : ∀ names entry, t.get? (dir ++ names) = some entry →
      p.accepts (Text.encode names.path.text.toList) = true →
      q.accepts (Text.encode names.path.text.toList) = true) :
    ∀ file ∈ k.filesOf t base pattern, file ∈ k.filesOf t base other := by
  intro file hfile
  rw [filesOf_eq k hp hdir hd] at hfile
  rw [filesOf_eq k hq hdir hd]
  obtain ⟨names, hnames, rfl⟩ := List.mem_map.1 hfile
  obtain ⟨below, ⟨entry, hentry, hkind⟩, matched, included, level, opened⟩ :=
    (mem_chosen hdir hd).1 hnames
  exact List.mem_map_of_mem ((mem_chosen hdir hd).2
    ⟨below, ⟨entry, hentry, hkind⟩, h names entry hentry matched, included, level, opened⟩)

theorem readings_append (opens : Opener) (files more : List Path) :
    readings opens (files ++ more) = readings opens files ++ readings opens more :=
  List.filterMap_append

theorem mem_readings {opens : Opener} {files : List Path} {one : Path × Source} :
    one ∈ readings opens files ↔
      ∃ file ∈ files, ∃ source, reading? (opens file) = some source ∧ (file, source) = one := by
  simp only [readings, List.mem_filterMap, Option.map_eq_some_iff]

theorem catalog_scanPattern (h : k.scanPattern t base pattern c = .ok s) :
    s.catalog = (Scan.ofSources k.window c
      (readings t.openSource (k.filesOf t base pattern))).1 := by
  obtain ⟨files, told, hfiles, rfl⟩ := scanPattern_eq_ok h
  have hfilesOf : k.filesOf t base pattern = files := by rw [filesOf, hfiles]
  rw [hfilesOf]
  exact (undisturbed_scanFiles k t.openSource files c).finds.catalog

end Scanner

namespace Settings

variable {k : Scanner} {t : FileTree} {root : Path}

/-- Patterns give the catalog that the files give which the first selects, then the second, and
so on. -/
theorem catalog_scanPatterns {patterns : List String} {s after : Scan}
    (h : (scanPatterns k t root patterns s).1 = .ok after) :
    after.catalog = (Scan.ofSources k.window s.catalog
      (Scanner.readings t.openSource (patterns.flatMap (k.filesOf t root)))).1 := by
  induction patterns generalizing s with
  | nil =>
      obtain rfl := Except.ok.inj h
      rfl
  | cons pattern patterns ih =>
      obtain ⟨one, hone, hscan⟩ := scanPatterns_cons_eq_ok h
      rw [ih hscan, Scanner.catalog_scanPattern hone, List.flatMap_cons, Scanner.readings_append,
        Scan.ofSources_append]

theorem catalog_scanTree {s : Settings} {c : Catalog} {counts : Counts}
    (h : (s.scanTree t root).1 = .ok (c, counts)) :
    c = (Scan.ofSources s.effectiveWindow .empty (Scanner.readings t.openSource
      (s.patterns.flatMap ((Scanner.ofSettings s).filesOf t root)))).1 := by
  obtain ⟨journal, hscan⟩ := scanTree_eq_ok h
  exact catalog_scanPatterns hscan

/-- `more` is `patterns` with others among them, each of which selects only files that patterns
before it select, as one that stands before it already does. Those of `earlier` are before all. -/
inductive Padded (files : String → List Path) :
    (earlier patterns more : List String) → Prop where
  | nil (earlier : List String) : Padded files earlier [] []
  | keep {earlier patterns more : List String} (pattern : String) :
    Padded files (earlier ++ [pattern]) patterns more →
    Padded files earlier (pattern :: patterns) (pattern :: more)
  | pad {earlier patterns more : List String} (pattern : String) :
    (∀ file ∈ files pattern, ∃ other ∈ earlier, file ∈ files other) →
    Padded files (earlier ++ [pattern]) patterns more →
    Padded files earlier patterns (pattern :: more)

variable {files : String → List Path} {earlier patterns more : List String}

theorem Padded.sublist (h : Padded files earlier patterns more) : patterns.Sublist more := by
  induction h with
  | nil => exact .slnil
  | keep pattern _ ih => exact ih.cons_cons pattern
  | pad pattern _ _ ih => exact ih.cons pattern

/-- All that is read of the files of some patterns is known. -/
def Known (opens : Scanner.Opener) (window : Option Nat) (files : String → List Path)
    (patterns : List String) (c : Catalog) : Prop :=
  ∀ pattern ∈ patterns, ∀ one ∈ Scanner.readings opens (files pattern),
    ∀ name ∈ Scan.namesIn window one.2, name ∈ c.names

theorem Known.concat {opens : Scanner.Opener} {window : Option Nat} {c : Catalog}
    (h : Known opens window files earlier c) (pattern : String) :
    Known opens window files (earlier ++ [pattern])
      (Scan.ofSources window c (Scanner.readings opens (files pattern))).1 := by
  intro other hother one hone name hname
  rw [Scan.mem_names_ofSources]
  cases List.mem_append.1 hother with
  | inl hbefore => exact .inl (h other hbefore one hone name hname)
  | inr hlast =>
      obtain rfl := List.mem_singleton.1 hlast
      exact .inr ⟨one.2, List.mem_map_of_mem hone, hname⟩

theorem Known.absorbs {opens : Scanner.Opener} {window : Option Nat} {c : Catalog}
    (h : Known opens window files earlier c) {pattern : String}
    (hfiles : ∀ file ∈ files pattern, ∃ other ∈ earlier, file ∈ files other) :
    (Scan.ofSources window c (Scanner.readings opens (files pattern))).1 = c := by
  refine (Scan.ofSources_known fun one hone => ?_).1
  obtain ⟨file, hfile, source, hsource, rfl⟩ := Scanner.mem_readings.1 hone
  obtain ⟨other, hother, hsame⟩ := hfiles file hfile
  exact h other hother _ (Scanner.mem_readings.2 ⟨file, hsame, source, hsource, rfl⟩)

theorem Padded.catalog_eq (h : Padded files earlier patterns more) (opens : Scanner.Opener)
    (window : Option Nat) {c : Catalog} (hknown : Known opens window files earlier c) :
    (Scan.ofSources window c (Scanner.readings opens (more.flatMap files))).1 =
      (Scan.ofSources window c (Scanner.readings opens (patterns.flatMap files))).1 := by
  induction h generalizing c with
  | nil => rfl
  | keep pattern _ ih =>
      simp only [List.flatMap_cons, Scanner.readings_append, Scan.ofSources_append]
      exact ih (hknown.concat pattern)
  | pad pattern hfiles _ ih =>
      have hnext := hknown.concat pattern
      simp only [List.flatMap_cons, Scanner.readings_append, Scan.ofSources_append]
      rw [hknown.absorbs hfiles] at hnext ⊢
      exact ih hnext

/-- Patterns that select nothing new leave the catalog as it is. -/
theorem scanTree_padded {s : Settings} {place : Place} (hroot : t.openDirectory root = .ok place)
    (hmore : ∀ pattern ∈ more, ∃ p, Pattern.ofText pattern = .ok p)
    (h : Padded ((Scanner.ofSettings s).filesOf t root) [] s.patterns more) :
    ∃ c counts counts', (s.scanTree t root).1 = .ok (c, counts) ∧
      ({ s with patterns := more }.scanTree t root).1 = .ok (c, counts') := by
  have hpatterns : ∀ pattern ∈ s.patterns, ∃ p, Pattern.ofText pattern = .ok p :=
    fun pattern hpattern => hmore pattern (h.sublist.subset hpattern)
  obtain ⟨c, counts, hscan⟩ := scanTree_ok hroot hpatterns
  obtain ⟨d, counts', hscan'⟩ := scanTree_ok (s := { s with patterns := more }) hroot hmore
  have hnothing : Known t.openSource s.effectiveWindow
      ((Scanner.ofSettings s).filesOf t root) [] .empty := nofun
  have hsame : d = c := by
    rw [catalog_scanTree hscan, catalog_scanTree hscan']
    exact h.catalog_eq t.openSource s.effectiveWindow hnothing
  exact ⟨c, counts, counts', hscan, hsame ▸ hscan'⟩

/-- The order of the patterns decides on texts and places, not on names. -/
theorem scanTree_perm {s : Settings} {place : Place} {others : List String}
    (hroot : t.openDirectory root = .ok place)
    (hpatterns : ∀ pattern ∈ s.patterns, ∃ p, Pattern.ofText pattern = .ok p)
    (h : s.patterns.Perm others) :
    ∃ c counts d counts', (s.scanTree t root).1 = .ok (c, counts) ∧
      ({ s with patterns := others }.scanTree t root).1 = .ok (d, counts') ∧
      ∀ name, name ∈ c.names ↔ name ∈ d.names := by
  have hothers : ∀ pattern ∈ others, ∃ p, Pattern.ofText pattern = .ok p :=
    fun pattern hpattern => hpatterns pattern (h.mem_iff.2 hpattern)
  obtain ⟨c, counts, hscan⟩ := scanTree_ok hroot hpatterns
  obtain ⟨d, counts', hscan'⟩ := scanTree_ok (s := { s with patterns := others }) hroot hothers
  refine ⟨c, counts, d, counts', hscan, hscan', fun name => ?_⟩
  rw [catalog_scanTree hscan, catalog_scanTree hscan']
  have hread := (h.flatMap_right ((Scanner.ofSettings s).filesOf t root)).filterMap
    fun file => (Scanner.reading? (t.openSource file)).map (file, ·)
  exact (Scan.ofSources_perm (hread.map Prod.snd)).1 name

/-- What was scanned is absorbed when it is scanned again, all of it or some, in any order and as
often as one likes, with a window that is no wider. The order of sources decides on texts and
places, not on names, and not on how many headers are new or how many includes are seen. So
patterns among others that select nothing new leave the catalog of a tree as it is, and their
order has no part in its names. -/
theorem scans_absorbed :
    (∀ (window later : Option Nat) (c : Catalog) (sources again : List (Path × Source)),
      extent later ≤ extent window → (∀ one ∈ again, one.2 ∈ sources.map Prod.snd) →
      let first := (Scan.ofSources (positive window) c sources).1
      let second := Scan.ofSources (positive later) first again
      second.1 = first ∧ ∀ counts ∈ second.2, counts.newHeaders = 0) ∧
    (∀ (window : Option Nat) (c : Catalog) (sources others : List (Path × Source)),
      (sources.map Prod.snd).Perm (others.map Prod.snd) →
      let first := Scan.ofSources (positive window) c sources
      let second := Scan.ofSources (positive window) c others
      (∀ name, name ∈ first.1.names ↔ name ∈ second.1.names) ∧
        first.2.sum.newHeaders = second.2.sum.newHeaders ∧
        first.2.sum.includesSeen = second.2.sum.includesSeen) ∧
    ∀ (s : Settings) (t : FileTree) (root : Path) (place : Place),
      t.openDirectory root = .ok place →
      (∀ more, (∀ pattern ∈ more, ∃ p, Pattern.ofText pattern = .ok p) →
        Padded ((Scanner.ofSettings s).filesOf t root) [] s.patterns more →
        ∃ c counts counts', (s.scanTree t root).1 = .ok (c, counts) ∧
          ({ s with patterns := more }.scanTree t root).1 = .ok (c, counts')) ∧
      (∀ others, (∀ pattern ∈ s.patterns, ∃ p, Pattern.ofText pattern = .ok p) →
        s.patterns.Perm others →
        ∃ c counts d counts', (s.scanTree t root).1 = .ok (c, counts) ∧
          ({ s with patterns := others }.scanTree t root).1 = .ok (d, counts') ∧
          ∀ name, name ∈ c.names ↔ name ∈ d.names) := by
  refine ⟨fun window later c sources again h hagain => Scan.ofSources_again h hagain,
    fun window c sources others h => Scan.ofSources_perm h, fun s t root place hroot => ⟨?_, ?_⟩⟩
  · intro more hmore h
    exact scanTree_padded hroot hmore h
  · intro others hpatterns h
    exact scanTree_perm hroot hpatterns h

/-- Two files that name one header under two texts. -/
def twoFiles : FileTree :=
  FileTree.bare
    |>.add [] "src" .directory
    |>.add ["src"] "a.c"
      (.file (Text.encode "#include <x/one.h>\n#include <two.h>\n".toList) 0o644)
    |>.add ["src"] "b.c"
      (.file (Text.encode "#include <y/one.h>\n#include <three.h>\n".toList) 0o644)

/-- Whether a text spells a pattern that matches these names. -/
def spellsFor (text : String) (names : Place) : Bool :=
  match Pattern.ofText text with
  | .error _ => false
  | .ok p => p.accepts (Text.encode names.path.text.toList)

/-- A pattern for one file, put after one for both, and the latter put again at the end, add
nothing to the catalog. -/
theorem scans_absorbed_twoFiles :
    let s : Settings := { patterns := ["*.c", "b.c"] }
    let more := ["*.c", "a.c", "b.c", "*.c"]
    let others := ["b.c", "*.c"]
    let sources := Scan.twoSources
    let first := (Scan.ofSources (positive (some 5)) .empty sources).1
    twoFiles.openDirectory ⟨"src"⟩ = .ok ["src"] ∧
      (∀ pattern ∈ more, ∃ p, Pattern.ofText pattern = .ok p) ∧
      Padded ((Scanner.ofSettings s).filesOf twoFiles ⟨"src"⟩) [] s.patterns more ∧
      (∃ c counts counts', (s.scanTree twoFiles ⟨"src"⟩).1 = .ok (c, counts) ∧
        ({ s with patterns := more }.scanTree twoFiles ⟨"src"⟩).1 = .ok (c, counts')) ∧
      (∃ c counts d counts', (s.scanTree twoFiles ⟨"src"⟩).1 = .ok (c, counts) ∧
        ({ s with patterns := others }.scanTree twoFiles ⟨"src"⟩).1 = .ok (d, counts') ∧
        ∀ name, name ∈ c.names ↔ name ∈ d.names) ∧
      (Scan.ofSources (positive (some 1)) first (sources.reverse ++ sources)).1 = first ∧
      (∀ name, name ∈ first.names ↔
        name ∈ (Scan.ofSources (positive (some 5)) .empty sources.reverse).1.names) ∧
      first.entries = [("a.h", .wanted "a.h"), ("b.h", .wanted "x/b.h")] ∧
      (Scan.ofSources (positive (some 5)) .empty sources.reverse).1.entries =
        [("b.h", .wanted "y/b.h"), ("a.h", .wanted "a.h")] := by
  intro s more others sources first
  obtain ⟨hagain, hperm, htree⟩ := scans_absorbed
  have hroot : twoFiles.openDirectory ⟨"src"⟩ = .ok ["src"] := by decide +kernel
  have hdir : twoFiles.locate ⟨"src"⟩ = .ok ["src"] := by decide +kernel
  have hd : twoFiles.get? ["src"] = some .directory := by decide +kernel
  obtain ⟨all, hall⟩ : ∃ p, Pattern.ofText "*.c" = .ok p := ⟨_, rfl⟩
  obtain ⟨one, hone⟩ : ∃ p, Pattern.ofText "a.c" = .ok p := ⟨_, rfl⟩
  obtain ⟨other, hother⟩ : ∃ p, Pattern.ofText "b.c" = .ok p := ⟨_, rfl⟩
  have hmore : ∀ pattern ∈ more, ∃ p, Pattern.ofText pattern = .ok p := by
    simp [more, hall, hone, hother]
  have hpatterns : ∀ pattern ∈ s.patterns, ∃ p, Pattern.ofText pattern = .ok p := by
    simp [s, hall, hother]
  have hfiles : ∀ file ∈ (Scanner.ofSettings s).filesOf twoFiles ⟨"src"⟩ "a.c",
      file ∈ (Scanner.ofSettings s).filesOf twoFiles ⟨"src"⟩ "*.c" := by
    have hspelled : ∀ e ∈ twoFiles.entries, spellsFor "a.c" e.1.tail = true →
        spellsFor "*.c" e.1.tail = true := by decide +kernel
    apply Scanner.filesOf_mono _ hone hall hdir hd
    intro names entry hentry
    have hnames := hspelled _ (FileTree.mem_of_get? hentry (List.cons_ne_nil "src" names))
    simpa only [spellsFor, hone, hall, List.cons_append, List.nil_append, List.tail_cons]
      using hnames
  have hpadded : Padded ((Scanner.ofSettings s).filesOf twoFiles ⟨"src"⟩) [] s.patterns more :=
    .keep "*.c" (.pad "a.c" (fun file hfile => ⟨"*.c", by simp, hfiles file hfile⟩)
      (.keep "b.c" (.pad "*.c" (fun file hfile => ⟨"*.c", by simp, hfile⟩) (.nil _))))
  have hnarrow : extent (some 1) ≤ extent (some 5) :=
    WithTop.coe_le_coe.2 (by decide : 1 ≤ 5)
  have hsources : ∀ source ∈ sources.reverse ++ sources, source.2 ∈ sources.map Prod.snd := by
    intro source hsource
    refine List.mem_map_of_mem ?_
    simpa using hsource
  obtain ⟨hmoreTree, hothersTree⟩ := htree s twoFiles ⟨"src"⟩ ["src"] hroot
  refine ⟨hroot, hmore, hpadded, hmoreTree more hmore hpadded,
    hothersTree others hpatterns (.swap _ _ _),
    (hagain (some 5) (some 1) .empty sources _ hnarrow hsources).1,
    (hperm (some 5) .empty sources sources.reverse ?_).1, ?_, ?_⟩
  · exact (List.reverse_perm sources).symm.map Prod.snd
  · decide +kernel
  · decide +kernel

end Settings

end HeaderGather
