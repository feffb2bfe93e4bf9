import Mathlib.Data.List.Infix
import Mathlib.Data.List.Sort
import HeaderGather.SourceTree
import HeaderGather.Proofs.FileTree.Spelling
import HeaderGather.Proofs.FileTree.Walking

/-! The files that a scanner selects with a pattern: exactly those that it is to select, each
of them once, in the order of their places below the base. How the base is spelled shows in
the paths only, as long as the same directories can be opened. -/
namespace HeaderGather

namespace Path

variable {p : Path} {n : Nat}

/-- A path with so many dots and slashes before it. -/
def dotted (p : Path) : Nat → Path
  | 0 => p
  | n + 1 => ⟨"./" ++ (p.dotted n).text⟩

theorem toList_dotted_succ (p : Path) (n : Nat) :
    (p.dotted (n + 1)).text.toList = ['.'] ++ '/' :: (p.dotted n).text.toList := by
  rw [dotted, String.toList_append]
  rfl

theorem utf8ByteSize_dotted (p : Path) (n : Nat) :
    (p.dotted n).text.utf8ByteSize = 2 * n + p.text.utf8ByteSize := by
  induction n with
  | zero => simp [dotted]
  | succ n ih =>
      have hdot : "./".utf8ByteSize = 2 := rfl
      rw [dotted, String.utf8ByteSize_append, ih, hdot]
      omega

/-- Dots before a path say nothing. -/
theorem steps_dotted (h : p.text ≠ "") (n : Nat) :
    (p.dotted n).steps = List.replicate n "." ++ p.steps := by
  have hends : ∀ n, (p.dotted n).endsInSlash = p.endsInSlash := by
    intro n
    induction n with
    | zero => rfl
    | succ n ih =>
        rw [← ih]
        have hne : (p.dotted n).text.toList ≠ [] := by
          cases n with
          | zero => exact toList_ne_nil h
          | succ n =>
              rw [toList_dotted_succ]
              exact List.cons_ne_nil _ _
        rw [endsInSlash, endsInSlash, toList_dotted_succ, List.getLast?_append,
          List.getLast?_cons, List.getLast?_eq_some_getLast hne]
        rfl
  rw [steps, steps, hends, ← List.append_assoc]
  congr 1
  induction n with
  | zero => rfl
  | succ n ih =>
      rw [segments_eq, toList_dotted_succ, segmentsOf_append, ← segments_eq, ih]
      rfl

theorem isAbsolute_dotted (hp : p.isAbsolute = false) : (p.dotted n).isAbsolute = false := by
  cases n with
  | zero => exact hp
  | succ n =>
      rw [isAbsolute, toList_dotted_succ]
      rfl

theorem fault?_dotted (hp : p.fault? = none) (hshort : 2 * n + p.text.utf8ByteSize < 4096) :
    (p.dotted n).fault? = none := by
  have hnul : '\x00' ∉ (p.dotted n).text.toList := by
    clear hshort
    induction n with
    | zero => exact (fault?_eq_none_iff.1 hp).1
    | succ n ih => simpa [toList_dotted_succ] using ih
  have hne : (p.dotted n).text ≠ "" := by
    cases n with
    | zero => exact (fault?_eq_none_iff.1 hp).2.1
    | succ n =>
        intro e
        have hnil := toList_dotted_succ p n
        rw [e] at hnil
        exact nomatch hnil
  exact fault?_eq_none_iff.2 ⟨hnul, hne, by rwa [utf8ByteSize_dotted]⟩

theorem fault?_join_ne {name : String} (hname : isName name = true)
    (hlong : 4096 ≤ p.text.utf8ByteSize + name.utf8ByteSize) : (p.join ⟨name⟩).fault? ≠ none := by
  intro haccepted
  have hsize : p.text.utf8ByteSize + name.utf8ByteSize ≤ (p.join ⟨name⟩).text.utf8ByteSize := by
    rw [join, isAbsolute_name hname, if_neg Bool.false_ne_true]
    dsimp only
    split
    · exact Nat.le_of_eq String.utf8ByteSize_append.symm
    · rw [String.utf8ByteSize_append, String.utf8ByteSize_append]
      omega
  have hshort := (fault?_eq_none_iff.1 haccepted).2.2
  omega

end Path

namespace Scanner

variable {k : Scanner} {t : FileTree} {base : Path} {pattern : Pattern} {dir names : Place}

/-- What a scanner is to select below a directory that its base denotes: what is no directory
itself, matches, and is reached through directories that are not excluded and can be opened. -/
structure Admits (k : Scanner) (t : FileTree) (base : Path) (pattern : Pattern)
    (dir names : Place) : Prop where
  below : names ≠ []
  entry : ∃ entry, t.get? (dir ++ names) = some entry ∧ entry.isDirectory = false
  matched : pattern.accepts (Text.encode names.path.text.toList) = true
  included : ∀ name ∈ names.dropLast, name ∉ k.excludedDirs
  level : k.recursive = false → names.length = 1
  opened : ∀ front, front <+: names.dropLast → t.Opens (base.extend front)

/-- A directory that a scanner enters if it and those around it can be opened. -/
structure Approaches (k : Scanner) (t : FileTree) (dir names : Place) : Prop where
  entry : t.get? (dir ++ names) = some .directory
  included : ∀ name ∈ names, name ∉ k.excludedDirs
  level : k.recursive = false → names = []

/-- What a scanner selects below the directory of a base, by the names that lead there. -/
def chosen (k : Scanner) (t : FileTree) (base : Path) (pattern : Pattern) : List Place :=
  (FileTree.Visit.files (t.walk (k.walk base))).filter fun names =>
    pattern.accepts (Text.encode names.path.text.toList)

theorem selection_directory (k : Scanner) (pattern : Pattern) (hbase : t.locate base = .ok dir)
    (hd : t.get? dir = some .directory) :
    (k.selection t base pattern).1 = (k.chosen t base pattern).map base.extend := by
  unfold selection
  simp only [hbase, hd, if_true]
  rfl

/-- A base that denotes no directory has no files. -/
theorem selection_other (k : Scanner) (pattern : Pattern) (h : t.isDirectory base = false) :
    (k.selection t base pattern).1 = [] := by
  unfold FileTree.isDirectory FileTree.at? at h
  unfold selection
  cases hbase : t.locate base with
  | error fault => rfl
  | ok place =>
      have hplace : t.get? place ≠ some .directory := by simpa [hbase] using h
      simp only [hplace, if_false]

theorem pairwise_chosen (k : Scanner) (t : FileTree) (base : Path) (pattern : Pattern) :
    (k.chosen t base pattern).Pairwise Place.Before :=
  (FileTree.pairwise_walk t (k.walk base)).filter _

section Base

variable (hbase : t.locate base = .ok dir) (hd : t.get? dir = some .directory)
include hbase hd

theorem mem_chosen :
    names ∈ k.chosen t base pattern ↔ k.Admits t base pattern dir names := by
  rw [chosen, List.mem_filter, FileTree.mem_walk (w := k.walk base) hbase hd,
    FileTree.leads_top_iff (w := k.walk base) hbase hd]
  constructor
  · rintro ⟨⟨⟨below, entry, included, opened⟩, level⟩, matched⟩
    exact ⟨below, entry, matched, included, level, opened⟩
  · rintro ⟨below, entry, matched, included, level, opened⟩
    exact ⟨⟨⟨below, entry, included, opened⟩, level⟩, matched⟩

/-- No file is selected twice, under whatever spelling. -/
theorem pairwise_files :
    ((k.chosen t base pattern).map base.extend).Pairwise fun file other =>
      file.same other = false := by
  have hname : ∀ {names}, names ∈ k.chosen t base pattern →
      ∀ name ∈ names, isName name = true := by
    intro names hnames name hmem
    obtain ⟨entry, hentry, -⟩ := ((mem_chosen hbase hd).1 hnames).entry
    exact FileTree.isName_of_get? hentry name (List.mem_append_right dir hmem)
  rw [List.pairwise_map]
  refine (pairwise_chosen k t base pattern).imp_of_mem ?_
  intro names others hnames hothers hbefore
  rw [Bool.eq_false_iff]
  intro hsame
  obtain rfl := (Path.same_extend_iff (hname hnames) (hname hothers)).1 hsame
  exact Std.Irrefl.irrefl names hbefore

/-- At the first level a scanner selects what it selects there if it goes on below it,
whatever is excluded. -/
theorem chosen_level {flat : Scanner} (hk : k.recursive = true) (hflat : flat.recursive = false) :
    flat.chosen t base pattern =
      (k.chosen t base pattern).filter fun names => names.length = 1 := by
  apply (pairwise_chosen flat t base pattern).eq_of_mem_iff
    ((pairwise_chosen k t base pattern).filter _)
  intro names
  have hdropLast : names.length = 1 → names.dropLast = [] := by
    intro hlength
    rw [← List.length_eq_zero_iff, List.length_dropLast, hlength]
  rw [List.mem_filter, mem_chosen hbase hd, mem_chosen hbase hd, decide_eq_true_eq]
  constructor
  · intro h
    have hlength := h.level hflat
    refine ⟨⟨h.below, h.entry, h.matched, ?_, fun hoff => ?_, h.opened⟩, hlength⟩
    · rw [hdropLast hlength]
      nofun
    · exact absurd (hk.symm.trans hoff) nofun
  · rintro ⟨h, hlength⟩
    refine ⟨h.below, h.entry, h.matched, ?_, fun _ => hlength, h.opened⟩
    rw [hdropLast hlength]
    nofun

/-- Where the base cannot be opened, nothing is selected. -/
theorem chosen_closed (hclosed : ¬ t.Opens base) : k.chosen t base pattern = [] := by
  rw [List.eq_nil_iff_forall_not_mem]
  intro names hmem
  exact hclosed (((mem_chosen hbase hd).1 hmem).opened [] List.nil_prefix)

/-- Where the same directories on the way can be opened under either base, both bases select
the same. -/
theorem chosen_base {other : Path} (hother : t.locate other = .ok dir)
    (hopen : ∀ names, k.Approaches t dir names →
      (t.Opens (base.extend names) ↔ t.Opens (other.extend names))) :
    k.chosen t other pattern = k.chosen t base pattern := by
  have approaches : ∀ {p : Path} {names : Place}, k.Admits t p pattern dir names →
      ∀ front, front <+: names.dropLast → k.Approaches t dir front := by
    rintro p names h front ⟨back, hback⟩
    refine ⟨?_, ?_, ?_⟩
    · obtain ⟨entry, hentry, -⟩ := h.entry
      rw [← List.dropLast_append_getLast h.below, ← hback, List.append_assoc,
        ← List.append_assoc] at hentry
      exact FileTree.get?_front hentry
        (List.append_ne_nil_of_right_ne_nil _ (List.cons_ne_nil _ []))
    · intro name hname
      exact h.included name (hback ▸ List.mem_append_left back hname)
    · intro hoff
      have hlength := congrArg List.length hback
      rw [List.length_append, List.length_dropLast, h.level hoff] at hlength
      exact List.length_eq_zero_iff.1 (by omega)
  apply (pairwise_chosen k t other pattern).eq_of_mem_iff (pairwise_chosen k t base pattern)
  intro names
  rw [mem_chosen hother hd, mem_chosen hbase hd]
  constructor
  · intro h
    refine ⟨h.below, h.entry, h.matched, h.included, h.level, fun front hfront => ?_⟩
    exact (hopen front (approaches h front hfront)).2 (h.opened front hfront)
  · intro h
    refine ⟨h.below, h.entry, h.matched, h.included, h.level, fun front hfront => ?_⟩
    exact (hopen front (approaches h front hfront)).1 (h.opened front hfront)

end Base

/-- A base that cannot be opened has no files. -/
theorem selection_closed (k : Scanner) (pattern : Pattern) (hclosed : ¬ t.Opens base) :
    (k.selection t base pattern).1 = [] := by
  by_cases hdirectory : t.isDirectory base = true
  · obtain ⟨place, hplace, hd⟩ := FileTree.isDirectory_iff.1 hdirectory
    rw [selection_directory k pattern hplace hd, chosen_closed hplace hd hclosed, List.map_nil]
  · exact selection_other k pattern (Bool.eq_false_iff.2 hdirectory)

/-- What is selected with a pattern that spells something. A base that denotes no directory has
no files. Below a directory, links followed up to there, all that is to be selected is selected,
in the order of the places, and nothing twice. A scanner that stays at the first level selects
what one that goes on selects there, whatever the two exclude. From another spelling of the
base, as long as the directories on the way can be opened under both or under neither, the same
is selected, under paths that begin with that spelling. -/
theorem matchingFiles_exact (k : Scanner) (t : FileTree) (base : Path) {text : String}
    {p : Pattern} (hp : Pattern.ofText text = .ok p) :
    ∃ files told, k.matchingFiles t base text = .ok (files, told) ∧
      (t.isDirectory base = false → files = []) ∧
      ∀ dir, t.locate base = .ok dir → t.get? dir = some .directory →
        ∃ places : List Place, files = places.map base.extend ∧
          places.Pairwise Place.Before ∧
          files.Pairwise (fun file other => file.same other = false) ∧
          (∀ names, names ∈ places ↔ k.Admits t base p dir names) ∧
          (∀ flat : Scanner, k.recursive = true → flat.recursive = false →
            ∃ told, flat.matchingFiles t base text =
              .ok ((places.filter fun names => names.length = 1).map base.extend, told)) ∧
          ∀ other : Path, base.isAbsolute = other.isAbsolute →
            Path.turns base.segments = Path.turns other.segments →
            (∀ names, k.Approaches t dir names →
              (t.Opens (base.extend names) ↔ t.Opens (other.extend names))) →
            ∃ told, k.matchingFiles t other text = .ok (places.map other.extend, told) := by
  have hmatching : ∀ (k : Scanner) (base : Path), k.matchingFiles t base text =
      .ok ((k.selection t base p).1, (k.selection t base p).2) := by
    intro k base
    rw [matchingFiles, hp]
  refine ⟨_, _, hmatching k base, selection_other k p, ?_⟩
  intro dir hdir hd
  refine ⟨k.chosen t base p, selection_directory k p hdir hd, pairwise_chosen k t base p,
    ?_, fun names => mem_chosen hdir hd, ?_, ?_⟩
  · rw [selection_directory k p hdir hd]
    exact pairwise_files hdir hd
  · intro flat hk hflat
    refine ⟨(flat.selection t base p).2, (hmatching flat base).trans ?_⟩
    rw [selection_directory flat p hdir hd, chosen_level hdir hd hk hflat]
  · intro other habsolute hturns hopen
    refine ⟨(k.selection t other p).2, (hmatching k other).trans ?_⟩
    have htop : k.Approaches t dir [] := ⟨by rwa [List.append_nil], nofun, fun _ => rfl⟩
    have hboth : t.Opens base ↔ t.Opens other := hopen [] htop
    by_cases hopens : t.Opens other
    · obtain ⟨place, hplace⟩ := hopens
      obtain ⟨hotherDir, hplaceDir, -⟩ := FileTree.openDirectory_eq_ok.1 hplace
      obtain rfl := FileTree.locate_respelled habsolute hturns hdir hd hotherDir hplaceDir
      rw [selection_directory k p hotherDir hd, chosen_base hdir hd hotherDir hopen]
    · rw [selection_closed k p hopens, chosen_closed hdir hd (hboth.not.2 hopens), List.map_nil]

/-- A source tree with an excluded directory, a directory that may not be listed, and a link that
leads nowhere. -/
def fiveFiles : FileTree :=
  FileTree.bare
    |>.add [] "src" .directory
    |>.add ["src"] "a" .directory
    |>.add ["src", "a"] "x.c" (.file [] 0o644)
    |>.add ["src"] "a.c" (.file [] 0o644)
    |>.add ["src"] "skip" .directory
    |>.add ["src", "skip"] "y.c" (.file [] 0o644)
    |>.add ["src"] "l.c" (.link ⟨"gone"⟩)
    |>.add ["src"] "locked" .directory
    |>.add ["src", "locked"] "z.c" (.file [] 0o644)
    |>.under (.owner fun place => if place = ["src", "locked"] then 0o333 else 0o755)

/-- The names that end in a dot and a c. -/
def cFiles : Pattern :=
  .seq .run
    (.seq (.seq (.byte (.single 46)) .blank) (.seq (.seq (.byte (.single 99)) .blank) .blank))

/-- The link is selected, what is in the excluded directory or in the locked one is not, and the
base, which has an excluded name as well, is no exception when it is spelled differently. -/
theorem matchingFiles_exact_fiveFiles :
    let deep : Scanner := ⟨none, true, ["skip", "src"]⟩
    let flat : Scanner := ⟨none, false, []⟩
    Pattern.ofText "*.c" = .ok cFiles ∧ fiveFiles.locate ⟨"src"⟩ = .ok ["src"] ∧
      fiveFiles.get? ["src"] = some .directory ∧
      ∃ (places : List Place) (told toldFlat toldOther : Journal),
        deep.matchingFiles fiveFiles ⟨"src"⟩ "*.c" = .ok (places.map (Path.extend ⟨"src"⟩), told) ∧
        ["a", "x.c"] ∈ places ∧ ["l.c"] ∈ places ∧ ["skip", "y.c"] ∉ places ∧
        ["locked", "z.c"] ∉ places ∧
        flat.matchingFiles fiveFiles ⟨"src"⟩ "*.c" =
          .ok ((places.filter fun names => names.length = 1).map (Path.extend ⟨"src"⟩), toldFlat) ∧
        deep.matchingFiles fiveFiles ⟨"./src/"⟩ "*.c" =
          .ok (places.map (Path.extend ⟨"./src/"⟩), toldOther) := by
  intro deep flat
  have hp : Pattern.ofText "*.c" = .ok cFiles := by rfl
  have hdir : fiveFiles.locate ⟨"src"⟩ = .ok ["src"] := by decide +kernel
  have hd : fiveFiles.get? ["src"] = some .directory := by decide +kernel
  obtain ⟨files, told, hfiles, -, hbelow⟩ := matchingFiles_exact deep fiveFiles ⟨"src"⟩ hp
  obtain ⟨places, rfl, -, -, hexact, hflat, hother⟩ := hbelow ["src"] hdir hd
  obtain ⟨toldFlat, hflat⟩ := hflat flat rfl rfl
  have hopen : ∀ e ∈ fiveFiles.entries, (fiveFiles.Opens ((Path.mk "src").extend e.1.tail) ↔
      fiveFiles.Opens ((Path.mk "./src/").extend e.1.tail)) := by decide +kernel
  obtain ⟨toldOther, hother⟩ := hother ⟨"./src/"⟩ (by decide) (by decide) (by
    intro names h
    have hboth := hopen _ (FileTree.mem_of_get? h.entry (List.cons_ne_nil "src" names))
    simp only [List.cons_append, List.nil_append, List.tail_cons] at hboth
    exact hboth)
  have hdeep : deep.Admits fiveFiles ⟨"src"⟩ cFiles ["src"] ["a", "x.c"] := by
    have hopens : ∀ front ∈ ["a"].inits, fiveFiles.Opens ((Path.mk "src").extend front) := by
      decide +kernel
    refine ⟨by decide, ⟨.file [] 0o644, ?_, rfl⟩, ?_, by decide, nofun, ?_⟩
    · decide +kernel
    · decide +kernel
    · exact fun front hfront => hopens front ((List.mem_inits _ _).2 hfront)
  have hlink : deep.Admits fiveFiles ⟨"src"⟩ cFiles ["src"] ["l.c"] := by
    have hopens : ∀ front ∈ ([] : List String).inits,
        fiveFiles.Opens ((Path.mk "src").extend front) := by decide +kernel
    refine ⟨by decide, ⟨.link ⟨"gone"⟩, ?_, rfl⟩, ?_, nofun, nofun, ?_⟩
    · decide +kernel
    · decide +kernel
    · exact fun front hfront => hopens front ((List.mem_inits _ _).2 hfront)
  have hskip : ¬ deep.Admits fiveFiles ⟨"src"⟩ cFiles ["src"] ["skip", "y.c"] := by
    intro h
    exact h.included "skip" (by decide) (by decide)
  have hlocked : ¬ deep.Admits fiveFiles ⟨"src"⟩ cFiles ["src"] ["locked", "z.c"] := by
    intro h
    have hclosed : ¬ fiveFiles.Opens ((Path.mk "src").extend ["locked"]) := by decide +kernel
    have hfront : ["locked"] <+: ["locked", "z.c"].dropLast := by decide
    exact hclosed (h.opened ["locked"] hfront)
  exact ⟨hp, hdir, hd, places, told, toldFlat, toldOther, hfiles, (hexact _).2 hdeep,
    (hexact _).2 hlink, fun hmem => hskip ((hexact _).1 hmem),
    fun hmem => hlocked ((hexact _).1 hmem), hflat, hother⟩

/-- A base whose directory can be opened, but not always the directory in it. -/
def oneFolder : FileTree :=
  FileTree.bare
    |>.add [] "src" .directory
    |>.add ["src"] "folder" .directory
    |>.add ["src", "folder"] "a.c" (.file [] 0o644)

/-- What is below a directory is not selected where its path is too long to be opened. -/
theorem matchingFiles_longBase :
    ¬ ∀ (k : Scanner) (t : FileTree) (base : Path) (text : String) (p : Pattern) (dir : Place)
      (files : List Path) (told : Journal), Pattern.ofText text = .ok p →
      t.locate base = .ok dir → t.get? dir = some .directory →
      k.matchingFiles t base text = .ok (files, told) →
      ∀ names : Place, names ≠ [] →
        (∃ entry, t.get? (dir ++ names) = some entry ∧ entry.isDirectory = false) →
        p.accepts (Text.encode names.path.text.toList) = true →
        (∀ name ∈ names.dropLast, name ∉ k.excludedDirs) →
        (k.recursive = false → names.length = 1) → base.extend names ∈ files := by
  intro claim
  let deep : Scanner := ⟨none, true, []⟩
  have hp : Pattern.ofText "*.c" = .ok cFiles := by rfl
  have hd : oneFolder.get? ["src"] = some .directory := by decide +kernel
  have hsrc : (Path.mk "src").fault? = none := by decide
  have hsrcDir : oneFolder.locate ⟨"src"⟩ = .ok ["src"] := by decide +kernel
  obtain ⟨base, hbase⟩ : ∃ base, base = (Path.mk "src").dotted 2044 := ⟨_, rfl⟩
  have hopen : base.fault? = none := by
    rw [hbase]
    exact Path.fault?_dotted hsrc (by decide)
  have habsolute : base.isAbsolute = (Path.mk "src").isAbsolute := by
    rw [hbase]
    exact Path.isAbsolute_dotted rfl
  have hdir : oneFolder.locate base = .ok ["src"] := by
    obtain ⟨-, hfound⟩ := FileTree.locate_iff_followLinks.1 hsrcDir
    have hsteps : (Path.mk "src").steps = ["src"] := by decide
    have hstart : oneFolder.startOf base = oneFolder.startOf ⟨"src"⟩ := by
      rw [FileTree.startOf, FileTree.startOf, habsolute]
    have hturns : Path.turns (List.replicate 2044 ".") = [] :=
      List.filter_replicate_of_neg (by simp)
    refine FileTree.locate_iff_followLinks.2 ⟨hopen, ?_⟩
    rw [hsteps, ← FileTree.Outcome.place?_eq_some] at hfound
    rw [← FileTree.Outcome.place?_eq_some, hstart, hbase, Path.steps_dotted (by decide), hsteps,
      FileTree.followLinks_turns ⟨"src", List.mem_singleton_self _, by decide⟩, hturns,
      List.nil_append, hfound]
  have hfiles : deep.matchingFiles oneFolder base "*.c" =
      .ok ((deep.chosen oneFolder base cFiles).map base.extend,
        (deep.selection oneFolder base cFiles).2) := by
    rw [matchingFiles, hp, ← selection_directory deep cFiles hdir hd]
  have hmem := claim deep oneFolder base "*.c" cFiles ["src"] _ _ hp hdir hd hfiles
    ["folder", "a.c"] (by decide) ⟨.file [] 0o644, by decide +kernel, rfl⟩ (by decide +kernel)
    (by decide) (by
      intro hoff
      cases hoff)
  obtain ⟨names, hchosen, hsame⟩ := List.mem_map.1 hmem
  have hadmits := (mem_chosen hdir hd).1 hchosen
  have hnames : ∀ name ∈ names, isName name = true := by
    intro name hname
    obtain ⟨entry, hentry, -⟩ := hadmits.entry
    exact FileTree.isName_of_get? hentry name (List.mem_append_right ["src"] hname)
  have hothers : ∀ name ∈ ["folder", "a.c"], isName name = true := by decide
  obtain rfl := (Path.same_extend_iff hnames hothers).1 (Path.same_iff.2 (by rw [hsame]))
  obtain ⟨place, hplace⟩ := hadmits.opened ["folder"] List.prefix_rfl
  have hfolder : (base.join ⟨"folder"⟩).fault? = none :=
    (FileTree.locate_iff_followLinks.1 (FileTree.openDirectory_eq_ok.1 hplace).1).1
  have hlong : 4096 ≤ base.text.utf8ByteSize + "folder".utf8ByteSize := by
    rw [hbase, Path.utf8ByteSize_dotted]
    decide
  exact Path.fault?_join_ne (by decide) hlong hfolder

end Scanner

end HeaderGather
