import HeaderGather.Gathering
import HeaderGather.Proofs.BuildCache.Mining

/-! When the stages before a delivery fail, each on its own: reading the cache, and scanning
the source tree. -/
namespace HeaderGather

/-- A reader of the path is refused, or gives up before the end. -/
def FileTree.ReadFault (t : FileTree) (p : Path) (fault : Fault) : Prop :=
  t.openSource p = .error fault ∨
    ∃ source, t.openSource p = .ok source ∧ source.fault? = some fault

/-- The path is read to the end. -/
def FileTree.ReadsWhole (t : FileTree) (p : Path) (source : Source) : Prop :=
  t.openSource p = .ok source ∧ source.fault? = none

/-- Of some texts, the first that spells no pattern. -/
def Pattern.FirstFault (texts : List String) (text : String) (problem : Problem) : Prop :=
  ∃ before after, texts = before ++ text :: after ∧
    (∀ other ∈ before, ∃ p, ofText other = .ok p) ∧ ofText text = .error problem

theorem Pattern.exists_firstFault (texts : List String) :
    (∀ text ∈ texts, ∃ p, ofText text = .ok p) ∨ ∃ text problem, FirstFault texts text problem := by
  induction texts with
  | nil => exact .inl nofun
  | cons text texts ih =>
      cases h : ofText text with
      | error problem => exact .inr ⟨text, problem, [], texts, rfl, nofun, h⟩
      | ok p =>
          cases ih with
          | inl ih => exact .inl (List.forall_mem_cons.2 ⟨⟨p, h⟩, ih⟩)
          | inr ih =>
              obtain ⟨bad, problem, before, after, rfl, hbefore, hbad⟩ := ih
              exact .inr ⟨bad, problem, text :: before, after, rfl,
                List.forall_mem_cons.2 ⟨⟨p, h⟩, hbefore⟩, hbad⟩

namespace Settings

/-- A line of a cache that is accepted as the name of the source root: its key is the one
that is looked for, and the value is not blank. -/
structure NamesRoot (s : Settings) (line : List Char) : Prop where
  isEntry : BuildCache.isEntry line = true
  mark : s.rootMark.toList <+: line
  value : ∃ before after, line = before ++ '=' :: after ∧ '=' ∉ before ∧ Text.trim after ≠ []

theorem namesRoot_iff {s : Settings} {line : List Char} :
    s.NamesRoot line ↔
      BuildCache.isEntry line = true ∧
        (BuildCache.rootValue? s.rootMark.toList line).isSome = true := by
  have hmark := BuildCache.toList_rootMark s
  simp only [Option.isSome_iff_exists, BuildCache.rootValue?_eq_some_iff]
  constructor
  · rintro ⟨hentry, hkey, before, after, hline, hbefore, hvalue⟩
    have htrim := Text.trimsTo_trim after
    exact ⟨hentry, _, hmark ▸ hkey, ⟨before, after, hline, hbefore, htrim⟩, hvalue⟩
  · rintro ⟨hentry, value, hkey, ⟨before, after, hline, hbefore, htrim⟩, hfilled⟩
    exact ⟨hentry, hmark ▸ hkey, before, after, hline, hbefore, htrim.trim_eq ▸ hfilled⟩

variable {s : Settings} {t : FileTree} {build root : Path}

theorem root?_eq_none {source : Source} :
    (BuildCache.readLines s.rootMark.toList false
      (source.lines.filter BuildCache.isEntry)).root? = none ↔
      ∀ line ∈ source.lines, ¬ s.NamesRoot line := by
  simp only [BuildCache.root?_readLines, List.mem_filter, namesRoot_iff, not_and, and_imp,
    Bool.not_eq_true, Option.isSome_eq_false_iff, Option.isNone_iff_eq_none]

theorem readCache_fault {fault : Fault} (h : t.ReadFault (s.cachePath build) fault) :
    (s.readCache t build).1 = .error (.cacheFile (s.cachePath build) fault) := by
  unfold readCache
  cases h with
  | inl h => simp only [h]
  | inr h =>
      obtain ⟨source, hopen, hfault⟩ := h
      simp only [hopen, BuildCache.read, hfault]

theorem readCache_noSourceRoot {source : Source} (h : t.ReadsWhole (s.cachePath build) source)
    (hnone : ∀ line ∈ source.lines, ¬ s.NamesRoot line) :
    (s.readCache t build).1 =
      .error (.noSourceRoot (BuildCache.shownKey s.rootMark) (s.cachePath build)) := by
  obtain ⟨hopen, hwhole⟩ := h
  unfold readCache
  simp only [hopen, BuildCache.read, hwhole, root?_eq_none.2 hnone]

theorem readCache_root {source : Source} (h : t.ReadsWhole (s.cachePath build) source)
    {line : List Char} (hline : line ∈ source.lines) (hnames : s.NamesRoot line) :
    ∃ cache, (s.readCache t build).1 = .ok cache := by
  obtain ⟨hopen, hwhole⟩ := h
  unfold readCache
  cases hroot : (BuildCache.readLines s.rootMark.toList false
      (source.lines.filter BuildCache.isEntry)).root? with
  | none => exact absurd hnames (root?_eq_none.1 hroot line hline)
  | some root =>
      simp only [hopen, BuildCache.read, hwhole, hroot]
      exact ⟨_, rfl⟩

theorem scanPatterns_fault (k : Scanner) (t : FileTree) (root : Path) {texts : List String}
    {text : String} {problem : Pattern.Problem} (h : Pattern.FirstFault texts text problem)
    (scan : Scan) :
    (scanPatterns k t root texts scan).1 = .error (.pattern text problem) := by
  obtain ⟨before, after, rfl, hbefore, hbad⟩ := h
  induction before generalizing scan with
  | nil =>
      simp [scanPatterns, Scanner.scanPattern, Scanner.scanMatching, Scanner.matchingFiles, hbad]
  | cons other before ih =>
      obtain ⟨⟨p, hp⟩, hrest⟩ := List.forall_mem_cons.1 hbefore
      simp only [List.cons_append, scanPatterns, Scanner.scanPattern, Scanner.scanMatching,
        Scanner.matchingFiles, hp]
      exact ih _ hrest

theorem scanPatterns_ok (k : Scanner) (t : FileTree) (root : Path) {texts : List String}
    (h : ∀ text ∈ texts, ∃ p, Pattern.ofText text = .ok p) (scan : Scan) :
    ∃ after, (scanPatterns k t root texts scan).1 = .ok after := by
  induction texts generalizing scan with
  | nil => exact ⟨scan, rfl⟩
  | cons text texts ih =>
      obtain ⟨⟨p, hp⟩, hrest⟩ := List.forall_mem_cons.1 h
      simp only [scanPatterns, Scanner.scanPattern, Scanner.scanMatching, Scanner.matchingFiles, hp]
      exact ih hrest _

theorem scanTree_sourceRoot {fault : Fault} (h : t.openDirectory root = .error fault) :
    (s.scanTree t root).1 = .error (.sourceRoot root fault) := by
  simp only [scanTree, checkRoot, h]

theorem scanTree_pattern {place : Place} {text : String} {problem : Pattern.Problem}
    (h : t.openDirectory root = .ok place) (hp : Pattern.FirstFault s.patterns text problem) :
    (s.scanTree t root).1 = .error (.pattern text problem) := by
  have hscan := scanPatterns_fault (.ofSettings s) t root hp ⟨.empty, .zero, []⟩
  simp only [scanTree, checkRoot, h]
  cases hs : scanPatterns (.ofSettings s) t root s.patterns ⟨.empty, .zero, []⟩ with
  | mk result journal =>
      rw [hs] at hscan
      obtain rfl := hscan
      rfl

theorem scanTree_ok {place : Place} (h : t.openDirectory root = .ok place)
    (hp : ∀ text ∈ s.patterns, ∃ p, Pattern.ofText text = .ok p) :
    ∃ catalog counts, (s.scanTree t root).1 = .ok (catalog, counts) := by
  obtain ⟨after, hscan⟩ := scanPatterns_ok (.ofSettings s) t root hp ⟨.empty, .zero, []⟩
  simp only [scanTree, checkRoot, h]
  cases hs : scanPatterns (.ofSettings s) t root s.patterns ⟨.empty, .zero, []⟩ with
  | mk result journal =>
      rw [hs] at hscan
      obtain rfl := hscan
      exact ⟨_, _, rfl⟩

end Settings

end HeaderGather
