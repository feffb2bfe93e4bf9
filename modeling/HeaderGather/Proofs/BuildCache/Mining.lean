import HeaderGather.BuildCache
import HeaderGather.Proofs.Scan.Sources
import HeaderGather.Proofs.Text.Search
import HeaderGather.Proofs.Text.Split

/-! What is read from the cache of a build, told of the cache as a whole: its first root line
names the source root, and of all other lines those that name a directory make up the search
path, in their order. -/
namespace HeaderGather.BuildCache

/-- The lines of a cache that are no comments and not empty. -/
def EntriesOf (bytes : Text.Bytes) (lines : List (List Char)) : Prop :=
  ∃ pieces, Text.IsCut Text.newline bytes pieces ∧
    lines = (pieces.map Text.lineOf).filter fun line =>
      line ≠ [] ∧ ¬ "//".toList <+: line ∧ ¬ "#".toList <+: line

/-- A root line begins with the key and a colon, and the text after its first equals sign is
the value between blank characters. -/
structure RootLine (s : Settings) (line value : List Char) : Prop where
  key : s.rootKey.toList ++ [':'] <+: line
  assigned : ∃ before after,
    line = before ++ '=' :: after ∧ '=' ∉ before ∧ Text.TrimsTo after value
  filled : value ≠ []

/-- A line is a key, and a rest that begins with the first colon or equals sign. -/
structure KeyOf (line key rest : List Char) : Prop where
  whole : line = key ++ rest
  key : ∀ c ∈ key, ¬ (c = ':' ∨ c = '=')
  rest : ∀ c, rest.head? = some c → c = ':' ∨ c = '='

/-- A line names a directory if its key has the marker after its beginning, and the rest has a
path, which the build has found. -/
structure NamesDir (line value : List Char) : Prop where
  marked : ∃ key rest, KeyOf line key rest ∧
    (∃ before after, Text.FirstAt "_INCLUDE_".toList key before after ∧ before ≠ []) ∧
    ∃ before after, Text.FirstAt "PATH=".toList rest before after ∧ Text.TrimsTo after value
  filled : value ≠ []
  found : ¬ "-NOTFOUND".toList <:+ value

/-- The directories that lines name, line by line. -/
inductive DirsOf : List (List Char) → List Path → Prop where
  | nil : DirsOf [] []
  | dir {line value : List Char} {lines : List (List Char)} {dirs : List Path} :
    NamesDir line value → DirsOf lines dirs →
    DirsOf (line :: lines) (⟨String.ofList value⟩ :: dirs)
  | other {line : List Char} {lines : List (List Char)} {dirs : List Path} :
    (∀ value, ¬ NamesDir line value) → DirsOf lines dirs → DirsOf (line :: lines) dirs

/-- What the lines of a cache tell: the first root line counts, the others are lines like any. -/
inductive Tells (s : Settings) : List (List Char) → BuildCache → Prop where
  | root {before after : List (List Char)} {line value : List Char} {dirs : List Path} :
    (∀ other ∈ before, ∀ value, ¬ RootLine s other value) → RootLine s line value →
    DirsOf (before ++ after) dirs →
    Tells s (before ++ line :: after) ⟨⟨String.ofList value⟩, dirs⟩

theorem isEntry_iff (line : List Char) :
    isEntry line = true ↔ line ≠ [] ∧ ¬ "//".toList <+: line ∧ ¬ "#".toList <+: line := by
  cases line with
  | nil => simp [isEntry]
  | cons c line =>
      have hash : "#".toList <+: c :: line ↔ (c :: line).head? = some '#' := by simp [eq_comm]
      rw [hash]
      simp [isEntry, List.isPrefixOf_iff_prefix, ← Bool.not_eq_true]

theorem toList_rootMark (s : Settings) : s.rootMark.toList = s.rootKey.toList ++ [':'] := by
  simp [Settings.rootMark]

theorem rootValue?_eq_some_iff {s : Settings} {line value : List Char} :
    rootValue? s.rootMark.toList line = some value ↔ RootLine s line value := by
  rw [toList_rootMark]
  constructor
  · intro h
    unfold rootValue? at h
    by_cases hp : (s.rootKey.toList ++ [':']).isPrefixOf line = true
    · cases hcut : Text.cut? ['='] line with
      | none => simp [hp, hcut] at h
      | some parts =>
          obtain ⟨before, after⟩ := parts
          obtain ⟨hline, hbefore⟩ := Text.cut?_singleton.1 hcut
          by_cases hblank : Text.trim after = []
          · simp [hp, hcut, hblank] at h
          · simp only [hp, hcut, hblank, if_true, if_false, Option.some.injEq] at h
            subst h
            exact ⟨List.isPrefixOf_iff_prefix.1 hp,
              ⟨before, after, hline, hbefore, Text.trimsTo_trim after⟩, hblank⟩
    · simp [hp] at h
  · rintro ⟨hkey, ⟨before, after, hline, hbefore, htrim⟩, hfilled⟩
    have hcut := Text.cut?_singleton.2 ⟨hline, hbefore⟩
    simp [rootValue?, List.isPrefixOf_iff_prefix.2 hkey, hcut, htrim.trim_eq, hfilled]

theorem rootValue?_eq_none_iff {s : Settings} {line : List Char} :
    rootValue? s.rootMark.toList line = none ↔ ∀ value, ¬ RootLine s line value := by
  simp only [Option.eq_none_iff_forall_ne_some, ne_eq, rootValue?_eq_some_iff]

theorem keyOf_iff {line key rest : List Char} :
    KeyOf line key rest ↔
      key = (line.takeWhile fun c => !keyEnds c) ∧ rest = line.dropWhile fun c => !keyEnds c := by
  constructor
  · rintro ⟨rfl, hkey, hrest⟩
    have inside : ∀ c ∈ key, (!keyEnds c) = true := by
      intro c hc
      simpa [keyEnds] using hkey c hc
    have stop : ∀ c, rest.head? = some c → (!keyEnds c) = false := by
      intro c hc
      simpa [keyEnds, or_iff_not_imp_left] using hrest c hc
    rw [Text.takeWhile_append_of_head inside stop, Text.dropWhile_append_of_head inside stop]
    exact ⟨rfl, rfl⟩
  · rintro ⟨rfl, rfl⟩
    refine ⟨(List.takeWhile_append_dropWhile).symm, ?_, ?_⟩
    · intro c hc
      have hin := List.all_eq_true.1 List.all_takeWhile c hc
      simpa [keyEnds] using hin
    · intro c hc
      have hstop := List.head?_dropWhile_not (fun c => !keyEnds c) line
      rw [hc] at hstop
      simpa [keyEnds, or_iff_not_imp_left] using hstop

theorem includeEntry_eq_dir_iff {line value : List Char} :
    includeEntry line = .dir value ↔ NamesDir line value := by
  constructor
  · intro h
    simp only [includeEntry] at h
    split at h
    · exact nomatch h
    · exact nomatch h
    · rename_i first before after hmark
      split at h
      · exact nomatch h
      · rename_i ahead behind hpath
        split at h
        · exact nomatch h
        · rename_i hnone
          obtain rfl := IncludeEntry.dir.inj h
          rw [Bool.or_eq_true, not_or, List.isEmpty_iff, Text.endsWith,
            List.isSuffixOf_iff_suffix] at hnone
          exact ⟨⟨_, _, keyOf_iff.2 ⟨rfl, rfl⟩,
            ⟨first :: before, after, Text.cut?_eq_some_iff.1 hmark, List.cons_ne_nil first before⟩,
            ahead, behind, Text.cut?_eq_some_iff.1 hpath, Text.trimsTo_trim behind⟩,
            hnone.1, hnone.2⟩
  · rintro ⟨⟨key, rest, hkey, ⟨before, after, hmark, hne⟩, ahead, behind, hpath, htrim⟩,
      hfilled, hfound⟩
    obtain ⟨rfl, rfl⟩ := keyOf_iff.1 hkey
    obtain ⟨first, before, rfl⟩ := List.exists_cons_of_ne_nil hne
    have hend : Text.endsWith "-NOTFOUND".toList value = false := by
      rw [Text.endsWith, ← Bool.not_eq_true, List.isSuffixOf_iff_suffix]
      exact hfound
    simp only [includeEntry]
    rw [Text.cut?_eq_some_iff.2 hmark, Text.cut?_eq_some_iff.2 hpath]
    dsimp only
    rw [htrim.trim_eq, hend, List.isEmpty_eq_false_iff.2 hfilled]
    rfl

theorem DirsOf.withLine {line : List Char} {lines : List (List Char)} {r : Reading}
    (h : DirsOf lines r.dirs) : DirsOf (line :: lines) (r.withLine line).dirs := by
  have other : (∀ value, includeEntry line ≠ .dir value) → DirsOf (line :: lines) r.dirs := by
    intro hne
    exact .other (fun value hv => hne value (includeEntry_eq_dir_iff.2 hv)) h
  unfold Reading.withLine
  cases he : includeEntry line with
  | dir value => exact .dir (includeEntry_eq_dir_iff.1 he) h
  | noDir => exact other (fun value e => nomatch he.symm.trans e)
  | other => exact other (fun value e => nomatch he.symm.trans e)

theorem DirsOf.unique {lines : List (List Char)} {dirs dirs' : List Path} (h : DirsOf lines dirs)
    (h' : DirsOf lines dirs') : dirs = dirs' := by
  induction h generalizing dirs' with
  | nil =>
      cases h'
      rfl
  | dir hvalue _ ih =>
      cases h' with
      | dir hvalue' hrest =>
          have hdir := includeEntry_eq_dir_iff.2 hvalue
          rw [includeEntry_eq_dir_iff.2 hvalue'] at hdir
          rw [← IncludeEntry.dir.inj hdir, ih hrest]
      | other hnone _ => exact absurd hvalue (hnone _)
  | other hnone _ ih =>
      cases h' with
      | dir hvalue _ => exact absurd hvalue (hnone _)
      | other _ hrest => exact ih hrest

theorem dirsOf_readLines (mark : List Char) (lines : List (List Char)) :
    DirsOf lines (readLines mark true lines).dirs := by
  induction lines with
  | nil => exact .nil
  | cons line lines ih =>
      rw [readLines]
      exact ih.withLine

theorem root?_withLine (line : List Char) (r : Reading) : (r.withLine line).root? = r.root? := by
  unfold Reading.withLine
  cases includeEntry line <;> rfl

theorem root?_readLines (mark : List Char) (lines : List (List Char)) :
    (readLines mark false lines).root? = none ↔ ∀ line ∈ lines, rootValue? mark line = none := by
  induction lines with
  | nil => simp [readLines, Reading.empty]
  | cons line lines ih =>
      cases hv : rootValue? mark line with
      | some value => simp [readLines, hv, Reading.withRoot]
      | none => simp [readLines, hv, root?_withLine, ih]

/-- Up to the first root line all lines are alike, and after it again. -/
theorem readLines_root {s : Settings} {before after : List (List Char)} {line value : List Char}
    (hbefore : ∀ other ∈ before, ∀ value, ¬ RootLine s other value) (h : RootLine s line value) :
    (readLines s.rootMark.toList false (before ++ line :: after)).root? =
        some ⟨String.ofList value⟩ ∧
      DirsOf (before ++ after)
        (readLines s.rootMark.toList false (before ++ line :: after)).dirs := by
  induction before with
  | nil =>
      rw [List.nil_append, readLines, rootValue?_eq_some_iff.2 h]
      exact ⟨rfl, dirsOf_readLines _ after⟩
  | cons other before ih =>
      obtain ⟨hother, hrest⟩ := List.forall_mem_cons.1 hbefore
      obtain ⟨hroot, hdirs⟩ := ih hrest
      rw [List.cons_append, readLines, rootValue?_eq_none_iff.2 hother, root?_withLine]
      exact ⟨hroot, hdirs.withLine⟩

/-- Lines without a root line tell nothing, and all others tell something. -/
theorem exists_tells (s : Settings) (lines : List (List Char)) :
    (∀ line ∈ lines, ∀ value, ¬ RootLine s line value) ∨ ∃ cache, Tells s lines cache := by
  have first : (∀ line ∈ lines, ∀ value, ¬ RootLine s line value) ∨
      ∃ before line after value, lines = before ++ line :: after ∧
        (∀ other ∈ before, ∀ value, ¬ RootLine s other value) ∧ RootLine s line value := by
    induction lines with
    | nil => exact .inl nofun
    | cons line lines ih =>
        by_cases hline : ∃ value, RootLine s line value
        · obtain ⟨value, hvalue⟩ := hline
          exact .inr ⟨[], line, lines, value, rfl, nofun, hvalue⟩
        · rw [not_exists] at hline
          cases ih with
          | inl hnone => exact .inl (List.forall_mem_cons.2 ⟨hline, hnone⟩)
          | inr hsome =>
              obtain ⟨before, root, after, value, rfl, hbefore, hroot⟩ := hsome
              exact .inr ⟨line :: before, root, after, value, rfl,
                List.forall_mem_cons.2 ⟨hline, hbefore⟩, hroot⟩
  refine first.imp id ?_
  rintro ⟨before, line, after, value, rfl, hbefore, hroot⟩
  obtain ⟨-, hdirs⟩ := readLines_root hbefore hroot
  exact ⟨_, .root hbefore hroot hdirs⟩

theorem entriesOf_filter (bytes : Text.Bytes) :
    EntriesOf bytes ((Text.linesOf bytes).filter isEntry) := by
  refine ⟨_, Text.isCut_splitAfter Text.newline bytes, List.filter_congr ?_⟩
  intro line _
  rw [Bool.eq_iff_iff, isEntry_iff, decide_eq_true_iff]

theorem read_complete {s : Settings} {bytes : Text.Bytes} {lines : List (List Char)}
    (origin : Path) (hlines : (Text.linesOf bytes).filter isEntry = lines) :
    (read s origin (.complete bytes)).1 =
      match (readLines s.rootMark.toList false lines).root? with
      | none => .error (.noSourceRoot (shownKey s.rootMark) origin)
      | some root => .ok ⟨root, (readLines s.rootMark.toList false lines).dirs⟩ := by
  simp only [read, Source.lines_complete, Source.fault?_complete, hlines]
  cases (readLines s.rootMark.toList false lines).root? <;> rfl

/-- A cache that can be read to its end is understood in one way. It is accepted if and only if
it has a root line; then what is read is what its lines tell, and otherwise the failure names
the key that was looked for. -/
theorem read_exact (s : Settings) (origin : Path) (bytes : Text.Bytes) :
    ∃ lines, EntriesOf bytes lines ∧
      ((∃ cache, (read s origin (.complete bytes)).1 = .ok cache) ↔
        ∃ line ∈ lines, ∃ value, RootLine s line value) ∧
      (∀ cache, (read s origin (.complete bytes)).1 = .ok cache ↔ Tells s lines cache) ∧
      ∀ failure, (read s origin (.complete bytes)).1 = .error failure ↔
        (∀ line ∈ lines, ∀ value, ¬ RootLine s line value) ∧
          failure = .noSourceRoot (shownKey s.rootMark) origin := by
  refine ⟨_, entriesOf_filter bytes, ?_⟩
  generalize hlines : (Text.linesOf bytes).filter isEntry = lines
  have hread := read_complete (s := s) origin hlines
  have told : ∀ cache, Tells s lines cache → (read s origin (.complete bytes)).1 = .ok cache := by
    rintro _ ⟨hbefore, hroot, hdirs⟩
    obtain ⟨hvalue, hdirs'⟩ := readLines_root hbefore hroot
    rw [hread, hvalue, hdirs.unique hdirs']
  have refused : (∀ line ∈ lines, ∀ value, ¬ RootLine s line value) →
      (read s origin (.complete bytes)).1 =
        .error (.noSourceRoot (shownKey s.rootMark) origin) := by
    intro hnone
    have hroot := (root?_readLines s.rootMark.toList lines).2 fun line hline =>
      rootValue?_eq_none_iff.2 (hnone line hline)
    rw [hread, hroot]
  have rooted : ∀ cache, Tells s lines cache → ∃ line ∈ lines, ∃ value, RootLine s line value := by
    rintro _ ⟨-, hroot, -⟩
    exact ⟨_, List.mem_append_right _ List.mem_cons_self, _, hroot⟩
  cases exists_tells s lines with
  | inl hnone =>
      have hno : ¬ ∃ line ∈ lines, ∃ value, RootLine s line value := by
        rintro ⟨line, hline, value, hvalue⟩
        exact hnone line hline value hvalue
      rw [refused hnone]
      refine ⟨⟨nofun, fun h => absurd h hno⟩, fun cache => ⟨nofun, fun h => ?_⟩, fun failure => ?_⟩
      · exact absurd (rooted cache h) hno
      · rw [Except.error.injEq, eq_comm]
        exact ⟨fun e => ⟨hnone, e⟩, And.right⟩
  | inr hsome =>
      obtain ⟨cache, hcache⟩ := hsome
      obtain ⟨line, hline, value, hvalue⟩ := rooted cache hcache
      rw [told cache hcache]
      refine ⟨⟨fun _ => ⟨line, hline, value, hvalue⟩, fun _ => ⟨cache, rfl⟩⟩, fun other => ?_,
        fun failure => ⟨nofun, fun h => absurd hvalue (h.1 line hline value)⟩⟩
      rw [← told cache hcache]
      constructor
      · intro e
        rw [told cache hcache, Except.ok.injEq] at e
        exact e ▸ hcache
      · exact told other

end HeaderGather.BuildCache
