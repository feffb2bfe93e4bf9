import HeaderGather.Proofs.Program.Effects

/-! Options over a settings file. A file is checked as it stands, and the options are then put in
the place of its values. What comes of that is checked again, and a run goes by it alone: a value
that was replaced matters no more once the file has passed. -/
namespace HeaderGather

namespace Settings

/-- The settings that a file spells out, as they are before any check. -/
def Spells (t : FileTree) (path : Path) (file : Settings) : Prop :=
  ∃ text, t.readText path = .ok text ∧ parse? text = some file

/-- The settings with their window as it takes effect. -/
def effective (s : Settings) : Settings := { s with window := s.effectiveWindow }

/-- No run tells the settings from the others, in any of its stages. -/
structure ActsAs (s m : Settings) : Prop where
  reading : ∀ origin source, BuildCache.read s origin source = BuildCache.read m origin source
  mining : ∀ t build, s.readCache t build = m.readCache t build
  scanner : Scanner.ofSettings s = Scanner.ofSettings m
  scanning : ∀ t root, s.scanTree t root = m.scanTree t root
  gathering : ∀ t build out, s.gather t build out = m.gather t build out

theorem positive_positive (window : Option Nat) : positive (positive window) = positive window := by
  simp [positive]

theorem problem?_effective (s : Settings) : s.effective.problem? = s.problem? := rfl

theorem ofSettings_effective (s : Settings) :
    Scanner.ofSettings s.effective = Scanner.ofSettings s := by
  rw [Scanner.ofSettings, Scanner.ofSettings, effectiveWindow, effective, effectiveWindow,
    positive_positive]

section Same

variable {s m : Settings}

/-- A run goes by what its stages give, and by whether it is dry. -/
theorem gather_congr {t : FileTree} {build : Path} (out : Path)
    (hmining : s.readCache t build = m.readCache t build)
    (hscanning : ∀ root, s.scanTree t root = m.scanTree t root) (hdryRun : s.dryRun = m.dryRun) :
    s.gather t build out = m.gather t build out := by
  cases hc : (m.readCache t build).1 with
  | error failure =>
      have hcache : (s.readCache t build).1 = .error failure := by rw [hmining, hc]
      rw [gather_of_readCache hc, gather_of_readCache hcache, hmining]
  | ok cache =>
      have hcache : (s.readCache t build).1 = .ok cache := by rw [hmining, hc]
      cases hs : (m.scanTree t cache.sourceRoot).1 with
      | error failure =>
          have hscan : (s.scanTree t cache.sourceRoot).1 = .error failure := by rw [hscanning, hs]
          rw [gather_of_scanTree hc hs, gather_of_scanTree hcache hscan, hmining, hscanning]
      | ok found =>
          obtain ⟨catalog, counts⟩ := found
          have hscan : (s.scanTree t cache.sourceRoot).1 = .ok (catalog, counts) := by
            rw [hscanning, hs]
          rw [gather_of_deliver out hc hs, gather_of_deliver out hcache hscan, hmining, hscanning,
            hdryRun]

/-- Beside the scanner, a run looks at the name of the cache, the key, the patterns and at
whether it is dry. -/
theorem ActsAs.of_eq (hcacheFile : s.cacheFile = m.cacheFile) (hrootKey : s.rootKey = m.rootKey)
    (hpatterns : s.patterns = m.patterns)
    (hscanner : Scanner.ofSettings s = Scanner.ofSettings m) (hdryRun : s.dryRun = m.dryRun) :
    s.ActsAs m := by
  have hreading : ∀ origin source,
      BuildCache.read s origin source = BuildCache.read m origin source := by
    intro origin source
    unfold BuildCache.read rootMark
    rw [hrootKey]
  have hmining : ∀ t build, s.readCache t build = m.readCache t build := by
    intro t build
    have hpath : s.cachePath build = m.cachePath build := by
      rw [cachePath, cachePath, hcacheFile]
    unfold readCache
    simp only [hpath, hreading]
  have hscanning : ∀ t root, s.scanTree t root = m.scanTree t root := by
    intro t root
    unfold scanTree
    rw [hscanner, hpatterns]
  exact ⟨hreading, hmining, hscanner, hscanning,
    fun t build out => gather_congr out (hmining t build) (hscanning t) hdryRun⟩

end Same

theorem actsAs_effective (s : Settings) : s.effective.ActsAs s :=
  .of_eq rfl rfl rfl (ofSettings_effective s) rfl

section Load

variable {t : FileTree} {path : Path} {file : Settings}

theorem load_of_spells (h : Spells t path file) : load t path =
    match file.problem? with
    | some problem => .error (.settings problem)
    | none => .ok file.effective := by
  obtain ⟨text, hread, hparse⟩ := h
  unfold load ofYaml
  simp only [hread, hparse]
  rw [← problem?_effective]
  rfl

end Load

end Settings

namespace Options

/-- `m` is the settings of a file with what the options name in the place of its values. -/
structure Merges (o : Options) (file m : Settings) : Prop where
  cacheFile : m.cacheFile = file.cacheFile
  excludedDirs : m.excludedDirs = file.excludedDirs
  patterns : o.patterns ≠ [] → m.patterns = o.patterns
  filePatterns : o.patterns = [] → m.patterns = file.patterns
  window : ∀ n, 0 < n → o.window = some n → m.window = some n
  noWindow : o.window = some 0 → m.window = none
  fileWindow : o.window = none → m.window = file.window
  rootKey : ∀ key, o.rootKey = some key → m.rootKey = key
  fileRootKey : o.rootKey = none → m.rootKey = file.rootKey
  recursive : m.recursive = true ↔ file.recursive = true ∨ o.recursive = true
  dryRun : m.dryRun = true ↔ file.dryRun = true ∨ o.dryRun = true

/-- Two files say the same of everything that the options do not replace. -/
structure Agree (o : Options) (file other : Settings) : Prop where
  cacheFile : file.cacheFile = other.cacheFile
  excludedDirs : file.excludedDirs = other.excludedDirs
  patterns : o.patterns = [] → file.patterns = other.patterns
  window : o.window = none → file.effectiveWindow = other.effectiveWindow
  rootKey : o.rootKey = none → file.rootKey = other.rootKey
  recursive : o.recursive = false → file.recursive = other.recursive
  dryRun : o.dryRun = false → file.dryRun = other.dryRun

variable {o : Options} {t : FileTree} {path : Path} {file other m s : Settings}

theorem merges_override (o : Options) (file : Settings) : o.Merges file (o.override file) := by
  constructor
  case cacheFile => rfl
  case excludedDirs => rfl
  case patterns => exact fun h => if_neg h
  case filePatterns => exact fun h => if_pos h
  case window =>
    intro n hn h
    simp [override, h, Settings.positive, hn]
  case noWindow => exact fun h => by simp [override, h, Settings.positive]
  case fileWindow => exact fun h => by simp [override, h]
  case rootKey => exact fun key h => by simp [override, h]
  case fileRootKey => exact fun h => by simp [override, h]
  case recursive => exact Bool.or_eq_true _ _ ▸ Iff.rfl
  case dryRun => exact Bool.or_eq_true _ _ ▸ Iff.rfl

theorem Merges.unique {m' : Settings} (h : o.Merges file m) (h' : o.Merges file m') : m = m' := by
  have hpatterns : m.patterns = m'.patterns := by
    by_cases hp : o.patterns = []
    · rw [h.filePatterns hp, h'.filePatterns hp]
    · rw [h.patterns hp, h'.patterns hp]
  have hwindow : m.window = m'.window := by
    cases hw : o.window with
    | none => rw [h.fileWindow hw, h'.fileWindow hw]
    | some n =>
        cases n with
        | zero => rw [h.noWindow hw, h'.noWindow hw]
        | succ n => rw [h.window _ n.succ_pos hw, h'.window _ n.succ_pos hw]
  have hrootKey : m.rootKey = m'.rootKey := by
    cases hk : o.rootKey with
    | none => rw [h.fileRootKey hk, h'.fileRootKey hk]
    | some key => rw [h.rootKey key hk, h'.rootKey key hk]
  have hrecursive : m.recursive = m'.recursive :=
    Bool.eq_iff_iff.2 (h.recursive.trans h'.recursive.symm)
  have hdryRun : m.dryRun = m'.dryRun := Bool.eq_iff_iff.2 (h.dryRun.trans h'.dryRun.symm)
  have hcacheFile : m.cacheFile = m'.cacheFile := h.cacheFile.trans h'.cacheFile.symm
  have hexcluded : m.excludedDirs = m'.excludedDirs := h.excludedDirs.trans h'.excludedDirs.symm
  obtain ⟨cacheFile, rootKey, patterns, window, recursive, excludedDirs, dryRun⟩ := m
  obtain ⟨cacheFile', rootKey', patterns', window', recursive', excludedDirs', dryRun'⟩ := m'
  subst hcacheFile hrootKey hpatterns hwindow hrecursive hexcluded hdryRun
  rfl

theorem Merges.eq_override (h : o.Merges file m) : m = o.override file :=
  h.unique (merges_override o file)

/-- It does not matter whether a window takes effect before the options are put in place or
after that. -/
theorem override_effective (o : Options) (file : Settings) :
    o.override file.effective = (o.override file).effective := by
  cases hw : o.window with
  | none => simp [override, Settings.effective, Settings.effectiveWindow, hw]
  | some n =>
      simp [override, Settings.effective, Settings.effectiveWindow, hw, Settings.positive_positive]

/-- What comes of the one file and the options comes of the other as well. -/
theorem Merges.of_agree (h : o.Agree file other) (hm : o.Merges other.effective m) :
    o.Merges file.effective m := by
  constructor
  case cacheFile => exact hm.cacheFile.trans h.cacheFile.symm
  case excludedDirs => exact hm.excludedDirs.trans h.excludedDirs.symm
  case patterns => exact hm.patterns
  case filePatterns => exact fun hp => (hm.filePatterns hp).trans (h.patterns hp).symm
  case window => exact hm.window
  case noWindow => exact hm.noWindow
  case fileWindow => exact fun hw => (hm.fileWindow hw).trans (h.window hw).symm
  case rootKey => exact hm.rootKey
  case fileRootKey => exact fun hk => (hm.fileRootKey hk).trans (h.rootKey hk).symm
  case recursive =>
    refine hm.recursive.trans (or_congr_left' fun hunset => ?_)
    have hsame : file.recursive = other.recursive := h.recursive (Bool.eq_false_iff.2 hunset)
    exact hsame ▸ Iff.rfl
  case dryRun =>
    refine hm.dryRun.trans (or_congr_left' fun hunset => ?_)
    have hsame : file.dryRun = other.dryRun := h.dryRun (Bool.eq_false_iff.2 hunset)
    exact hsame ▸ Iff.rfl

theorem override_congr (h : o.Agree file other) :
    o.override file.effective = o.override other.effective :=
  ((merges_override o other.effective).of_agree h).eq_override.symm

theorem settings_of_spells (hconfig : o.config = some path) (hfile : Settings.Spells t path file) :
    o.settings t =
      match file.problem? with
      | some problem =>
        .error ("loading config " ++ path.text ++ ": " ++ (Failure.settings problem).chain)
      | none => .ok (o.override file).effective := by
  rw [settings, hconfig]
  simp only [Settings.load_of_spells hfile]
  cases file.problem? with
  | some problem => rfl
  | none => rw [← override_effective]

theorem settles_iff (hconfig : o.config = some path) (hfile : Settings.Spells t path file) :
    o.Settles t s ↔ file.problem? = none ∧ (o.override file).problem? = none ∧
      s = (o.override file).effective := by
  rw [Settles, settings_of_spells hconfig hfile]
  cases hp : file.problem? with
  | some problem => simp
  | none =>
      simp only [Except.ok.injEq, true_and]
      constructor
      · rintro ⟨rfl, h⟩
        exact ⟨Settings.problem?_effective _ ▸ h, rfl⟩
      · rintro ⟨h, rfl⟩
        exact ⟨rfl, (Settings.problem?_effective _).trans h⟩

/-- Which file it was does not matter to the program where the settings come to the same. -/
theorem perform_congr (f : Filter) {path' : Path}
    (h : { o with config := some path' }.settings t = o.settings t) :
    Program.perform f t { o with config := some path' } = Program.perform f t o := by
  unfold Program.perform
  rw [h]
  rfl

/-- Settings come of a file and options just if both the file by itself and the merged settings
have no problem; the problem of a file is told before any option is looked at. A run then goes as
with the merged settings, and so it makes no difference to the program what another file that has
no problem either says of the values that are replaced. -/
theorem settings_overridden (hconfig : o.config = some path) (hfile : Settings.Spells t path file)
    (hm : o.Merges file m) :
    ((∃ s, o.Settles t s) ↔ file.problem? = none ∧ m.problem? = none) ∧
      (∀ problem, file.problem? = some problem → o.settings t =
        .error ("loading config " ++ path.text ++ ": " ++ (Failure.settings problem).chain)) ∧
      (∀ s, o.Settles t s → s.ActsAs m) ∧
      ∀ path' other, Settings.Spells t path' other → o.Agree file other →
        file.problem? = none → other.problem? = none → ∀ f,
        Program.perform f t { o with config := some path' } = Program.perform f t o := by
  obtain rfl := hm.eq_override
  refine ⟨?_, ?_, ?_, ?_⟩
  · simp only [settles_iff hconfig hfile, exists_and_left, exists_eq, and_true]
  · intro problem hproblem
    rw [settings_of_spells hconfig hfile, hproblem]
  · intro s hs
    obtain ⟨-, -, rfl⟩ := (settles_iff hconfig hfile).1 hs
    exact Settings.actsAs_effective _
  · intro path' other hother hagree hproblem hproblem' f
    apply perform_congr
    have hsettings : { o with config := some path' }.settings t =
        .ok (o.override other.effective) := by
      rw [settings_of_spells rfl hother, hproblem', override_effective]
      rfl
    rw [hsettings, settings_of_spells hconfig hfile, hproblem, ← override_effective,
      override_congr hagree]

/-- A build with two settings files that have nothing in common but what they leave unsaid, and
one that names no pattern. -/
def threeFiles : FileTree :=
  Settings.oneHeader
    |>.add [] "one.yaml" (.file (Text.encode
      "include_window: 0\npatterns: [\"*.h\"]\n".toList) 0o644)
    |>.add [] "two.yaml" (.file (Text.encode
      "include_window: 7\ndry_run: true\n".toList) 0o644)
    |>.add [] "none.yaml" (.file (Text.encode "patterns: []\n".toList) 0o644)

/-- A dry run with patterns and a window of its own goes by either of the two files alike. -/
theorem settings_overridden_twoFiles :
    let o : Options :=
      { build := ⟨"build"⟩, out := ⟨"out"⟩, config := some ⟨"one.yaml"⟩, patterns := ["*.c"],
        window := some 3, dryRun := true }
    ∃ file other : Settings,
      file.patterns ≠ other.patterns ∧ file.window ≠ other.window ∧ file.dryRun ≠ other.dryRun ∧
        o.Merges file (o.override file) ∧ (∃ s, o.Settles threeFiles s) ∧
        (Program.perform (.ofLevel o.level) threeFiles o).exitCode = 0 ∧
        Program.perform (.ofLevel o.level) threeFiles { o with config := some ⟨"two.yaml"⟩ } =
          Program.perform (.ofLevel o.level) threeFiles o := by
  intro o
  let file : Settings := { patterns := ["*.h"], window := some 0 }
  let other : Settings := { window := some 7, dryRun := true }
  have hfile : Settings.Spells threeFiles ⟨"one.yaml"⟩ file :=
    ⟨"include_window: 0\npatterns: [\"*.h\"]\n", by decide +kernel, by decide +kernel⟩
  have hother : Settings.Spells threeFiles ⟨"two.yaml"⟩ other :=
    ⟨"include_window: 7\ndry_run: true\n", by decide +kernel, by decide +kernel⟩
  have hagree : o.Agree file other :=
    ⟨rfl, rfl, fun h => absurd h (by decide), fun h => absurd h (by decide), fun _ => rfl,
      fun _ => rfl, fun h => absurd h (by decide)⟩
  obtain ⟨hsettles, -, -, hsame⟩ := settings_overridden rfl hfile (merges_override o file)
  exact ⟨file, other, by decide, by decide, by decide, merges_override o file,
    hsettles.2 ⟨by decide, by decide⟩, by decide +kernel,
    hsame _ _ hother hagree (by decide) (by decide) _⟩

/-- A file without a pattern is refused, and a pattern beside it does not help. -/
theorem not_settles_noPattern :
    ¬ ∀ (o : Options) (t : FileTree) (path : Path) (file m : Settings), o.config = some path →
      Settings.Spells t path file → o.Merges file m →
        ((∃ s, o.Settles t s) ↔ m.problem? = none) := by
  intro claim
  let o : Options :=
    { build := ⟨"build"⟩, out := ⟨"out"⟩, config := some ⟨"none.yaml"⟩, patterns := ["*.c"] }
  have hfile : Settings.Spells threeFiles ⟨"none.yaml"⟩ { patterns := [] } :=
    ⟨"patterns: []\n", by decide +kernel, by decide +kernel⟩
  obtain ⟨s, hs⟩ := (claim o threeFiles _ _ _ rfl hfile (merges_override o _)).2 (by decide)
  have hpasses := ((settles_iff rfl hfile).1 hs).1
  exact absurd hpasses (by decide)

end Options

end HeaderGather
