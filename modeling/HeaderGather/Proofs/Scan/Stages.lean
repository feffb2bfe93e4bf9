import HeaderGather.Gathering

/-! What a scan has done once it ended well: for one file, one pattern, all patterns, and the
tree as a whole. -/
namespace HeaderGather

namespace Scanner

variable {k : Scanner} {t : FileTree} {base : Path} {pattern : String} {c : Catalog} {s : Scan}

/-- A file is passed over, or what its source gives is put after the rest. -/
theorem scanNext_cases (k : Scanner) (opens : Opener) (s : Scan) (file : Path) :
    (∃ fault, opens file = .error fault ∧ k.scanNext opens s file =
        ⟨s.catalog, s.counts + { filesUnreadable := 1 },
          s.journal ++ [.unopened (.sourceFile file fault)]⟩) ∨
      ∃ source, opens file = .ok source ∧
        let one := Scan.ofSource k.window file source s.catalog
        k.scanNext opens s file =
          ⟨one.catalog, s.counts + one.counts, s.journal ++ one.journal⟩ := by
  unfold scanNext scanOpened
  cases opens file with
  | error fault => exact .inl ⟨fault, rfl, rfl⟩
  | ok source => exact .inr ⟨source, rfl, rfl⟩

theorem scanPattern_eq_ok (h : k.scanPattern t base pattern c = .ok s) :
    ∃ files told, k.matchingFiles t base pattern = .ok (files, told) ∧
      let all := k.scanFiles t.openSource files c
      s = ⟨all.catalog, all.counts, told ++ [.matched pattern files.length] ++ all.journal
        ++ [.scanned all.counts.filesScanned pattern all.counts.newHeaders]⟩ := by
  unfold scanPattern scanMatching at h
  cases hm : k.matchingFiles t base pattern with
  | error failure => simp [hm] at h
  | ok selected =>
      obtain ⟨files, told⟩ := selected
      rw [hm] at h
      exact ⟨files, told, rfl, (Except.ok.inj h).symm⟩

end Scanner

namespace Settings

variable {k : Scanner} {t : FileTree} {root : Path}

theorem scanPatterns_cons_eq_ok {pattern : String} {patterns : List String} {s after : Scan}
    (h : (scanPatterns k t root (pattern :: patterns) s).1 = .ok after) :
    ∃ one, k.scanPattern t root pattern s.catalog = .ok one ∧
      (scanPatterns k t root patterns
        ⟨one.catalog, s.counts + one.counts, s.journal ++ one.journal⟩).1 = .ok after := by
  unfold scanPatterns at h
  cases hone : k.scanPattern t root pattern s.catalog with
  | error failure => simp [hone] at h
  | ok one =>
      rw [hone] at h
      exact ⟨one, rfl, h⟩

theorem scanTree_eq_ok {s : Settings} {c : Catalog} {counts : Counts}
    (h : (s.scanTree t root).1 = .ok (c, counts)) :
    ∃ journal, (scanPatterns (.ofSettings s) t root s.patterns ⟨.empty, .zero, []⟩).1 =
      .ok ⟨c, counts, journal⟩ := by
  unfold scanTree at h
  cases hr : checkRoot t root with
  | error failure => simp [hr] at h
  | ok _ =>
      simp only [hr] at h
      cases hs : scanPatterns (.ofSettings s) t root s.patterns ⟨.empty, .zero, []⟩ with
      | mk result journal =>
          rw [hs] at h
          cases result with
          | error failure => simp at h
          | ok scan =>
              obtain ⟨rfl, rfl⟩ := Prod.mk.inj (Except.ok.inj h)
              exact ⟨scan.journal, rfl⟩

end Settings

end HeaderGather
