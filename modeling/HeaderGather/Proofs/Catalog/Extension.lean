import HeaderGather.Proofs.Scan.Sources
import HeaderGather.Proofs.Scan.Stages

/-! What scans do to a catalog. Whatever is scanned, the catalog is extended at its end, by
entries that are wanted under the text of an include. -/
namespace HeaderGather

namespace Directive

theorem ofArgument_include {argument text name : List Char}
    (h : ofArgument argument = .include text name) : name = baseName text ∧ name ≠ [] := by
  cases argument with
  | nil => exact nomatch h
  | cons opening body =>
      simp only [ofArgument] at h
      cases hb : (closing? opening).bind fun c => beforeLast? c body with
      | none => simp [hb] at h
      | some inner =>
          by_cases he : baseName inner = []
          · simp [hb, he] at h
          · simp only [hb, he, if_false, Directive.include.injEq] at h
            obtain ⟨rfl, rfl⟩ := h
            exact ⟨rfl, he⟩

/-- An include has a name, and it is the end of its text. -/
theorem ofLine_include {line text name : List Char} (h : ofLine line = .include text name) :
    name = baseName text ∧ name ≠ [] := by
  unfold ofLine at h
  cases hk : keyword.isPrefixOf? line with
  | none => simp [hk] at h
  | some rest =>
      rw [hk] at h
      exact ofArgument_include h

/-- A text that can be included, and the name of what it includes. -/
def IsNameOf (name text : String) : Prop := name ≠ "" ∧ name.toList = baseName text.toList

end Directive

namespace Catalog

/-- `c'` is `c` with more headers, which are wanted. -/
def Extends (c c' : Catalog) : Prop :=
  ∃ new, c'.entries = c.entries ++ new ∧
    ∀ e ∈ new, ∃ text, e.2 = .wanted text ∧ Directive.IsNameOf e.1 text

variable {c c' c'' : Catalog}

theorem Extends.refl (c : Catalog) : c.Extends c := ⟨[], by simp, nofun⟩

theorem Extends.trans (h : c.Extends c') (h' : c'.Extends c'') : c.Extends c'' := by
  obtain ⟨new, hc, hnew⟩ := h
  obtain ⟨more, hc', hmore⟩ := h'
  refine ⟨new ++ more, by rw [hc', hc, List.append_assoc], ?_⟩
  intro e he
  cases List.mem_append.1 he with
  | inl he => exact hnew e he
  | inr he => exact hmore e he

theorem extends_add {name text : String} (h : Directive.IsNameOf name text) :
    c.Extends (c.add name text) := by
  by_cases hname : name ∈ c.names
  · rw [add, dif_pos hname]
    exact .refl c
  · refine ⟨[(name, .wanted text)], by rw [entries_add, if_neg hname], ?_⟩
    intro e he
    obtain rfl := List.mem_singleton.1 he
    exact ⟨text, rfl, h⟩

end Catalog

namespace Scan

theorem extends_ofLines (origin : Path) (c : Catalog) (lines : List (List Char)) :
    c.Extends (ofLines origin c lines).catalog := by
  fun_induction ofLines origin c lines with
  | case1 c => exact .refl c
  | case2 c line rest _ ih => exact ih
  | case3 c line rest _ ih => exact ih
  | case4 c line rest text name _ _ _ ih => exact ih
  | case5 c line rest text name h shownText shownName _ ih =>
      obtain ⟨hname, hne⟩ := Directive.ofLine_include h
      refine (Catalog.extends_add ⟨?_, ?_⟩).trans ih
      · intro e
        exact hne (by simpa [shownName] using congrArg String.toList e)
      · simpa [shownName, shownText] using hname

theorem extends_ofSource (window : Option Nat) (origin : Path) (source : Source) (c : Catalog) :
    c.Extends (ofSource window origin source c).catalog := by
  rw [ofSource_catalog]
  exact extends_ofLines origin c _

end Scan

namespace Scanner

theorem extends_scanNext (k : Scanner) (opens : Opener) (s : Scan) (file : Path) :
    s.catalog.Extends (k.scanNext opens s file).catalog := by
  obtain ⟨_, -, h⟩ | ⟨source, -, h⟩ := k.scanNext_cases opens s file
  · rw [h]
    exact .refl s.catalog
  · rw [h]
    exact Scan.extends_ofSource k.window file source s.catalog

theorem extends_foldl_scanNext (k : Scanner) (opens : Opener) (files : List Path) (s : Scan) :
    s.catalog.Extends (files.foldl (k.scanNext opens) s).catalog := by
  induction files generalizing s with
  | nil => exact .refl s.catalog
  | cons file files ih =>
      exact (extends_scanNext k opens s file).trans (ih (k.scanNext opens s file))

/-- The catalog after a pattern is that after the files that the pattern selects. -/
theorem extends_scanPattern {k : Scanner} {t : FileTree} {base : Path} {pattern : String}
    {c : Catalog} {s : Scan} (h : k.scanPattern t base pattern c = .ok s) :
    c.Extends s.catalog := by
  obtain ⟨files, told, -, rfl⟩ := scanPattern_eq_ok h
  exact extends_foldl_scanNext k t.openSource files ⟨c, .zero, []⟩

end Scanner

namespace Settings

theorem extends_scanPatterns {k : Scanner} {t : FileTree} {root : Path} {patterns : List String}
    {s after : Scan} (h : (scanPatterns k t root patterns s).1 = .ok after) :
    s.catalog.Extends after.catalog := by
  induction patterns generalizing s with
  | nil =>
      obtain rfl := Except.ok.inj h
      exact .refl s.catalog
  | cons pattern patterns ih =>
      obtain ⟨one, hone, hscan⟩ := scanPatterns_cons_eq_ok h
      have hrest := ih hscan
      exact (Scanner.extends_scanPattern hone).trans hrest

/-- A scan of a tree finds nothing yet. -/
theorem wanted_of_scanTree {s : Settings} {t : FileTree} {root : Path} {c : Catalog}
    {counts : Counts} (h : (s.scanTree t root).1 = .ok (c, counts)) :
    ∀ e ∈ c.entries, ∃ text, e.2 = .wanted text := by
  obtain ⟨journal, hscan⟩ := scanTree_eq_ok h
  obtain ⟨new, hentries, hnew⟩ := extends_scanPatterns hscan
  intro e he
  rw [hentries] at he
  obtain ⟨text, hwanted, -⟩ := hnew e he
  exact ⟨text, hwanted⟩

end Settings

end HeaderGather
