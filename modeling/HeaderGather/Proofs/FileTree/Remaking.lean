import HeaderGather.Proofs.FileTree.Directories
import HeaderGather.Proofs.FileTree.Endings
import HeaderGather.Proofs.Path.Parts

/-! Making directories again, in a tree without links. Under a path that was made there is a
directory, and a path that was refused is barred: nothing that is made later lets it lead to a
directory. So to make directories again changes nothing and ends as it did. -/
namespace HeaderGather.FileTree

variable {t t' : FileTree} {p : Path} {dir : Place} {front : List String} {name : String}
  {o o' : Outcome}

theorem Grows.isDirectory (hg : t.Grows t') (h : t.isDirectory p = true) :
    t'.isDirectory p = true := by
  obtain ⟨place, hplace, hd⟩ := isDirectory_iff.1 h
  exact isDirectory_iff.2 ⟨place, locate_grows hg hplace, hg.directory hd⟩

theorem Grows.startOf (hg : t.Grows t') (p : Path) : t'.startOf p = t.startOf p := by
  simp only [FileTree.startOf, hg.current]

theorem LinkFree.widens (ht : t.LinkFree) (h : t.Widens t') : t'.LinkFree := by
  apply linkFree_iff.2
  intro place target hlink
  cases hold : t.get? place with
  | none => exact nomatch h.fresh hold hlink
  | some entry =>
      have hkept := h.kept hold
      rw [hlink, Option.some.injEq] at hkept
      exact ht.get? place target (hkept ▸ hold)

/-- There is no directory under a path and there never will be: the path is refused, or its
segments are stuck. -/
def Barred (t : FileTree) (p : Path) : Prop :=
  p.fault? ≠ none ∨ ∃ o, t.Follows (t.startOf p) p.segments o ∧ o.Stuck t

theorem Barred.grows (hg : t.Grows t') (h : t.Barred p) : t'.Barred p := by
  rcases h with hfault | ⟨o, ho, hs⟩
  · exact .inl hfault
  · refine .inr ⟨o, ?_, hs.grows hg⟩
    rw [hg.startOf]
    exact ho.grows hg hs.final

section LinkFree

variable (ht : t.LinkFree)
include ht

theorem LinkFree.isDirectory_iff (hslash : p.endsInSlash = false) : t.isDirectory p = true ↔
    p.fault? = none ∧ ∃ place, t.Follows (t.startOf p) p.segments (.found place) ∧
      t.get? place = some .directory := by
  have hsteps : p.steps = p.segments := by simp [Path.steps, hslash]
  simp only [FileTree.isDirectory_iff, locate_eq_ok, reach]
  cases p.fault? with
  | some fault => simp
  | none =>
      simp only [hsteps, true_and]
      constructor
      · rintro ⟨place, hplace, hd⟩
        exact ⟨place, hplace ▸ ht.follows linkLimit _ _, hd⟩
      · rintro ⟨place, hplace, hd⟩
        exact ⟨place, hplace.followLinks_eq (.inl rfl), hd⟩

omit ht in
/-- A name that is missing where there never will be a directory may not be made. -/
theorem Barred.closed (hfault : p.fault? = none) (h : t.Barred p) {last : Place} {name : String}
    {rest : List String} (habsent : t.Follows (t.startOf p) p.segments (.absent last name rest)) :
    t.rights.changes last = false := by
  rcases h with hrefused | ⟨o, ho, hs⟩
  · exact absurd hfault hrefused
  · exact hs.final last name rest (ho.unique habsent)

end LinkFree

section LastName

variable (hp : p.EndsWith front name) (hfault : p.fault? = none)
include hp hfault

end LastName

section EndsWith

variable (ht : t.LinkFree) (hp : p.EndsWith front name)
include ht hp

end EndsWith

/-- How making the directories of some parts ends, and will end from then on: the first path
that is not idle is a directory, or never will be one. -/
inductive Settled (t : FileTree) (stem : List Char) : List (List Char) → Option Fault → Prop
  | start : Settled t stem [] none
  | idle {part : List Char} {outer : List (List Char)} {fault? : Option Fault}
    (idle : Path.isIdle part = true) :
    Settled t stem outer fault? → Settled t stem (part :: outer) fault?
  | made {part : List Char} {outer : List (List Char)} (named : Path.isIdle part = false)
    (there : t.isDirectory (.ofParts stem (part :: outer)) = true) :
    Settled t stem (part :: outer) none
  | refused {part : List Char} {outer : List (List Char)} (fault : Fault)
    (named : Path.isIdle part = false) (barred : t.Barred (.ofParts stem (part :: outer))) :
    Settled t stem (part :: outer) (some fault)

variable {stem part : List Char} {parts outer : List (List Char)} {fault? : Option Fault}

theorem Settled.grows (hg : t.Grows t') (h : t.Settled stem parts fault?) :
    t'.Settled stem parts fault? := by
  induction h with
  | start => exact .start
  | idle idle _ ih => exact .idle idle ih
  | made named there => exact .made named (hg.isDirectory there)
  | refused fault named barred => exact .refused fault named (barred.grows hg)

theorem startOf_ofParts (t : FileTree) (h : parts <:+ p.parts)
    (hne : (Path.ofParts p.stem.1 parts).text ≠ "") :
    t.startOf (.ofParts p.stem.1 parts) = t.startOf p := by
  simp only [startOf, Path.isAbsolute_of_prefix (Path.text_ofParts_isPrefix_text h) hne]

/-- No path that goes on from a barred one leads anywhere. -/
theorem Barred.longer (hsuffix : part :: outer <:+ p.parts)
    (hne : (Path.ofParts p.stem.1 outer).text ≠ "") (h : t.Barred (.ofParts p.stem.1 outer)) :
    (Path.ofParts p.stem.1 (part :: outer)).text ≠ "" ∧
      t.Barred (.ofParts p.stem.1 (part :: outer)) := by
  have houter : outer <:+ p.parts := (List.suffix_cons part outer).trans hsuffix
  have hprefix := Path.text_ofParts_isPrefix p.stem.1 (List.suffix_cons part outer)
  have hlonger := Path.text_ne_of_prefix hprefix hne
  refine ⟨hlonger, ?_⟩
  rcases h with hrefused | ⟨o, ho, hs⟩
  · exact .inl fun haccepted => hrefused (Path.fault?_of_prefix hprefix hne haccepted)
  · rw [startOf_ofParts t houter hne] at ho
    refine .inr ?_
    rw [startOf_ofParts t hsuffix hlonger, Path.segments_ofParts_cons hsuffix]
    by_cases hmore : Path.namesOf [part] = []
    · rw [hmore, List.append_nil]
      exact ⟨o, ho, hs⟩
    · obtain ⟨o', ho', hstuck, -⟩ := ho.append_stuck (startOf_directory t p) hs hmore
      exact ⟨o', ho', hstuck⟩

theorem Settled.barred {fault : Fault} (hsuffix : parts <:+ p.parts)
    (h : t.Settled p.stem.1 parts (some fault)) :
    (Path.ofParts p.stem.1 parts).text ≠ "" ∧ t.Barred (.ofParts p.stem.1 parts) := by
  generalize hsome : some fault = fault? at h
  induction h with
  | start => exact nomatch hsome
  | @idle part outer _ idle _ ih =>
      obtain ⟨hne, hbarred⟩ := ih ((List.suffix_cons part outer).trans hsuffix) hsome
      exact hbarred.longer hsuffix hne
  | made => exact nomatch hsome
  | refused fault named barred =>
      exact ⟨(Path.endsWith_ofParts hsuffix named).text_ne, barred⟩

section Parts

variable (ht : t.LinkFree) (hsuffix : parts <:+ p.parts)
include ht hsuffix

end Parts

section Again

variable (ht : t.LinkFree)
include ht

end Again

end HeaderGather.FileTree
