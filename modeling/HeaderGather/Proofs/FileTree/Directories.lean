import HeaderGather.Proofs.FileTree.Writing
import HeaderGather.Proofs.Path.Ancestors

/-! What making directories does to a tree: there are new directories, each of which some path
denotes that leads to what was to be made. -/
namespace HeaderGather.FileTree

variable {t t' t'' : FileTree} {p : Path} {dir place : Place} {name : String}

/-- The last name of a path is looked for in a directory, once the others have led there. -/
structure EndsAt (t : FileTree) (p : Path) (dir : Place) (name : String) : Prop where
  accepted : p.fault? = none
  last : p.segments.getLast? = some name
  leads : t.followLinks false linkLimit (t.startOf p) (p.segments.dropLast ++ [""]) = .found dir
  searches : t.rights.searches dir = true
  isLookup : IsLookup name

theorem endsAt_of_lastName (h : t.lastName p = .ok (dir, name)) : t.EndsAt p dir name := by
  unfold lastName at h
  cases hf : p.fault? with
  | some fault => simp [hf] at h
  | none =>
      cases hn : p.segments.getLast? with
      | none => simp [hf, hn] at h
      | some last =>
          simp only [hf, hn] at h
          cases hr : t.followLinks false linkLimit (t.startOf p) (p.segments.dropLast ++ [""]) with
          | absent dir n rest => simp [hr] at h
          | blocked place rest => simp [hr] at h
          | refused fault => simp [hr] at h
          | found place =>
              simp only [hr] at h
              cases hs : t.rights.searches place with
              | false => simp [hs] at h
              | true =>
                  by_cases hdots : last = "." ∨ last = ".."
                  · simp [hs, hdots] at h
                  · by_cases hlong : longestName < last.utf8ByteSize
                    · simp [hs, hdots, hlong] at h
                    · simp only [hs, hdots, hlong, Bool.not_true, Bool.false_eq_true, if_false,
                        Except.ok.injEq, Prod.mk.injEq, Bool.or_eq_true, decide_eq_true_eq] at h
                      obtain ⟨rfl, rfl⟩ := h
                      rw [not_or] at hdots
                      have hne := (Path.of_mem_segmentsOf (List.mem_of_getLast? hn)).1
                      exact ⟨hf, hn, hr, hs, ⟨hne, hdots.1, hdots.2, hlong⟩⟩

theorem EndsAt.sound (h : t.EndsAt p dir name) :
    t.get? dir = some .directory ∧ isName name = true := by
  have hturn : ∀ n, (p.segments.dropLast ++ [""]).getLast? = some n → IsTurn n := by
    intro n hm
    rw [List.getLast?_concat, Option.some.injEq] at hm
    exact .inl hm.symm
  have hslash := (Path.of_mem_segmentsOf (List.mem_of_getLast? h.last)).2
  exact ⟨followLinks_turn (startOf_directory t p) hturn h.leads,
    (isName_iff name).2 ⟨h.isLookup.notEmpty, h.isLookup.notHere, h.isLookup.notUp, hslash⟩⟩

/-- A directory made at the end of a path is what the path denotes. -/
theorem EndsAt.locate_directory (h : t.EndsAt p dir name) (hg : t.Grows t')
    (hmade : t'.get? (dir ++ [name]) = some .directory) : t'.locate p = .ok (dir ++ [name]) := by
  have hstart : t'.startOf p = t.startOf p := by simp only [startOf, hg.current]
  obtain ⟨front, hsegments⟩ := List.getLast?_eq_some_iff.1 h.last
  have hleads := h.leads
  rw [hsegments, List.dropLast_concat] at hleads
  have hmore : ∀ links, t'.followLinks false links dir
      (name :: if p.endsInSlash then [""] else []) = .found (dir ++ [name]) := by
    intro links
    rw [followLinks_directory (hg.searches h.searches) h.isLookup rfl hmade]
    by_cases hslash : p.endsInSlash = true
    · rw [if_pos hslash, followLinks_idle (.inl rfl), followLinks_nil]
    · rw [if_neg hslash, followLinks_nil]
  apply locate_eq_ok.2
  unfold reach
  rw [h.accepted, hstart, Path.steps, hsegments, List.append_assoc, List.singleton_append]
  obtain ⟨left, hleft⟩ := followLinks_append hg hleads
  rw [hleft, hmore]

/-- `t'` is `t` with more directories, and each of them is what one of the paths denotes. -/
structure Paves (t t' : FileTree) (around : Path → Prop) : Prop where
  widens : t.Widens t'
  denoted : ∀ {place}, t.get? place = none → t'.get? place ≠ none →
    ∃ p, around p ∧ t'.locate p = .ok place

variable {around around' : Path → Prop}

theorem Paves.refl (t : FileTree) (around : Path → Prop) : t.Paves t around :=
  ⟨.refl t, fun hnone h => absurd hnone h⟩

theorem Paves.mono (h : t.Paves t' around) (himp : ∀ p, around p → around' p) :
    t.Paves t' around' := by
  refine ⟨h.widens, fun hnone hsome => ?_⟩
  obtain ⟨p, hp, hlocate⟩ := h.denoted hnone hsome
  exact ⟨p, himp p hp, hlocate⟩

theorem Paves.trans (h : t.Paves t' around) (h' : t'.Paves t'' around) : t.Paves t'' around := by
  refine ⟨h.widens.trans h'.widens, fun {place} hnone hsome => ?_⟩
  by_cases hmid : t'.get? place = none
  · exact h'.denoted hmid hsome
  · obtain ⟨p, hp, hlocate⟩ := h.denoted hnone hmid
    exact ⟨p, hp, locate_grows h'.widens.grows hlocate⟩

/-- A directory that is made stands at the end of its path, where nothing stood. -/
theorem makeDirectory_eq_ok (h : t.makeDirectory p = .ok t') :
    ∃ dir name, t.EndsAt p dir name ∧ t.get? (dir ++ [name]) = none ∧
      t.rights.changes dir = true ∧ t' = t.add dir name .directory := by
  unfold makeDirectory vacancy at h
  cases hl : t.lastName p with
  | error fault => simp [hl, Except.map] at h
  | ok found =>
      obtain ⟨dir, name⟩ := found
      by_cases hfree : t.get? (dir ++ [name]) = none
      · cases hc : t.rights.changes dir with
        | false => simp [hl, hfree, hc, Except.map] at h
        | true =>
            simp only [hl, hfree, hc, ne_eq, not_true, if_false, if_true, Except.map,
              Except.ok.injEq] at h
            exact ⟨dir, name, endsAt_of_lastName hl, hfree, hc, h.symm⟩
      · simp [hl, hfree, Except.map] at h

theorem makeDirectory_paves (h : t.makeDirectory p = .ok t') : t.Paves t' (· = p) := by
  obtain ⟨dir, name, hends, hfree, hchanges, rfl⟩ := makeDirectory_eq_ok h
  obtain ⟨hd, hname⟩ := hends.sound
  have hwidens := widens_add hname hd hfree hchanges
  refine ⟨hwidens, fun {place} hnone hsome => ⟨p, rfl, ?_⟩⟩
  by_cases hplace : place = dir ++ [name]
  · subst hplace
    refine hends.locate_directory hwidens.grows ?_
    rw [get?_add hname hd hfree, if_pos rfl]
  · rw [get?_add hname hd hfree, if_neg hplace] at hsome
    exact absurd hnone hsome

/-- The paths that have some of the parts, from the first up to one that is not idle. -/
def HasParts (stem : List Char) (parts : List (List Char)) (p : Path) : Prop :=
  ∃ part outer, part :: outer <:+ parts ∧ Path.isIdle part = false ∧
    p = Path.ofParts stem (part :: outer)

theorem HasParts.cons {stem part : List Char} {outer : List (List Char)}
    (h : HasParts stem outer p) : HasParts stem (part :: outer) p := by
  obtain ⟨first, rest, hsuffix, hidle, hp⟩ := h
  exact ⟨first, rest, hsuffix.trans (List.suffix_cons part outer), hidle, hp⟩

theorem makeDirectories_paves (t : FileTree) (stem : List Char) (parts : List (List Char)) :
    t.Paves (t.makeDirectories stem parts).1 (HasParts stem parts) := by
  have whole : ∀ {part : List Char} {outer : List (List Char)} {t t' : FileTree},
      ¬ Path.isIdle part = true → t.makeDirectory (Path.ofParts stem (part :: outer)) = .ok t' →
        t.Paves t' (HasParts stem (part :: outer)) := by
    intro part outer t t' hidle h
    refine (makeDirectory_paves h).mono fun p hp => ?_
    exact ⟨part, outer, List.suffix_refl _, Bool.eq_false_iff.2 hidle, hp⟩
  fun_induction makeDirectories t stem parts with
  | case1 => exact .refl t _
  | case2 part outer _ ih => exact ih.mono fun _ => .cons
  | case3 part outer hidle p made h => exact whole hidle h
  | case4 part outer _ p _ made fault h ih =>
      rw [h] at ih
      exact ih.mono fun _ => .cons
  | case5 part outer hidle p _ around h made hm ih =>
      rw [h] at ih
      exact (ih.mono fun _ => .cons).trans (whole hidle hm)
  | case6 part outer _ p _ around h fault _ ih =>
      rw [h] at ih
      exact ih.mono fun _ => .cons
  | case7 part outer _ p fault _ _ => exact .refl t _

theorem ensureParent_paves (t : FileTree) (p : Path) :
    t.Paves (t.ensureParent p).1 fun around => around.IsAncestor p := by
  refine (makeDirectories_paves t p.stem.1 p.parts.tail).mono ?_
  rintro around ⟨part, outer, hsuffix, hidle, rfl⟩
  exact Path.isAncestor_ofParts hsuffix hidle

end HeaderGather.FileTree
