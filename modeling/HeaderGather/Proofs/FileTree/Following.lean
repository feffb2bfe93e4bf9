import HeaderGather.Proofs.FileTree.Growth
import HeaderGather.Proofs.Path.Components

/-! Where a path leads: what can be relied on at its end, and that it leads there still
when the tree has grown. -/
namespace HeaderGather.FileTree

/-- A name that has to be looked up in a directory, and can be. -/
structure IsLookup (name : String) : Prop where
  notEmpty : name ≠ ""
  notHere : name ≠ "."
  notUp : name ≠ ".."
  fits : ¬ longestName < name.utf8ByteSize

/-- A name that leads to a directory or nowhere. -/
def IsTurn (name : String) : Prop := name = "" ∨ name = "." ∨ name = ".."

theorem IsLookup.not_isTurn {name : String} (h : IsLookup name) : ¬ IsTurn name := by
  rintro (e | e | e)
  · exact h.notEmpty e
  · exact h.notHere e
  · exact h.notUp e

section Steps

variable {t : FileTree} {writing : Bool} {links : Nat} {dir : Place} {name : String}
  {rest : List String}

theorem followLinks_nil (t : FileTree) (writing : Bool) (links : Nat) (dir : Place) :
    t.followLinks writing links dir [] = .found dir := by
  cases links <;> rfl

theorem followLinks_idle (h : name = "" ∨ name = "." ∧ t.rights.searches dir = true) :
    t.followLinks writing links dir (name :: rest) = t.followLinks writing links dir rest := by
  obtain rfl | ⟨rfl, hs⟩ := h
  · cases links <;> simp [followLinks, follow]
  · cases links <;> simp [followLinks, follow, hs]

/-- In a directory that may not be searched no name leads on. -/
theorem followLinks_denied (hne : name ≠ "") (hs : t.rights.searches dir = false) :
    t.followLinks writing links dir (name :: rest) = .refused .denied := by
  cases links <;> simp [followLinks, follow, hne, hs]

variable (hs : t.rights.searches dir = true)
include hs

theorem followLinks_up :
    t.followLinks writing links dir (".." :: rest) =
      t.followLinks writing links dir.dropLast rest := by
  cases links <;> simp [followLinks, follow, hs]

variable (hn : IsLookup name) (hw : (writing && decide (rest = [""])) = false)
include hn hw

theorem followLinks_directory (h : t.get? (dir ++ [name]) = some .directory) :
    t.followLinks writing links dir (name :: rest) =
      t.followLinks writing links (dir ++ [name]) rest := by
  cases links <;>
    simp [followLinks, follow, hs, hn.notEmpty, hn.notHere, hn.notUp, hn.fits, hw, h]

theorem followLinks_file {bytes : Text.Bytes} {mode : Nat}
    (h : t.get? (dir ++ [name]) = some (.file bytes mode)) :
    t.followLinks writing links dir (name :: rest) =
      if rest = [] then .found (dir ++ [name]) else .blocked (dir ++ [name]) rest := by
  cases links <;>
    simp [followLinks, follow, hs, hn.notEmpty, hn.notHere, hn.notUp, hn.fits, hw, h]

omit hn in
theorem followLinks_long (hturn : ¬ IsTurn name) (hlong : longestName < name.utf8ByteSize) :
    t.followLinks writing links dir (name :: rest) = .refused .nameTooLong := by
  simp only [IsTurn, not_or] at hturn
  cases links <;> simp [followLinks, follow, hs, hturn, hw, hlong]

theorem followLinks_absent (h : t.get? (dir ++ [name]) = none) :
    t.followLinks writing links dir (name :: rest) = .absent dir name rest := by
  cases links <;>
    simp [followLinks, follow, hs, hn.notEmpty, hn.notHere, hn.notUp, hn.fits, hw, h]

theorem followLinks_link {target : Path} (h : t.get? (dir ++ [name]) = some (.link target)) :
    t.followLinks writing (links + 1) dir (name :: rest) =
      t.followLinks writing links (if target.isAbsolute then [] else dir)
        (target.steps ++ rest) := by
  simp [followLinks, follow, hs, hn.notEmpty, hn.notHere, hn.notUp, hn.fits, hw, h]

end Steps

/-- Following names, one name or one link at a time, to each of the ends there are. -/
theorem followLinks_induction {t : FileTree} {writing : Bool}
    {motive : Nat → Place → List String → Outcome → Prop}
    (found : ∀ links dir, motive links dir [] (.found dir))
    (idle : ∀ links dir name rest o, name = "" ∨ name = "." ∧ t.rights.searches dir = true →
      motive links dir rest o → motive links dir (name :: rest) o)
    (up : ∀ links dir rest o, t.rights.searches dir = true →
      motive links dir.dropLast rest o → motive links dir (".." :: rest) o)
    (refused : ∀ links dir names fault, motive links dir names (.refused fault))
    (absent : ∀ links dir name rest, t.rights.searches dir = true → IsLookup name →
      t.get? (dir ++ [name]) = none →
      motive links dir (name :: rest) (.absent dir name rest))
    (directory : ∀ links dir name rest o, t.rights.searches dir = true → IsLookup name →
      t.get? (dir ++ [name]) = some .directory →
      motive links (dir ++ [name]) rest o → motive links dir (name :: rest) o)
    (file : ∀ links dir name bytes mode, t.rights.searches dir = true → IsLookup name →
      t.get? (dir ++ [name]) = some (.file bytes mode) →
      motive links dir [name] (.found (dir ++ [name])))
    (blocked : ∀ links dir name rest bytes mode, t.rights.searches dir = true → IsLookup name →
      t.get? (dir ++ [name]) = some (.file bytes mode) →
      motive links dir (name :: rest) (.blocked (dir ++ [name]) rest))
    (link : ∀ links dir name rest target o, t.rights.searches dir = true → IsLookup name →
      t.get? (dir ++ [name]) = some (.link target) →
      motive links (if target.isAbsolute then [] else dir) (target.steps ++ rest) o →
      motive (links + 1) dir (name :: rest) o)
    (links : Nat) (dir : Place) (names : List String) :
    motive links dir names (t.followLinks writing links dir names) := by
  have between : ∀ links onLink,
      (∀ dir name rest target, t.rights.searches dir = true → IsLookup name →
        t.get? (dir ++ [name]) = some (.link target) →
        motive links dir (name :: rest) (onLink target dir rest)) →
      ∀ dir names, motive links dir names (t.follow writing onLink dir names) := by
    intro links onLink linked dir names
    fun_induction follow t writing onLink dir names with
    | case1 dir => exact found _ dir
    | case2 dir rest ih => exact idle _ _ _ _ _ (.inl rfl) ih
    | case3 dir name rest => exact refused _ _ _ _
    | case4 dir rest hs _ ih => exact idle _ _ _ _ _ (.inr ⟨rfl, by simpa using hs⟩) ih
    | case5 dir rest hs _ _ ih => exact up _ _ _ _ (by simpa using hs) ih
    | case6 dir name rest => exact refused _ _ _ _
    | case7 dir name rest => exact refused _ _ _ _
    | case8 dir name rest he hs hi hu _ hl h =>
        exact absent _ _ _ _ (by simpa using hs) ⟨he, hi, hu, hl⟩ h
    | case9 dir name rest he hs hi hu _ hl h ih =>
        exact directory _ _ _ _ _ (by simpa using hs) ⟨he, hi, hu, hl⟩ h ih
    | case10 dir name he hs hi hu hl bytes mode h =>
        exact file _ _ _ _ _ (by simpa using hs) ⟨he, hi, hu, hl⟩ h
    | case11 dir name rest he hs hi hu _ hl bytes mode h =>
        exact blocked _ _ _ _ _ _ (by simpa using hs) ⟨he, hi, hu, hl⟩ h
    | case12 dir name rest he hs hi hu _ hl target h =>
        exact linked _ _ _ _ (by simpa using hs) ⟨he, hi, hu, hl⟩ h
  induction links generalizing dir names with
  | zero => exact between 0 _ (fun _ _ _ _ _ _ _ => refused _ _ _ _) dir names
  | succ links ih =>
      exact between (links + 1) _
        (fun _ _ _ _ hs hn h => link _ _ _ _ _ _ hs hn h (ih _ _)) dir names

/-- What can be relied on at the end of a path. -/
def Outcome.Sound (t : FileTree) : Outcome → Prop
  | .found place => t.get? place = some .directory ∨ ∃ b m, t.get? place = some (.file b m)
  | .absent dir name _ =>
    t.get? dir = some .directory ∧ isName name = true ∧ t.get? (dir ++ [name]) = none
  | .blocked place _ => ∃ b m, t.get? place = some (.file b m)
  | .refused _ => True

theorem steps_noSlash {p : Path} {name : String} (h : name ∈ p.steps) : '/' ∉ name.toList := by
  cases List.mem_append.1 h with
  | inl h => exact (Path.of_mem_segmentsOf h).2
  | inr h =>
      have e : name = "" := by
        by_cases hs : p.endsInSlash = true <;> simp_all
      simp [e]

theorem followLinks_sound {t : FileTree} {writing : Bool} {links : Nat} {dir : Place}
    {names : List String} (hd : t.get? dir = some .directory)
    (hs : ∀ n ∈ names, '/' ∉ n.toList) :
    (t.followLinks writing links dir names).Sound t := by
  revert hd hs
  apply followLinks_induction (motive := fun _ dir names o => t.get? dir = some .directory →
    (∀ n ∈ names, '/' ∉ n.toList) → o.Sound t)
  case found =>
    intro _ dir hd _
    exact .inl hd
  case idle =>
    intro _ dir name rest o _ ih hd hs
    exact ih hd fun n hn => hs n (List.mem_cons_of_mem _ hn)
  case up =>
    intro _ dir rest o _ ih hd hs
    exact ih (get?_dropLast hd) fun n hn => hs n (List.mem_cons_of_mem _ hn)
  case refused =>
    intro _ _ _ _ _ _
    exact trivial
  case absent =>
    intro _ dir name rest _ hn hnone hd hs
    have hslash := hs name List.mem_cons_self
    exact ⟨hd, (isName_iff name).2 ⟨hn.notEmpty, hn.notHere, hn.notUp, hslash⟩, hnone⟩
  case directory =>
    intro _ dir name rest o _ _ h ih _ hs
    exact ih h fun n hn => hs n (List.mem_cons_of_mem _ hn)
  case file =>
    intro _ dir name bytes mode _ _ h _ _
    exact .inr ⟨bytes, mode, h⟩
  case blocked =>
    intro _ dir name rest bytes mode _ _ h _ _
    exact ⟨bytes, mode, h⟩
  case link =>
    intro _ dir name rest target o _ _ _ ih hd hs
    refine ih (by split <;> simp [hd]) fun n hn => ?_
    cases List.mem_append.1 hn with
    | inl h => exact steps_noSlash h
    | inr h => exact hs n (List.mem_cons_of_mem _ h)

/-- A path whose last name is a turn leads to directories only. -/
theorem followLinks_turn {t : FileTree} {writing : Bool} {links : Nat} {dir place : Place}
    {names : List String} (hd : t.get? dir = some .directory)
    (hlast : ∀ n, names.getLast? = some n → IsTurn n)
    (h : t.followLinks writing links dir names = .found place) :
    t.get? place = some .directory := by
  have tail : ∀ {name : String} {rest : List String},
      (∀ n, (name :: rest).getLast? = some n → IsTurn n) →
      ∀ n, rest.getLast? = some n → IsTurn n := by
    intro name rest hlast n hn
    apply hlast
    rw [List.getLast?_cons, hn, Option.getD_some]
  revert hd hlast place
  apply followLinks_induction (motive := fun _ dir names o => ∀ {place},
    t.get? dir = some .directory → (∀ n, names.getLast? = some n → IsTurn n) →
    o = .found place → t.get? place = some .directory)
  case found =>
    intro _ dir place hd _ h
    obtain rfl := Outcome.found.inj h
    exact hd
  case idle =>
    intro _ dir name rest o _ ih place hd hlast h
    exact ih hd (tail hlast) h
  case up =>
    intro _ dir rest o _ ih place hd hlast h
    exact ih (get?_dropLast hd) (tail hlast) h
  case refused =>
    intro _ _ _ _ _ _ _ h
    exact nomatch h
  case absent =>
    intro _ _ _ _ _ _ _ _ _ _ h
    exact nomatch h
  case directory =>
    intro _ dir name rest o _ _ h ih place _ hlast ho
    exact ih h (tail hlast) ho
  case file =>
    intro _ dir name bytes mode _ hn _ place _ hlast _
    exact absurd (hlast name rfl) hn.not_isTurn
  case blocked =>
    intro _ _ _ _ _ _ _ _ _ _ _ _ h
    exact nomatch h
  case link =>
    intro _ dir name rest target o _ hn _ ih place hd hlast h
    refine ih (by split <;> simp [hd]) (fun n hm => ?_) h
    cases rest with
    | nil => exact absurd (hlast name rfl) hn.not_isTurn
    | cons next rest =>
        apply tail hlast
        simpa [List.getLast?_append] using hm

/-- The place to which an outcome leads once `t'` has a file there. -/
def Outcome.Leads (t' : FileTree) (o : Outcome) (place : Place) : Prop :=
  o = .found place ∨
    ∃ dir name b m, o = .absent dir name [] ∧ place = dir ++ [name] ∧
      t'.get? place = some (.file b m)

/-- In a grown tree a path leads where it led before. A path at whose end only a file was
missing leads to that file once it is there. -/
theorem followLinks_grows {t t' : FileTree} (hg : t.Grows t') {writing : Bool} {links : Nat}
    {dir place : Place} {names : List String}
    (h : (t.followLinks writing links dir names).Leads t' place) :
    t'.followLinks false links dir names = .found place := by
  revert place
  apply followLinks_induction (motive := fun links dir names o => ∀ {place},
    o.Leads t' place → t'.followLinks false links dir names = .found place)
  case found =>
    rintro links dir place (h | ⟨_, _, _, _, h, _⟩)
    · rw [followLinks_nil, h]
    · exact nomatch h
  case idle =>
    intro links dir name rest o hn ih place h
    rw [followLinks_idle (hn.imp_right (.imp_right hg.searches)), ih h]
  case up =>
    intro links dir rest o hs ih place h
    rw [followLinks_up (hg.searches hs), ih h]
  case refused =>
    rintro _ _ _ _ place (h | ⟨_, _, _, _, h, _⟩)
    · exact nomatch h
    · exact nomatch h
  case absent =>
    rintro links dir name rest hs hn _ place (h | ⟨_, _, _, _, h, rfl, hfile⟩)
    · exact nomatch h
    · obtain ⟨rfl, rfl, rfl⟩ := Outcome.absent.inj h
      rw [followLinks_file (hg.searches hs) hn rfl hfile, if_pos rfl]
  case directory =>
    intro links dir name rest o hs hn h ih place ho
    rw [followLinks_directory (hg.searches hs) hn rfl (hg.directory h), ih ho]
  case file =>
    rintro links dir name bytes mode hs hn h place (ho | ⟨_, _, _, _, ho, _⟩)
    · obtain ⟨b, m, hfile⟩ := hg.file h
      rw [followLinks_file (hg.searches hs) hn rfl hfile, if_pos rfl, ho]
    · exact nomatch ho
  case blocked =>
    rintro _ _ _ _ _ _ _ _ _ place (h | ⟨_, _, _, _, h, _⟩)
    · exact nomatch h
    · exact nomatch h
  case link =>
    intro links dir name rest target o hs hn h ih place ho
    rw [followLinks_link (hg.searches hs) hn rfl (hg.link h), ih ho]

theorem of_cons_eq_concat {name : String} {rest before : List String}
    (hn : name ≠ "") (e : name :: rest = before ++ [""]) :
    ∃ more, before = name :: more ∧ rest = more ++ [""] := by
  cases before with
  | nil => exact absurd (List.cons.inj e).1 hn
  | cons first more =>
      obtain ⟨rfl, hrest⟩ := List.cons.inj e
      exact ⟨more, rfl, hrest⟩

/-- A path that leads to a directory may go on from there, with as many links as are left. -/
theorem followLinks_append {t t' : FileTree} (hg : t.Grows t') {links : Nat} {dir place : Place}
    {names : List String}
    (h : t.followLinks false links dir (names ++ [""]) = .found place) :
    ∃ left, ∀ more, t'.followLinks false links dir (names ++ more) =
      t'.followLinks false left place more := by
  have run : (names ++ [""] = [] → place = dir) ∧ ∀ before, names ++ [""] = before ++ [""] →
      ∃ left, ∀ more, t'.followLinks false links dir (before ++ more) =
        t'.followLinks false left place more := by
    revert h
    apply followLinks_induction (motive := fun links dir all o => o = .found place →
      (all = [] → place = dir) ∧ ∀ before, all = before ++ [""] →
        ∃ left, ∀ more, t'.followLinks false links dir (before ++ more) =
          t'.followLinks false left place more)
    case found =>
      intro links dir h
      exact ⟨fun _ => (Outcome.found.inj h).symm, fun before e => by simp at e⟩
    case idle =>
      intro links dir name rest o hn ih h
      obtain ⟨hnil, hgoal⟩ := ih h
      refine ⟨nofun, fun before e => ?_⟩
      cases before with
      | nil =>
          rw [hnil (List.cons.inj e).2]
          exact ⟨links, fun more => rfl⟩
      | cons first before =>
          obtain ⟨rfl, hrest⟩ := List.cons.inj e
          obtain ⟨left, hleft⟩ := hgoal before hrest
          refine ⟨left, fun more => ?_⟩
          rw [List.cons_append, followLinks_idle (hn.imp_right (.imp_right hg.searches)), hleft]
    case up =>
      intro links dir rest o hs ih h
      refine ⟨nofun, fun before e => ?_⟩
      obtain ⟨front, rfl, hrest⟩ := of_cons_eq_concat (by decide) e
      obtain ⟨left, hleft⟩ := (ih h).2 front hrest
      exact ⟨left, fun more => by rw [List.cons_append, followLinks_up (hg.searches hs), hleft]⟩
    case refused =>
      intro _ _ _ _ h
      exact nomatch h
    case absent =>
      intro _ _ _ _ _ _ _ h
      exact nomatch h
    case directory =>
      intro links dir name rest o hs hn hdir ih h
      refine ⟨nofun, fun before e => ?_⟩
      obtain ⟨front, rfl, hrest⟩ := of_cons_eq_concat hn.notEmpty e
      obtain ⟨left, hleft⟩ := (ih h).2 front hrest
      refine ⟨left, fun more => ?_⟩
      rw [List.cons_append, followLinks_directory (hg.searches hs) hn rfl (hg.directory hdir),
        hleft]
    case file =>
      intro links dir name bytes mode _ hn _ _
      refine ⟨nofun, fun before e => ?_⟩
      obtain ⟨front, -, hrest⟩ := of_cons_eq_concat hn.notEmpty e
      simp at hrest
    case blocked =>
      intro _ _ _ _ _ _ _ _ _ h
      exact nomatch h
    case link =>
      intro links dir name rest target o hs hn hlink ih h
      refine ⟨nofun, fun before e => ?_⟩
      obtain ⟨front, rfl, hrest⟩ := of_cons_eq_concat hn.notEmpty e
      have hall : target.steps ++ rest = target.steps ++ front ++ [""] := by
        rw [hrest, List.append_assoc]
      obtain ⟨left, hleft⟩ := (ih h).2 (target.steps ++ front) hall
      refine ⟨left, fun more => ?_⟩
      rw [List.cons_append, followLinks_link (hg.searches hs) hn rfl (hg.link hlink),
        ← List.append_assoc, hleft]
  exact run.2 names rfl

end HeaderGather.FileTree
