import HeaderGather.Proofs.FileTree.LinkFree

/-! How it ends to follow names in a tree without links: at a directory, at a name that is
missing, or stuck at a file, at a name that is too long, or where the process has no right to
go on. What is missing may be there later, if it may be made; but where names are stuck they stay
stuck in every later tree. -/
namespace HeaderGather.FileTree

/-- Following names from a directory as long as no link is met. -/
inductive Follows (t : FileTree) : Place → List String → Outcome → Prop
  | found (dir : Place) : Follows t dir [] (.found dir)
  | idle {dir : Place} {name : String} {rest : List String} {o : Outcome}
    (turn : name = "" ∨ name = "." ∧ t.rights.searches dir = true) :
    Follows t dir rest o → Follows t dir (name :: rest) o
  | denied {dir : Place} {name : String} {rest : List String} (named : name ≠ "")
    (closed : t.rights.searches dir = false) : Follows t dir (name :: rest) (.refused .denied)
  | up {dir : Place} {rest : List String} {o : Outcome} (searches : t.rights.searches dir = true) :
    Follows t dir.dropLast rest o → Follows t dir (".." :: rest) o
  | long {dir : Place} {name : String} {rest : List String}
    (searches : t.rights.searches dir = true) (turn : ¬ IsTurn name)
    (long : longestName < name.utf8ByteSize) :
    Follows t dir (name :: rest) (.refused .nameTooLong)
  | absent {dir : Place} {name : String} {rest : List String}
    (searches : t.rights.searches dir = true) (lookup : IsLookup name)
    (none : t.get? (dir ++ [name]) = none) : Follows t dir (name :: rest) (.absent dir name rest)
  | directory {dir : Place} {name : String} {rest : List String} {o : Outcome}
    (searches : t.rights.searches dir = true) (lookup : IsLookup name)
    (entry : t.get? (dir ++ [name]) = some .directory) :
    Follows t (dir ++ [name]) rest o → Follows t dir (name :: rest) o
  | file {dir : Place} {name : String} {bytes : Text.Bytes} {mode : Nat}
    (searches : t.rights.searches dir = true) (lookup : IsLookup name)
    (entry : t.get? (dir ++ [name]) = some (.file bytes mode)) :
    Follows t dir [name] (.found (dir ++ [name]))
  | blocked {dir : Place} {name : String} {rest : List String} {bytes : Text.Bytes} {mode : Nat}
    (searches : t.rights.searches dir = true) (lookup : IsLookup name)
    (entry : t.get? (dir ++ [name]) = some (.file bytes mode))
    (more : rest ≠ []) : Follows t dir (name :: rest) (.blocked (dir ++ [name]) rest)

variable {t t' : FileTree} {dir place : Place} {front back names : List String} {o : Outcome}

/-- The relation tells what following does, for writing too unless a slash comes last. -/
theorem Follows.followLinks_eq {writing : Bool} {links : Nat} (h : t.Follows dir names o)
    (hw : writing = false ∨ names.getLast? ≠ some "") :
    t.followLinks writing links dir names = o := by
  have tail : ∀ {name : String} {rest : List String},
      (writing = false ∨ (name :: rest).getLast? ≠ some "") →
      (writing && decide (rest = [""])) = false ∧
        (writing = false ∨ rest.getLast? ≠ some "") := by
    intro name rest hw
    rcases hw with rfl | hlast
    · exact ⟨rfl, .inl rfl⟩
    · have hrest : rest.getLast? ≠ some "" := by
        intro e
        rw [List.getLast?_cons, e] at hlast
        exact hlast rfl
      refine ⟨?_, .inr hrest⟩
      rw [Bool.and_eq_false_iff, decide_eq_false_iff_not]
      refine .inr ?_
      rintro rfl
      exact hrest rfl
  induction h with
  | found dir => exact followLinks_nil t writing links dir
  | idle turn _ ih => rw [followLinks_idle turn, ih (tail hw).2]
  | denied named closed => exact followLinks_denied named closed
  | up searches _ ih => rw [followLinks_up searches, ih (tail hw).2]
  | long searches turn long => exact followLinks_long searches (tail hw).1 turn long
  | absent searches lookup none => exact followLinks_absent searches lookup (tail hw).1 none
  | directory searches lookup entry _ ih =>
      rw [followLinks_directory searches lookup (tail hw).1 entry, ih (tail hw).2]
  | file searches lookup entry =>
      rw [followLinks_file searches lookup (tail hw).1 entry, if_pos rfl]
  | blocked searches lookup entry more =>
      rw [followLinks_file searches lookup (tail hw).1 entry, if_neg more]

/-- Without links there is an ending for all names. -/
theorem LinkFree.exists_follows (ht : t.LinkFree) (dir : Place) (names : List String) :
    ∃ o, t.Follows dir names o := by
  induction names generalizing dir with
  | nil => exact ⟨_, .found dir⟩
  | cons name rest ih =>
      by_cases hempty : name = ""
      · obtain ⟨o, ho⟩ := ih dir
        exact ⟨o, .idle (.inl hempty) ho⟩
      · cases hs : t.rights.searches dir with
        | false => exact ⟨_, .denied hempty hs⟩
        | true =>
            by_cases hhere : name = "."
            · obtain ⟨o, ho⟩ := ih dir
              exact ⟨o, .idle (.inr ⟨hhere, hs⟩) ho⟩
            · by_cases hup : name = ".."
              · obtain ⟨o, ho⟩ := ih dir.dropLast
                exact ⟨o, hup ▸ .up hs ho⟩
              · by_cases hlong : longestName < name.utf8ByteSize
                · exact ⟨_, .long hs (by simp [IsTurn, hempty, hhere, hup]) hlong⟩
                · have hn : IsLookup name := ⟨hempty, hhere, hup, hlong⟩
                  cases hentry : t.get? (dir ++ [name]) with
                  | none => exact ⟨_, .absent hs hn hentry⟩
                  | some entry =>
                      cases entry with
                      | directory =>
                          obtain ⟨o, ho⟩ := ih (dir ++ [name])
                          exact ⟨o, .directory hs hn hentry ho⟩
                      | file bytes mode =>
                          by_cases hmore : rest = []
                          · subst hmore
                            exact ⟨_, .file hs hn hentry⟩
                          · exact ⟨_, .blocked hs hn hentry hmore⟩
                      | link target => exact absurd hentry (ht.get? _ target)

theorem LinkFree.follows (ht : t.LinkFree) (links : Nat) (dir : Place) (names : List String) :
    t.Follows dir names (t.followLinks false links dir names) := by
  obtain ⟨o, ho⟩ := ht.exists_follows dir names
  rwa [ho.followLinks_eq (.inl rfl)]

theorem Follows.unique {o' : Outcome} (h : t.Follows dir names o) (h' : t.Follows dir names o') :
    o = o' := by
  have hfollow : t.followLinks false linkLimit dir names = o := h.followLinks_eq (.inl rfl)
  exact hfollow.symm.trans (h'.followLinks_eq (.inl rfl))

/-- No directory is reached, now or later: the names are refused, lead to a file, or miss what
may not be made. -/
def Outcome.Stuck (t : FileTree) : Outcome → Prop
  | .found place => ∃ b m, t.get? place = some (.file b m)
  | .absent dir _ _ => t.rights.changes dir = false
  | .blocked _ _ => True
  | .refused fault => fault ≠ .notFound

theorem Outcome.Stuck.grows (hg : t.Grows t') (h : o.Stuck t) : o.Stuck t' := by
  cases o with
  | found place =>
      obtain ⟨b, m, hfile⟩ := h
      exact hg.file hfile
  | absent dir name rest =>
      unfold Stuck at h ⊢
      rw [hg.rights]
      exact h
  | blocked place rest => exact trivial
  | refused fault => exact h

/-- No name is missing that may be made. -/
def Outcome.Final (t : FileTree) (o : Outcome) : Prop :=
  ∀ last name rest, o = .absent last name rest → t.rights.changes last = false

theorem Outcome.Stuck.final (h : o.Stuck t) : o.Final t := by
  rintro last name rest rfl
  exact h

/-- In a later tree names end as before, unless one was missing that may be made. -/
theorem Follows.grows (hg : t.Grows t') (h : t.Follows dir names o) (hfinal : o.Final t) :
    t'.Follows dir names o := by
  induction h with
  | found dir => exact .found dir
  | idle turn _ ih => exact .idle (turn.imp_right (.imp_right hg.searches)) (ih hfinal)
  | denied named closed => exact .denied named (hg.rights.symm ▸ closed)
  | up searches _ ih => exact .up (hg.searches searches) (ih hfinal)
  | long searches turn long => exact .long (hg.searches searches) turn long
  | @absent dir name _ searches lookup none =>
      refine .absent (hg.searches searches) lookup ?_
      have hclosed := hfinal _ _ _ rfl
      cases hentry : t'.get? (dir ++ [name]) with
      | none => rfl
      | some entry => exact nomatch hclosed.symm.trans (hg.lawful none hentry)
  | directory searches lookup entry _ ih =>
      exact .directory (hg.searches searches) lookup (hg.directory entry) (ih hfinal)
  | file searches lookup entry =>
      obtain ⟨_, _, entry'⟩ := hg.file entry
      exact .file (hg.searches searches) lookup entry'
  | blocked searches lookup entry more =>
      obtain ⟨_, _, entry'⟩ := hg.file entry
      exact .blocked (hg.searches searches) lookup entry' more

/-- From a directory that is reached, more names may be followed. -/
theorem Follows.append (h : t.Follows dir front (.found place))
    (hd : t.get? place = some .directory) (hback : t.Follows place back o) :
    t.Follows dir (front ++ back) o := by
  generalize hreached : Outcome.found place = reached at h
  induction h with
  | found dir =>
      obtain rfl := Outcome.found.inj hreached
      exact hback
  | idle turn _ ih => exact .idle turn (ih hreached)
  | denied _ _ => exact nomatch hreached
  | up searches _ ih => exact .up searches (ih hreached)
  | long _ _ _ => exact nomatch hreached
  | absent _ _ _ => exact nomatch hreached
  | directory searches lookup entry _ ih => exact .directory searches lookup entry (ih hreached)
  | file _ _ entry =>
      obtain rfl := Outcome.found.inj hreached
      exact nomatch hd.symm.trans entry
  | blocked _ _ _ _ => exact nomatch hreached

/-- Where names are stuck, more names are stuck, and they do not lead to a file. -/
theorem Follows.append_stuck (h : t.Follows dir front o) (hd : t.get? dir = some .directory)
    (hs : o.Stuck t) (hback : back ≠ []) :
    ∃ o', t.Follows dir (front ++ back) o' ∧ o'.Stuck t ∧ ∀ place, o' ≠ .found place := by
  induction h with
  | found dir =>
      obtain ⟨_, _, hfile⟩ := hs
      exact nomatch hd.symm.trans hfile
  | idle turn _ ih =>
      obtain ⟨o', ho', hrefuses⟩ := ih hd hs
      exact ⟨o', .idle turn ho', hrefuses⟩
  | denied named closed => exact ⟨_, .denied named closed, nofun, nofun⟩
  | up searches _ ih =>
      obtain ⟨o', ho', hrefuses⟩ := ih (get?_dropLast hd) hs
      exact ⟨o', .up searches ho', hrefuses⟩
  | long searches turn long => exact ⟨_, .long searches turn long, nofun, nofun⟩
  | absent searches lookup none => exact ⟨_, .absent searches lookup none, hs, nofun⟩
  | directory searches lookup entry _ ih =>
      obtain ⟨o', ho', hrefuses⟩ := ih entry hs
      exact ⟨o', .directory searches lookup entry ho', hrefuses⟩
  | file searches lookup entry =>
      exact ⟨_, .blocked searches lookup entry hback, trivial, nofun⟩
  | @blocked _ _ rest _ _ searches lookup entry _ =>
      have hmore : rest ++ back ≠ [] := List.append_ne_nil_of_right_ne_nil rest hback
      exact ⟨_, .blocked searches lookup entry hmore, trivial, nofun⟩

end HeaderGather.FileTree
