import HeaderGather.Proofs.FileTree.Entries

/-! How one tree comes from another by additions and new content. In a grown tree every
entry is still there, at most with other content; a widened tree has new directories and
is otherwise the same. -/
namespace HeaderGather

namespace Entry

/-- Two entries of one kind; of two links also the targets agree. -/
def Alike : Entry → Entry → Prop
  | .file _ _, .file _ _ => True
  | .directory, .directory => True
  | .link target, .link other => target = other
  | _, _ => False

theorem Alike.refl (e : Entry) : e.Alike e := by
  cases e with
  | file bytes mode => exact trivial
  | directory => exact trivial
  | link target => rfl

theorem Alike.trans {a b c : Entry} (hab : a.Alike b) (hbc : b.Alike c) : a.Alike c := by
  cases a <;> cases b <;> cases c <;> simp_all [Alike]

theorem Alike.directory_left {e : Entry} (h : Entry.directory.Alike e) : e = .directory := by
  cases e with
  | file bytes mode => exact h.elim
  | directory => rfl
  | link target => exact h.elim

theorem Alike.file_left {e : Entry} {bytes : Text.Bytes} {mode : Nat}
    (h : (Entry.file bytes mode).Alike e) : ∃ b m, e = .file b m := by
  cases e with
  | file b m => exact ⟨b, m, rfl⟩
  | directory => exact h.elim
  | link target => exact h.elim

theorem Alike.link_left {e : Entry} {target : Path} (h : (Entry.link target).Alike e) :
    e = .link target := by
  cases e with
  | file bytes mode => exact h.elim
  | directory => exact h.elim
  | link other => exact congrArg Entry.link h.symm

end Entry

namespace FileTree

/-- Every entry of `t` is an entry of `t'`, at most with other content, and the process had
the right to every change. -/
structure Grows (t t' : FileTree) : Prop where
  current : t'.current = t.current
  rights : t'.rights = t.rights
  kept : ∀ {place e}, t.get? place = some e → ∃ e', t'.get? place = some e' ∧ e.Alike e'
  lawful : ∀ {dir name e}, t.get? (dir ++ [name]) = none → t'.get? (dir ++ [name]) = some e →
    t.rights.changes dir = true
  /-- A file that may not be written to stays as it is. -/
  guarded : ∀ {place bytes mode}, t.get? place = some (.file bytes mode) →
    t.rights.writes mode = false → t'.get? place = some (.file bytes mode)

/-- `t'` is `t` with more directories, where they may be made. -/
structure Widens (t t' : FileTree) : Prop where
  current : t'.current = t.current
  rights : t'.rights = t.rights
  kept : ∀ {place e}, t.get? place = some e → t'.get? place = some e
  fresh : ∀ {place e}, t.get? place = none → t'.get? place = some e → e = .directory
  lawful : ∀ {dir name e}, t.get? (dir ++ [name]) = none → t'.get? (dir ++ [name]) = some e →
    t.rights.changes dir = true

/-- What the file at a place holds, if there is a file. -/
def contents (t : FileTree) (place : Place) : Option Text.Bytes :=
  match t.get? place with
  | some (.file bytes _) => some bytes
  | _ => none

/-- There is a file at the place, and it may be read. -/
def ReadableAt (t : FileTree) (place : Place) : Prop :=
  ∃ bytes mode, t.get? place = some (.file bytes mode) ∧ t.rights.reads mode = true

variable {t t' t'' : FileTree}

theorem ReadableAt.contents {place : Place} (h : t.ReadableAt place) :
    ∃ bytes, t.contents place = some bytes := by
  obtain ⟨bytes, mode, hfile, -⟩ := h
  exact ⟨bytes, by simp [FileTree.contents, hfile]⟩

theorem Grows.refl (t : FileTree) : t.Grows t :=
  ⟨rfl, rfl, fun {_ e} h => ⟨e, h, .refl e⟩, fun hnone he => absurd (hnone.symm.trans he) nofun,
    fun h _ => h⟩

theorem Grows.trans (h : t.Grows t') (h' : t'.Grows t'') : t.Grows t'' := by
  refine ⟨h'.current.trans h.current, h'.rights.trans h.rights, ?_, ?_, ?_⟩
  · intro place e he
    obtain ⟨e', he', alike⟩ := h.kept he
    obtain ⟨e'', he'', alike'⟩ := h'.kept he'
    exact ⟨e'', he'', alike.trans alike'⟩
  · intro dir name e hnone he
    cases hm : t'.get? (dir ++ [name]) with
    | none => exact h.rights ▸ h'.lawful hm he
    | some e' => exact h.lawful hnone hm
  · intro place bytes mode hfile hguarded
    exact h'.guarded (h.guarded hfile hguarded) (h.rights ▸ hguarded)

theorem Grows.searches (h : t.Grows t') {dir : Place} (hs : t.rights.searches dir = true) :
    t'.rights.searches dir = true := by
  rw [h.rights, hs]

theorem Grows.directory (h : t.Grows t') {place : Place} (hp : t.get? place = some .directory) :
    t'.get? place = some .directory := by
  obtain ⟨e, he, alike⟩ := h.kept hp
  rw [he, alike.directory_left]

theorem Grows.file (h : t.Grows t') {place : Place} {bytes : Text.Bytes} {mode : Nat}
    (hp : t.get? place = some (.file bytes mode)) : ∃ b m, t'.get? place = some (.file b m) := by
  obtain ⟨e, he, alike⟩ := h.kept hp
  obtain ⟨b, m, rfl⟩ := alike.file_left
  exact ⟨b, m, he⟩

theorem Grows.link (h : t.Grows t') {place : Place} {target : Path}
    (hp : t.get? place = some (.link target)) : t'.get? place = some (.link target) := by
  obtain ⟨e, he, alike⟩ := h.kept hp
  rw [he, alike.link_left]

theorem Widens.refl (t : FileTree) : t.Widens t :=
  ⟨rfl, rfl, id, fun hnone he => absurd (hnone.symm.trans he) nofun,
    fun hnone he => absurd (hnone.symm.trans he) nofun⟩

theorem Widens.grows (h : t.Widens t') : t.Grows t' :=
  ⟨h.current, h.rights, fun {_ e} he => ⟨e, h.kept he, .refl e⟩, h.lawful,
    fun hfile _ => h.kept hfile⟩

theorem Widens.readableAt (h : t.Widens t') {place : Place} (hr : t.ReadableAt place) :
    t'.ReadableAt place := by
  obtain ⟨bytes, mode, hfile, hr⟩ := hr
  exact ⟨bytes, mode, h.kept hfile, by rw [h.rights, hr]⟩

theorem Widens.trans (h : t.Widens t') (h' : t'.Widens t'') : t.Widens t'' := by
  refine ⟨h'.current.trans h.current, h'.rights.trans h.rights, fun he => h'.kept (h.kept he), ?_,
    (h.grows.trans h'.grows).lawful⟩
  intro place e hnone he
  cases hm : t'.get? place with
  | none => exact h'.fresh hm he
  | some e' =>
      have hd := h.fresh hnone hm
      have he' := h'.kept hm
      rw [he, Option.some.injEq] at he'
      exact he'.trans hd

/-- New directories leave every file as it is, and bring none. -/
theorem Widens.contents (h : t.Widens t') : t'.contents = t.contents := by
  funext place
  simp only [FileTree.contents]
  cases hp : t.get? place with
  | some e => rw [h.kept hp]
  | none =>
      cases hp' : t'.get? place with
      | none => rfl
      | some e => rw [h.fresh hp hp']

theorem widens_add {dir : Place} {name : String} (hn : isName name = true)
    (hd : t.get? dir = some .directory) (hfree : t.get? (dir ++ [name]) = none)
    (hchanges : t.rights.changes dir = true) : t.Widens (t.add dir name .directory) := by
  refine ⟨current_add t dir name .directory, rights_add t dir name .directory, ?_, ?_, ?_⟩
  · intro place e he
    have hne : place ≠ dir ++ [name] := by
      rintro rfl
      exact absurd (hfree.symm.trans he) nofun
    rw [get?_add hn hd hfree, if_neg hne, he]
  · intro place e hnone he
    rw [get?_add hn hd hfree] at he
    by_cases hp : place = dir ++ [name]
    · rw [if_pos hp, Option.some.injEq] at he
      exact he.symm
    · rw [if_neg hp, hnone] at he
      exact absurd he nofun
  · intro dir' name' e hnone he
    rw [get?_add hn hd hfree] at he
    by_cases hp : dir' ++ [name'] = dir ++ [name]
    · rw [(List.append_inj' hp rfl).1]
      exact hchanges
    · rw [if_neg hp, hnone] at he
      exact absurd he nofun

end FileTree

end HeaderGather
