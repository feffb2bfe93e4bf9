import HeaderGather.Proofs.FileTree.Following

/-! What reading and copying do to a tree. -/
namespace HeaderGather.FileTree

namespace Opening

def place : Opening → Place
  | .old place => place
  | .new dir name => dir ++ [name]

/-- The place of an opening is that of a file that may be written to, or free in a directory
that may be changed. -/
def Sound (t : FileTree) : Opening → Prop
  | .old place => ∃ b m, t.get? place = some (.file b m) ∧ t.rights.writes m = true
  | .new dir name =>
    t.get? dir = some .directory ∧ isName name = true ∧ t.get? (dir ++ [name]) = none ∧
      t.rights.changes dir = true

end Opening

variable {t t' : FileTree} {p source dest : Path} {place : Place}

theorem startOf_directory (t : FileTree) (p : Path) : t.get? (t.startOf p) = some .directory := by
  unfold startOf
  split
  · exact get?_nil t
  · exact get?_of_holdsDirectory t.standing

theorem reach_sound (t : FileTree) (writing : Bool) (p : Path) : (t.reach writing p).Sound t := by
  unfold reach
  split
  · exact trivial
  · exact followLinks_sound (startOf_directory t p) fun _ => steps_noSlash

theorem reach_grows (hg : t.Grows t') (writing : Bool)
    (h : (t.reach writing p).Leads t' place) :
    t'.reach false p = .found place := by
  have hstart : t'.startOf p = t.startOf p := by simp only [startOf, hg.current]
  unfold reach at h ⊢
  cases hf : p.fault? with
  | some fault =>
      rw [hf] at h
      rcases h with h | ⟨_, _, _, _, h, _⟩
      · exact nomatch h
      · exact nomatch h
  | none =>
      rw [hf] at h
      rw [hstart]
      exact followLinks_grows hg h

theorem locate_eq_ok : t.locate p = .ok place ↔ t.reach false p = .found place := by
  unfold locate
  cases t.reach false p <;> simp

theorem locate_sound (h : t.locate p = .ok place) :
    t.get? place = some .directory ∨ ∃ b m, t.get? place = some (.file b m) := by
  have hs := reach_sound t false p
  rwa [locate_eq_ok.1 h] at hs

/-- What a path denotes, it denotes in every later tree. -/
theorem locate_grows (hg : t.Grows t') (h : t.locate p = .ok place) : t'.locate p = .ok place :=
  locate_eq_ok.2 (reach_grows hg false (.inl (locate_eq_ok.1 h)))

theorem locate_turn (hlast : ∀ n, p.steps.getLast? = some n → IsTurn n)
    (h : t.locate p = .ok place) : t.get? place = some .directory := by
  have hr := locate_eq_ok.1 h
  unfold reach at hr
  split at hr
  · exact nomatch hr
  · exact followLinks_turn (startOf_directory t p) hlast hr

theorem isFile_iff : t.isFile p = true ↔
    ∃ place b m, t.locate p = .ok place ∧ t.get? place = some (.file b m) := by
  unfold isFile at?
  cases hl : t.locate p with
  | error fault => simp
  | ok place =>
      cases hp : t.get? place with
      | none => simp [hp]
      | some e => cases e <;> simp [hp]

theorem isDirectory_iff : t.isDirectory p = true ↔
    ∃ place, t.locate p = .ok place ∧ t.get? place = some .directory := by
  unfold isDirectory at?
  cases t.locate p <;> simp

/-- The place that a path denotes; the root if it denotes none. -/
def placeOf (t : FileTree) (p : Path) : Place :=
  match t.locate p with
  | .ok place => place
  | .error _ => []

theorem placeOf_of_locate (h : t.locate p = .ok place) : t.placeOf p = place := by
  simp only [placeOf, h]

theorem locate_of_isFile (h : t.isFile p = true) : t.locate p = .ok (t.placeOf p) := by
  obtain ⟨place, -, -, hp, -⟩ := isFile_iff.1 h
  rw [hp, placeOf_of_locate hp]

theorem Grows.isFile (hg : t.Grows t') (h : t.isFile p = true) : t'.isFile p = true := by
  obtain ⟨place, b, m, hp, hf⟩ := isFile_iff.1 h
  obtain ⟨b', m', hf'⟩ := hg.file hf
  exact isFile_iff.2 ⟨place, b', m', locate_grows hg hp, hf'⟩

/-- A path denotes as long as the tree grows what it denoted. -/
theorem Grows.placeOf (hg : t.Grows t') (h : t.isFile p = true) : t'.placeOf p = t.placeOf p :=
  placeOf_of_locate (locate_grows hg (locate_of_isFile h))

/-- What is opened is a file as a whole, or a directory that cannot be read. -/
theorem openSource_cases (t : FileTree) (p : Path) : (∃ fault, t.openSource p = .error fault) ∨
    (∃ bytes, t.openSource p = .ok ⟨bytes, none⟩) ∨
      t.openSource p = .ok ⟨[], some .isDirectory⟩ := by
  unfold openSource
  cases t.locate p with
  | error fault => exact .inl ⟨fault, rfl⟩
  | ok place =>
      dsimp only
      split
      · split
        · exact .inr (.inl ⟨_, rfl⟩)
        · exact .inl ⟨_, rfl⟩
      · split
        · exact .inr (.inr rfl)
        · exact .inl ⟨_, rfl⟩

/-- The path denotes the place, and the file there may be read. -/
structure Reads (t : FileTree) (p : Path) (place : Place) : Prop where
  denotes : t.locate p = .ok place
  readable : t.ReadableAt place

/-- What a path reads, it reads in every later tree in which the file may still be read. -/
theorem Reads.grows (h : t.Reads p place) (hg : t.Grows t') (hr : t'.ReadableAt place) :
    t'.Reads p place :=
  ⟨locate_grows hg h.denotes, hr⟩

theorem isReadable_iff : t.isReadable p = true ↔ ∃ place, t.Reads p place := by
  unfold isReadable
  rw [Bool.and_eq_true, isFile_iff]
  constructor
  · rintro ⟨⟨place, b, m, hp, hf⟩, hopens⟩
    refine ⟨place, hp, b, m, hf, ?_⟩
    cases hr : t.rights.reads m with
    | true => rfl
    | false => simp [openSource, hp, hf, hr, Except.isOk, Except.toBool] at hopens
  · rintro ⟨place, hp, b, m, hf, hr⟩
    refine ⟨⟨place, b, m, hp, hf⟩, ?_⟩
    simp [openSource, hp, hf, hr, Except.isOk, Except.toBool]

theorem isFile_of_isReadable (h : t.isReadable p = true) : t.isFile p = true :=
  (Bool.and_eq_true _ _ ▸ h).1

theorem reads_placeOf (h : t.isReadable p = true) : t.Reads p (t.placeOf p) := by
  obtain ⟨place, hr⟩ := isReadable_iff.1 h
  rwa [placeOf_of_locate hr.denotes]

theorem Reads.readBytes (h : t.Reads p place) : ∃ bytes,
    t.contents place = some bytes ∧ t.readBytes p = .ok bytes := by
  obtain ⟨hp, b, m, hf, hr⟩ := h
  exact ⟨b, by simp [contents, hf], by simp [FileTree.readBytes, openSource, hp, hf, hr]⟩

section Reads

variable {p' : Path} {place' : Place} (h : t.Reads p place)
include h

/-- Paths of files that may be read read alike where the places hold the same. -/
theorem Reads.readBytes_eq_iff (h' : t'.Reads p' place') :
    t.readBytes p = t'.readBytes p' ↔ t.contents place = t'.contents place' := by
  obtain ⟨bytes, hcontents, hread⟩ := h.readBytes
  obtain ⟨bytes', hcontents', hread'⟩ := h'.readBytes
  rw [hcontents, hread, hcontents', hread', Except.ok.injEq, Option.some.injEq]

theorem Reads.readBytes_eq_nil_iff : t.readBytes p = .ok [] ↔ t.contents place = some [] := by
  obtain ⟨bytes, hcontents, hread⟩ := h.readBytes
  rw [hcontents, hread, Except.ok.injEq, Option.some.injEq]

end Reads

/-- What is opened for writing is a file that may be written to, or a missing last name in a
directory that may be changed. -/
theorem openForWriting_cases {o : Opening} (h : t.openForWriting p = .ok o) :
    (∃ place b m, o = .old place ∧ t.reach true p = .found place ∧
        t.get? place = some (.file b m) ∧ t.rights.writes m = true) ∨
      ∃ dir name, o = .new dir name ∧ t.reach true p = .absent dir name [] ∧
        t.rights.changes dir = true := by
  have hs := reach_sound t true p
  unfold openForWriting at h
  cases hr : t.reach true p with
  | found place =>
      rw [hr] at h hs
      rcases hs with hd | ⟨b, m, hf⟩
      · simp [hd] at h
      · cases hw : t.rights.writes m with
        | false => simp [hf, hw] at h
        | true =>
            simp only [hf, hw, if_true, Except.ok.injEq] at h
            exact .inl ⟨place, b, m, h.symm, rfl, hf, hw⟩
  | absent dir name rest =>
      rw [hr] at h
      by_cases hrest : rest = []
      · subst hrest
        cases hc : t.rights.changes dir with
        | false => simp [hc] at h
        | true =>
            simp only [hc, if_true, Except.ok.injEq] at h
            exact .inr ⟨dir, name, h.symm, rfl, hc⟩
      · simp [hrest] at h
  | blocked place rest => simp [hr] at h
  | refused fault => simp [hr] at h

theorem openForWriting_sound {o : Opening} (h : t.openForWriting p = .ok o) : o.Sound t := by
  have hs := reach_sound t true p
  rcases openForWriting_cases h with ⟨place, b, m, rfl, -, hf, hw⟩ | ⟨dir, name, rfl, hr, hc⟩
  · exact ⟨b, m, hf, hw⟩
  · rw [hr] at hs
    exact ⟨hs.1, hs.2.1, hs.2.2, hc⟩

/-- A file opened for writing is what its path denotes once it is there. -/
theorem locate_openForWriting {o : Opening} (hg : t.Grows t') (h : t.openForWriting p = .ok o)
    {b : Text.Bytes} {m : Nat} (hfile : t'.get? o.place = some (.file b m)) :
    t'.locate p = .ok o.place := by
  refine locate_eq_ok.2 (reach_grows hg true ?_)
  rcases openForWriting_cases h with ⟨place, -, -, rfl, hr, -, -⟩ | ⟨dir, name, rfl, hr, -⟩
  · exact .inl hr
  · exact .inr ⟨dir, name, b, m, hr, rfl, hfile⟩

theorem get?_fill_place {o : Opening} (ho : o.Sound t) (bytes : Text.Bytes) (fresh : Nat)
    (kept : Nat → Nat) :
    ∃ m, (t.fill bytes fresh kept o).get? o.place = some (.file bytes m) := by
  cases o with
  | old place =>
      obtain ⟨b, m, h, -⟩ := ho
      exact ⟨_, get?_overwrite_self h⟩
  | new dir name =>
      obtain ⟨hd, hn, hfree, -⟩ := ho
      exact ⟨fresh, by simp [fill, Opening.place, get?_add hn hd hfree]⟩

theorem get?_fill_of_ne {o : Opening} (ho : o.Sound t) (bytes : Text.Bytes) (fresh : Nat)
    (kept : Nat → Nat) (h : place ≠ o.place) :
    (t.fill bytes fresh kept o).get? place = t.get? place := by
  cases o with
  | old target => exact get?_overwrite_of_ne bytes kept h
  | new dir name =>
      obtain ⟨hd, hn, hfree, -⟩ := ho
      rw [fill, get?_add hn hd hfree]
      exact if_neg h

theorem current_fill (t : FileTree) (bytes : Text.Bytes) (fresh : Nat) (kept : Nat → Nat)
    (o : Opening) : (t.fill bytes fresh kept o).current = t.current := by
  cases o with
  | old place => rfl
  | new dir name => exact current_add t dir name _

theorem rights_fill (t : FileTree) (bytes : Text.Bytes) (fresh : Nat) (kept : Nat → Nat)
    (o : Opening) : (t.fill bytes fresh kept o).rights = t.rights := by
  cases o with
  | old place => rfl
  | new dir name => exact rights_add t dir name _

theorem grows_fill {o : Opening} (ho : o.Sound t) (bytes : Text.Bytes) (fresh : Nat)
    (kept : Nat → Nat) : t.Grows (t.fill bytes fresh kept o) := by
  refine ⟨current_fill t bytes fresh kept o, rights_fill t bytes fresh kept o, ?_, ?_, ?_⟩
  · intro place e he
    by_cases hp : place = o.place
    · subst hp
      obtain ⟨m, hm⟩ := get?_fill_place ho bytes fresh kept
      cases o with
      | old target =>
          obtain ⟨b, m', h, -⟩ := ho
          obtain rfl : Entry.file b m' = e := Option.some.inj (h.symm.trans he)
          exact ⟨_, hm, trivial⟩
      | new dir name => exact absurd (ho.2.2.1.symm.trans he) nofun
    · exact ⟨e, (get?_fill_of_ne ho bytes fresh kept hp).trans he, .refl e⟩
  · intro dir name e hnone he
    by_cases hp : dir ++ [name] = o.place
    · cases o with
      | old target =>
          obtain ⟨b, m, h, -⟩ := ho
          rw [hp] at hnone
          exact absurd (hnone.symm.trans h) nofun
      | new dir' name' =>
          rw [(List.append_inj' hp rfl).1]
          exact ho.2.2.2
    · rw [get?_fill_of_ne ho bytes fresh kept hp, hnone] at he
      exact absurd he nofun
  · intro place b m hfile hguarded
    have hp : place ≠ o.place := by
      rintro rfl
      cases o with
      | old target =>
          obtain ⟨b', m', h, hw⟩ := ho
          obtain ⟨-, rfl⟩ := Entry.file.inj (Option.some.inj (h.symm.trans hfile))
          exact Bool.false_ne_true (hguarded.symm.trans hw)
      | new dir name => exact absurd (ho.2.2.1.symm.trans hfile) nofun
    rw [get?_fill_of_ne ho bytes fresh kept hp, hfile]

/-- A file can be written under the path. -/
def Writable (t : FileTree) (p : Path) : Prop := ∃ o, t.openForWriting p = .ok o

/-- What writing does: the path denotes a file with the bytes, an old one that keeps its mode
or a new one with the common mode, and everything else is as before. -/
structure Written (t t' : FileTree) (p : Path) (bytes : Text.Bytes) : Prop where
  current : t'.current = t.current
  rights : t'.rights = t.rights
  file : ∃ place mode, t'.locate p = .ok place ∧ t'.get? place = some (.file bytes mode) ∧
    ((∃ old, t.get? place = some (.file old mode)) ∨
      t.get? place = none ∧ mode = commonMode) ∧
    ∀ other, other ≠ place → t'.get? other = t.get? other

theorem Written.readBytes {bytes : Text.Bytes} (h : t.Written t' p bytes)
    (hr : t'.isReadable p = true) : t'.readBytes p = .ok bytes := by
  obtain ⟨place, mode, hplace, hfile, -⟩ := h.file
  obtain ⟨place', hr⟩ := isReadable_iff.1 hr
  obtain rfl := Except.ok.inj (hplace.symm.trans hr.denotes)
  obtain ⟨bytes', hcontents, hread⟩ := hr.readBytes
  rw [contents, hfile, Option.some.injEq] at hcontents
  rw [hread, ← hcontents]

/-- What a copy does: the file at one place is written over the file at another, or to a
new file there. A file copied onto itself is emptied. -/
structure CopySpec (t t' : FileTree) (source dest : Path) (sourcePlace destPlace : Place) :
    Prop where
  grows : t.Grows t'
  denotesSource : t.locate source = .ok sourcePlace
  denotesDest : t'.locate dest = .ok destPlace
  readable : t.ReadableAt sourcePlace
  written : ∃ m, t'.rights.reads m = true ∧ t'.get? destPlace = some
    (.file (if sourcePlace = destPlace then [] else (t.contents sourcePlace).getD []) m)
  others : ∀ {place}, place ≠ destPlace → t'.get? place = t.get? place

/-- Only a file that may be read is copied, and only to where a file can be opened for
writing. -/
theorem copy_eq_ok (h : t.copy source dest = .ok t') :
    ∃ s b m o, t.locate source = .ok s ∧ t.get? s = some (.file b m) ∧
      t.rights.reads m = true ∧ t.openForWriting dest = .ok o ∧
      t' = t.fill (if o = .old s then [] else b) m (fun _ => m) o := by
  unfold copy at h
  cases hl : t.locate source with
  | error fault => simp [hl] at h
  | ok s =>
      rw [hl] at h
      rcases locate_sound hl with hd | ⟨b, m, hf⟩
      · simp [hd] at h
      · cases hr : t.rights.reads m with
        | false => simp [hf, hr] at h
        | true =>
            simp only [hf, hr, if_true] at h
            cases hw : t.openForWriting dest with
            | error fault => simp [hw] at h
            | ok o =>
                simp only [hw, Except.ok.injEq] at h
                exact ⟨s, b, m, o, rfl, hf, hr, rfl, h.symm⟩

/-- A new file cannot stand where another does. -/
theorem Opening.Sound.eq_old_iff {o : Opening} {s : Place} {b : Text.Bytes} {m : Nat}
    (ho : o.Sound t) (hf : t.get? s = some (.file b m)) : o = .old s ↔ s = o.place := by
  cases o with
  | old place => simp [Opening.place, eq_comm]
  | new dir name =>
      simp only [Opening.place, reduceCtorEq, false_iff]
      rintro rfl
      exact Option.some_ne_none _ (hf.symm.trans ho.2.2.1)

theorem get?_fill_mode {o : Opening} (ho : o.Sound t) (bytes : Text.Bytes) (mode : Nat) :
    (t.fill bytes mode (fun _ => mode) o).get? o.place = some (.file bytes mode) := by
  cases o with
  | old place =>
      obtain ⟨_, _, hfile, -⟩ := ho
      exact get?_overwrite_self hfile
  | new dir name =>
      obtain ⟨hd, hn, hfree, -⟩ := ho
      simp [fill, Opening.place, get?_add hn hd hfree]

theorem copy_spec (h : t.copy source dest = .ok t') :
    ∃ sourcePlace destPlace, CopySpec t t' source dest sourcePlace destPlace := by
  obtain ⟨s, b, m, o, hl, hf, hr, hw, rfl⟩ := copy_eq_ok h
  have ho := openForWriting_sound hw
  have hcontents : t.contents s = some b := by simp [contents, hf]
  have hg := grows_fill ho (if o = .old s then [] else b) m (fun _ => m)
  have hwritten := get?_fill_mode ho (if o = .old s then [] else b) m
  refine ⟨s, o.place, hg, hl, locate_openForWriting hg hw hwritten, ⟨b, m, hf, hr⟩,
    ⟨m, by rw [hg.rights, hr], ?_⟩, get?_fill_of_ne ho _ _ _⟩
  simpa only [ho.eq_old_iff hf, hcontents, Option.getD_some] using hwritten

/-- After a copy every file that could be read can be read still, and what was copied too. -/
theorem CopySpec.readableAt {sourcePlace destPlace : Place}
    (h : CopySpec t t' source dest sourcePlace destPlace) (hr : t.ReadableAt place) :
    t'.ReadableAt place := by
  by_cases hp : place = destPlace
  · obtain ⟨m, hm, hwritten⟩ := h.written
    exact ⟨_, m, hp ▸ hwritten, hm⟩
  · obtain ⟨b, m, hfile, hm⟩ := hr
    exact ⟨b, m, (h.others hp).trans hfile, by rw [h.grows.rights, hm]⟩

end HeaderGather.FileTree
