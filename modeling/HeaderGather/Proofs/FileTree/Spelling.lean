import HeaderGather.Proofs.FileTree.Writing
import HeaderGather.Proofs.Path.Spelling

/-! Spellings of one directory lead to the same files: the names in which they differ lead
nowhere. -/
namespace HeaderGather

namespace FileTree

/-- The place that was found. -/
def Outcome.place? : Outcome → Option Place
  | .found place => some place
  | _ => none

variable {t : FileTree} {place : Place}

/-- A name cannot be looked up in a directory that may not be searched. -/
theorem follow_denied {onLink : Path → Place → List String → Outcome} {dir : Place}
    {names : List String} (hs : t.rights.searches dir = false) (hname : ∃ name ∈ names, name ≠ "") :
    t.follow false onLink dir names = .refused .denied := by
  induction names with
  | nil =>
      obtain ⟨name, hmem, -⟩ := hname
      exact absurd hmem List.not_mem_nil
  | cons name names ih =>
      rw [follow]
      by_cases hempty : name = ""
      · rw [if_pos hempty]
        obtain ⟨other, hmem, hne⟩ := hname
        exact ih ⟨other, (List.mem_cons.1 hmem).resolve_left fun e => hne (e.trans hempty), hne⟩
      · rw [if_neg hempty, hs, Bool.not_false, if_pos rfl]

section Turns

variable {suffix : List String} (hs : ∃ name ∈ suffix, name ≠ "")
include hs

theorem exists_name_append (front : List String) : ∃ name ∈ front ++ suffix, name ≠ "" := by
  obtain ⟨name, hmem, hne⟩ := hs
  exact ⟨name, List.mem_append_right front hmem, hne⟩

/-- Where a name follows, dots before it do not count: neither on the way to a link nor, if they
do not count there, after it. -/
theorem follow_turns {onLink : Path → Place → List String → Outcome}
    (hlink : ∀ target dir names, (onLink target dir (names ++ suffix)).place? =
      (onLink target dir (Path.turns names ++ suffix)).place?) (dir : Place) (names : List String) :
    (t.follow false onLink dir (names ++ suffix)).place? =
      (t.follow false onLink dir (Path.turns names ++ suffix)).place? := by
  induction names generalizing dir with
  | nil => rfl
  | cons name names ih =>
      cases hsearch : t.rights.searches dir with
      | false =>
          rw [follow_denied hsearch (exists_name_append hs _),
            follow_denied hsearch (exists_name_append hs _)]
      | true =>
          by_cases hdot : name = "."
          · have hturns : Path.turns (name :: names) = Path.turns names := by
              simp [Path.turns, hdot]
            rw [hturns, ← ih dir, List.cons_append, follow]
            simp [hdot, hsearch]
          · have hturns : Path.turns (name :: names) = name :: Path.turns names := by
              simp [Path.turns, hdot]
            have hne : ∀ front : List String, front ++ suffix ≠ [] := by
              intro front hnil
              obtain ⟨other, hmem, -⟩ := exists_name_append hs front
              exact absurd (hnil ▸ hmem) List.not_mem_nil
            rw [hturns, List.cons_append, List.cons_append, follow, follow]
            by_cases hempty : name = ""
            · simp only [hempty, if_true, ih]
            · by_cases hup : name = ".."
              · simp [hup, hsearch, ih]
              · simp only [hempty, hdot, hup, hsearch, Bool.not_true, Bool.false_eq_true, if_false,
                  Bool.false_and]
                split
                · rfl
                · cases t.get? (dir ++ [name]) with
                  | none => rfl
                  | some entry =>
                      cases entry with
                      | directory => exact ih (dir ++ [name])
                      | file bytes mode => simp only [hne, if_false]; rfl
                      | link target => exact hlink target dir names

theorem followLinks_turns (links : Nat) (dir : Place) (names : List String) :
    (t.followLinks false links dir (names ++ suffix)).place? =
      (t.followLinks false links dir (Path.turns names ++ suffix)).place? := by
  induction links generalizing dir names with
  | zero => exact follow_turns hs (fun _ _ _ => rfl) dir names
  | succ links ih =>
      refine follow_turns hs (fun target dir names => ?_) dir names
      have hturns : Path.turns (target.steps ++ Path.turns names) =
          Path.turns (target.steps ++ names) := by
        simp [Path.turns]
      rw [← List.append_assoc, ih, ← List.append_assoc, ih _ (target.steps ++ Path.turns names),
        hturns]

end Turns

theorem Outcome.place?_eq_some {o : Outcome} : o.place? = some place ↔ o = .found place := by
  cases o <;> simp [Outcome.place?]

theorem locate_iff_followLinks {p : Path} : t.locate p = .ok place ↔ p.fault? = none ∧
    t.followLinks false linkLimit (t.startOf p) p.steps = .found place := by
  rw [locate_eq_ok, reach]
  cases p.fault? with
  | none => simp
  | some fault => simp

/-- A text leads to the same file from two spellings of a directory. Only the length of
what is joined depends on the spelling. -/
theorem isReadable_joined {p q text : Path} (hsame : p.same q = true)
    (habsolute : text.isAbsolute = false) (hshort : (p.join text).text.utf8ByteSize < 4096)
    (h : t.isReadable (q.join text) = true) : t.isReadable (p.join text) = true := by
  have hsymm : q.same p = true := Path.same_iff.2 (Path.same_iff.1 hsame).symm
  by_cases hp : p.text = ""
  · have hq := Path.text_empty_of_same hsame hp
    obtain rfl : p = q := congrArg Path.mk (hp.trans hq.symm)
    exact h
  · have hq : q.text ≠ "" := fun e => hp (Path.text_empty_of_same hsymm e)
    obtain ⟨place, hlocate, hreadable⟩ := isReadable_iff.1 h
    obtain ⟨hfault, hplace⟩ := locate_iff_followLinks.1 hlocate
    refine isReadable_iff.2 ⟨place, locate_iff_followLinks.2 ⟨?_, ?_⟩, hreadable⟩
    · have hnul : '\x00' ∉ (p.join text).text.toList := by
        rw [Path.mem_text_joined hp habsolute (by decide),
          Path.mem_text_of_same hsame (by decide) (by decide),
          ← Path.mem_text_joined hq habsolute (by decide)]
        intro hmem
        simp [Path.fault?, hmem] at hfault
      have hne : (p.join text).text ≠ "" := by
        obtain ⟨front, -, hjoin⟩ := Path.toList_join hp habsolute
        intro e
        simp [e] at hjoin
      rw [Path.fault?, if_neg hnul, if_neg hne, if_neg (by omega)]
    · have hstart : t.startOf (p.join text) = t.startOf (q.join text) := by
        rw [startOf, startOf, Path.isAbsolute_joined hp habsolute,
          Path.isAbsolute_joined hq habsolute, Path.isAbsolute_of_same hsame]
      have hname : ∃ name ∈ text.lastSteps, name ≠ "" := by
        obtain ⟨front, last, hlast⟩ : ∃ front last, text.lastSteps = front ++ [last] :=
          ⟨_, _, (List.dropLast_append_getLast (Path.lastSteps_ne_nil habsolute)).symm⟩
        refine ⟨last, by simp [hlast], ?_⟩
        rintro rfl
        rw [Path.steps_joined hq habsolute, hlast, ← List.append_assoc] at hplace
        have hd := followLinks_turn (startOf_directory t _)
          (fun n hn => .inl (by simpa using hn.symm)) hplace
        obtain ⟨_, _, hfile, -⟩ := hreadable
        cases hd.symm.trans hfile
      rw [← Outcome.place?_eq_some] at hplace ⊢
      rw [Path.steps_joined hq habsolute, followLinks_turns hname,
        ← (Path.same_split hsame).2, ← hstart] at hplace
      rw [Path.steps_joined hp habsolute, followLinks_turns hname, hplace]

/-- The second names are the first ones without some of their dots. -/
inductive Thins : List String → List String → Prop
  | nil : Thins [] []
  | keep {names fewer : List String} (name : String) :
    Thins names fewer → Thins (name :: names) (name :: fewer)
  | drop {names fewer : List String} : Thins names fewer → Thins ("." :: names) fewer

theorem Thins.append {names fewer : List String} (h : Thins names fewer) (front : List String) :
    Thins (front ++ names) (front ++ fewer) := by
  induction front with
  | nil => exact h
  | cons name front ih => exact .keep name ih

theorem thins_turns (names more : List String) :
    Thins (names ++ more) (Path.turns names ++ more) := by
  induction names with
  | nil =>
      induction more with
      | nil => exact .nil
      | cons name more ih => exact .keep name ih
  | cons name names ih =>
      by_cases hdot : name = "."
      · have hturns : Path.turns (name :: names) = Path.turns names := by
          simp [Path.turns, hdot]
        rw [hturns, hdot]
        exact .drop ih
      · have hturns : Path.turns (name :: names) = name :: Path.turns names := by
          simp [Path.turns, hdot]
        rw [hturns]
        exact .keep name ih

/-- What names lead to, they lead to without their dots. -/
theorem follow_thins {onLink : Path → Place → List String → Outcome}
    (hlink : ∀ target dir {names fewer}, Thins names fewer →
      onLink target dir names = .found place → onLink target dir fewer = .found place)
    {names fewer : List String} (h : Thins names fewer) (dir : Place)
    (hfound : t.follow false onLink dir names = .found place) :
    t.follow false onLink dir fewer = .found place := by
  induction h generalizing dir with
  | nil => exact hfound
  | @drop names fewer _ ih =>
      apply ih
      cases hs : t.rights.searches dir with
      | false => simp [follow, hs] at hfound
      | true => simpa [follow, hs] using hfound
  | @keep names fewer name hthins ih =>
      have hnil : names = [] → fewer = [] := by
        rintro rfl
        cases hthins
        rfl
      rw [follow] at hfound ⊢
      simp only [Bool.false_and, Bool.false_eq_true, if_false] at hfound ⊢
      split at hfound
      · next hempty =>
        rw [if_pos hempty]
        exact ih dir hfound
      · next hempty =>
        rw [if_neg hempty]
        split at hfound
        · cases hfound
        · next hs =>
          rw [if_neg hs]
          split at hfound
          · next hdot =>
            rw [if_pos hdot]
            exact ih dir hfound
          · next hdot =>
            rw [if_neg hdot]
            split at hfound
            · next hup =>
              rw [if_pos hup]
              exact ih _ hfound
            · next hup =>
              rw [if_neg hup]
              split at hfound
              · cases hfound
              · next hlong =>
                rw [if_neg hlong]
                cases hentry : t.get? (dir ++ [name]) with
                | none => simp [hentry] at hfound
                | some entry =>
                    rw [hentry] at hfound
                    cases entry with
                    | directory => exact ih _ hfound
                    | link target => exact hlink target dir hthins hfound
                    | file bytes mode =>
                        by_cases hnames : names = []
                        · simpa [hnames, hnil hnames] using hfound
                        · simp [hnames] at hfound

theorem followLinks_thins (links : Nat) {names fewer : List String} (h : Thins names fewer)
    (dir : Place) (hfound : t.followLinks false links dir names = .found place) :
    t.followLinks false links dir fewer = .found place := by
  induction links generalizing dir names fewer with
  | zero =>
      rw [followLinks] at hfound ⊢
      refine follow_thins (fun _ _ _ _ _ hrefused => ?_) h dir hfound
      cases hrefused
  | succ links ih =>
      refine follow_thins (fun target dir names fewer h hfound => ?_) h dir hfound
      exact ih (h.append target.steps) _ hfound

/-- A slash at the end asks for a directory, and changes nothing where there is one. -/
theorem follow_slash {onLink : Path → Place → List String → Outcome}
    (hlink : ∀ target dir names, t.get? dir = some .directory →
      (onLink target dir (names ++ [""]) = .found place ↔
        onLink target dir names = .found place ∧ t.get? place = some .directory))
    {dir : Place} (hd : t.get? dir = some .directory) (names : List String) :
    t.follow false onLink dir (names ++ [""]) = .found place ↔
      t.follow false onLink dir names = .found place ∧ t.get? place = some .directory := by
  induction names generalizing dir with
  | nil =>
      have hslash : t.follow false onLink dir [""] = .found dir := by simp [follow]
      rw [List.nil_append, hslash, follow]
      constructor
      · rintro ⟨⟩
        exact ⟨rfl, hd⟩
      · exact fun h => h.1
  | cons name names ih =>
      rw [List.cons_append, follow, follow]
      by_cases hempty : name = ""
      · rw [if_pos hempty, if_pos hempty]
        exact ih hd
      · rw [if_neg hempty, if_neg hempty]
        cases hs : t.rights.searches dir with
        | false => simp
        | true =>
            simp only [Bool.not_true, Bool.false_and, Bool.false_eq_true, if_false]
            by_cases hdot : name = "."
            · rw [if_pos hdot, if_pos hdot]
              exact ih hd
            · rw [if_neg hdot, if_neg hdot]
              by_cases hup : name = ".."
              · rw [if_pos hup, if_pos hup]
                exact ih (get?_dropLast hd)
              · rw [if_neg hup, if_neg hup]
                by_cases hlong : longestName < name.utf8ByteSize
                · simp [hlong]
                · rw [if_neg hlong, if_neg hlong]
                  cases hentry : t.get? (dir ++ [name]) with
                  | none => simp
                  | some entry =>
                      cases entry with
                      | directory => exact ih hentry
                      | link target => exact hlink target dir names hd
                      | file bytes mode =>
                          have hnoFile : ∀ place, Outcome.found (dir ++ [name]) = .found place →
                              t.get? place ≠ some .directory := by
                            rintro place ⟨⟩ hdirectory
                            cases hentry.symm.trans hdirectory
                          by_cases hnames : names = []
                          · simp only [hnames, List.nil_append, List.cons_ne_nil, if_false, if_true,
                              reduceCtorEq, false_iff, not_and]
                            exact hnoFile place
                          · simp [hnames]

theorem followLinks_slash (links : Nat) {dir : Place} (hd : t.get? dir = some .directory)
    (names : List String) :
    t.followLinks false links dir (names ++ [""]) = .found place ↔
      t.followLinks false links dir names = .found place ∧ t.get? place = some .directory := by
  induction links generalizing dir names with
  | zero => exact follow_slash (fun _ _ _ _ => by simp) hd names
  | succ links ih =>
      refine follow_slash (fun target dir names hd => ?_) hd names
      rw [← List.append_assoc]
      exact ih (by split <;> simp [hd]) (target.steps ++ names)

/-- Where a path leads to a directory, its segments and a slash do. -/
theorem locate_directory_iff {p : Path} (hp : p.fault? = none)
    (hd : t.get? place = some .directory) : t.locate p = .ok place ↔
      t.followLinks false linkLimit (t.startOf p) (p.segments ++ [""]) = .found place := by
  rw [locate_eq_ok, reach, hp, Path.steps]
  by_cases hslash : p.endsInSlash = true
  · rw [if_pos hslash]
  · rw [if_neg hslash, List.append_nil, followLinks_slash _ (startOf_directory t p)]
    simp [hd]

/-- Two paths that differ in slashes and dots only do not lead to two directories. -/
theorem locate_respelled {p q : Path} {other : Place} (habsolute : p.isAbsolute = q.isAbsolute)
    (hturns : Path.turns p.segments = Path.turns q.segments) (hp : t.locate p = .ok place)
    (hd : t.get? place = some .directory) (hq : t.locate q = .ok other)
    (hd' : t.get? other = some .directory) : place = other := by
  have hstart : t.startOf p = t.startOf q := by simp only [startOf, habsolute]
  have hplace := (locate_directory_iff (locate_iff_followLinks.1 hp).1 hd).1 hp
  have hother := (locate_directory_iff (locate_iff_followLinks.1 hq).1 hd').1 hq
  have hplace' := followLinks_thins linkLimit (thins_turns p.segments [""]) _ hplace
  have hother' := followLinks_thins linkLimit (thins_turns q.segments [""]) _ hother
  rw [hturns, hstart] at hplace'
  exact Outcome.found.inj (hplace'.symm.trans hother')

end FileTree

end HeaderGather
