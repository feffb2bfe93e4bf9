import Mathlib.Data.List.Basic
import Mathlib.Data.List.Induction
import HeaderGather.FileTree.Walk
import HeaderGather.Proofs.FileTree.Spelling
import HeaderGather.Proofs.Path.Parts
import HeaderGather.Proofs.Text.Encoding

/-! What a walk tells, and in which order. It comes to every entry below its base whose
directories are opened one after the other, and goes through them as places are compared:
what is below a directory stands before the next entry beside it. -/
namespace HeaderGather

theorem Text.encode_injective : Function.Injective Text.encode := by
  intro a b h
  have hdecoded := congrArg Text.decode? h
  rwa [Text.decode?_encode, Text.decode?_encode, Option.some.injEq] at hdecoded

namespace Place

/-- The strict order of places. -/
def Before (a b : Place) : Prop := a.key < b.key

instance : Std.Irrefl Before := ⟨fun a => List.lt_irrefl a.key⟩

instance : Std.Antisymm Before :=
  ⟨fun _ _ hab hba => absurd hba (List.lt_asymm hab)⟩

theorem before_append {front a b : Place} (h : Before a b) :
    Before (front ++ a) (front ++ b) := by
  unfold Before key
  rw [List.map_append, List.map_append]
  exact List.append_left_lt h

theorem before_cons {name name' : String} (more more' : Place)
    (h : Text.encode name.toList < Text.encode name'.toList) :
    Before (name :: more) (name' :: more') := by
  unfold Before key
  rw [List.map_cons, List.map_cons]
  exact List.cons_lt_cons_iff.2 (.inl h)

end Place

namespace FileTree

variable {t : FileTree} {top dir names place : Place} {name : String} {entry : Entry}

theorem rest_eq_some {e found : Place × Entry} :
    (match dir.isPrefixOf? e.1 with
      | none => none
      | some [] => none
      | some (name :: names) => some (name :: names, e.2)) = some found ↔
      found.1 ≠ [] ∧ e = (dir ++ found.1, found.2) := by
  obtain ⟨place, entry⟩ := e
  obtain ⟨names, other⟩ := found
  cases hprefix : dir.isPrefixOf? place with
  | none =>
      have hno : ∀ rest, place ≠ dir ++ rest := by
        rintro rest rfl
        rw [List.isPrefixOf?_eq_some_iff_append_eq.2 rfl] at hprefix
        exact nomatch hprefix
      simp [hno]
  | some rest =>
      obtain rfl := List.isPrefixOf?_eq_some_iff_append_eq.1 hprefix
      cases rest with
      | nil =>
          simp only [List.append_nil, reduceCtorEq, Prod.mk.injEq, List.self_eq_append_right,
            false_iff, not_and]
          intro hne hnil
          exact absurd hnil hne
      | cons name more =>
          simp only [Option.some.injEq, Prod.mk.injEq, List.append_cancel_left_eq]
          constructor
          · rintro ⟨rfl, rfl⟩
            exact ⟨List.cons_ne_nil name more, rfl, rfl⟩
          · rintro ⟨-, rfl, rfl⟩
            exact ⟨rfl, rfl⟩

theorem mem_below : (names, entry) ∈ t.below dir ↔
    names ≠ [] ∧ t.get? (dir ++ names) = some entry := by
  unfold below
  rw [List.mem_filterMap]
  constructor
  · rintro ⟨e, hmem, h⟩
    obtain ⟨hne, rfl⟩ := rest_eq_some.1 h
    exact ⟨hne, get?_of_mem hmem⟩
  · rintro ⟨hne, hentry⟩
    have hplace := List.append_ne_nil_of_right_ne_nil dir hne
    exact ⟨_, mem_of_get? hentry hplace, rest_eq_some.2 ⟨hne, rfl⟩⟩

theorem pairwise_below (t : FileTree) (dir : Place) :
    (t.below dir).Pairwise fun a b => a.1 ≠ b.1 := by
  unfold below
  rw [List.pairwise_filterMap]
  refine (List.pairwise_map.1 t.distinct).imp ?_
  intro e e' hne a ha b hb hsame
  obtain ⟨-, rfl⟩ := rest_eq_some.1 ha
  obtain ⟨-, rfl⟩ := rest_eq_some.1 hb
  exact hne (congrArg (dir ++ ·) hsame)

theorem listing_perm (t : FileTree) (dir : Place) : (t.listing dir).Perm (t.members dir) :=
  List.mergeSort_perm _ _

theorem member_eq_some {e : Place × Entry} {member : String × Entry} :
    (match e.1 with
      | [name] => some (name, e.2)
      | _ => none) = some member ↔ e = ([member.1], member.2) := by
  obtain ⟨place, entry⟩ := e
  cases place with
  | nil => simp
  | cons name more => cases more <;> simp [Prod.ext_iff]

theorem mem_listing : (name, entry) ∈ t.listing dir ↔ t.get? (dir ++ [name]) = some entry := by
  rw [(listing_perm t dir).mem_iff, members, List.mem_filterMap]
  constructor
  · rintro ⟨e, hmem, h⟩
    obtain rfl := member_eq_some.1 h
    exact (mem_below.1 hmem).2
  · intro h
    exact ⟨_, mem_below.2 ⟨List.cons_ne_nil name [], h⟩, rfl⟩

theorem pairwise_members (t : FileTree) (dir : Place) :
    (t.members dir).Pairwise fun a b => a.1 ≠ b.1 := by
  unfold members
  rw [List.pairwise_filterMap]
  refine (pairwise_below t dir).imp ?_
  intro e e' hne a ha b hb hsame
  obtain rfl := member_eq_some.1 ha
  obtain rfl := member_eq_some.1 hb
  exact hne (congrArg (fun name => [name]) hsame)

/-- A directory is listed in the order of its names, each of them once. -/
theorem pairwise_listing (t : FileTree) (dir : Place) :
    (t.listing dir).Pairwise fun a b => Text.encode a.1.toList < Text.encode b.1.toList := by
  have hsorted : (t.listing dir).Pairwise fun a b =>
      decide (Text.encode a.1.toList ≤ Text.encode b.1.toList) = true := by
    refine List.pairwise_mergeSort ?_ ?_ _
    · intro a b c hab hbc
      rw [decide_eq_true_eq] at hab hbc ⊢
      exact List.le_trans hab hbc
    · intro a b
      rw [Bool.or_eq_true, decide_eq_true_eq, decide_eq_true_eq]
      exact List.le_total _ _
  have hdistinct : (t.listing dir).Pairwise fun a b => a.1 ≠ b.1 :=
    (listing_perm t dir).symm.pairwise (pairwise_members t dir) fun h => h.symm
  refine (hsorted.and hdistinct).imp ?_
  rintro a b ⟨hle, hne⟩
  refine Std.lt_of_le_of_ne (of_decide_eq_true hle) fun e => ?_
  exact hne (String.toList_injective (Text.encode_injective e))

/-- How a walk that has come to the directory at some names goes on from there to an entry
that it tells. -/
inductive Walk.Leads (w : Walk) (t : FileTree) : Place → Place → Prop
  | file {names dir : Place} {name : String} {entry : Entry}
    (opened : t.openDirectory (w.base.extend names) = .ok dir)
    (found : t.get? (dir ++ [name]) = some entry)
    (told : entry.isDirectory = false) : Leads w t names [name]
  | enter {names dir rest : Place} {name : String}
    (opened : t.openDirectory (w.base.extend names) = .ok dir)
    (found : t.get? (dir ++ [name]) = some .directory)
    (included : name ∉ w.excluded) :
    Leads w t (names ++ [name]) rest → Leads w t names (name :: rest)

variable {w : Walk} {levels : Nat}

/-- What a walk tells at one entry of the directory that the names lead to. -/
def visitAt (t : FileTree) (w : Walk) (levels : Nat) (names : Place) (e : String × Entry) :
    List Visit :=
  if e.2.isDirectory then
    if w.excluded.contains e.1 then [] else t.visit w levels (names ++ [e.1])
  else [.file (names ++ [e.1])]

theorem visit_succ (hopened : t.openDirectory (w.base.extend names) = .ok dir) :
    t.visit w (levels + 1) names = (t.listing dir).flatMap (t.visitAt w levels names) := by
  rw [visit, hopened]
  rfl

theorem visit_refused {fault : Fault}
    (hrefused : t.openDirectory (w.base.extend names) = .error fault) :
    t.visit w (levels + 1) names = [.refused names fault] := by
  rw [visit, hrefused]

theorem isDirectory_eq_true : entry.isDirectory = true ↔ entry = .directory := by
  cases entry <;> simp [Entry.isDirectory]

theorem mem_visitAt {e : String × Entry} {told : Place} :
    .file told ∈ t.visitAt w levels names e ↔
      e.2.isDirectory = false ∧ told = names ++ [e.1] ∨
        e.2 = .directory ∧ e.1 ∉ w.excluded ∧ .file told ∈ t.visit w levels (names ++ [e.1]) := by
  unfold visitAt
  by_cases hd : e.2.isDirectory = true
  · rw [if_pos hd]
    have hentry := isDirectory_eq_true.1 hd
    by_cases hexcluded : e.1 ∈ w.excluded
    · simp [hentry, hexcluded, Entry.isDirectory]
    · simp [hentry, hexcluded, Entry.isDirectory]
  · rw [if_neg hd, List.mem_singleton]
    rw [Bool.not_eq_true] at hd
    have hne : e.2 ≠ .directory := by
      intro hentry
      rw [hentry] at hd
      exact nomatch hd
    simp [hd, hne]

theorem mem_visit {told : Place} : .file told ∈ t.visit w levels names ↔
    ∃ rest, told = names ++ rest ∧ w.Leads t names rest ∧ rest.length ≤ levels := by
  induction levels generalizing names with
  | zero =>
      constructor
      · intro h
        exact absurd h List.not_mem_nil
      · rintro ⟨rest, -, hleads, hlength⟩
        cases hleads <;> exact absurd hlength (by simp)
  | succ levels ih =>
      cases hopen : t.openDirectory (w.base.extend names) with
      | error fault =>
          rw [visit_refused hopen]
          constructor
          · intro h
            exact nomatch List.mem_singleton.1 h
          · rintro ⟨rest, -, hleads, -⟩
            cases hleads with
            | file opened => exact nomatch hopen.symm.trans opened
            | enter opened => exact nomatch hopen.symm.trans opened
      | ok dir =>
          rw [visit_succ hopen, List.mem_flatMap]
          constructor
          · rintro ⟨⟨name, entry⟩, hmem, hvisit⟩
            have hfound := mem_listing.1 hmem
            rcases mem_visitAt.1 hvisit with ⟨htold, rfl⟩ | ⟨rfl, hincluded, hbelow⟩
            · exact ⟨[name], rfl, .file hopen hfound htold, Nat.succ_le_succ (Nat.zero_le levels)⟩
            · obtain ⟨rest, rfl, hleads, hlength⟩ := ih.1 hbelow
              exact ⟨name :: rest, List.append_assoc names [name] rest,
                .enter hopen hfound hincluded hleads, Nat.succ_le_succ hlength⟩
          · rintro ⟨rest, rfl, hleads, hlength⟩
            cases hleads with
            | @file _ _ name entry opened found told =>
                obtain rfl := Except.ok.inj (opened.symm.trans hopen)
                exact ⟨(name, entry), mem_listing.2 found, mem_visitAt.2 (.inl ⟨told, rfl⟩)⟩
            | @enter _ _ rest name opened found included hrest =>
                obtain rfl := Except.ok.inj (opened.symm.trans hopen)
                have hbelow := ih.2 ⟨rest, (List.append_assoc names [name] rest).symm, hrest,
                  Nat.le_of_succ_le_succ hlength⟩
                exact ⟨(name, .directory), mem_listing.2 found,
                  mem_visitAt.2 (.inr ⟨rfl, included, hbelow⟩)⟩

/-- What a walk tells, in the order in which it does. -/
def Visit.files (visits : List Visit) : List Place := visits.filterMap (·.file?)

theorem mem_files {visits : List Visit} : names ∈ Visit.files visits ↔ .file names ∈ visits := by
  unfold Visit.files
  rw [List.mem_filterMap]
  constructor
  · rintro ⟨visit, hmem, h⟩
    cases visit with
    | file told =>
        obtain rfl := Option.some.inj h
        exact hmem
    | refused told fault => exact nomatch h
  · intro h
    exact ⟨_, h, rfl⟩

/-- What is told at an entry begins with its name. -/
theorem exists_of_mem_visitAt {e : String × Entry} {told : Place}
    (h : told ∈ Visit.files (t.visitAt w levels names e)) :
    ∃ rest, told = names ++ e.1 :: rest := by
  rcases mem_visitAt.1 (mem_files.1 h) with ⟨-, rfl⟩ | ⟨-, -, hbelow⟩
  · exact ⟨[], rfl⟩
  · obtain ⟨rest, rfl, -⟩ := mem_visit.1 hbelow
    exact ⟨rest, List.append_assoc names [e.1] rest⟩

/-- A walk tells the entries in the order of their places. -/
theorem pairwise_visit (t : FileTree) (w : Walk) (levels : Nat) (names : Place) :
    (Visit.files (t.visit w levels names)).Pairwise Place.Before := by
  induction levels generalizing names with
  | zero => exact .nil
  | succ levels ih =>
      cases hopen : t.openDirectory (w.base.extend names) with
      | error fault =>
          rw [visit_refused hopen]
          exact .nil
      | ok dir =>
          rw [visit_succ hopen, Visit.files, List.filterMap_flatMap, List.pairwise_flatMap]
          constructor
          · intro e _
            unfold visitAt
            split
            · split
              · exact .nil
              · exact ih (names ++ [e.1])
            · exact List.pairwise_singleton _ _
          · refine (pairwise_listing t dir).imp ?_
            intro a b hab told htold told' htold'
            obtain ⟨rest, rfl⟩ := exists_of_mem_visitAt htold
            obtain ⟨rest', rfl⟩ := exists_of_mem_visitAt htold'
            exact Place.before_append (Place.before_cons rest rest' hab)

theorem get?_front {front back : Place} (h : t.get? (front ++ back) = some entry)
    (hback : back ≠ []) : t.get? front = some .directory := by
  induction back using List.reverseRecOn generalizing entry with
  | nil => exact absurd rfl hback
  | append_singleton back name ih =>
      rw [← List.append_assoc] at h
      obtain ⟨hd, -⟩ := get?_parent h
      by_cases hnil : back = []
      · rwa [hnil, List.append_nil] at hd
      · exact ih hd hnil

theorem isName_of_get? (h : t.get? place = some entry) : ∀ name ∈ place, isName name = true := by
  intro name hname
  obtain ⟨front, back, rfl⟩ := List.append_of_mem hname
  by_cases hback : back = []
  · subst hback
    exact (get?_parent h).2
  · have hcut : front ++ name :: back = (front ++ [name]) ++ back := by simp
    rw [hcut] at h
    exact (get?_parent (get?_front h hback)).2

theorem length_le_foldr {entries : List (Place × Entry)} (h : (place, entry) ∈ entries) :
    place.length ≤ entries.foldr (fun e n => max e.1.length n) 0 := by
  induction entries with
  | nil => exact absurd h List.not_mem_nil
  | cons e entries ih =>
      rw [List.foldr_cons]
      rcases List.mem_cons.1 h with rfl | hmem
      · exact Nat.le_max_left _ _
      · exact (ih hmem).trans (Nat.le_max_right _ _)

theorem length_le_height (h : t.get? place = some entry) : place.length ≤ t.height := by
  by_cases hplace : place = []
  · simp [hplace]
  · exact length_le_foldr (mem_of_get? h hplace)

end FileTree

namespace Path

variable {p : Path} {names : List String}

theorem segments_extend (p : Path) (h : ∀ name ∈ names, isName name = true) :
    (p.extend names).segments = p.segments ++ names := by
  induction names generalizing p with
  | nil => exact (List.append_nil _).symm
  | cons name names ih =>
      rw [List.forall_mem_cons] at h
      have hrest := ih (p.join ⟨name⟩) h.2
      rw [segments_join h.1, List.append_assoc] at hrest
      exact hrest

theorem isAbsolute_extend (p : Path) (h : ∀ name ∈ names, isName name = true) :
    (p.extend names).isAbsolute = p.isAbsolute := by
  induction names generalizing p with
  | nil => rfl
  | cons name names ih =>
      rw [List.forall_mem_cons] at h
      exact (ih (p.join ⟨name⟩) h.2).trans (isAbsolute_join h.1 p)

end Path

namespace FileTree

variable {t : FileTree} {top dir names rest place : Place} {w : Walk} {p : Path}

theorem openDirectory_eq_ok : t.openDirectory p = .ok place ↔
    t.locate p = .ok place ∧ t.get? place = some .directory ∧ t.rights.lists place = true := by
  unfold openDirectory
  cases t.locate p with
  | error fault => simp
  | ok other =>
      constructor
      · intro h
        dsimp only at h
        split at h
        · next hd =>
          split at h
          · next hlists =>
            obtain rfl := Except.ok.inj h
            exact ⟨rfl, hd, hlists⟩
          · exact nomatch h
        · exact nomatch h
      · rintro ⟨⟨⟩, hd, hlists⟩
        simp [hd, hlists]

/-- A directory can be opened under the path. -/
def Opens (t : FileTree) (p : Path) : Prop := ∃ place, t.openDirectory p = .ok place

instance (t : FileTree) (p : Path) : Decidable (t.Opens p) :=
  decidable_of_iff ((t.openDirectory p).isOk = true) (by
    unfold Opens
    cases t.openDirectory p <;> simp [Except.isOk, Except.toBool])

/-- The names of directories lead from one to the next and nowhere else. -/
theorem followLinks_directories {links : Nat} (hd : t.get? (dir ++ names) = some .directory)
    (h : t.followLinks false links dir (names ++ [""]) = .found place) : place = dir ++ names := by
  induction names generalizing dir with
  | nil =>
      rw [List.nil_append, followLinks_idle (.inl rfl), followLinks_nil] at h
      rw [List.append_nil, Outcome.found.inj h]
  | cons name names ih =>
      have hcut : dir ++ name :: names = dir ++ [name] ++ names := by simp
      rw [hcut] at hd
      have hname : isName name = true :=
        isName_of_get? hd name (List.mem_append_left _ (List.mem_append_right _ List.mem_cons_self))
      have hat : t.get? (dir ++ [name]) = some .directory := by
        by_cases hnil : names = []
        · rwa [hnil, List.append_nil] at hd
        · exact get?_front hd hnil
      obtain ⟨hempty, hhere, hup, -⟩ := (isName_iff name).1 hname
      rw [List.cons_append] at h
      cases hs : t.rights.searches dir with
      | false =>
          rw [followLinks_denied hempty hs] at h
          cases h
      | true =>
          by_cases hlong : longestName < name.utf8ByteSize
          · rw [followLinks_long hs rfl (by simp [IsTurn, hempty, hhere, hup]) hlong] at h
            cases h
          · rw [followLinks_directory hs ⟨hempty, hhere, hup, hlong⟩ rfl hat] at h
            rw [hcut]
            exact ih hd h

/-- Below the directory of a base, names lead to the place that they name. -/
theorem place_of_openDirectory {base : Path} (hbase : t.locate base = .ok top)
    (htop : t.get? top = some .directory) (hd : t.get? (top ++ names) = some .directory)
    (h : t.openDirectory (base.extend names) = .ok dir) : dir = top ++ names := by
  obtain ⟨hlocate, hdir, -⟩ := openDirectory_eq_ok.1 h
  have hnames : ∀ name ∈ names, isName name = true :=
    fun name hname => isName_of_get? hd name (List.mem_append_right top hname)
  have hstart : t.startOf (base.extend names) = t.startOf base := by
    rw [startOf, startOf, Path.isAbsolute_extend base hnames]
  have hthere := (locate_directory_iff (locate_iff_followLinks.1 hbase).1 htop).1 hbase
  obtain ⟨left, hleft⟩ := followLinks_append (.refl t) hthere
  rw [locate_directory_iff (locate_iff_followLinks.1 hlocate).1 hdir, hstart,
    Path.segments_extend base hnames, List.append_assoc, hleft] at hlocate
  exact followLinks_directories hd hlocate

/-- A walk comes to what is no directory, if no directory on the way is excluded and all of
them can be opened. -/
theorem leads_iff (hbase : t.locate w.base = .ok top) (htop : t.get? top = some .directory)
    (hd : t.get? (top ++ names) = some .directory) : w.Leads t names rest ↔
    rest ≠ [] ∧ (∃ entry, t.get? (top ++ names ++ rest) = some entry ∧ entry.isDirectory = false) ∧
      (∀ name ∈ rest.dropLast, name ∉ w.excluded) ∧
      ∀ front, front <+: rest.dropLast → t.Opens (w.base.extend (names ++ front)) := by
  constructor
  · intro h
    induction h with
    | @file names dir name entry opened found told =>
        rw [place_of_openDirectory hbase htop hd opened] at found
        refine ⟨List.cons_ne_nil name [], ⟨entry, found, told⟩, nofun, ?_⟩
        intro front hfront
        obtain rfl := List.prefix_nil.1 hfront
        rw [List.append_nil]
        exact ⟨dir, opened⟩
    | @enter names dir rest name opened found included _ ih =>
        rw [place_of_openDirectory hbase htop hd opened, List.append_assoc] at found
        obtain ⟨hne, ⟨entry, hentry, told⟩, hincluded, hopens⟩ := ih found
        rw [List.dropLast_cons_of_ne_nil hne]
        refine ⟨List.cons_ne_nil name rest, ⟨entry, ?_, told⟩, ?_, ?_⟩
        · simpa using hentry
        · exact List.forall_mem_cons.2 ⟨included, hincluded⟩
        · intro front hfront
          rcases List.prefix_cons_iff.1 hfront with rfl | ⟨more, rfl, hmore⟩
          · rw [List.append_nil]
            exact ⟨dir, opened⟩
          · simpa using hopens more hmore
  · rintro ⟨hne, ⟨entry, hentry, told⟩, hincluded, hopens⟩
    induction rest generalizing names with
    | nil => exact absurd rfl hne
    | cons name rest ih =>
        obtain ⟨dir, opened⟩ := hopens [] List.nil_prefix
        rw [List.append_nil] at opened
        have hdir := place_of_openDirectory hbase htop hd opened
        by_cases hlast : rest = []
        · subst hlast
          exact .file opened (hdir ▸ hentry) told
        · have hcut : top ++ names ++ name :: rest = top ++ names ++ [name] ++ rest := by simp
          rw [List.dropLast_cons_of_ne_nil hlast] at hincluded hopens
          rw [List.forall_mem_cons] at hincluded
          rw [hcut] at hentry
          have hat := get?_front hentry hlast
          have hrest : w.Leads t (names ++ [name]) rest := by
            refine ih (by simpa using hat) hlast ?_ hincluded.2 ?_
            · simpa using hentry
            · intro front hfront
              simpa using hopens (name :: front) (List.prefix_cons_inj name |>.2 hfront)
          exact .enter opened (hdir ▸ hat) hincluded.1 hrest

theorem leads_top_iff (hbase : t.locate w.base = .ok top) (htop : t.get? top = some .directory) :
    w.Leads t [] names ↔
    names ≠ [] ∧ (∃ entry, t.get? (top ++ names) = some entry ∧ entry.isDirectory = false) ∧
      (∀ name ∈ names.dropLast, name ∉ w.excluded) ∧
      ∀ front, front <+: names.dropLast → t.Opens (w.base.extend front) := by
  have hd : t.get? (top ++ []) = some .directory := by rwa [List.append_nil]
  refine (leads_iff hbase htop hd).trans ?_
  simp only [List.append_nil, List.nil_append]

/-- What a walk tells: of what is below its base, all that it comes to, at the first level only
if it is not recursive. -/
theorem mem_walk (hbase : t.locate w.base = .ok top) (htop : t.get? top = some .directory) :
    names ∈ Visit.files (t.walk w) ↔
      w.Leads t [] names ∧ (w.recursive = false → names.length = 1) := by
  rw [mem_files, walk, mem_visit]
  constructor
  · rintro ⟨rest, rfl, hleads, hlength⟩
    refine ⟨hleads, fun hflat => ?_⟩
    rw [Walk.levels, hflat, if_neg Bool.false_ne_true] at hlength
    have hne := ((leads_top_iff hbase htop).1 hleads).1
    exact Nat.le_antisymm hlength (List.length_pos_iff.2 hne)
  · rintro ⟨hleads, hflat⟩
    refine ⟨names, rfl, hleads, ?_⟩
    obtain ⟨-, ⟨entry, hentry, -⟩, -⟩ := (leads_top_iff hbase htop).1 hleads
    unfold Walk.levels
    by_cases hrecursive : w.recursive = true
    · rw [if_pos hrecursive]
      have hheight := length_le_height hentry
      rw [List.length_append] at hheight
      exact (Nat.le_add_left _ _).trans hheight
    · rw [if_neg hrecursive]
      exact Nat.le_of_eq (hflat (Bool.eq_false_iff.2 hrecursive))

theorem pairwise_walk (t : FileTree) (w : Walk) :
    (Visit.files (t.walk w)).Pairwise Place.Before :=
  pairwise_visit t w (w.levels t) []

end FileTree

end HeaderGather
