import HeaderGather.Proofs.Search.Composition

/-! The first match along a search path. A directory that is told again is dropped, and no
search ends differently for that: the first directory of all those told that has a text is
never a dropped one. -/
namespace HeaderGather.SearchPath

variable {t : FileTree} {P : List Path} {text : Path}

/-- The first hit is not lost with what is dropped if spellings of one directory hit alike. -/
theorem find?_firsts {hits : Path → Bool}
    (alike : ∀ dir ∈ P, ∀ other ∈ P, dir.same other = true → hits dir = true → hits other = true) :
    (firsts P).find? hits = P.find? hits := by
  induction P using List.reverseRecOn with
  | nil => rfl
  | append_singleton P last ih =>
      have hfirsts := ih fun dir hdir other hother =>
        alike dir (List.mem_append_left _ hdir) other (List.mem_append_left _ hother)
      rw [firsts_concat, List.find?_append]
      by_cases hdrop : P.any last.same = true
      · rw [if_pos hdrop, hfirsts]
        cases hP : P.find? hits with
        | some dir => rfl
        | none =>
            obtain ⟨other, hother, hsame⟩ := List.any_eq_true.1 hdrop
            have hlast : hits last = false := by
              apply Bool.eq_false_iff.2
              intro hhit
              have hmem : last ∈ P ++ [last] := List.mem_append_right _ List.mem_cons_self
              have hbefore := alike last hmem other (List.mem_append_left _ hother) hsame hhit
              exact List.find?_eq_none.1 hP other hother hbefore
            rw [Option.none_or, List.find?_cons, hlast, List.find?_nil]
      · rw [if_neg hdrop, List.find?_append, hfirsts]

/-- A relative text is found under the first candidate that can be read, and candidates from
all directories count. -/
theorem find?_candidates (relative : text.isAbsolute = false)
    (short : ∀ dir ∈ P, (dir.join text).text.utf8ByteSize < 4096) :
    (ofList P).find? t text = (P.map fun dir => dir.join text).find? t.isReadable := by
  have alike : ∀ dir ∈ P, ∀ other ∈ P, dir.same other = true →
      t.isReadable (dir.join text) = true → t.isReadable (other.join text) = true := by
    intro dir _ other hother hsame hreadable
    have hback : other.same dir = true := Path.same_iff.2 (Path.same_iff.1 hsame).symm
    exact FileTree.isReadable_joined hback relative (short other hother) hreadable
  have hfirsts : (firsts P).find? (fun dir => t.isReadable (dir.join text)) =
      P.find? fun dir => t.isReadable (dir.join text) := find?_firsts alike
  rw [find?, relative, if_neg Bool.false_ne_true, provider?, dirs_ofList, hfirsts,
    List.find?_map]
  rfl

/-- Directories that are told in groups make the search path that they make all at once. -/
theorem foldl_add_groups (groups : List (List Path)) :
    groups.foldl (fun s group => group.foldl add s) ⟨[]⟩ = ofList groups.flatten := by
  rw [ofList, List.foldl_flatten]

/-- The text is a readable file in the directory at an index, under the given path, and in none of
those told before it. -/
structure FirstAt (t : FileTree) (P : List Path) (text path : Path) (i : Nat) : Prop where
  candidate : P[i]?.map (fun dir => dir.join text) = some path
  readable : t.isReadable path = true
  noneBefore : ∀ dir ∈ P.take i, t.isReadable (dir.join text) = false

theorem find?_candidates_eq_some_iff {path : Path} :
    (P.map fun dir => dir.join text).find? t.isReadable = some path ↔
      ∃ i, FirstAt t P text path i := by
  rw [List.find?_eq_some_iff_append]
  constructor
  · rintro ⟨hreadable, before, after, hsplit, hbefore⟩
    refine ⟨before.length, ?_, hreadable, ?_⟩
    · rw [← List.getElem?_map, hsplit, List.getElem?_append_right (Nat.le_refl _), Nat.sub_self]
      rfl
    · intro dir hdir
      have hmem : dir.join text ∈ before := by
        have htake : (P.take before.length).map (fun dir => dir.join text) = before := by
          rw [List.map_take, hsplit, List.take_left]
        exact htake ▸ List.mem_map_of_mem hdir
      simpa using hbefore _ hmem
  · rintro ⟨i, hcandidate, hreadable, hnone⟩
    rw [← List.getElem?_map] at hcandidate
    obtain ⟨hi, hpath⟩ := List.getElem?_eq_some_iff.1 hcandidate
    refine ⟨hreadable, (P.take i).map fun dir => dir.join text,
      (P.map fun dir => dir.join text).drop (i + 1), ?_, ?_⟩
    · rw [List.map_take, ← hpath, List.getElem_cons_drop, List.take_append_drop]
    · intro candidate hmem
      obtain ⟨dir, hdir, rfl⟩ := List.mem_map.1 hmem
      rw [hnone dir hdir]
      rfl

/-- What a search finds. An absolute text names its file alone. A relative one is found in the
first directory that has it as a file which can be read, of all that were told and in the
spelling in which that one was told, as long as no candidate is too long to be looked up; it is
not found if none has it. The directories searched are those that no earlier one is the same as,
in whatever groups they were told. -/
theorem find?_least (P : List Path) (t : FileTree) (text : Path) :
    (text.isAbsolute = true →
        (ofList P).find? t text = if t.isReadable text then some text else none) ∧
      (text.isAbsolute = false → (∀ dir ∈ P, (dir.join text).text.utf8ByteSize < 4096) →
        (∀ path, (ofList P).find? t text = some path ↔ ∃ i, FirstAt t P text path i) ∧
        ((ofList P).find? t text = none ↔ ∀ dir ∈ P, t.isReadable (dir.join text) = false)) ∧
      (ofList P).dirs = firsts P ∧
      ∀ groups : List (List Path), groups.flatten = P →
        groups.foldl (fun s group => group.foldl add s) ⟨[]⟩ = ofList P := by
  refine ⟨?_, ?_, dirs_ofList P, ?_⟩
  · intro habsolute
    rw [find?, if_pos habsolute]
  · intro relative short
    rw [find?_candidates relative short]
    refine ⟨fun path => find?_candidates_eq_some_iff, ?_⟩
    simp only [List.find?_eq_none, List.forall_mem_map, Bool.not_eq_true]
  · rintro groups rfl
    exact foldl_add_groups groups

/-- Two of three directories have a header, and the process may read only one of the two files. -/
def threeDirs : FileTree :=
  FileTree.bare
    |>.add [] "a" .directory
    |>.add [] "b" .directory
    |>.add ["b"] "one.h" (.file [] 0o644)
    |>.add [] "c" .directory
    |>.add ["c"] "one.h" (.file [] 0o200)
    |>.under (.owner fun _ => 0o755)

/-- Of four directories the second has the header as a file that cannot be read, the third is the
first again, and the fourth has the header. -/
theorem find?_least_threeDirs :
    let P : List Path := [⟨"a/."⟩, ⟨"c"⟩, ⟨"a"⟩, ⟨"b"⟩]
    (Path.mk "one.h").isAbsolute = false ∧
      (∀ dir ∈ P, (dir.join ⟨"one.h"⟩).text.utf8ByteSize < 4096) ∧
      threeDirs.isFile ⟨"c/one.h"⟩ = true ∧
      FirstAt threeDirs P ⟨"one.h"⟩ ⟨"b/one.h"⟩ 3 ∧
      (ofList P).find? threeDirs ⟨"one.h"⟩ = some ⟨"b/one.h"⟩ ∧
      (Path.mk "/c/one.h").isAbsolute = true ∧
      (ofList P).find? threeDirs ⟨"/c/one.h"⟩ = none ∧
      (ofList P).dirs = [⟨"a/."⟩, ⟨"c"⟩, ⟨"b"⟩] ∧
      (((SearchPath.mk []).add ⟨"a/."⟩).add ⟨"c"⟩ |>.add ⟨"a"⟩ |>.add ⟨"b"⟩) = ofList P := by
  intro P
  have relative : (Path.mk "one.h").isAbsolute = false := by decide
  have short : ∀ dir ∈ P, (dir.join ⟨"one.h"⟩).text.utf8ByteSize < 4096 := by decide +kernel
  have hfirst : FirstAt threeDirs P ⟨"one.h"⟩ ⟨"b/one.h"⟩ 3 := by
    refine ⟨rfl, ?_, ?_⟩
    · decide +kernel
    · decide +kernel
  obtain ⟨-, hrelative, hdirs, hgroups⟩ := find?_least P threeDirs ⟨"one.h"⟩
  have habsolute := (find?_least P threeDirs ⟨"/c/one.h"⟩).1 (by decide)
  have hclosed : threeDirs.isReadable ⟨"/c/one.h"⟩ = false := by decide +kernel
  rw [hclosed, if_neg Bool.false_ne_true] at habsolute
  exact ⟨relative, short, by decide +kernel, hfirst, ((hrelative relative short).1 _).2 ⟨3, hfirst⟩,
    by decide, habsolute, hdirs.trans (by decide +kernel),
    hgroups [[⟨"a/."⟩, ⟨"c"⟩], [⟨"a"⟩, ⟨"b"⟩]] rfl⟩

end HeaderGather.SearchPath
