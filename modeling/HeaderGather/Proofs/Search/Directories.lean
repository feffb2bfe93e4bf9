import Mathlib.Data.List.Induction
import Mathlib.Data.List.Pairwise
import HeaderGather.SearchPath
import HeaderGather.Proofs.Path.Components

/-! The directories of a search path, and those of them that are not there. -/
namespace HeaderGather

namespace SearchPath

/-- The directories that no earlier one is the same as. -/
def firsts (dirs : List Path) : List Path :=
  (dirs.zipIdx.filter fun (dir, i) => !(dirs.take i).any dir.same).map Prod.fst

theorem firsts_concat (dirs : List Path) (dir : Path) :
    firsts (dirs ++ [dir]) = if dirs.any dir.same then firsts dirs else firsts dirs ++ [dir] := by
  have earlier : (dirs.zipIdx.filter fun (d, i) => !((dirs ++ [dir]).take i).any d.same) =
      dirs.zipIdx.filter fun (d, i) => !(dirs.take i).any d.same := by
    apply List.filter_congr
    rintro ⟨d, i⟩ hmem
    have hle : i ≤ dirs.length := by
      have hlt := (List.mem_zipIdx hmem).2.1
      omega
    dsimp only
    rw [List.take_append_of_le_length hle]
  rw [firsts, List.zipIdx_append, List.filter_append, earlier, List.map_append]
  by_cases h : dirs.any dir.same <;> simp [firsts, h]

theorem any_same_firsts (dirs : List Path) (dir : Path) :
    (firsts dirs).any dir.same = dirs.any dir.same := by
  induction dirs using List.reverseRecOn with
  | nil => rfl
  | append_singleton dirs last ih =>
      rw [firsts_concat, List.any_append]
      by_cases h : dirs.any last.same
      · rw [if_pos h, ih]
        by_cases hsame : dir.same last
        · obtain ⟨other, hother, heq⟩ := List.any_eq_true.1 h
          have hearlier : dirs.any dir.same = true := by
            refine List.any_eq_true.2 ⟨other, hother, Path.same_iff.2 ?_⟩
            exact (Path.same_iff.1 hsame).trans (Path.same_iff.1 heq)
          rw [hearlier, Bool.true_or]
        · simp [hsame]
      · rw [if_neg h, List.any_append, ih]

/-- A search path has the first directories of those it is made from. -/
theorem dirs_ofList (dirs : List Path) : (ofList dirs).dirs = firsts dirs := by
  induction dirs using List.reverseRecOn with
  | nil => rfl
  | append_singleton dirs last ih =>
      have hadd : ofList (dirs ++ [last]) = (ofList dirs).add last := by
        simp only [ofList, List.foldl_append, List.foldl_cons, List.foldl_nil]
      rw [hadd, add, ih, any_same_firsts, firsts_concat]
      by_cases h : dirs.any last.same
      · rw [if_pos h, if_pos h, ih]
      · rw [if_neg h, if_neg h]

theorem pairwise_firsts (dirs : List Path) :
    (firsts dirs).Pairwise fun p q => ¬ p.same q = true := by
  induction dirs using List.reverseRecOn with
  | nil => exact .nil
  | append_singleton dirs last ih =>
      rw [firsts_concat]
      by_cases h : dirs.any last.same
      · rwa [if_pos h]
      · rw [if_neg h, List.pairwise_append]
        refine ⟨ih, List.pairwise_singleton _ last, ?_⟩
        intro p hp q hq hsame
        obtain rfl := List.mem_singleton.1 hq
        rw [← any_same_firsts, List.any_eq_true, not_exists] at h
        exact h p ⟨hp, Path.same_iff.2 (Path.same_iff.1 hsame).symm⟩

theorem eq_of_same_of_mem_firsts {dirs : List Path} {p q : Path} (hp : p ∈ firsts dirs)
    (hq : q ∈ firsts dirs) (hsame : p.same q = true) : p = q := by
  have apart : Std.Symm fun p q : Path => ¬ p.same q = true := by
    constructor
    intro p q hne heq
    exact hne (Path.same_iff.2 (Path.same_iff.1 heq).symm)
  by_contra hne
  exact (pairwise_firsts dirs).forall hp hq hne hsame

/-- A directory is missing if and only if it is none: no other spelling of it is there. -/
theorem missing_ofList (dirs : List Path) (t : FileTree) :
    (ofList dirs).missing t = (firsts dirs).filter fun dir => !t.isDirectory dir := by
  rw [missing, existing, dirs_ofList]
  apply List.filter_congr
  intro dir hdir
  congr 1
  rw [Bool.eq_iff_iff, List.any_eq_true]
  constructor
  · rintro ⟨other, hother, hsame⟩
    obtain ⟨hmem, hthere⟩ := List.mem_filter.1 hother
    rwa [eq_of_same_of_mem_firsts hdir hmem hsame]
  · intro hthere
    exact ⟨dir, List.mem_filter.2 ⟨hdir, hthere⟩, Path.same_iff.2 rfl⟩

end SearchPath

end HeaderGather
