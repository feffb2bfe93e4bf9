import Mathlib.Logic.Relation
import HeaderGather.Proofs.FileTree.LinkFree

/-! The output directory mirrors the places that headers come from. However a path is spelled,
its destination has the names to which the path leads, and in a tree without links these are
the names of the one place that the path denotes. -/
namespace HeaderGather.Path

/-- A path that goes on from another by names alone: no dots and no root come after it. -/
structure ExtendsBy (out dest : Path) (names : List String) : Prop where
  spelled : dest = out.extend names
  components : dest.components = out.components ++ names.map .name
  isName : ∀ n ∈ names, isName n = true

variable {p q out : Path}

theorem extendsBy_trail (out p : Path) : out.ExtendsBy (out.destination p) p.trail :=
  ⟨rfl, components_destination out p, fun _ => isName_of_mem_trail⟩

theorem trail_eq_of_pads (h : Relation.ReflTransGen Pads p q) : q.trail = p.trail := by
  induction h with
  | refl => rfl
  | tail _ pads ih => rw [pads.trail_eq, ih]

theorem destination_same_iff :
    (out.destination p).same (out.destination q) = true ↔ p.trail = q.trail :=
  same_extend_iff (fun _ => isName_of_mem_trail) fun _ => isName_of_mem_trail

/-- Every destination is the output directory and names after it: those to which the
components of the path lead from the root. It stays the same whatever is put into the path
that leads nowhere. In a tree without links these names are the place that an absolute path
denotes, so that two paths have one destination if and only if they denote one place. -/
theorem destination_mirrors (out : Path) :
    (∀ p : Path, out.ExtendsBy (out.destination p) (p.components.foldl Place.turn [])) ∧
      (∀ p q : Path, Relation.ReflTransGen Pads p q → out.destination q = out.destination p) ∧
      ∀ t : FileTree, t.LinkFree → ∀ (p : Path) (place : Place), p.isAbsolute = true →
        t.locate p = .ok place →
        out.ExtendsBy (out.destination p) place ∧
          ∀ (q : Path) (other : Place), q.isAbsolute = true → t.locate q = .ok other →
            ((out.destination p).same (out.destination q) = true ↔ place = other) ∧
            (out.destination p = out.destination q ↔ place = other) := by
  refine ⟨?_, ?_, ?_⟩
  · intro p
    rw [← trail_eq_foldl]
    exact extendsBy_trail out p
  · intro p q hpads
    rw [destination, destination, trail_eq_of_pads hpads]
  · intro t ht p place hp hplace
    have htrail := ht.locate_trail hp hplace
    refine ⟨htrail ▸ extendsBy_trail out p, ?_⟩
    intro q other hq hother
    have hsame : (out.destination p).same (out.destination q) = true ↔ place = other := by
      rw [destination_same_iff, htrail, ht.locate_trail hq hother]
    refine ⟨hsame, fun h => hsame.1 (same_iff.2 (congrArg components h)), ?_⟩
    rintro rfl
    rw [destination, destination, htrail, ht.locate_trail hq hother]

/-- A header in a directory beside another directory. -/
def besideLib : FileTree :=
  FileTree.bare
    |>.add [] "inc" .directory
    |>.add ["inc"] "lib" .directory
    |>.add ["inc"] "a.h" (.file [] 0o644)

/-- Two dots are taken back in the path as they are in the tree. -/
theorem destination_mirrors_besideLib :
    Relation.ReflTransGen Pads ⟨"/inc/a.h"⟩ ⟨"/inc/lib/.././a.h"⟩ ∧ besideLib.LinkFree ∧
      besideLib.locate ⟨"/inc/lib/.././a.h"⟩ = .ok ["inc", "a.h"] ∧
      besideLib.locate ⟨"/../inc//a.h"⟩ = .ok ["inc", "a.h"] ∧
      (Path.mk "out").destination ⟨"/inc/lib/.././a.h"⟩ =
        (Path.mk "out").destination ⟨"/inc/a.h"⟩ ∧
      (Path.mk "out").ExtendsBy ((Path.mk "out").destination ⟨"/inc/lib/.././a.h"⟩)
        ["inc", "a.h"] ∧
      (Path.mk "out").destination ⟨"/inc/lib/.././a.h"⟩ =
        (Path.mk "out").destination ⟨"/../inc//a.h"⟩ := by
  have hpads : Relation.ReflTransGen Pads ⟨"/inc/a.h"⟩ ⟨"/inc/lib/.././a.h"⟩ :=
    (Relation.ReflTransGen.single (.dot "/inc" "a.h")).tail
      (.between "/inc" "lib" "./a.h" (by decide))
  have hfree : besideLib.LinkFree := by decide +kernel
  have hp : besideLib.locate ⟨"/inc/lib/.././a.h"⟩ = .ok ["inc", "a.h"] := by decide +kernel
  have hq : besideLib.locate ⟨"/../inc//a.h"⟩ = .ok ["inc", "a.h"] := by decide +kernel
  obtain ⟨-, hpadded, hmirror⟩ := destination_mirrors ⟨"out"⟩
  obtain ⟨hextends, hsame⟩ := hmirror besideLib hfree _ _ (by decide) hp
  exact ⟨hpads, hfree, hp, hq, hpadded _ _ hpads, hextends,
    (hsame _ _ (by decide) hq).2.2 rfl⟩

end HeaderGather.Path
