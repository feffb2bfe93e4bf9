import HeaderGather.FileTree.Access

/-! What stands at each place of a tree, after each way to change the tree. -/
namespace HeaderGather.FileTree

variable {t : FileTree} {place dir : Place} {name : String} {entry : Entry}

theorem lookup_of_mem {entries : List (Place × Entry)} (hd : (entries.map Prod.fst).Nodup)
    (h : (place, entry) ∈ entries) : entries.lookup place = some entry := by
  induction entries with
  | nil => exact absurd h List.not_mem_nil
  | cons e rest ih =>
      obtain ⟨p, v⟩ := e
      rw [List.map_cons, List.nodup_cons] at hd
      cases List.mem_cons.1 h with
      | inl he =>
          obtain ⟨rfl, rfl⟩ := Prod.mk.injEq _ _ _ _ ▸ he
          simp
      | inr hr =>
          have hne : place ≠ p := by
            rintro rfl
            exact hd.1 (List.mem_map.2 ⟨_, hr, rfl⟩)
          rw [List.lookup_cons, beq_false_of_ne hne]
          exact ih hd.2 hr

@[simp] theorem get?_nil (t : FileTree) : t.get? [] = some .directory := rfl

theorem mem_of_get? (h : t.get? place = some entry) (hp : place ≠ []) :
    (place, entry) ∈ t.entries :=
  mem_of_lookup (by simpa [get?, hp] using h)

theorem get?_of_mem (h : (place, entry) ∈ t.entries) : t.get? place = some entry := by
  obtain ⟨dir, name, hp, -, -⟩ := t.rooted _ h
  have hne : place ≠ [] := by
    intro e
    simp [e] at hp
  simpa [get?, hne] using lookup_of_mem t.distinct h

theorem get?_of_holdsDirectory (h : HoldsDirectory t.entries place) :
    t.get? place = some .directory := by
  cases h with
  | inl h => rw [h, get?_nil]
  | inr h => exact get?_of_mem h

/-- An entry has a name and stands in a directory. -/
theorem get?_parent (h : t.get? (dir ++ [name]) = some entry) :
    t.get? dir = some .directory ∧ isName name = true := by
  have hm := mem_of_get? h (by simp)
  obtain ⟨d, n, hp, hn, hd⟩ := t.rooted _ hm
  obtain ⟨rfl, e⟩ := List.append_inj' hp rfl
  obtain rfl : name = n := by simpa using e
  exact ⟨get?_of_holdsDirectory hd, hn⟩

theorem get?_dropLast (h : t.get? place = some entry) :
    t.get? place.dropLast = some .directory := by
  cases List.eq_nil_or_concat place with
  | inl e => simp [e]
  | inr e =>
      obtain ⟨dir, name, rfl⟩ := e
      rw [List.concat_eq_append] at h ⊢
      rw [List.dropLast_concat]
      exact (get?_parent h).1

theorem get?_add (hn : isName name = true) (hd : t.get? dir = some .directory)
    (hfree : t.get? (dir ++ [name]) = none) (place : Place) :
    (t.add dir name entry).get? place =
      if place = dir ++ [name] then some entry else t.get? place := by
  rw [add, dif_pos ⟨hn, hd, hfree⟩]
  by_cases hp : place = []
  · simp [hp]
  · simp only [get?, hp, if_false, List.lookup_append]
    by_cases e : place = dir ++ [name]
    · subst e
      have hnone : t.entries.lookup (dir ++ [name]) = none := by simpa [get?] using hfree
      simp [hnone]
    · have hne : (place == dir ++ [name]) = false := beq_false_of_ne e
      simp [e, List.lookup_cons, hne]

@[simp] theorem current_add (t : FileTree) (dir : Place) (name : String) (entry : Entry) :
    (t.add dir name entry).current = t.current := by
  unfold add
  split <;> rfl

@[simp] theorem rights_add (t : FileTree) (dir : Place) (name : String) (entry : Entry) :
    (t.add dir name entry).rights = t.rights := by
  unfold add
  split <;> rfl

theorem lookup_map_rewritten (target : Place) (bytes : Text.Bytes) (mode : Nat → Nat)
    (entries : List (Place × Entry)) (place : Place) :
    (entries.map (rewritten target bytes mode)).lookup place =
      (entries.lookup place).map fun e => (rewritten target bytes mode (place, e)).2 := by
  induction entries with
  | nil => rfl
  | cons e rest ih =>
      obtain ⟨p, v⟩ := e
      have hfst := rewritten_fst target bytes mode (p, v)
      by_cases hp : place = p
      · subst hp
        rw [List.map_cons, ← Prod.eta (rewritten target bytes mode (place, v)), hfst]
        simp
      · rw [List.map_cons, ← Prod.eta (rewritten target bytes mode (p, v)), hfst]
        rw [List.lookup_cons, List.lookup_cons, beq_false_of_ne hp]
        exact ih

theorem get?_overwrite (t : FileTree) (target : Place) (bytes : Text.Bytes) (mode : Nat → Nat)
    (place : Place) :
    (t.overwrite target bytes mode).get? place =
      (t.get? place).map fun e => (rewritten target bytes mode (place, e)).2 := by
  by_cases hp : place = []
  · simp [hp, rewritten]
  · simp only [get?, hp, if_false, overwrite, lookup_map_rewritten]

theorem get?_overwrite_self {old bytes : Text.Bytes} {m : Nat} {mode : Nat → Nat}
    (h : t.get? place = some (.file old m)) :
    (t.overwrite place bytes mode).get? place = some (.file bytes (mode m)) := by
  simp [get?_overwrite, h, rewritten]

theorem get?_overwrite_of_ne {target : Place} (bytes : Text.Bytes) (mode : Nat → Nat)
    (h : place ≠ target) : (t.overwrite target bytes mode).get? place = t.get? place := by
  rw [get?_overwrite]
  cases he : t.get? place with
  | none => rfl
  | some e => cases e <;> simp [rewritten, h]

end HeaderGather.FileTree
