import HeaderGather.Text.Lines

/-! What it is to cut a list after every separator. -/
namespace HeaderGather.Text

variable {α : Type} {sep : α}

/-- The pieces of a list cut after every separator. They put the list together again; none
is empty or goes on after a separator, and only the last may end without one. -/
structure IsCut (sep : α) (l : List α) (pieces : List (List α)) : Prop where
  whole : pieces.flatten = l
  filled : ∀ p ∈ pieces, p ≠ []
  stops : ∀ p ∈ pieces, sep ∉ p.dropLast
  ended : ∀ p ∈ pieces.dropLast, p.getLast? = some sep

theorem IsCut.cons_sep {l : List α} {pieces : List (List α)} (h : IsCut sep l pieces) :
    IsCut sep (sep :: l) ([sep] :: pieces) := by
  refine ⟨by simp [h.whole], ?_, ?_, ?_⟩
  · simpa using h.filled
  · simpa using h.stops
  · cases pieces with
    | nil => simp
    | cons p ps => simpa using h.ended

theorem IsCut.cons_piece {a : α} {l p : List α} {ps : List (List α)} (ha : a ≠ sep)
    (h : IsCut sep l (p :: ps)) : IsCut sep (a :: l) ((a :: p) :: ps) := by
  have hp : p ≠ [] := h.filled p List.mem_cons_self
  have hlast : (a :: p).getLast? = p.getLast? := by
    cases p with
    | nil => exact absurd rfl hp
    | cons b p => simp
  refine ⟨by simp [← h.whole], ?_, ?_, ?_⟩
  · simpa using fun q hq => h.filled q (List.mem_cons_of_mem _ hq)
  · intro q hq
    cases List.mem_cons.1 hq with
    | inl e =>
        rw [e, List.dropLast_cons_of_ne_nil hp, List.mem_cons, not_or]
        exact ⟨ha.symm, h.stops p List.mem_cons_self⟩
    | inr hq => exact h.stops q (List.mem_cons_of_mem _ hq)
  · cases ps with
    | nil => simp
    | cons next ps =>
        intro q hq
        rw [List.dropLast_cons_cons] at hq
        have ended := h.ended
        rw [List.dropLast_cons_cons] at ended
        cases List.mem_cons.1 hq with
        | inl e => exact e ▸ hlast.trans (ended p List.mem_cons_self)
        | inr hq => exact ended q (List.mem_cons_of_mem _ hq)

theorem isCut_splitAfter [DecidableEq α] (sep : α) (l : List α) :
    IsCut sep l (splitAfter sep l) := by
  induction l with
  | nil => exact ⟨rfl, by simp [splitAfter], by simp [splitAfter], by simp [splitAfter]⟩
  | cons a l ih =>
      by_cases h : a = sep
      · subst h
        simpa [splitAfter] using ih.cons_sep
      · cases hs : splitAfter sep l with
        | nil =>
            have hl : l = [] := by rw [← ih.whole, hs]; rfl
            simp only [splitAfter, h, if_false, hs]
            exact ⟨by simp [hl], by simp, by simp, by simp⟩
        | cons p ps =>
            simp only [splitAfter, h, if_false, hs]
            exact (hs ▸ ih).cons_piece h

theorem splitAfter_append [DecidableEq α] {q : List α} (rest : List α) (h : sep ∉ q) :
    splitAfter sep (q ++ sep :: rest) = (q ++ [sep]) :: splitAfter sep rest := by
  induction q with
  | nil => simp [splitAfter]
  | cons a q ih =>
      simp only [List.mem_cons, not_or] at h
      simp [splitAfter, Ne.symm h.1, ih h.2]

theorem splitAfter_concat [DecidableEq α] {q : List α} (a : α) (h : sep ∉ q) :
    splitAfter sep (q ++ [a]) = [q ++ [a]] := by
  induction q with
  | nil => by_cases e : a = sep <;> simp [splitAfter, e]
  | cons b q ih =>
      simp only [List.mem_cons, not_or] at h
      simp [splitAfter, Ne.symm h.1, ih h.2]

/-- There is one way to cut a list. -/
theorem IsCut.eq_splitAfter [DecidableEq α] {l : List α} {pieces : List (List α)}
    (h : IsCut sep l pieces) : pieces = splitAfter sep l := by
  induction pieces generalizing l with
  | nil => rw [← h.whole]; rfl
  | cons p ps ih =>
      have hp : p ≠ [] := h.filled p List.mem_cons_self
      have hstop : sep ∉ p.dropLast := h.stops p List.mem_cons_self
      cases ps with
      | nil =>
          have hl : l = p := by rw [← h.whole]; simp
          have hsplit := splitAfter_concat (p.getLast hp) hstop
          rw [List.dropLast_concat_getLast] at hsplit
          rw [hl, hsplit]
      | cons next ps =>
          obtain ⟨q, rfl⟩ := List.getLast?_eq_some_iff.1 (h.ended p (by simp))
          have rest : IsCut sep (next :: ps).flatten (next :: ps) := by
            refine ⟨rfl, fun q hq => h.filled q (List.mem_cons_of_mem _ hq),
              fun q hq => h.stops q (List.mem_cons_of_mem _ hq), fun q hq => h.ended q ?_⟩
            rw [List.dropLast_cons_cons]
            exact List.mem_cons_of_mem _ hq
          have hl : l = q ++ sep :: (next :: ps).flatten := by rw [← h.whole]; simp
          rw [hl, splitAfter_append _ (by simpa using hstop), ← ih rest]

end HeaderGather.Text
