import Mathlib.Data.List.TakeWhile
import HeaderGather.Text.Lines

/-! Splitting at a separator, seen from the last separator of a list. -/
namespace HeaderGather.Text

variable {α : Type}

theorem takeWhile_append_stop {p : α → Bool} {b : α} (l r : List α) (h : p b = false) :
    (l ++ b :: r).takeWhile p = l.takeWhile p := by
  induction l with
  | nil => simp [h]
  | cons a l ih => by_cases ha : p a <;> simp [ha, ih]

theorem intercalate_append (sep : α) {front back : List (List α)} (hfront : front ≠ [])
    (hback : back ≠ []) : [sep].intercalate (front ++ back) =
      [sep].intercalate front ++ sep :: [sep].intercalate back := by
  induction front with
  | nil => exact absurd rfl hfront
  | cons p front ih =>
      cases front with
      | nil =>
          rw [List.intercalate_singleton, List.singleton_append,
            List.intercalate_cons_of_ne_nil hback, List.append_assoc, List.singleton_append]
      | cons q front =>
          have hne : q :: front ≠ [] := List.cons_ne_nil q front
          have happ : q :: front ++ back ≠ [] := List.cons_ne_nil q (front ++ back)
          rw [List.cons_append, List.intercalate_cons_of_ne_nil happ, ih hne,
            List.intercalate_cons_of_ne_nil hne]
          simp only [List.append_assoc]

theorem intercalate_concat (sep : α) (front : List (List α)) (last : List α) :
    ∃ before, [sep].intercalate (front ++ [last]) = before ++ last := by
  cases front with
  | nil => exact ⟨[], List.intercalate_singleton⟩
  | cons p front =>
      refine ⟨[sep].intercalate (p :: front) ++ [sep], ?_⟩
      rw [intercalate_append sep (List.cons_ne_nil p front) (List.cons_ne_nil last []),
        List.intercalate_singleton, List.append_assoc, List.singleton_append]

variable [DecidableEq α] {sep : α}

/-- What follows the last separator; the whole list where there is none. -/
def afterLast (sep : α) (l : List α) : List α := (l.reverse.takeWhile (· ≠ sep)).reverse

theorem not_mem_afterLast (sep : α) (l : List α) : sep ∉ afterLast sep l := by
  intro h
  have hp := List.all_eq_true.1 List.all_takeWhile sep (List.mem_reverse.1 h)
  simp at hp

theorem afterLast_of_not_mem {l : List α} (h : sep ∉ l) : afterLast sep l = l := by
  have all : ∀ a ∈ l.reverse, decide (a ≠ sep) = true := by
    intro a ha
    have hne : a ≠ sep := fun e => h (e ▸ List.mem_reverse.1 ha)
    simpa using hne
  rw [afterLast, List.takeWhile_eq_self_iff.2 all, List.reverse_reverse]

/-- Only what follows a separator counts. -/
theorem afterLast_append_sep (l r : List α) : afterLast sep (l ++ sep :: r) = afterLast sep r := by
  have stop : decide (sep ≠ sep) = false := by simp
  simp only [afterLast, List.reverse_append, List.reverse_cons, List.append_assoc,
    List.singleton_append]
  rw [takeWhile_append_stop (p := fun a => decide (a ≠ sep)) _ _ stop]

theorem afterLast_append_of_mem (l : List α) {r : List α} (h : sep ∈ r) :
    afterLast sep (l ++ r) = afterLast sep r := by
  obtain ⟨a, b, rfl⟩ := List.append_of_mem h
  rw [← List.append_assoc, afterLast_append_sep, afterLast_append_sep]

/-- A list that has the separator is something, the separator, and what follows the last one. -/
theorem eq_append_afterLast {l : List α} (h : sep ∈ l) : ∃ q, l = q ++ sep :: afterLast sep l := by
  induction l with
  | nil => exact absurd h List.not_mem_nil
  | cons a l ih =>
      by_cases hl : sep ∈ l
      · obtain ⟨q, hq⟩ := ih hl
        have hlast : afterLast sep (a :: l) = afterLast sep l := afterLast_append_of_mem [a] hl
        exact ⟨a :: q, by rw [hlast, List.cons_append, ← hq]⟩
      · have ha : a = sep := ((List.mem_cons.1 h).resolve_right hl).symm
        subst ha
        have hlast : afterLast a (a :: l) = afterLast a l := afterLast_append_sep [] l
        exact ⟨[], by rw [hlast, afterLast_of_not_mem hl, List.nil_append]⟩

/-- A list up to its last separator, which it keeps; nothing where there is none. -/
def untilLast (sep : α) (l : List α) : List α := (l.reverse.dropWhile (· ≠ sep)).reverse

theorem untilLast_append_afterLast (sep : α) (l : List α) :
    untilLast sep l ++ afterLast sep l = l := by
  rw [untilLast, afterLast, ← List.reverse_append, List.takeWhile_append_dropWhile,
    List.reverse_reverse]

theorem getLast?_untilLast (sep : α) (l : List α) :
    untilLast sep l = [] ∨ (untilLast sep l).getLast? = some sep := by
  have hstop := List.head?_dropWhile_not (fun a => decide (a ≠ sep)) l.reverse
  rw [untilLast, List.getLast?_reverse]
  cases h : l.reverse.dropWhile (· ≠ sep) with
  | nil => exact .inl rfl
  | cons a rest =>
      rw [h] at hstop
      exact .inr (by simpa using hstop)

theorem untilLast_of_not_mem {l : List α} (h : sep ∉ l) : untilLast sep l = [] := by
  have hall := untilLast_append_afterLast sep l
  rwa [afterLast_of_not_mem h, List.append_left_eq_self] at hall

theorem untilLast_append_sep (l r : List α) :
    untilLast sep (l ++ sep :: r) = l ++ sep :: untilLast sep r := by
  have hall := untilLast_append_afterLast sep (l ++ sep :: r)
  rw [afterLast_append_sep] at hall
  conv at hall => rhs; rw [← untilLast_append_afterLast sep r]
  rw [← List.cons_append, ← List.append_assoc] at hall
  exact List.append_cancel_right hall

/-- The pieces are those of the standard library. -/
theorem splitOn_eq (sep : α) (l : List α) : splitOn sep l = l.splitOn sep := by
  induction l with
  | nil => rfl
  | cons a l ih =>
      rw [splitOn, List.splitOn_cons_eq_if_modifyHead, ih]
      by_cases h : a = sep
      · simp [h]
      · rw [if_neg h, beq_false_of_ne h]
        cases hs : l.splitOn sep with
        | nil => exact absurd hs (List.splitOn_ne_nil sep l)
        | cons p ps => rfl

theorem splitOn_ne_nil (sep : α) (l : List α) : splitOn sep l ≠ [] := by
  rw [splitOn_eq]
  exact List.splitOn_ne_nil sep l

theorem splitOn_append (a b : List α) :
    splitOn sep (a ++ sep :: b) = splitOn sep a ++ splitOn sep b := by
  simp only [splitOn_eq, List.splitOn_append_cons_self]

theorem splitOn_of_not_mem {l : List α} (h : sep ∉ l) : splitOn sep l = [l] := by
  rw [splitOn_eq, List.splitOn_eq_singleton h]

theorem intercalate_splitOn (sep : α) (l : List α) : [sep].intercalate (splitOn sep l) = l := by
  rw [splitOn_eq, List.intercalate_splitOn]

theorem splitOn_intercalate {pieces : List (List α)} (hne : pieces ≠ [])
    (h : ∀ p ∈ pieces, sep ∉ p) : splitOn sep ([sep].intercalate pieces) = pieces := by
  rw [splitOn_eq, List.splitOn_intercalate sep h hne]

theorem not_mem_of_mem_splitOn {l p : List α} (h : p ∈ splitOn sep l) : sep ∉ p := by
  induction l generalizing p with
  | nil => simp_all [splitOn]
  | cons a l ih =>
      by_cases ha : a = sep
      · simp only [splitOn, ha, if_true, List.mem_cons] at h
        cases h with
        | inl e => simp [e]
        | inr h => exact ih h
      · cases hs : splitOn sep l with
        | nil => exact absurd hs (splitOn_ne_nil sep l)
        | cons q qs =>
            simp only [splitOn, ha, if_false, hs, List.mem_cons] at h
            cases h with
            | inl e =>
                rw [e, List.mem_cons, not_or]
                exact ⟨Ne.symm ha, ih (by simp [hs])⟩
            | inr h => exact ih (by simp [hs, h])

/-- The last piece is what follows the last separator. -/
theorem getLast?_splitOn (sep : α) (l : List α) :
    (splitOn sep l).getLast? = some (afterLast sep l) := by
  by_cases h : sep ∈ l
  · obtain ⟨q, hq⟩ := eq_append_afterLast h
    conv => lhs; rw [hq]
    rw [splitOn_append, splitOn_of_not_mem (not_mem_afterLast sep l)]
    simp
  · rw [splitOn_of_not_mem h, afterLast_of_not_mem h]
    rfl

end HeaderGather.Text
