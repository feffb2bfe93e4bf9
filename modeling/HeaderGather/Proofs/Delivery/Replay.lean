import Mathlib.Data.List.Induction
import HeaderGather.FileTree.Basic

/-! Copies as moves between places, with no tree around them. A file that is copied onto
itself is emptied, and a copy of an emptied file empties its target too. Whatever the copies
are, it can be told from their places alone what is emptied in the end. -/
namespace HeaderGather

/-- A copy of the file at one place to another place. -/
structure Copy where
  source : Place
  target : Place
  deriving DecidableEq

namespace Copy

/-- What is held after a copy. -/
def run (c : Copy) (held : Place → Option Text.Bytes) : Place → Option Text.Bytes :=
  fun place =>
    if place = c.target then if c.source = c.target then some [] else held c.source
    else held place

/-- What is emptied after a copy. -/
def mark (c : Copy) (places : List Place) : List Place :=
  if c.source = c.target ∨ c.source ∈ places then c.target :: places
  else places.filter fun place => place ≠ c.target

theorem mem_mark_target {c : Copy} {places : List Place} :
    c.target ∈ c.mark places ↔ c.source = c.target ∨ c.source ∈ places := by
  unfold mark
  split
  · rename_i h
    simp [h]
  · rename_i h
    simp [h]

theorem mem_mark_of_ne {c : Copy} {places : List Place} {place : Place}
    (h : place ≠ c.target) : place ∈ c.mark places ↔ place ∈ places := by
  unfold mark
  split <;> simp [h]

end Copy

namespace Delivery

/-- What is held after copies, one after the other. -/
def replay (held : Place → Option Text.Bytes) (copies : List Copy) :
    Place → Option Text.Bytes :=
  copies.foldl (fun held c => c.run held) held

/-- The places that copies leave emptied. -/
def emptied (copies : List Copy) : List Place :=
  copies.foldl (fun places c => c.mark places) []

variable {held : Place → Option Text.Bytes} {copies : List Copy} {kept : List Place}

theorem replay_concat (held : Place → Option Text.Bytes) (copies : List Copy) (c : Copy) :
    replay held (copies ++ [c]) = c.run (replay held copies) := by
  simp only [replay, List.foldl_append, List.foldl_cons, List.foldl_nil]

theorem emptied_concat (copies : List Copy) (c : Copy) :
    emptied (copies ++ [c]) = c.mark (emptied copies) := by
  simp only [emptied, List.foldl_append, List.foldl_cons, List.foldl_nil]

/-- What no copy goes to is held as before. -/
theorem replay_of_forall_ne {place : Place} (h : ∀ c ∈ copies, c.target ≠ place) :
    replay held copies place = held place := by
  induction copies using List.reverseRecOn with
  | nil => rfl
  | append_singleton copies c ih =>
      have hc : place ≠ c.target := Ne.symm (h c (by simp))
      rw [replay_concat, Copy.run, if_neg hc]
      exact ih fun d hd => h d (List.mem_append_left _ hd)

/-- What is emptied holds nothing. -/
theorem replay_of_mem_emptied {place : Place} (h : place ∈ emptied copies) :
    replay held copies place = some [] := by
  induction copies using List.reverseRecOn generalizing place with
  | nil => exact absurd h List.not_mem_nil
  | append_singleton copies c ih =>
      rw [emptied_concat] at h
      rw [replay_concat, Copy.run]
      by_cases hp : place = c.target
      · subst hp
        rw [if_pos rfl]
        by_cases hself : c.source = c.target
        · rw [if_pos hself]
        · rw [if_neg hself]
          exact ih ((Copy.mem_mark_target.1 h).resolve_left hself)
      · rw [if_neg hp]
        exact ih ((Copy.mem_mark_of_ne hp).1 h)

/-- No copy is at odds with another copy, or with a place that is to be kept. -/
structure Agrees (held : Place → Option Text.Bytes) (copies : List Copy) (kept : List Place) :
    Prop where
  kept : ∀ c ∈ copies, c.target ∈ kept → held c.source = held c.target
  copies : ∀ c ∈ copies, ∀ d ∈ copies, c.target = d.target → held c.source = held d.source

theorem Agrees.left {more : List Copy} (h : Agrees held (copies ++ more) kept) :
    Agrees held copies kept := by
  constructor
  · intro c hc
    exact h.kept c (List.mem_append_left _ hc)
  · intro c hc d hd
    exact h.copies c (List.mem_append_left _ hc) d (List.mem_append_left _ hd)

/-- Copies that agree bring what they should, but to places that are emptied. -/
theorem replay_target (h : Agrees held copies kept) (hs : ∀ c ∈ copies, c.source ∈ kept)
    {c : Copy} (hc : c ∈ copies) (hne : c.target ∉ emptied copies) :
    replay held copies c.target = held c.source := by
  induction copies using List.reverseRecOn generalizing c with
  | nil => exact absurd hc List.not_mem_nil
  | append_singleton copies d ih =>
      have earlier := fun {c} => ih h.left (fun c hc => hs c (List.mem_append_left _ hc)) (c := c)
      rw [emptied_concat] at hne
      rw [replay_concat, Copy.run]
      by_cases htarget : c.target = d.target
      · rw [htarget, Copy.mem_mark_target, not_or] at hne
        obtain ⟨hself, hne⟩ := hne
        rw [if_pos htarget, if_neg hself, h.copies c hc d (by simp) htarget]
        by_cases hwritten : ∃ e ∈ copies, e.target = d.source
        · obtain ⟨e, he, hed⟩ := hwritten
          have hkept : e.target ∈ kept := hed ▸ hs d (by simp)
          have hsource := h.kept e (List.mem_append_left _ he) hkept
          rw [← hed, earlier he (hed ▸ hne), hsource]
        · simp only [not_exists, not_and] at hwritten
          exact replay_of_forall_ne hwritten
      · rw [if_neg htarget]
        rw [Copy.mem_mark_of_ne htarget] at hne
        cases List.mem_append.1 hc with
        | inl hc => exact earlier hc hne
        | inr hc => exact absurd (congrArg Copy.target (List.mem_singleton.1 hc)) htarget

/-- When copies bring what they should and leave what is to be kept: they have to agree, and
what is emptied has to have been empty. -/
theorem replay_faithful_iff (held : Place → Option Text.Bytes)
    (hs : ∀ c ∈ copies, c.source ∈ kept) :
    ((∀ c ∈ copies, replay held copies c.target = held c.source) ∧
        ∀ place ∈ kept, replay held copies place = held place) ↔
      Agrees held copies kept ∧
        ∀ c ∈ copies, c.target ∈ emptied copies → held c.source = some [] := by
  constructor
  · rintro ⟨hcopies, hkept⟩
    refine ⟨⟨?_, ?_⟩, ?_⟩
    · intro c hc hk
      rw [← hcopies c hc, hkept _ hk]
    · intro c hc d hd e
      rw [← hcopies c hc, ← hcopies d hd, e]
    · intro c hc he
      rw [← hcopies c hc, replay_of_mem_emptied he]
  · rintro ⟨hagrees, hempty⟩
    have brings : ∀ c ∈ copies, replay held copies c.target = held c.source := by
      intro c hc
      by_cases he : c.target ∈ emptied copies
      · rw [replay_of_mem_emptied he, hempty c hc he]
      · exact replay_target hagrees hs hc he
    refine ⟨brings, ?_⟩
    intro place hp
    by_cases hwritten : ∃ c ∈ copies, c.target = place
    · obtain ⟨c, hc, rfl⟩ := hwritten
      rw [brings c hc, hagrees.kept c hc hp]
    · simp only [not_exists, not_and] at hwritten
      exact replay_of_forall_ne hwritten

end Delivery

end HeaderGather
