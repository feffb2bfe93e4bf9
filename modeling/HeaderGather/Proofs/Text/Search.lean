import Mathlib.Data.List.Basic
import Mathlib.Data.List.TakeWhile
import HeaderGather.Text.Blank
import HeaderGather.Text.Search

/-! What is found when a text is searched for a word, and what is left when it is trimmed,
both told without following the search. -/
namespace HeaderGather.Text

/-- The word stands between the two parts, and nowhere further to the left. -/
structure FirstAt (word text before after : List Char) : Prop where
  whole : text = before ++ word ++ after
  first : ∀ earlier later, text = earlier ++ word ++ later → before.length ≤ earlier.length

section FirstAt

variable {word text before after : List Char} {c : Char}

theorem firstAt_of_append (word after : List Char) : FirstAt word (word ++ after) [] after :=
  ⟨rfl, fun _ _ _ => Nat.zero_le _⟩

/-- Where a text begins with the word, that is where the word is first. -/
theorem FirstAt.eq_of_append (h : FirstAt word (word ++ after) before text) :
    before = [] ∧ text = after := by
  have hlen : before.length ≤ 0 := h.first [] after rfl
  obtain rfl := List.length_eq_zero_iff.1 (Nat.le_zero.1 hlen)
  exact ⟨rfl, (List.append_cancel_left h.whole).symm⟩

theorem FirstAt.cons (hn : ¬ word <+: c :: text) (h : FirstAt word text before after) :
    FirstAt word (c :: text) (c :: before) after := by
  constructor
  · rw [h.whole]
    rfl
  · intro earlier later e
    cases earlier with
    | nil => exact absurd ⟨later, e.symm⟩ hn
    | cons d earlier =>
        obtain ⟨-, e⟩ := List.cons.inj e
        exact Nat.succ_le_succ (h.first earlier later e)

theorem FirstAt.uncons (hn : ¬ word <+: c :: text) (h : FirstAt word (c :: text) before after) :
    ∃ before', before = c :: before' ∧ FirstAt word text before' after := by
  cases before with
  | nil => exact absurd ⟨after, h.whole.symm⟩ hn
  | cons d before =>
      obtain ⟨rfl, hwhole⟩ := List.cons.inj h.whole
      refine ⟨before, rfl, hwhole, ?_⟩
      intro earlier later e
      exact Nat.le_of_succ_le_succ (h.first (c :: earlier) later (congrArg (c :: ·) e))

theorem cut?_eq_some_iff :
    cut? word text = some (before, after) ↔ FirstAt word text before after := by
  induction text generalizing before with
  | nil =>
      constructor
      · intro h
        by_cases hw : word = []
        · subst hw
          obtain ⟨rfl, rfl⟩ : [] = before ∧ [] = after := by simpa [cut?] using h
          exact firstAt_of_append [] []
        · simp [cut?, hw] at h
      · intro h
        obtain ⟨rfl, rfl, rfl⟩ : before = [] ∧ word = [] ∧ after = [] := by
          simpa using h.whole
        rfl
  | cons c text ih =>
      cases hp : word.isPrefixOf? (c :: text) with
      | some rest =>
          rw [cut?, hp, ← List.isPrefixOf?_eq_some_iff_append_eq.1 hp]
          constructor
          · intro h
            obtain ⟨rfl, rfl⟩ := Prod.mk.inj (Option.some.inj h)
            exact firstAt_of_append word rest
          · intro h
            obtain ⟨rfl, rfl⟩ := h.eq_of_append
            rfl
      | none =>
          have hn : ¬ word <+: c :: text := by
            rintro ⟨rest, hrest⟩
            rw [List.isPrefixOf?_eq_some_iff_append_eq.2 hrest] at hp
            exact nomatch hp
          simp only [cut?, hp, Option.map_eq_some_iff, Prod.exists, Prod.mk.injEq]
          constructor
          · rintro ⟨before, _, h, rfl, rfl⟩
            exact (ih.1 h).cons hn
          · intro h
            obtain ⟨before', rfl, htail⟩ := h.uncons hn
            exact ⟨before', after, ih.2 htail, rfl, rfl⟩

/-- Of a word of one letter, the first place is the first letter that is the same. -/
theorem firstAt_singleton :
    FirstAt [c] text before after ↔ text = before ++ c :: after ∧ c ∉ before := by
  constructor
  · intro h
    refine ⟨by simp [h.whole], fun hmem => ?_⟩
    obtain ⟨earlier, later, rfl⟩ := List.append_of_mem hmem
    have hlen := h.first earlier (later ++ [c] ++ after) (by simp [h.whole])
    rw [List.length_append, List.length_cons] at hlen
    omega
  · rintro ⟨hwhole, hmem⟩
    refine ⟨by simp [hwhole], fun earlier later e => ?_⟩
    rw [hwhole, List.append_assoc, List.singleton_append] at e
    obtain ⟨more, hearlier, -⟩ | ⟨more, hbefore, hrest⟩ := List.append_eq_append_iff.1 e
    · simp [hearlier]
    · cases more with
      | nil => simp [hbefore]
      | cons d more =>
          obtain ⟨rfl, -⟩ := List.cons.inj hrest
          exact absurd (by simp [hbefore]) hmem

theorem cut?_singleton :
    cut? [c] text = some (before, after) ↔ text = before ++ c :: after ∧ c ∉ before :=
  cut?_eq_some_iff.trans firstAt_singleton

end FirstAt

section Cut

variable {α : Type} {p : α → Bool} {left rest : List α} (hleft : ∀ a ∈ left, p a = true)
  (hrest : ∀ a, rest.head? = some a → p a = false)
include hleft hrest

theorem takeWhile_append_of_head : (left ++ rest).takeWhile p = left := by
  rw [List.takeWhile_append_of_pos hleft]
  cases rest with
  | nil => exact List.append_nil left
  | cons a rest => simp [hrest a rfl]

theorem dropWhile_append_of_head : (left ++ rest).dropWhile p = rest := by
  rw [List.dropWhile_append_of_pos hleft]
  cases rest with
  | nil => rfl
  | cons a rest => simp [hrest a rfl]

end Cut

/-- The value is what is left of the text without the blank characters at both ends. -/
structure TrimsTo (text value : List Char) : Prop where
  around : ∃ left right, text = left ++ value ++ right ∧
    (∀ c ∈ left, isBlank c = true) ∧ ∀ c ∈ right, isBlank c = true
  head : ∀ c, value.head? = some c → isBlank c = false
  last : ∀ c, value.getLast? = some c → isBlank c = false

section Trim

variable {text value : List Char}

theorem dropEnd_blank_append {right : List Char} (h : ∀ c ∈ right, isBlank c = true)
    (hv : ∀ c, value.getLast? = some c → isBlank c = false) :
    dropEnd isBlank (value ++ right) = value := by
  have hback : (right.reverse ++ value.reverse).dropWhile isBlank = value.reverse := by
    apply dropWhile_append_of_head
    · exact fun c hc => h c (List.mem_reverse.1 hc)
    · exact fun c hc => hv c (by rwa [← List.head?_reverse])
  rw [dropEnd, List.reverse_append, hback, List.reverse_reverse]

theorem TrimsTo.trim_eq (h : TrimsTo text value) : trim text = value := by
  obtain ⟨left, right, rfl, hleft, hright⟩ := h.around
  rw [trim, trimStart, List.append_assoc]
  cases value with
  | nil =>
      have all : ∀ c ∈ left ++ right, isBlank c = true := by
        intro c hc
        cases List.mem_append.1 hc with
        | inl hc => exact hleft c hc
        | inr hc => exact hright c hc
      rw [List.nil_append, List.dropWhile_eq_nil_iff.2 all]
      rfl
  | cons c value =>
      rw [dropWhile_append_of_head hleft (by simpa using h.head),
        dropEnd_blank_append hright h.last]

theorem trimsTo_trim (text : List Char) : TrimsTo text (trim text) := by
  let left := text.takeWhile isBlank
  let right := ((trimStart text).reverse.takeWhile isBlank).reverse
  have hstart : left ++ trimStart text = text := List.takeWhile_append_dropWhile
  have hend : trim text ++ right = trimStart text := by
    rw [trim, dropEnd, ← List.reverse_append, List.takeWhile_append_dropWhile, List.reverse_reverse]
  have blank : ∀ l : List Char, ∀ c ∈ l.takeWhile isBlank, isBlank c = true :=
    fun l c hc => List.all_eq_true.1 List.all_takeWhile c hc
  have stop : ∀ l : List Char, ∀ c, (l.dropWhile isBlank).head? = some c → isBlank c = false := by
    intro l c hc
    have hl := List.head?_dropWhile_not isBlank l
    rw [hc] at hl
    simpa using hl
  refine ⟨⟨left, right, ?_, blank text, ?_⟩, ?_, ?_⟩
  · rw [List.append_assoc, hend, hstart]
  · intro c hc
    exact blank _ c (List.mem_reverse.1 hc)
  · intro c hc
    cases ht : trim text with
    | nil => simp [ht] at hc
    | cons d value =>
        have hd : (trimStart text).head? = some c := by
          rw [← hend, ht, List.cons_append]
          simpa [ht] using hc
        exact stop text c hd
  · intro c hc
    rw [trim, dropEnd, List.getLast?_reverse] at hc
    exact stop _ c hc

end Trim

end HeaderGather.Text
