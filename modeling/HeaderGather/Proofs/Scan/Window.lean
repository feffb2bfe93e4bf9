import Mathlib.Data.List.Induction
import HeaderGather.Scan

/-! The part of a source that a scan reads, told without counting line by line: the
shortest beginning of it in which the window has passed since the last include. -/
namespace HeaderGather

def Directive.isInclude : Directive → Bool
  | .include _ _ => true
  | _ => false

namespace Scan

def isInclude (line : List Char) : Bool := (Directive.ofLine line).isInclude

def isOther (line : List Char) : Bool := decide (Directive.ofLine line = .other)

def isMalformed (line : List Char) : Bool := decide (Directive.ofLine line = .malformed)

/-- How many other lines follow the last include. Malformed directives among them
are not counted. -/
def othersAfter (lines : List (List Char)) : Nat :=
  (lines.reverse.takeWhile fun line => !isInclude line).countP isOther

/-- Some lines have an include, and after the last one as many other lines as the
window has. -/
def Closes (window : Option Nat) (lines : List (List Char)) : Prop :=
  (∃ line ∈ lines, isInclude line) ∧ window = some (othersAfter lines)

/-- What is read of some lines: the shortest beginning that closes, or all of them. -/
structure IsRead (window : Option Nat) (lines part : List (List Char)) : Prop where
  beginning : part <+: lines
  shortest : ∀ other, other <+: lines → Closes window other → part.length ≤ other.length
  ending : Closes window part ∨ part = lines

theorem IsRead.unique {window : Option Nat} {lines part other : List (List Char)}
    (h : IsRead window lines part) (h' : IsRead window lines other) : part = other := by
  have hle : part.length ≤ other.length := by
    cases h'.ending with
    | inl closes => exact h.shortest other h'.beginning closes
    | inr all => exact all ▸ h.beginning.length_le
  have hge : other.length ≤ part.length := by
    cases h.ending with
    | inl closes => exact h'.shortest part h.beginning closes
    | inr all => exact all ▸ h'.beginning.length_le
  exact (List.prefix_of_prefix_length_le h.beginning h'.beginning hle).eq_of_length
    (Nat.le_antisymm hle hge)

theorem sinceAfter_append (lines : List (List Char)) (line : List Char) :
    sinceAfter (lines ++ [line]) = since (sinceAfter lines) (.ofLine line) := by
  simp only [sinceAfter, List.foldl_append, List.foldl_cons, List.foldl_nil]

theorem othersAfter_append (lines : List (List Char)) (line : List Char) :
    othersAfter (lines ++ [line]) =
      if isInclude line then 0 else othersAfter lines + if isOther line then 1 else 0 := by
  by_cases h : isInclude line
  · simp [othersAfter, h]
  · simp [othersAfter, h, List.countP_cons]

/-- The running count says at every point what is to be said of the lines behind it. -/
theorem sinceAfter_eq (lines : List (List Char)) :
    sinceAfter lines = if lines.any isInclude then some (othersAfter lines) else none := by
  induction lines using List.reverseRecOn with
  | nil => rfl
  | append_singleton lines line ih =>
      rw [sinceAfter_append, othersAfter_append, ih, List.any_append]
      cases h : Directive.ofLine line with
      | other =>
          have hi : isInclude line = false := by simp [isInclude, h, Directive.isInclude]
          have ho : isOther line = true := by simp [isOther, h]
          by_cases any : lines.any isInclude <;> simp [any, hi, ho, since]
      | malformed =>
          have hi : isInclude line = false := by simp [isInclude, h, Directive.isInclude]
          have ho : isOther line = false := by simp [isOther, h]
          simp [hi, ho, since]
      | «include» text name =>
          have hi : isInclude line = true := by simp [isInclude, h, Directive.isInclude]
          simp [hi, since]

theorem closes_iff (window : Option Nat) (lines : List (List Char)) :
    Closes window lines ↔ ∃ w, window = some w ∧ sinceAfter lines = some w := by
  rw [sinceAfter_eq, Closes]
  by_cases any : lines.any isInclude
  · have he : ∃ line ∈ lines, isInclude line := List.any_eq_true.1 any
    simp [any, he]
  · have he : ¬ ∃ line ∈ lines, isInclude line := fun h => any (List.any_eq_true.2 h)
    simp [any, he]

/-- The count goes up by one at a time, so it cannot pass the window unseen. -/
theorem sinceAfter_le {w n : Nat} {lines : List (List Char)}
    (open_ : ∀ p, p <+: lines → p ≠ lines → ¬ Closes (some w) p)
    (h : sinceAfter lines = some n) : n ≤ w := by
  induction lines using List.reverseRecOn generalizing n with
  | nil => simp [sinceAfter] at h
  | append_singleton lines line ih =>
      have before : ∀ m, sinceAfter lines = some m → m ≤ w ∧ m ≠ w := by
        intro m hm
        have hne : lines ≠ lines ++ [line] := by simp
        refine ⟨ih (fun p hp _ => ?_) hm, fun e => ?_⟩
        · apply open_ p (hp.trans (List.prefix_append _ _))
          intro e
          have hle := hp.length_le
          rw [e, List.length_append, List.length_singleton] at hle
          omega
        · exact open_ lines (List.prefix_append _ _) hne ((closes_iff _ _).2 ⟨w, rfl, e ▸ hm⟩)
      rw [sinceAfter_append] at h
      cases hd : Directive.ofLine line with
      | other =>
          simp only [hd, since, Option.map_eq_some_iff] at h
          obtain ⟨m, hm, rfl⟩ := h
          have := before m hm
          omega
      | malformed => exact (before n (by simpa [hd, since] using h)).1
      | «include» text name =>
          simp only [hd, since, Option.some.injEq] at h
          omega

theorem passed_of_closes {window : Option Nat} {lines : List (List Char)}
    (h : Closes window lines) : passed window (sinceAfter lines) = true := by
  obtain ⟨w, rfl, hs⟩ := (closes_iff _ _).1 h
  simp [passed, hs]

theorem closes_of_passed {window : Option Nat} {lines : List (List Char)}
    (open_ : ∀ p, p <+: lines → p ≠ lines → ¬ Closes window p)
    (h : passed window (sinceAfter lines) = true) : Closes window lines := by
  cases window with
  | none => simp [passed] at h
  | some w =>
      cases hs : sinceAfter lines with
      | none => simp [passed, hs] at h
      | some n =>
          have hle : w ≤ n := by simpa [passed, hs] using h
          have hge : n ≤ w := sinceAfter_le open_ hs
          exact (closes_iff _ _).2 ⟨w, rfl, by rw [hs, Nat.le_antisymm hge hle]⟩

/-- Reading goes on from lines of which no shorter beginning closes. -/
theorem isRead_from (window : Option Nat) (done rest : List (List Char))
    (open_ : ∀ p, p <+: done → p ≠ done → ¬ Closes window p) :
    IsRead window (done ++ rest) (done ++ consumed window (sinceAfter done) rest) := by
  induction rest generalizing done with
  | nil =>
      simp only [consumed, List.append_nil]
      refine ⟨List.prefix_refl done, fun other hp closes => ?_, .inr rfl⟩
      by_cases e : other = done
      · exact e ▸ Nat.le_refl _
      · exact absurd closes (open_ other hp e)
  | cons line rest ih =>
      by_cases hp : passed window (sinceAfter done) = true
      · simp only [consumed, hp, if_true, List.append_nil]
        refine ⟨List.prefix_append _ _, fun other ho closes => ?_, .inl (closes_of_passed open_ hp)⟩
        cases List.prefix_or_prefix_of_prefix ho (List.prefix_append done (line :: rest)) with
        | inl shorter =>
            by_cases e : other = done
            · exact e ▸ Nat.le_refl _
            · exact absurd closes (open_ other shorter e)
        | inr longer => exact longer.length_le
      · have next : ∀ p, p <+: done ++ [line] → p ≠ done ++ [line] → ¬ Closes window p := by
          intro p hpre hne closes
          cases List.prefix_concat_iff.1 hpre with
          | inl e => exact hne e
          | inr shorter =>
              by_cases e : p = done
              · exact hp (passed_of_closes (e ▸ closes))
              · exact open_ p shorter e closes
        have step := ih (done ++ [line]) next
        rw [sinceAfter_append] at step
        simpa [consumed, hp] using step

theorem isRead_consumed (window : Option Nat) (lines : List (List Char)) :
    IsRead window lines (consumed window none lines) := by
  have h := isRead_from window [] lines (fun p hp hne => absurd (List.prefix_nil.1 hp) hne)
  simpa [sinceAfter] using h

/-- Somewhere in the lines, after the last of them perhaps, the window has passed. -/
def Stops (window : Option Nat) (lines : List (List Char)) : Prop :=
  ∃ part, part <+: lines ∧ Closes window part

theorem passed_consumed_iff (window : Option Nat) (lines : List (List Char)) :
    passed window (sinceAfter (consumed window none lines)) = true ↔ Stops window lines := by
  obtain ⟨hbeginning, hshortest, hending⟩ := isRead_consumed window lines
  constructor
  · intro hpassed
    refine ⟨_, hbeginning, closes_of_passed ?_ hpassed⟩
    intro p hp hne hcloses
    exact hne (hp.eq_of_length_le (hshortest p (hp.trans hbeginning) hcloses))
  · rintro ⟨part, hpart, hcloses⟩
    apply passed_of_closes
    cases hending with
    | inl closes => exact closes
    | inr all =>
        have hle := hshortest part hpart hcloses
        rw [all] at hle ⊢
        rwa [hpart.eq_of_length_le hle] at hcloses

end Scan

end HeaderGather
