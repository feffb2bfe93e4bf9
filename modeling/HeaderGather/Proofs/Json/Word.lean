import Mathlib.Data.List.Basic
import Mathlib.Data.List.TakeWhile
import Mathlib.Tactic.SplitIfs
import HeaderGather.Json.Token

/-! Words without quotes. A word goes on to the first character that cannot stand in it, and
no number has such a character. -/
namespace HeaderGather.Json

/-- Whether a character ends the word before it. -/
def endsWord (c : Char) : Bool := isBlank c || c = '"' || (mark? c).isSome

/-- What follows does not go on with a word. -/
def Stops (rest : List Char) : Prop := ∀ c, rest.head? = some c → endsWord c = true

theorem stops_nil : Stops [] := nofun

theorem stops_cons {c : Char} (h : endsWord c = true) (rest : List Char) : Stops (c :: rest) := by
  intro d hd
  obtain rfl := Option.some.inj hd
  exact h

theorem tokensFrom?_blank {c : Char} (h : isBlank c = true) (rest : List Char) :
    tokensFrom? .between (c :: rest) = tokensFrom? .between rest := by
  cases hr : tokensFrom? .between rest <;> simp [tokensFrom?, next?, begin?, h, hr]

theorem tokensFrom?_blanks {blanks : List Char} (h : ∀ c ∈ blanks, isBlank c = true)
    (rest : List Char) : tokensFrom? .between (blanks ++ rest) = tokensFrom? .between rest := by
  induction blanks with
  | nil => rfl
  | cons c blanks ih =>
      rw [List.cons_append, tokensFrom?_blank (h c List.mem_cons_self)]
      exact ih fun d hd => h d (List.mem_cons_of_mem _ hd)

theorem tokensFrom?_mark {c : Char} {token : Token} (h : mark? c = some token)
    (hblank : isBlank c = false) (hquote : c ≠ '"') (rest : List Char) :
    tokensFrom? .between (c :: rest) = (tokensFrom? .between rest).map (token :: ·) := by
  cases hr : tokensFrom? .between rest <;>
    simp [tokensFrom?, next?, begin?, hblank, hquote, h, hr]

theorem begin?_of_not_endsWord {c : Char} (h : endsWord c = false) :
    begin? c = some ([], .word [c]) := by
  simp only [endsWord, Bool.or_eq_false_iff, decide_eq_false_iff_not, Option.isSome_eq_false_iff,
    Option.isNone_iff_eq_none] at h
  obtain ⟨⟨hblank, hquote⟩, hmark⟩ := h
  simp [begin?, hblank, hquote, hmark]

section Word

variable {rest : List Char} (hstop : Stops rest)
include hstop

theorem tokensFrom?_word_read {cs : List Char} (hcs : ∀ c ∈ cs, endsWord c = false)
    (read : List Char) :
    tokensFrom? (.word read) (cs ++ rest) =
      (word? (cs.reverse ++ read).reverse).bind fun token =>
        (tokensFrom? .between rest).map (token :: ·) := by
  induction cs generalizing read with
  | nil =>
      cases rest with
      | nil => cases h : word? read.reverse <;> simp [tokensFrom?, h]
      | cons c rest =>
          have hc := hstop c rfl
          rw [endsWord] at hc
          cases h : word? read.reverse with
          | none => simp [tokensFrom?, next?, hc, h]
          | some token =>
              cases hb : begin? c with
              | none => simp [tokensFrom?, next?, hc, h, hb]
              | some begun =>
                  cases ht : tokensFrom? begun.2 rest <;>
                    simp [tokensFrom?, next?, hc, h, hb, ht]
  | cons c cs ih =>
      have hc := hcs c List.mem_cons_self
      rw [endsWord] at hc
      have hnext : tokensFrom? (.word read) (c :: (cs ++ rest)) =
          tokensFrom? (.word (c :: read)) (cs ++ rest) := by
        simp [tokensFrom?, next?, hc]
      rw [List.cons_append, hnext, ih fun d hd => hcs d (List.mem_cons_of_mem _ hd)]
      simp

/-- A word is one token, if it is followed by something that ends it. -/
theorem tokensFrom?_word {cs : List Char} {token : Token} (hne : cs ≠ [])
    (hcs : ∀ c ∈ cs, endsWord c = false) (hword : word? cs = some token) :
    tokensFrom? .between (cs ++ rest) = (tokensFrom? .between rest).map (token :: ·) := by
  cases cs with
  | nil => exact absurd rfl hne
  | cons c cs =>
      have hopen : tokensFrom? .between (c :: (cs ++ rest)) =
          tokensFrom? (.word [c]) (cs ++ rest) := by
        simp [tokensFrom?, next?, begin?_of_not_endsWord (hcs c List.mem_cons_self)]
      rw [List.cons_append, hopen,
        tokensFrom?_word_read hstop fun d hd => hcs d (List.mem_cons_of_mem _ hd)]
      simp [hword]

end Word

theorem drop_length_takeWhile {α : Type} (p : α → Bool) (l : List α) :
    l.drop (l.takeWhile p).length = l.dropWhile p := by
  induction l with
  | nil => rfl
  | cons a l ih => by_cases h : p a <;> simp [h, ih]

/-- What a number is made of. -/
def isNumeral (c : Char) : Bool := c.isDigit || c ∈ ['-', '+', '.', 'e', 'E']

theorem endsWord_iff {c : Char} : endsWord c = true ↔
    c ∈ [' ', '\n', '\t', '\r', '"', '[', ']', '{', '}', ',', ':'] := by
  have hmark : (mark? c).isSome = true ↔ c ∈ ['[', ']', '{', '}', ',', ':'] := by
    unfold mark?
    split_ifs <;> simp_all
  simp only [endsWord, isBlank, Bool.or_eq_true, decide_eq_true_eq, hmark]
  simp [or_assoc]

theorem endsWord_of_isNumeral {c : Char} (h : isNumeral c = true) : endsWord c = false := by
  have apart : [' ', '\n', '\t', '\r', '"', '[', ']', '{', '}', ',', ':'].all
      (fun d => !isNumeral d) = true := by decide
  rw [Bool.eq_false_iff]
  intro hends
  have hnot := List.all_eq_true.1 apart c (endsWord_iff.1 hends)
  rw [h] at hnot
  exact Bool.false_ne_true hnot

/-- A list is what goes before the first element that does not have a property, that element,
and the rest. -/
theorem mem_cut {α : Type} {p : α → Bool} {l : List α} {a : α} (h : a ∈ l) :
    a ∈ l.takeWhile p ∨ ∃ stop rest, l.drop (l.takeWhile p).length = stop :: rest ∧
      p stop = false ∧ (a = stop ∨ a ∈ rest) := by
  rw [drop_length_takeWhile]
  rw [← List.takeWhile_append_dropWhile (p := p) (l := l), List.mem_append] at h
  refine h.imp id fun hrest => ?_
  have hhead := List.head?_dropWhile_not p l
  cases hd : l.dropWhile p with
  | nil => exact absurd (hd ▸ hrest) List.not_mem_nil
  | cons stop rest =>
      rw [hd] at hhead hrest
      exact ⟨stop, rest, rfl, by simpa using hhead, List.mem_cons.1 hrest⟩

theorem mem_dropSign (signs : List Char) {cs : List Char} {c : Char} (h : c ∈ cs) :
    c ∈ signs ∨ c ∈ dropSign signs cs := by
  cases cs with
  | nil => exact absurd h List.not_mem_nil
  | cons d cs =>
      by_cases hd : d ∈ signs
      · simp only [dropSign, hd, if_true]
        cases List.mem_cons.1 h with
        | inl e => exact .inl (e ▸ hd)
        | inr h => exact .inr h
      · simp only [dropSign, hd, if_false]
        exact .inr h

theorem isNumeral_of_isDigits {cs : List Char} (h : isDigits cs = true) {c : Char} (hc : c ∈ cs) :
    isNumeral c = true := by
  simp only [isDigits, Bool.and_eq_true] at h
  rw [isNumeral, List.all_eq_true.1 h.2 c hc, Bool.true_or]

theorem isNumeral_of_isNumber {cs : List Char} (h : isNumber cs = true) :
    ∀ c ∈ cs, isNumeral c = true := by
  simp only [isNumber, Bool.and_eq_true, Bool.or_eq_true, isWhole] at h
  obtain ⟨⟨⟨hwhole, -⟩, hfraction⟩, hexponent⟩ := h
  intro c hc
  obtain hsign | hbody := mem_dropSign ['-'] hc
  · obtain rfl := List.mem_singleton.1 hsign
    rfl
  obtain hmantissa | ⟨e, rest, hdrop, he, hrest⟩ :=
    mem_cut (p := fun c => c != 'e' && c != 'E') hbody
  · obtain hmem | ⟨point, digits, hdrop, hpoint, hdigits⟩ := mem_cut (p := (· != '.')) hmantissa
    · exact isNumeral_of_isDigits hwhole hmem
    · rw [hdrop] at hfraction
      obtain rfl | hmem := hdigits
      · simp_all [isNumeral]
      · exact isNumeral_of_isDigits (by simpa using hfraction) hmem
  · rw [hdrop] at hexponent
    obtain rfl | hmem := hrest
    · have he : c = 'e' ∨ c = 'E' := by
        by_cases h : c = 'e' <;> simp_all
      cases he with | _ he => rw [he]; rfl
    · obtain hsign | hdigits := mem_dropSign ['+', '-'] hmem
      · have hsigns : ['+', '-'].all isNumeral = true := by decide
        exact List.all_eq_true.1 hsigns c hsign
      · exact isNumeral_of_isDigits (by simpa using hexponent) hdigits

/-- A whole number, without a sign, is a number. -/
theorem isNumber_of_isWhole {cs : List Char} (h : isWhole cs = true) : isNumber cs = true := by
  have hdigits : ∀ c ∈ cs, c.isDigit = true := by
    simp only [isWhole, isDigits, Bool.and_eq_true, List.all_eq_true] at h
    exact h.1.2
  have hall : ∀ d : Char, d.isDigit = false → ∀ c ∈ cs, (c != d) = true := by
    intro d hd c hc
    rw [bne_iff_ne]
    rintro rfl
    exact Bool.false_ne_true (hd.symm.trans (hdigits c hc))
  have hsign : dropSign ['-'] cs = cs := by
    cases cs with
    | nil => rfl
    | cons c cs =>
        have hc := hall '-' rfl c List.mem_cons_self
        simp_all [dropSign]
  have hmantissa : cs.takeWhile (fun c => c != 'e' && c != 'E') = cs :=
    List.takeWhile_eq_self_iff.2 fun c hc => by rw [hall 'e' rfl c hc, hall 'E' rfl c hc]; rfl
  have hwhole : cs.takeWhile (· != '.') = cs := List.takeWhile_eq_self_iff.2 (hall '.' rfl)
  simp [isNumber, hsign, hmantissa, hwhole, h]

/-- Only zero begins with a zero. -/
theorem head?_toDigits {n : Nat} (h : 0 < n) : (Nat.toDigits 10 n).head? ≠ some '0' := by
  induction n using Nat.strongRecOn with
  | ind n ih =>
      have hdigit : ∀ m < 10, 0 < m → m.digitChar ≠ '0' := by decide
      rw [Nat.toDigits_eq_if (by decide)]
      split
      · next hlt => simpa using hdigit n hlt h
      · next hge =>
          rw [List.head?_append_of_ne_nil _ Nat.toDigits_ne_nil]
          exact ih (n / 10) (by omega) (by omega)

theorem isNumber_toString (n : Nat) : isNumber (toString n).toList = true := by
  apply isNumber_of_isWhole
  rw [Nat.toString_eq_ofList_toDigits, String.toList_ofList, isWhole, isDigits, Bool.and_eq_true,
    Bool.and_eq_true, Bool.or_eq_true]
  refine ⟨⟨?_, List.all_eq_true.2 fun c hc => ?_⟩, ?_⟩
  · simp
  · exact Nat.isDigit_of_mem_toDigits (by decide) (by decide) hc
  · rcases Nat.eq_zero_or_pos n with rfl | h
    · exact .inl rfl
    · exact .inr (by simpa using head?_toDigits h)

end HeaderGather.Json
