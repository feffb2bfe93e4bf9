import Mathlib.Data.List.DropRight
import HeaderGather.Directive
import HeaderGather.Proofs.Text.Search
import HeaderGather.Proofs.Text.Split

/-! The grammar of directives. A line that names a header is put together from the keyword,
blanks, a text between delimiters and a rest in which the closing one does not stand again, and
in one way only. What is read off a line is read off these parts. -/
namespace HeaderGather.Directive

variable {opening closing : Char} {blanks text name rest : List Char}

def Unseparated (text : List Char) : Prop := ∀ c ∈ text, c ≠ '/' ∧ c ≠ '\\'

/-- The name is the longest end of the text without a separator. -/
structure IsBaseName (name text : List Char) : Prop where
  ending : name <:+ text
  unseparated : Unseparated name
  longest : ∀ other, other <:+ text → Unseparated other → other.length ≤ name.length

/-- A text that has a name: it does not end in a separator. -/
def Named (text : List Char) : Prop :=
  text ≠ [] ∧ ∀ c, text.getLast? = some c → c ≠ '/' ∧ c ≠ '\\'

theorem isSeparator_eq_false_iff {c : Char} : isSeparator c = false ↔ c ≠ '/' ∧ c ≠ '\\' := by
  simp [isSeparator]

theorem IsBaseName.unique {other : List Char} (h : IsBaseName name text)
    (h' : IsBaseName other text) : name = other := by
  have hle : name.length ≤ other.length := h'.longest name h.ending h.unseparated
  have hge : other.length ≤ name.length := h.longest other h'.ending h'.unseparated
  exact (List.suffix_of_suffix_length_le h.ending h'.ending hle).eq_of_length
    (Nat.le_antisymm hle hge)

theorem isBaseName_baseName (text : List Char) : IsBaseName (baseName text) text := by
  refine ⟨List.rtakeWhile_suffix _ text, fun c hc => ?_, ?_⟩
  · exact isSeparator_eq_false_iff.1 (by simpa using List.mem_rtakeWhile_imp hc)
  · rintro other ⟨front, rfl⟩ hother
    have all : ∀ c ∈ other.reverse, (!isSeparator c) = true := by
      intro c hc
      rw [isSeparator_eq_false_iff.2 (hother c (List.mem_reverse.1 hc)), Bool.not_false]
    rw [baseName, List.reverse_append, List.takeWhile_append_of_pos all, List.reverse_append,
      List.reverse_reverse, List.length_append]
    exact Nat.le_add_left _ _

theorem isBaseName_iff : IsBaseName name text ↔ name = baseName text := by
  constructor
  · exact fun h => h.unique (isBaseName_baseName text)
  · rintro rfl
    exact isBaseName_baseName text

theorem baseName_ne_nil_iff : baseName text ≠ [] ↔ Named text := by
  have hnil : baseName text = [] ↔ ∀ h : text ≠ [], ¬ (!isSeparator (text.getLast h)) = true :=
    List.rtakeWhile_eq_nil_iff
  rw [ne_eq, hnil, not_forall, Named]
  constructor
  · rintro ⟨hne, hlast⟩
    refine ⟨hne, fun c hc => isSeparator_eq_false_iff.1 ?_⟩
    rw [List.getLast?_eq_some_getLast hne, Option.some.injEq] at hc
    simpa [hc] using hlast
  · rintro ⟨hne, hlast⟩
    refine ⟨hne, ?_⟩
    have hc := hlast _ (List.getLast?_eq_some_getLast hne)
    rw [isSeparator_eq_false_iff.2 hc]
    exact not_not_intro rfl

/-- Angle brackets or quotes. -/
def Delimits (opening closing : Char) : Prop :=
  opening = '<' ∧ closing = '>' ∨ opening = '"' ∧ closing = '"'

theorem closing?_eq_some_iff : closing? opening = some closing ↔ Delimits opening closing := by
  unfold closing? Delimits
  split
  · simp_all [eq_comm]
  · split <;> simp_all [eq_comm]

theorem Delimits.not_blank (h : Delimits opening closing) : Text.isBlank opening = false := by
  obtain ⟨rfl, -⟩ | ⟨rfl, -⟩ := h <;> decide

theorem beforeLast?_append (text : List Char) (h : closing ∉ rest) :
    beforeLast? closing (text ++ closing :: rest) = some text := by
  have hrest : ∀ c ∈ rest.reverse, decide (c ≠ closing) = true := by
    intro c hc
    have hne : c ≠ closing := fun e => h (e ▸ List.mem_reverse.1 hc)
    exact decide_eq_true hne
  rw [beforeLast?, List.reverse_append, List.reverse_cons, List.append_assoc,
    List.dropWhile_append_of_pos hrest]
  simp

theorem beforeLast?_eq_none (h : closing ∉ text) : beforeLast? closing text = none := by
  have hnil : text.reverse.dropWhile (· ≠ closing) = [] := by
    rw [List.dropWhile_eq_nil_iff]
    intro c hc
    have hne : c ≠ closing := fun e => h (e ▸ List.mem_reverse.1 hc)
    exact decide_eq_true hne
  rw [beforeLast?, hnil]

/-- What a search for the last closing character finds is the text before it. -/
theorem beforeLast?_eq_some_iff {body : List Char} : beforeLast? closing body = some text ↔
    ∃ rest, body = text ++ closing :: rest ∧ closing ∉ rest := by
  constructor
  · intro h
    by_cases hmem : closing ∈ body
    · obtain ⟨front, hfront⟩ := Text.eq_append_afterLast hmem
      have hrest := Text.not_mem_afterLast closing body
      rw [hfront, beforeLast?_append front hrest, Option.some.injEq] at h
      exact ⟨_, h ▸ hfront, hrest⟩
    · rw [beforeLast?_eq_none hmem] at h
      exact nomatch h
  · rintro ⟨rest, rfl, hrest⟩
    exact beforeLast?_append text hrest

theorem ofLine_of_keyword (rest : List Char) :
    ofLine (keyword ++ rest) = ofArgument (Text.trimStart rest) := by
  have hk : keyword.isPrefixOf? (keyword ++ rest) = some rest :=
    List.isPrefixOf?_eq_some_iff_append_eq.2 rfl
  rw [ofLine, hk]

theorem ofArgument_ne_other (argument : List Char) : ofArgument argument ≠ .other := by
  fun_cases ofArgument argument <;> exact nofun

theorem ofLine_other_iff {line : List Char} : ofLine line = .other ↔ ¬ keyword <+: line := by
  constructor
  · rintro h ⟨rest, rfl⟩
    rw [ofLine_of_keyword] at h
    exact ofArgument_ne_other _ h
  · intro h
    have hk : keyword.isPrefixOf? line = none := by
      rw [Option.eq_none_iff_forall_ne_some]
      exact fun rest hrest => h ⟨rest, List.isPrefixOf?_eq_some_iff_append_eq.1 hrest⟩
    rw [ofLine, hk]

theorem ofArgument_delimited (h : Delimits opening closing) (text : List Char)
    (hrest : closing ∉ rest) : ofArgument (opening :: (text ++ closing :: rest)) =
      if baseName text = [] then .malformed else .include text (baseName text) := by
  rw [ofArgument, closing?_eq_some_iff.2 h, Option.bind_some, beforeLast?_append text hrest]

/-- A line that is put together like a directive names what its text names, and is malformed where
this names nothing. -/
theorem ofLine_delimited (hblanks : ∀ c ∈ blanks, Text.isBlank c = true)
    (h : Delimits opening closing) (text : List Char) (hrest : closing ∉ rest) :
    ofLine (keyword ++ (blanks ++ opening :: (text ++ closing :: rest))) =
      if baseName text = [] then .malformed else .include text (baseName text) := by
  have htrim : Text.trimStart (blanks ++ opening :: (text ++ closing :: rest)) =
      opening :: (text ++ closing :: rest) := by
    apply Text.dropWhile_append_of_head hblanks
    rintro c ⟨⟩
    exact h.not_blank
  rw [ofLine_of_keyword, htrim, ofArgument_delimited h text hrest]

/-- A directive taken apart. -/
structure Spelling where
  blanks : List Char
  opening : Char
  text : List Char
  closing : Char
  rest : List Char
  blank : ∀ c ∈ blanks, Text.isBlank c = true
  delimits : Delimits opening closing
  named : Named text
  last : closing ∉ rest

namespace Spelling

def line (s : Spelling) : List Char :=
  keyword ++ (s.blanks ++ s.opening :: (s.text ++ s.closing :: s.rest))

theorem ofLine_line (s : Spelling) : ofLine s.line = .include s.text (baseName s.text) := by
  rw [line, ofLine_delimited s.blank s.delimits s.text s.last,
    if_neg (baseName_ne_nil_iff.2 s.named)]

/-- From left to right: the blanks end where no blank is, the text is what the line names, and
the rest is what is left. -/
theorem line_injective : Function.Injective line := by
  intro s s' h
  have htext : s.text = s'.text := by
    have hread := s.ofLine_line
    rw [h, s'.ofLine_line] at hread
    exact (Directive.include.inj hread).1.symm
  have hafter := List.append_cancel_left h
  have hblanks : ∀ s : Spelling,
      (s.blanks ++ s.opening :: (s.text ++ s.closing :: s.rest)).takeWhile Text.isBlank =
        s.blanks := by
    intro s
    apply Text.takeWhile_append_of_head s.blank
    rintro c ⟨⟩
    exact s.delimits.not_blank
  have hb : s.blanks = s'.blanks := by rw [← hblanks s, hafter, hblanks s']
  rw [hb, List.append_cancel_left_eq, htext] at hafter
  obtain ⟨hopening, htail⟩ := List.cons.inj hafter
  obtain ⟨hclosing, hrest⟩ := List.cons.inj (List.append_cancel_left htail)
  obtain ⟨blanks, opening, text, closing, rest⟩ := s
  obtain ⟨blanks', opening', text', closing', rest'⟩ := s'
  subst hb hopening htext hclosing hrest
  rfl

end Spelling

/-- Whatever names a header is spelled in this way. -/
theorem exists_spelling {line : List Char} (h : ofLine line = .include text name) :
    ∃ s : Spelling, s.line = line ∧ s.text = text ∧ name = baseName text := by
  have hk : keyword <+: line := by
    by_contra hk
    exact nomatch h.symm.trans (ofLine_other_iff.2 hk)
  obtain ⟨argument, rfl⟩ := hk
  rw [ofLine_of_keyword] at h
  have hblanks : argument.takeWhile Text.isBlank ++ Text.trimStart argument = argument :=
    List.takeWhile_append_dropWhile
  have blank : ∀ c ∈ argument.takeWhile Text.isBlank, Text.isBlank c = true :=
    fun c hc => List.mem_takeWhile_imp hc
  cases ha : Text.trimStart argument with
  | nil =>
      rw [ha] at h
      exact nomatch h
  | cons opening body =>
      rw [ha, ofArgument] at h
      cases hb : (closing? opening).bind fun c => beforeLast? c body with
      | none =>
          rw [hb] at h
          exact nomatch h
      | some inner =>
          obtain ⟨closing, hclosing, hinner⟩ := Option.bind_eq_some_iff.1 hb
          obtain ⟨rest, rfl, hrest⟩ := beforeLast?_eq_some_iff.1 hinner
          by_cases hname : baseName inner = []
          · simp [hb, hname] at h
          · simp only [hb, hname, if_false, Directive.include.injEq] at h
            obtain ⟨rfl, rfl⟩ := h
            refine ⟨⟨_, opening, inner, closing, rest, blank, closing?_eq_some_iff.1 hclosing,
              baseName_ne_nil_iff.1 hname, hrest⟩, ?_, rfl, rfl⟩
            rw [Spelling.line, ← ha, hblanks]

theorem ofLine_include_iff {line : List Char} : ofLine line = .include text name ↔
    ∃ s : Spelling, s.line = line ∧ s.text = text ∧ IsBaseName name text := by
  constructor
  · intro h
    obtain ⟨s, hline, htext, hname⟩ := exists_spelling h
    exact ⟨s, hline, htext, isBaseName_iff.2 hname⟩
  · rintro ⟨s, rfl, rfl, hname⟩
    rw [s.ofLine_line, isBaseName_iff.1 hname]

/-- A directive is malformed if it cannot be spelled. -/
theorem ofLine_malformed_iff {line : List Char} :
    ofLine line = .malformed ↔ keyword <+: line ∧ ¬ ∃ s : Spelling, s.line = line := by
  constructor
  · intro h
    refine ⟨?_, ?_⟩
    · by_contra hk
      exact nomatch h.symm.trans (ofLine_other_iff.2 hk)
    · rintro ⟨s, rfl⟩
      exact nomatch h.symm.trans s.ofLine_line
  · rintro ⟨hk, hs⟩
    cases h : ofLine line with
    | other => exact absurd hk (ofLine_other_iff.1 h)
    | malformed => rfl
    | «include» text name =>
        obtain ⟨s, hline, -⟩ := exists_spelling h
        exact absurd ⟨s, hline⟩ hs

end HeaderGather.Directive
