import HeaderGather.Proofs.Directive.Grammar
import HeaderGather.Proofs.Scan.Sources

/-! Text behind a directive. The text of a directive goes to the last closing character of its
line, so what follows a header on its line is passed over as long as no such character is in it,
and is part of what the line names otherwise. -/
namespace HeaderGather

namespace Text

/-- What is dropped at an end lies behind the last character that is kept. -/
theorem dropEnd_append_cons {p : Char → Bool} {c : Char} (before after : List Char)
    (h : p c = false) : dropEnd p (before ++ c :: after) = before ++ c :: dropEnd p after := by
  have hkept : (c :: before.reverse).dropWhile p = c :: before.reverse :=
    List.dropWhile_cons_of_neg (Bool.eq_false_iff.1 h)
  have hdrop : (after.reverse ++ c :: before.reverse).dropWhile p =
      after.reverse.dropWhile p ++ c :: before.reverse := by
    rw [List.dropWhile_append, hkept]
    split
    · next hnil => rw [List.isEmpty_iff.1 hnil, List.nil_append]
    · rfl
  rw [dropEnd, List.reverse_append, List.reverse_cons, List.append_assoc, List.singleton_append,
    hdrop, List.reverse_append, List.reverse_cons, List.reverse_reverse, List.append_assoc,
    List.singleton_append, dropEnd]

theorem mem_of_mem_dropEnd {p : Char → Bool} {c : Char} {text : List Char}
    (h : c ∈ dropEnd p text) : c ∈ text :=
  List.mem_reverse.1 ((List.dropWhile_sublist p).subset (List.mem_reverse.1 h))

end Text

namespace Directive

/-- A directive with a header that its first closing character ends, and whatever stands behind
that, the line end included. -/
structure Trailed where
  blanks : List Char
  opening : Char
  header : List Char
  closing : Char
  trailing : List Char
  blank : ∀ c ∈ blanks, Text.isBlank c = true
  delimits : Delimits opening closing
  named : Named header
  unclosed : closing ∉ header

namespace Trailed

def line (d : Trailed) : List Char :=
  keyword ++ (d.blanks ++ d.opening :: (d.header ++ d.closing :: d.trailing))

end Trailed

theorem Delimits.not_lineEnd {opening closing : Char} (h : Delimits opening closing) :
    Text.isLineEnd closing = false := by
  obtain ⟨-, rfl⟩ | ⟨-, rfl⟩ := h <;> decide

/-- Without the line end as with it, a line names what stands before its last closing
character. -/
theorem ofLine_lineOf {piece : Text.Bytes} {blanks text rest : List Char} {opening closing : Char}
    (hline : Text.decodeLossy piece =
      keyword ++ (blanks ++ opening :: (text ++ closing :: rest)))
    (hblanks : ∀ c ∈ blanks, Text.isBlank c = true) (h : Delimits opening closing)
    (hrest : closing ∉ rest) : ofLine (Text.lineOf piece) =
      if baseName text = [] then .malformed else .include text (baseName text) := by
  have hcut : Text.lineOf piece =
      keyword ++ (blanks ++ opening :: (text ++ closing :: Text.dropEnd Text.isLineEnd rest)) := by
    have hdrop := Text.dropEnd_append_cons (keyword ++ blanks ++ opening :: text) rest h.not_lineEnd
    simp only [List.append_assoc, List.cons_append] at hdrop
    rw [Text.lineOf, hline, hdrop]
  rw [hcut, ofLine_delimited hblanks h text fun hmem => hrest (Text.mem_of_mem_dropEnd hmem)]

end Directive

namespace Scan

theorem consumed_none (m : Since) (lines : List (List Char)) : consumed none m lines = lines := by
  induction lines generalizing m with
  | nil => rfl
  | cons line lines ih =>
      have hopen : passed none m = false := rfl
      rw [consumed, hopen, ih]
      rfl

/-- The catalog after some lines, given as they stand in a source. -/
def catalogAfter (origin : Path) (c : Catalog) (pieces : List Text.Bytes) : Catalog :=
  (ofLines origin c (pieces.map Text.lineOf)).catalog

/-- Without a window all lines are scanned. -/
theorem ofSource_none_catalog (origin : Path) (source : Source) (c : Catalog) :
    (ofSource none origin source c).catalog = catalogAfter origin c source.pieces := by
  rw [ofSource_catalog, consumed_none]
  rfl

theorem mentions_append (lines more : List (List Char)) :
    mentions (lines ++ more) = mentions lines ++ mentions more := List.filterMap_append

theorem names_catalogAfter (origin : Path) (c : Catalog) (pieces more : List Text.Bytes)
    (name : String) : name ∈ (catalogAfter origin c (pieces ++ more)).names ↔
      name ∈ (catalogAfter origin c pieces).names ∨
        name ∈ (mentions (more.map Text.lineOf)).map Prod.fst := by
  rw [catalogAfter, catalogAfter, names_ofLines, names_ofLines, List.map_append, mentions_append]
  simp only [List.map_append, List.mem_append, or_assoc]

/-- A line with the catalog `earlier` before it and `now` behind it gives the header of a name and
no other, and the header is there in the end. -/
structure Gives (earlier now final : Catalog) (name : String) : Prop where
  present : name ∈ final.names
  alone : ∀ other ∈ now.names, other ∈ earlier.names ∨ other = name

section Piece

variable {piece : Text.Bytes} (origin : Path) (c : Catalog) (before : List Text.Bytes)

theorem gives_of_include (after : List Text.Bytes) {text name : List Char}
    (h : Directive.ofLine (Text.lineOf piece) = .include text name) :
    Gives (catalogAfter origin c before) (catalogAfter origin c (before ++ [piece]))
      (catalogAfter origin c (before ++ piece :: after)) (String.ofList name) := by
  have hmentions : (mentions ([piece].map Text.lineOf)).map Prod.fst = [String.ofList name] := by
    rw [List.map_singleton, mentions_cons, h]
    rfl
  have hnow : ∀ other, other ∈ (catalogAfter origin c (before ++ [piece])).names ↔
      other ∈ (catalogAfter origin c before).names ∨ other = String.ofList name := by
    intro other
    rw [names_catalogAfter, hmentions, List.mem_singleton]
  constructor
  · rw [← List.singleton_append, ← List.append_assoc, names_catalogAfter, hnow]
    exact .inl (.inr rfl)
  · exact fun other hother => (hnow other).1 hother

/-- A malformed directive gives nothing. -/
theorem catalogAfter_of_malformed (h : Directive.ofLine (Text.lineOf piece) = .malformed) :
    catalogAfter origin c (before ++ [piece]) = catalogAfter origin c before := by
  have hmentions : mentions ((before ++ [piece]).map Text.lineOf) =
      mentions (before.map Text.lineOf) := by
    rw [List.map_append, mentions_append, List.map_singleton, mentions_cons, h]
    exact List.append_nil _
  apply Catalog.ext
  rw [catalogAfter, catalogAfter, ofLines_entries, ofLines_entries, hmentions]

end Piece

/-- What follows a header on its line does not matter as long as the closing character is not in
it: the line gives the header and nothing else. Where it is, the text of the directive goes on to
the last of them. The line then gives the name at the end of this longer text and nothing else,
and nothing at all if the text ends in a separator. -/
theorem ofSource_trailing {window : Option Nat} (hwindow : Settings.positive window = none)
    (origin : Path) (c : Catalog) {source : Source} {before after : List Text.Bytes}
    {piece : Text.Bytes} (hpieces : source.pieces = before ++ piece :: after)
    {d : Directive.Trailed} (hline : Text.decodeLossy piece = d.line) :
    let earlier := catalogAfter origin c before
    let now := catalogAfter origin c (before ++ [piece])
    let final := (ofSource (Settings.positive window) origin source c).catalog
    final = catalogAfter origin c (before ++ piece :: after) ∧
      (d.closing ∉ d.trailing → ∀ name, Directive.IsBaseName name d.header →
        Gives earlier now final (String.ofList name)) ∧
      ∀ more rest, d.trailing = more ++ d.closing :: rest → d.closing ∉ rest →
        (Directive.Named (d.header ++ d.closing :: more) →
          ∀ name, Directive.IsBaseName name (d.header ++ d.closing :: more) →
            Gives earlier now final (String.ofList name)) ∧
        (¬ Directive.Named (d.header ++ d.closing :: more) →
          Directive.ofLine (Text.lineOf piece) = .malformed ∧ now = earlier) := by
  intro earlier now final
  have hfinal : final = catalogAfter origin c (before ++ piece :: after) := by
    simp only [final, hwindow, ofSource_none_catalog, hpieces]
  refine ⟨hfinal, ?_, ?_⟩
  · intro hclosing name hname
    have hread := Directive.ofLine_lineOf hline d.blank d.delimits hclosing
    rw [if_neg (Directive.baseName_ne_nil_iff.2 d.named)] at hread
    rw [hfinal, Directive.isBaseName_iff.1 hname]
    exact gives_of_include origin c before after hread
  · intro more rest htrailing hrest
    have hlonger : Text.decodeLossy piece = Directive.keyword ++
        (d.blanks ++ d.opening :: ((d.header ++ d.closing :: more) ++ d.closing :: rest)) := by
      rw [hline, Directive.Trailed.line, htrailing, List.append_assoc, List.cons_append]
    have hread := Directive.ofLine_lineOf hlonger d.blank d.delimits hrest
    constructor
    · intro hnamed name hname
      rw [if_neg (Directive.baseName_ne_nil_iff.2 hnamed)] at hread
      rw [hfinal, Directive.isBaseName_iff.1 hname]
      exact gives_of_include origin c before after hread
    · intro hnamed
      rw [if_pos (not_not.1 fun hne => hnamed (Directive.baseName_ne_nil_iff.1 hne))] at hread
      exact ⟨hread, catalogAfter_of_malformed origin c before hread⟩

/-- A quoted header with a comment behind it. -/
def quoted : Directive.Trailed where
  blanks := [' ']
  opening := '"'
  header := "sys/a.h".toList
  closing := '"'
  trailing := " // see <x/b.h>\r\n".toList
  blank := List.forall_mem_singleton.2 (by decide)
  delimits := Directive.closing?_eq_some_iff.1 rfl
  named := Directive.baseName_ne_nil_iff.1 (by decide)
  unclosed := by decide

theorem ofSource_trailing_quoted :
    let piece := Text.encode quoted.line
    let source := Source.complete (Text.encode "int\n".toList ++ piece)
    Settings.positive (some 0) = none ∧
      source.pieces = [Text.encode "int\n".toList] ++ piece :: [] ∧
      Text.decodeLossy piece = quoted.line ∧ quoted.closing ∉ quoted.trailing ∧
      Directive.IsBaseName "a.h".toList quoted.header ∧
      Gives (catalogAfter ⟨"a.c"⟩ .empty [Text.encode "int\n".toList])
        (catalogAfter ⟨"a.c"⟩ .empty ([Text.encode "int\n".toList] ++ [piece]))
        (ofSource (Settings.positive (some 0)) ⟨"a.c"⟩ source .empty).catalog
        (String.ofList "a.h".toList) := by
  intro piece source
  have hpieces : source.pieces = [Text.encode "int\n".toList] ++ piece :: [] := by decide +kernel
  have hline : Text.decodeLossy piece = quoted.line := by decide +kernel
  have hclosing : quoted.closing ∉ quoted.trailing := by decide
  have hname : Directive.IsBaseName "a.h".toList quoted.header :=
    Directive.isBaseName_iff.2 (by decide)
  have hwindow : Settings.positive (some 0) = none := rfl
  obtain ⟨-, hgives, -⟩ := ofSource_trailing hwindow ⟨"a.c"⟩ .empty hpieces hline
  exact ⟨hwindow, hpieces, hline, hclosing, hname, hgives hclosing _ hname⟩

/-- A header whose comment names another one between the same delimiters. -/
def bracketed : Directive.Trailed where
  blanks := []
  opening := '<'
  header := "a.h".toList
  closing := '>'
  trailing := " // see <b.h>".toList
  blank := nofun
  delimits := Directive.closing?_eq_some_iff.1 rfl
  named := Directive.baseName_ne_nil_iff.1 (by decide)
  unclosed := by decide

/-- The name of this header is lost: what the line gives is the end of its comment. -/
theorem ofSource_bracketed :
    (ofSource none ⟨"a.c"⟩ (.complete (Text.encode bracketed.line)) .empty).catalog.names =
        [" see <b.h"] ∧
      ¬ ∀ (origin : Path) (c : Catalog) (source : Source) (before after : List Text.Bytes)
        (piece : Text.Bytes) (d : Directive.Trailed), source.pieces = before ++ piece :: after →
        Text.decodeLossy piece = d.line → ∀ name, Directive.IsBaseName name d.header →
        String.ofList name ∈ (ofSource none origin source c).catalog.names := by
  let source := Source.complete (Text.encode bracketed.line)
  have hnames : (ofSource none ⟨"a.c"⟩ source .empty).catalog.names = [" see <b.h"] := by
    decide +kernel
  refine ⟨hnames, fun claim => ?_⟩
  have hpieces : source.pieces = [] ++ Text.encode bracketed.line :: [] := by decide +kernel
  have hline : Text.decodeLossy (Text.encode bracketed.line) = bracketed.line := by decide +kernel
  have hname : Directive.IsBaseName "a.h".toList bracketed.header :=
    Directive.isBaseName_iff.2 (by decide)
  have hmem := claim ⟨"a.c"⟩ .empty source [] [] _ bracketed hpieces hline _ hname
  rw [hnames] at hmem
  exact absurd hmem (by decide)

end Scan

end HeaderGather
