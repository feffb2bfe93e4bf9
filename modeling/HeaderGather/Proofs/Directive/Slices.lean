import HeaderGather.Proofs.Directive.Grammar
import HeaderGather.Proofs.Text.Offsets

/-! Directives read off the bytes of a line, which are cut at offsets. No cut falls inside a
character, and what is read is what the grammar says of the line. -/
namespace HeaderGather.Directive

open Text (Bytes cutAt? lastOffset? isSingle encode)

/-- How many bytes the blanks take that some bytes begin with. -/
def blankSize (bytes : Bytes) : Nat :=
  (encode ((Text.decodeLossy bytes).takeWhile Text.isBlank)).length

/-- Where the name begins in the bytes of a text. -/
def nameOffset (text : Bytes) : Nat :=
  match lastOffset? (isSingle isSeparator) text with
  | none => 0
  | some separator => separator + 1

def ofTextBytes? (text : Bytes) : Option Directive := do
  let (_, name) ← cutAt? (nameOffset text) text
  if name = [] then some .malformed
  else some (.include (← Text.decode? text) (← Text.decode? name))

/-- The body of a directive, up to the last closing character. No text is empty. -/
def ofBodyBytes? (closing : Char) (body : Bytes) : Option Directive :=
  match lastOffset? (isSingle (· = closing)) body with
  | none => some .malformed
  | some 0 => some .malformed
  | some stop => do
    let (text, _) ← cutAt? stop body
    ofTextBytes? text

def ofArgumentBytes? (argument : Bytes) : Option Directive :=
  match (Text.decodeLossy argument).head?.bind closing? with
  | none => some .malformed
  | some closing => do
    let (_, body) ← cutAt? 1 argument
    ofBodyBytes? closing body

/-- Reads the bytes of a line. There is no directive if a cut is refused. -/
def ofBytes? (line : Bytes) : Option Directive :=
  if (encode keyword).isPrefixOf line then do
    let (_, rest) ← cutAt? (encode keyword).length line
    let (_, argument) ← cutAt? (blankSize rest) rest
    ofArgumentBytes? argument
  else some .other

theorem isSeparator_small {c : Char} (h : isSeparator c = true) : c.val.toNat < 0x80 := by
  have hc : c = '/' ∨ c = '\\' := by simpa [isSeparator] using h
  obtain rfl | rfl := hc <;> decide

theorem Delimits.small {opening closing : Char} (h : Delimits opening closing) :
    opening.val.toNat < 0x80 ∧ closing.val.toNat < 0x80 := by
  obtain ⟨rfl, rfl⟩ | ⟨rfl, rfl⟩ := h <;> decide

/-- The name is what follows the last separator, if there is one. -/
theorem nameOffset_encode (text : List Char) :
    ∃ front, text = front ++ baseName text ∧ nameOffset (encode text) = (encode front).length := by
  have hname : ∀ c ∈ baseName text, isSeparator c = false := fun c hc =>
    isSeparator_eq_false_iff.2 ((isBaseName_baseName text).unseparated c hc)
  have hall : text.rdropWhile (fun c => !isSeparator c) ++ baseName text = text :=
    List.rdropWhile_append_rtakeWhile
  obtain hnil | ⟨front, separator, hfront⟩ :=
    List.eq_nil_or_concat (text.rdropWhile fun c => !isSeparator c)
  · rw [hnil, List.nil_append] at hall
    refine ⟨[], hall.symm, ?_⟩
    rw [← hall, nameOffset, Text.lastOffset?_encode_eq_none hname]
    rfl
  · have hsep : isSeparator separator = true := by
      have hlast := List.rdropWhile_last_not (fun c => !isSeparator c) text (by simp [hfront])
      simpa [hfront] using hlast
    rw [List.concat_eq_append] at hfront
    rw [hfront] at hall
    refine ⟨front ++ [separator], hall.symm, ?_⟩
    rw [nameOffset, ← hall, List.append_assoc, List.singleton_append,
      Text.lastOffset?_encode front (isSeparator_small hsep) hsep hname, Text.encode_append,
      List.length_append, Text.encode_cons,
      Text.utf8EncodeChar_of_lt (isSeparator_small hsep)]
    rfl

theorem ofTextBytes?_encode (text : List Char) : ofTextBytes? (encode text) =
    some (if baseName text = [] then .malformed else .include text (baseName text)) := by
  obtain ⟨front, htext, hoffset⟩ := nameOffset_encode text
  have hcut : cutAt? (nameOffset (encode text)) (encode text) =
      some (encode front, encode (baseName text)) := by
    conv => lhs; arg 2; rw [htext]
    rw [hoffset, Text.cutAt?_encode]
  rw [ofTextBytes?, hcut]
  by_cases hname : baseName text = []
  · simp [hname]
  · simp [hname, Text.encode_eq_nil_iff, Text.decode?_encode]

/-- An empty text has no name, so it is malformed either way. -/
theorem ofBodyBytes?_encode {closing : Char} (hsmall : closing.val.toNat < 0x80)
    (body : List Char) : ofBodyBytes? closing (encode body) =
      some (match beforeLast? closing body with
        | none => .malformed
        | some text =>
          if baseName text = [] then .malformed else .include text (baseName text)) := by
  cases h : beforeLast? closing body with
  | none =>
      have hmem : ∀ c ∈ body, decide (c = closing) = false := by
        intro c hc
        refine decide_eq_false ?_
        rintro rfl
        obtain ⟨front, hfront⟩ := Text.eq_append_afterLast hc
        rw [hfront, beforeLast?_append front (Text.not_mem_afterLast _ _)] at h
        exact nomatch h
      rw [ofBodyBytes?, Text.lastOffset?_encode_eq_none hmem]
  | some text =>
      obtain ⟨rest, rfl, hrest⟩ := beforeLast?_eq_some_iff.1 h
      have hlast := Text.lastOffset?_encode text hsmall (q := fun c => decide (c = closing))
        (decide_eq_true rfl) fun c hc => decide_eq_false fun e => hrest (e ▸ hc)
      rw [ofBodyBytes?, hlast]
      cases hlen : (encode text).length with
      | zero =>
          obtain rfl := Text.encode_eq_nil_iff.1 (List.length_eq_zero_iff.1 hlen)
          rfl
      | succ n =>
          have hcut : cutAt? (n + 1) (encode (text ++ closing :: rest)) =
              some (encode text, encode (closing :: rest)) :=
            hlen ▸ Text.cutAt?_encode text (closing :: rest)
          simp only [hcut]
          exact ofTextBytes?_encode text

theorem ofArgumentBytes?_encode (argument : List Char) :
    ofArgumentBytes? (encode argument) = some (ofArgument argument) := by
  rw [ofArgumentBytes?, Text.decodeLossy_encode]
  cases argument with
  | nil => rfl
  | cons opening body =>
      rw [List.head?_cons, Option.bind_some, ofArgument]
      cases hclosing : closing? opening with
      | none => rfl
      | some closing =>
          obtain ⟨hopening, hsmall⟩ := (closing?_eq_some_iff.1 hclosing).small
          have hone : (encode [opening]).length = 1 := by
            rw [Text.encode_cons, Text.utf8EncodeChar_of_lt hopening]
            rfl
          have hcut : cutAt? 1 (encode (opening :: body)) = some (encode [opening], encode body) :=
            hone ▸ Text.cutAt?_encode [opening] body
          simp only [hcut]
          exact ofBodyBytes?_encode hsmall body

/-- The bytes of a line are read as the line is. -/
theorem ofBytes?_encode (line : List Char) : ofBytes? (encode line) = some (ofLine line) := by
  by_cases hk : keyword <+: line
  · obtain ⟨rest, rfl⟩ := hk
    have hprefix : (encode keyword).isPrefixOf (encode (keyword ++ rest)) = true :=
      List.isPrefixOf_iff_prefix.2 (Text.encode_prefix_iff.2 (List.prefix_append _ _))
    have hcut : cutAt? (blankSize (encode rest)) (encode rest) =
        some (encode (rest.takeWhile Text.isBlank), encode (Text.trimStart rest)) := by
      have hrest : rest.takeWhile Text.isBlank ++ Text.trimStart rest = rest :=
        List.takeWhile_append_dropWhile
      rw [blankSize, Text.decodeLossy_encode]
      conv => lhs; arg 2; rw [← hrest]
      exact Text.cutAt?_encode _ _
    rw [ofBytes?, if_pos hprefix, Text.cutAt?_encode, ofLine_of_keyword]
    simp only [Option.bind_eq_bind, Option.bind_some, hcut]
    exact ofArgumentBytes?_encode _
  · have hprefix : ¬ (encode keyword).isPrefixOf (encode line) = true :=
      fun h => hk (Text.encode_prefix_iff.1 (List.isPrefixOf_iff_prefix.1 h))
    rw [ofBytes?, if_neg hprefix, ofLine_other_iff.2 hk]

/-- A line names a header just if it is spelled like a directive, which it is in one way at most;
with the keyword and without such a spelling it is malformed, and without the keyword it is
another line. Its bytes are read in the same way, without a cut inside a character. -/
theorem ofLine_exact (line : List Char) :
    (∀ text name, ofLine line = .include text name ↔
      ∃ s : Spelling, s.line = line ∧ s.text = text ∧ IsBaseName name text) ∧
    (∀ s s' : Spelling, s.line = line → s'.line = line → s = s') ∧
    (ofLine line = .malformed ↔ keyword <+: line ∧ ¬ ∃ s : Spelling, s.line = line) ∧
    (ofLine line = .other ↔ ¬ keyword <+: line) ∧
    ofBytes? (encode line) = some (ofLine line) ∧
    ∀ text name, ofLine line = .include text name →
      name ≠ [] ∧ Unseparated name ∧ name <:+ text := by
  refine ⟨fun _ _ => ofLine_include_iff, ?_, ofLine_malformed_iff, ofLine_other_iff,
    ofBytes?_encode line, ?_⟩
  · intro s s' h h'
    exact Spelling.line_injective (h.trans h'.symm)
  · intro text name h
    obtain ⟨s, -, rfl, hname⟩ := ofLine_include_iff.1 h
    refine ⟨?_, hname.unseparated, hname.ending⟩
    rw [isBaseName_iff.1 hname]
    exact baseName_ne_nil_iff.2 s.named

/-- A character of three bytes before the closing one, which stands inside the text as well. -/
example : ofBytes? (encode "#include <a>/b→>→".toList) =
    some (.include "a>/b→".toList "b→".toList) := by decide +kernel

end HeaderGather.Directive
