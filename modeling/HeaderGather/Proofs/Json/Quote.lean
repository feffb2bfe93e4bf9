import HeaderGather.Json.Token

/-! Texts between quotes. What is read between the quotes of a text is the text again,
whatever characters it has. -/
namespace HeaderGather.Json

/-- How a character is written between quotes: after a backslash by a letter, by its code, or
by itself. -/
inductive Escaped (c : Char) : List Char → Prop where
  | letter {l : Char} (h : shortEscape? l = some c) (hu : l ≠ 'u') : Escaped c ['\\', l]
  | code (h : c.toNat < 0x20) :
    Escaped c ['\\', 'u', '0', '0', Text.hexDigit (c.toNat / 16), Text.hexDigit (c.toNat % 16)]
  | plain (hquote : c ≠ '"') (hslash : c ≠ '\\') (h : ¬ c.toNat < 0x20) : Escaped c [c]

theorem escaped (c : Char) : Escaped c (escape c) := by
  unfold escape
  refine iteInduction (fun h => .letter (by rw [h]; rfl) (by decide)) fun hquote => ?_
  refine iteInduction (fun h => .letter (by rw [h]; rfl) (by decide)) fun hslash => ?_
  refine iteInduction (fun h => .letter (by rw [h]; rfl) (by decide)) fun _ => ?_
  refine iteInduction (fun h => .letter (by rw [h]; rfl) (by decide)) fun _ => ?_
  refine iteInduction (fun h => .letter (by rw [h]; rfl) (by decide)) fun _ => ?_
  refine iteInduction (fun h => .letter (by rw [h]; rfl) (by decide)) fun _ => ?_
  refine iteInduction (fun h => .letter (by rw [h]; rfl) (by decide)) fun _ => ?_
  exact iteInduction .code (.plain hquote hslash)

/-- Pieces that make a text, one for each character. -/
inductive Spells : List Piece → List Char → Prop where
  | nil : Spells [] []
  | char {pieces : List Piece} {text : List Char} (c : Char) (h : Spells pieces text) :
    Spells (.char c :: pieces) (c :: text)
  | unit {pieces : List Piece} {text : List Char} {c : Char} (hc : c.toNat < 0x20)
    (h : Spells pieces text) : Spells (.unit c.toNat :: pieces) (c :: text)

theorem number?_hexDigits {n : Nat} (h : n < 0x20) :
    Text.number? 16 ['0', '0', Text.hexDigit (n / 16), Text.hexDigit (n % 16)] = some n := by
  have zero : Text.digitValue? '0' = some 0 := rfl
  have high := Text.digitValue?_hexDigit (n / 16) (by omega)
  have low := Text.digitValue?_hexDigit (n % 16) (by omega)
  have hhigh : n / 16 < 16 := by omega
  have hlow : n % 16 < 16 := by omega
  have hn : n / 16 * 16 + n % 16 = n := by omega
  simp [Text.number?, zero, high, low, hhigh, hlow, hn]

theorem pieces?_flatMap_escape (text : List Char) :
    ∃ pieces, pieces? (text.flatMap escape) = some pieces ∧ Spells pieces text := by
  induction text with
  | nil => exact ⟨[], rfl, .nil⟩
  | cons c text ih =>
      obtain ⟨pieces, hpieces, hspells⟩ := ih
      rw [List.flatMap_cons]
      have hc := escaped c
      generalize escape c = e at hc
      cases hc with
      | letter h hu =>
          refine ⟨_, ?_, hspells.char c⟩
          simp [pieces?, hu, h, hpieces]
      | code h =>
          refine ⟨_, ?_, hspells.unit h⟩
          simp [pieces?, number?_hexDigits h, hpieces]
      | plain hquote hslash h =>
          refine ⟨_, ?_, hspells.char c⟩
          simp [pieces?, hslash, h, hpieces]

/-- A unit below the surrogates stands for itself. -/
theorem joinPieces?_unit {n : Nat} (h : n < 0xD800) (pieces : List Piece) :
    joinPieces? (.unit n :: pieces) = (joinPieces? pieces).map (Char.ofNat n :: ·) := by
  have hhigh : ¬ 0xD800 ≤ n := by omega
  have hlow : ¬ 0xDC00 ≤ n := by omega
  cases pieces with
  | nil => simp [joinPieces?, hhigh]
  | cons piece pieces => cases piece <;> simp [joinPieces?, hhigh, hlow]

theorem Spells.joinPieces? {pieces : List Piece} {text : List Char} (h : Spells pieces text) :
    joinPieces? pieces = some text := by
  induction h with
  | nil => rfl
  | char c _ ih => simp [Json.joinPieces?, ih]
  | unit hc _ ih => rw [joinPieces?_unit (by omega), ih, Option.map_some, Char.ofNat_toNat]

theorem text?_flatMap_escape (text : String) :
    text? (text.toList.flatMap escape) = some (.text (some text)) := by
  obtain ⟨pieces, hpieces, hspells⟩ := pieces?_flatMap_escape text.toList
  rw [text?, hpieces, Option.map_some, hspells.joinPieces?, Option.map_some, String.ofList_toList]

theorem isInner_hexDigit : ∀ n < 16, Text.hexDigit n ≠ '"' ∧ Text.hexDigit n ≠ '\\' := by decide

theorem tokensFrom?_inner {c : Char} (hquote : c ≠ '"') (hslash : c ≠ '\\')
    (read rest : List Char) :
    tokensFrom? (.text read) (c :: rest) = tokensFrom? (.text (c :: read)) rest := by
  simp [tokensFrom?, next?, hquote, hslash]

theorem tokensFrom?_backslash (c : Char) (read rest : List Char) :
    tokensFrom? (.text read) ('\\' :: c :: rest) =
      tokensFrom? (.text (c :: '\\' :: read)) rest := by
  simp [tokensFrom?, next?]

/-- An escape does not end a text. -/
theorem tokensFrom?_escape (c : Char) (read rest : List Char) :
    tokensFrom? (.text read) (escape c ++ rest) =
      tokensFrom? (.text ((escape c).reverse ++ read)) rest := by
  have hc := escaped c
  generalize escape c = e at hc
  cases hc with
  | letter h hu => exact tokensFrom?_backslash _ read rest
  | code h =>
      obtain ⟨hq, hs⟩ := isInner_hexDigit (c.toNat / 16) (by omega)
      obtain ⟨hq', hs'⟩ := isInner_hexDigit (c.toNat % 16) (by omega)
      simp only [List.cons_append, List.nil_append]
      rw [tokensFrom?_backslash, tokensFrom?_inner (by decide) (by decide),
        tokensFrom?_inner (by decide) (by decide), tokensFrom?_inner hq hs,
        tokensFrom?_inner hq' hs']
      rfl
  | plain hquote hslash h => exact tokensFrom?_inner hquote hslash read rest

theorem tokensFrom?_flatMap_escape (text read rest : List Char) :
    tokensFrom? (.text read) (text.flatMap escape ++ rest) =
      tokensFrom? (.text ((text.flatMap escape).reverse ++ read)) rest := by
  induction text generalizing read with
  | nil => rfl
  | cons c text ih =>
      rw [List.flatMap_cons, List.append_assoc, tokensFrom?_escape, ih, List.reverse_append,
        List.append_assoc]

/-- A quoted text is one token. -/
theorem tokensFrom?_quote (text : String) (rest : List Char) :
    tokensFrom? .between (quote text ++ rest) =
      (tokensFrom? .between rest).map (.text (some text) :: ·) := by
  have hopen : ∀ more, tokensFrom? .between ('"' :: more) = tokensFrom? (.text []) more := by
    intro more
    simp [tokensFrom?, next?, begin?, isBlank]
  have hclose : ∀ read, tokensFrom? (.text read) ('"' :: rest) =
      (text? read.reverse).bind fun token => (tokensFrom? .between rest).map (token :: ·) := by
    intro read
    cases h : text? read.reverse <;> cases hr : tokensFrom? .between rest <;>
      simp [tokensFrom?, next?, h, hr]
  rw [quote, List.cons_append, List.cons_append, List.append_assoc, hopen, List.singleton_append,
    tokensFrom?_flatMap_escape, hclose, List.append_nil, List.reverse_reverse,
    text?_flatMap_escape, Option.bind_some]

end HeaderGather.Json
