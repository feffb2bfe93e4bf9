import Mathlib.Data.List.TakeWhile
import Mathlib.Data.Option.Basic
import HeaderGather.Proofs.Text.Encoding

/-! Offsets into the bytes of a text. A text can be cut where a character begins and at its end,
and characters of one byte can be searched for byte by byte: no longer character has such a byte
inside it. -/
namespace HeaderGather.Text

/-- Cuts bytes at an offset. It is refused inside a character, and behind the end. -/
def cutAt? (offset : Nat) (bytes : Bytes) : Option (Bytes × Bytes) :=
  match bytes.drop offset with
  | [] => if offset = bytes.length then some (bytes, []) else none
  | b :: rest => if b.IsUTF8FirstByte then some (bytes.take offset, b :: rest) else none

@[simp] theorem encode_nil : encode [] = [] := rfl

theorem encode_cons (c : Char) (text : List Char) :
    encode (c :: text) = String.utf8EncodeChar c ++ encode text := List.flatMap_cons

theorem encode_append (left right : List Char) :
    encode (left ++ right) = encode left ++ encode right := List.flatMap_append

theorem encode_eq_nil_iff {text : List Char} : encode text = [] ↔ text = [] := by
  cases text with
  | nil => simp
  | cons c text => simp [encode_cons, String.utf8EncodeChar_ne_nil]

theorem utf8EncodeChar_first (c : Char) :
    ∃ b rest, String.utf8EncodeChar c = b :: rest ∧ b.IsUTF8FirstByte := by
  obtain ⟨b, rest, h⟩ := List.exists_cons_of_ne_nil (String.utf8EncodeChar_ne_nil (c := c))
  have hfirst := UInt8.isUTF8FirstByte_getElem_zero_utf8EncodeChar (c := c)
  exact ⟨b, rest, h, by simpa [h] using hfirst⟩

/-- Where one part of a text ends and the next begins it can be cut. -/
theorem cutAt?_encode (left right : List Char) :
    cutAt? (encode left).length (encode (left ++ right)) = some (encode left, encode right) := by
  rw [cutAt?, encode_append, List.drop_left, List.take_left]
  cases right with
  | nil => simp
  | cons c right =>
      obtain ⟨b, rest, hc, hb⟩ := utf8EncodeChar_first c
      simp [encode_cons, hc, hb]

/-- The offset of the last byte of a kind. -/
def lastOffset? (p : UInt8 → Bool) (bytes : Bytes) : Option Nat :=
  match bytes.reverse.dropWhile fun b => !p b with
  | [] => none
  | _ :: before => some before.length

/-- Whether a byte is a character of a kind by itself. -/
def isSingle (q : Char → Bool) (b : UInt8) : Bool := b < 0x80 && q (Char.ofNat b.toNat)

theorem lastOffset?_eq_none {p : UInt8 → Bool} {bytes : Bytes} (h : ∀ b ∈ bytes, p b = false) :
    lastOffset? p bytes = none := by
  have hnil : (bytes.reverse.dropWhile fun b => !p b) = [] := by
    rw [List.dropWhile_eq_nil_iff]
    intro b hb
    rw [h b (List.mem_reverse.1 hb), Bool.not_false]
  rw [lastOffset?, hnil]

theorem lastOffset?_append {p : UInt8 → Bool} {b : UInt8} (before : Bytes) {after : Bytes}
    (hb : p b = true) (h : ∀ b ∈ after, p b = false) :
    lastOffset? p (before ++ b :: after) = some before.length := by
  have hafter : ∀ b ∈ after.reverse, (!p b) = true := by
    intro b hb
    rw [h b (List.mem_reverse.1 hb), Bool.not_false]
  rw [lastOffset?, List.reverse_append, List.reverse_cons, List.append_assoc,
    List.dropWhile_append_of_pos hafter]
  simp [hb]

/-- A byte below 0x80 is a character by itself wherever it stands. -/
theorem utf8EncodeChar_of_mem {c : Char} {b : UInt8} (hb : b ∈ String.utf8EncodeChar c)
    (h : b < 0x80) : c = Char.ofNat b.toNat := by
  have large : ∀ n, 0x80 ≤ n → n < 256 → b ≠ UInt8.ofNat n := by
    rintro n hle hlt rfl
    simp only [UInt8.lt_iff_toNat_lt, UInt8.toNat_ofNat', UInt8.reduceToNat] at h
    omega
  have hcode : c.val.toNat = b.toNat := by
    have henc := encodes c
    generalize c.val.toNat = code at henc
    generalize String.utf8EncodeChar c = bytes at hb henc
    cases henc with
    | one hlt =>
        rw [List.mem_singleton.1 hb, UInt8.toNat_ofNat']
        omega
    | two => grind
    | three => grind
    | four => grind
  rw [← hcode]
  exact (Char.ofNat_toNat c).symm

theorem utf8EncodeChar_of_lt {c : Char} (h : c.val.toNat < 0x80) :
    String.utf8EncodeChar c = [UInt8.ofNat c.val.toNat] := by
  unfold String.utf8EncodeChar
  exact if_pos (Nat.le_of_lt_succ h)

section Search

variable {q : Char → Bool} {c : Char} {text : List Char}

theorem isSingle_of_mem_encode (h : ∀ c ∈ text, q c = false) :
    ∀ b ∈ encode text, isSingle q b = false := by
  intro b hb
  obtain ⟨c, hc, hb⟩ := List.mem_flatMap.1 hb
  by_cases hlt : b < 0x80
  · rw [isSingle, ← utf8EncodeChar_of_mem hb hlt, h c hc, Bool.and_false]
  · rw [isSingle, decide_eq_false hlt, Bool.false_and]

theorem lastOffset?_encode_eq_none (h : ∀ c ∈ text, q c = false) :
    lastOffset? (isSingle q) (encode text) = none :=
  lastOffset?_eq_none (isSingle_of_mem_encode h)

/-- The search of the bytes finds the last character of a kind. -/
theorem lastOffset?_encode (before : List Char) (hsmall : c.val.toNat < 0x80) (hc : q c = true)
    (h : ∀ c ∈ text, q c = false) :
    lastOffset? (isSingle q) (encode (before ++ c :: text)) = some (encode before).length := by
  have hb : isSingle q (UInt8.ofNat c.val.toNat) = true := by
    have hbyte : (UInt8.ofNat c.val.toNat).toNat = c.val.toNat := by
      rw [UInt8.toNat_ofNat']
      omega
    have hchar : Char.ofNat c.val.toNat = c := Char.ofNat_toNat c
    rw [isSingle, hbyte, hchar, hc, Bool.and_true, decide_eq_true_iff, UInt8.lt_iff_toNat_lt, hbyte]
    exact hsmall
  rw [encode_append, encode_cons, utf8EncodeChar_of_lt hsmall, List.singleton_append]
  exact lastOffset?_append (encode before) hb (isSingle_of_mem_encode h)

end Search

theorem decodeFrom_encode_append (text : List Char) (rest : Bytes) :
    decodeFrom none (encode text ++ rest) = text.map some ++ decodeFrom none rest := by
  induction text with
  | nil => rfl
  | cons c text ih =>
      have hchar : Char.ofNat c.val.toNat = c := Char.ofNat_toNat c
      rw [encode_cons, List.append_assoc, (encodes c).decodeFrom c.valid, ih, List.map_cons, hchar,
        List.cons_append]

theorem decodeLossy_encode (text : List Char) : decodeLossy (encode text) = text := by
  rw [decodeLossy, decodeFrom_encode, List.map_map]
  exact List.map_id text

/-- A text begins with a word if its bytes do. -/
theorem encode_prefix_iff {word text : List Char} :
    encode word <+: encode text ↔ word <+: text := by
  constructor
  · rintro ⟨rest, hrest⟩
    have hdecode : word.map some ++ decodeFrom none rest = text.map some := by
      rw [← decodeFrom_encode_append, hrest, decodeFrom_encode]
    have hsome : word.map some <+: text.map some := ⟨_, hdecode⟩
    exact (List.prefix_map_iff_of_injective (Option.some_injective Char)).1 hsome
  · rintro ⟨rest, rfl⟩
    rw [encode_append]
    exact List.prefix_append _ _

end HeaderGather.Text
