import Mathlib.Tactic.SplitIfs
import HeaderGather.Text.Utf8

/-! What is encoded is decoded to the same text. The first byte of a character begins it, with
the bits it holds, and each byte after that adds six bits. -/
namespace HeaderGather.Text

theorem start_one : ∀ n < 0x80, start (UInt8.ofNat n) = ([some (Char.ofNat n)], none) := by
  decide

theorem start_two : ∀ n < 32, 2 ≤ n →
    start (UInt8.ofNat (n + 192)) = ([], some ⟨0, 0x80, 0xBF, n⟩) := by
  decide

theorem start_three : ∀ n < 16, start (UInt8.ofNat (n + 224)) =
    ([], some ⟨1, if n = 0 then 0xA0 else 0x80, if n = 13 then 0x9F else 0xBF, n⟩) := by
  decide

theorem start_four : ∀ n < 5, start (UInt8.ofNat (n + 240)) =
    ([], some ⟨2, if n = 0 then 0x90 else 0x80, if n = 4 then 0x8F else 0xBF, n⟩) := by
  decide

theorem decodeFrom_begun {b : UInt8} {k : Begun} (h : start b = ([], some k)) (rest : Bytes) :
    decodeFrom none (b :: rest) = decodeFrom (some k) rest := by
  rw [decodeFrom, step, h, List.nil_append]

section Bits

variable {low high : UInt8} {d : Nat} (hd : d < 64) (hlow : low.toNat ≤ d + 128)
  (hhigh : d + 128 ≤ high.toNat) (value : Nat) (rest : Bytes)
include hd hlow hhigh

/-- A byte in range adds its six bits. -/
theorem step_bits (further : Nat) :
    step (some ⟨further, low, high, value⟩) (UInt8.ofNat (d + 128)) =
      match further with
      | 0 => ([some (Char.ofNat (value * 64 + d))], none)
      | n + 1 => ([], some ⟨n, 0x80, 0xBF, value * 64 + d⟩) := by
  have hbyte : (UInt8.ofNat (d + 128)).toNat = d + 128 := by
    rw [UInt8.toNat_ofNat']
    omega
  have hle : low ≤ UInt8.ofNat (d + 128) ∧ UInt8.ofNat (d + 128) ≤ high := by
    rw [UInt8.le_iff_toNat_le, UInt8.le_iff_toNat_le, hbyte]
    exact ⟨hlow, hhigh⟩
  cases further <;> simp only [step, hle, and_self, if_true, hbyte, Nat.add_sub_cancel]

theorem decodeFrom_last :
    decodeFrom (some ⟨0, low, high, value⟩) (UInt8.ofNat (d + 128) :: rest) =
      some (Char.ofNat (value * 64 + d)) :: decodeFrom none rest := by
  rw [decodeFrom, step_bits hd hlow hhigh]
  rfl

theorem decodeFrom_further (n : Nat) :
    decodeFrom (some ⟨n + 1, low, high, value⟩) (UInt8.ofNat (d + 128) :: rest) =
      decodeFrom (some ⟨n, 0x80, 0xBF, value * 64 + d⟩) rest := by
  rw [decodeFrom, step_bits hd hlow hhigh]
  rfl

end Bits

/-- The bytes of the character with a code: the code cut into parts of six bits, its first part
marked with their number. -/
inductive Encodes (code : Nat) : Bytes → Prop where
  | one (h : code < 0x80) : Encodes code [UInt8.ofNat code]
  | two {a b : Nat} (ha : 2 ≤ a) (ha' : a < 32) (hb : b < 64) (h : a * 64 + b = code) :
    Encodes code [UInt8.ofNat (a + 192), UInt8.ofNat (b + 128)]
  | three {a b d : Nat} (ha : a < 16) (hb : b < 64) (hd : d < 64)
    (h : (a * 64 + b) * 64 + d = code) (hleast : 0x800 ≤ code) :
    Encodes code [UInt8.ofNat (a + 224), UInt8.ofNat (b + 128), UInt8.ofNat (d + 128)]
  | four {a b d e : Nat} (ha : a < 5) (hb : b < 64) (hd : d < 64) (he : e < 64)
    (h : ((a * 64 + b) * 64 + d) * 64 + e = code) (hleast : 0x10000 ≤ code) :
    Encodes code [UInt8.ofNat (a + 240), UInt8.ofNat (b + 128), UInt8.ofNat (d + 128),
      UInt8.ofNat (e + 128)]

theorem encodes (c : Char) : Encodes c.val.toNat (String.utf8EncodeChar c) := by
  have hvalid : c.val.toNat < 0xD800 ∨ 0xDFFF < c.val.toNat ∧ c.val.toNat < 0x110000 := c.valid
  unfold String.utf8EncodeChar
  generalize c.val.toNat = v at hvalid
  refine iteInduction (fun h => .one (by omega)) fun h1 => ?_
  refine iteInduction (fun h => ?_) fun h2 => ?_
  · exact .two (by omega) (by omega) (by omega) (by omega)
  refine iteInduction (fun h => ?_) fun h3 => ?_
  · exact .three (by omega) (by omega) (by omega) (by omega) (by omega)
  · exact .four (by omega) (by omega) (by omega) (by omega) (by omega) (by omega)

theorem Encodes.decodeFrom {code : Nat} {bytes : Bytes} (h : Encodes code bytes)
    (hvalid : code.isValidChar) (rest : Bytes) :
    decodeFrom none (bytes ++ rest) = some (Char.ofNat code) :: decodeFrom none rest := by
  have hlow : (0x80 : UInt8).toNat = 128 := rfl
  have hhigh : (0xBF : UInt8).toNat = 191 := rfl
  cases h with
  | one h =>
      rw [List.singleton_append, Text.decodeFrom, step, start_one code h]
      rfl
  | two ha ha' hb h =>
      rw [List.cons_append, decodeFrom_begun (start_two _ ha' ha), List.cons_append,
        decodeFrom_last hb (by omega) (by omega), h]
      rfl
  | @three a b d ha hb hd h hleast =>
      have hlow' : (if a = 0 then 0xA0 else 0x80 : UInt8).toNat ≤ b + 128 := by
        split_ifs <;> simp only [UInt8.reduceToNat] <;> omega
      have hhigh' : b + 128 ≤ (if a = 13 then 0x9F else 0xBF : UInt8).toNat := by
        rw [Nat.isValidChar] at hvalid
        split_ifs <;> simp only [UInt8.reduceToNat] <;> omega
      rw [List.cons_append, decodeFrom_begun (start_three a ha), List.cons_append,
        decodeFrom_further hb hlow' hhigh', List.cons_append,
        decodeFrom_last hd (by omega) (by omega), h]
      rfl
  | @four a b d e ha hb hd he h hleast =>
      have hlow' : (if a = 0 then 0x90 else 0x80 : UInt8).toNat ≤ b + 128 := by
        split_ifs <;> simp only [UInt8.reduceToNat] <;> omega
      have hhigh' : b + 128 ≤ (if a = 4 then 0x8F else 0xBF : UInt8).toNat := by
        rw [Nat.isValidChar] at hvalid
        split_ifs <;> simp only [UInt8.reduceToNat] <;> omega
      rw [List.cons_append, decodeFrom_begun (start_four a ha), List.cons_append,
        decodeFrom_further hb hlow' hhigh', List.cons_append,
        decodeFrom_further hd (by omega) (by omega), List.cons_append,
        decodeFrom_last he (by omega) (by omega), h]
      rfl

theorem decodeFrom_encode (text : List Char) : decodeFrom none (encode text) = text.map some := by
  induction text with
  | nil => rfl
  | cons c text ih =>
      have hchar : Char.ofNat c.val.toNat = c := Char.ofNat_toNat c
      rw [encode, List.flatMap_cons, (encodes c).decodeFrom c.valid, ← encode, ih, List.map_cons,
        hchar]

/-- Nothing is lost of a text when it is encoded. -/
theorem decode?_encode (text : List Char) : decode? (encode text) = some text := by
  rw [decode?, decodeFrom_encode, List.mapM_map]
  simpa using (List.mapM_pure (m := Option) (l := text) (f := id))

end HeaderGather.Text
