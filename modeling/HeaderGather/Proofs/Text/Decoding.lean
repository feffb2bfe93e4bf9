import HeaderGather.Proofs.Text.Cut
import HeaderGather.Proofs.Text.Split
import HeaderGather.Text.Utf8

/-! Decoding bytes piece by piece. A newline cuts off whatever was begun before it and begins
anew after it, and nothing else is decoded as a newline; so the lines of some bytes are the
lines of their text. -/
namespace HeaderGather.Text

namespace Begun

/-- The least code that a character begun can have when it is finished. -/
def least (k : Begun) : Nat := (k.value * 64 + (k.low.toNat - 0x80)) * Nat.pow 64 k.further

/-- No byte of a single character goes on with this one, and it becomes none of them. -/
structure Sound (k : Begun) : Prop where
  low : 0x80 ≤ k.low.toNat
  least : 0x80 ≤ k.least

end Begun

/-- What decoding has begun, if anything. -/
def SoundState (k : Option Begun) : Prop := ∀ k', k = some k' → k'.Sound

theorem soundState_none : SoundState none := nofun

/-- A byte is a character, or none can begin with it, or it begins one. -/
inductive Starts (b : UInt8) : List Decoded × Option Begun → Prop where
  | single (h : b < 0x80) : Starts b ([some (Char.ofNat b.toNat)], none)
  | cut : Starts b ([none], none)
  | begun {k : Begun} (h : k.Sound) : Starts b ([], some k)

theorem starts (b : UInt8) : Starts b (start b) := by
  unfold start
  refine iteInduction .single fun _ => ?_
  refine iteInduction (fun _ => .cut) fun h1 => ?_
  simp only [UInt8.lt_iff_toNat_lt, UInt8.reduceToNat] at h1
  refine iteInduction (fun _ => .begun ⟨Nat.le_refl _, ?_⟩) fun h2 => ?_
  · simp only [Begun.least, Nat.pow_eq, UInt8.reduceToNat]
    omega
  simp only [UInt8.lt_iff_toNat_lt, UInt8.reduceToNat] at h2
  refine iteInduction (fun _ => .begun ⟨by decide, by decide⟩) fun h3 => ?_
  simp only [← UInt8.toNat_inj, UInt8.reduceToNat] at h3
  refine iteInduction (fun _ => .begun ⟨by decide, by decide⟩) fun _ => ?_
  refine iteInduction (fun _ => .begun ⟨Nat.le_refl _, ?_⟩) fun h5 => ?_
  · simp only [Begun.least, Nat.pow_eq, UInt8.reduceToNat]
    omega
  simp only [UInt8.lt_iff_toNat_lt, UInt8.reduceToNat] at h5
  refine iteInduction (fun _ => .begun ⟨by decide, by decide⟩) fun h6 => ?_
  simp only [← UInt8.toNat_inj, UInt8.reduceToNat] at h6
  refine iteInduction (fun _ => .begun ⟨Nat.le_refl _, ?_⟩) fun _ => ?_
  · simp only [Begun.least, Nat.pow_eq, UInt8.reduceToNat]
    omega
  exact iteInduction (fun _ => .begun ⟨by decide, by decide⟩) fun _ => .cut

theorem soundState_start (b : UInt8) : SoundState (start b).2 := by
  have h := starts b
  generalize start b = r at h
  cases h with
  | single h => exact soundState_none
  | cut => exact soundState_none
  | begun h =>
      intro k hk
      obtain rfl := Option.some.inj hk
      exact h

theorem soundState_step {k : Option Begun} (hk : SoundState k) (b : UInt8) :
    SoundState (step k b).2 := by
  cases k with
  | none => exact soundState_start b
  | some k =>
      obtain ⟨hlow, hleast⟩ := hk k rfl
      by_cases hb : k.low ≤ b ∧ b ≤ k.high
      · cases hf : k.further with
        | zero =>
            simp only [step, hb, and_self, if_true, hf]
            exact soundState_none
        | succ n =>
            intro k' hk'
            simp only [step, hb, and_self, if_true, hf, Option.some.injEq] at hk'
            subst hk'
            have hle := UInt8.le_iff_toNat_le.1 hb.1
            refine ⟨Nat.le_refl _, hleast.trans ?_⟩
            rw [Begun.least, Begun.least, hf, Nat.pow_eq, Nat.pow_eq, Nat.pow_succ',
              ← Nat.mul_assoc]
            apply Nat.mul_le_mul_right
            simp only [UInt8.reduceToNat, Nat.sub_self, Nat.add_zero]
            omega
      · simp only [step, hb, if_false]
        exact soundState_start b

/-- A byte below 0x80 is a character, and cuts off what was begun before it. -/
theorem step_single {k : Option Begun} (hk : SoundState k) {b : UInt8} (hb : b < 0x80) :
    step k b = (decodeFrom k [] ++ [some (Char.ofNat b.toNat)], none) := by
  cases k with
  | none => simp [step, start, hb, decodeFrom]
  | some k =>
      have hlow : ¬ (k.low ≤ b ∧ b ≤ k.high) := by
        rintro ⟨hle, -⟩
        have hsound := (hk k rfl).low
        simp only [UInt8.le_iff_toNat_le, UInt8.lt_iff_toNat_lt, UInt8.reduceToNat] at hle hb
        omega
      simp [step, hlow, start, hb, decodeFrom]

theorem decodeFrom_append_single {k : Option Begun} (hk : SoundState k) {b : UInt8} (hb : b < 0x80)
    (before after : Bytes) :
    decodeFrom k (before ++ b :: after) =
      decodeFrom k before ++ some (Char.ofNat b.toNat) :: decodeFrom none after := by
  induction before generalizing k with
  | nil => cases k <;> simp [decodeFrom, step_single hk hb]
  | cons first before ih =>
      have hrest := ih (soundState_step hk first)
      cases k <;> simp only [List.cons_append, decodeFrom, hrest, List.append_assoc]

theorem decodeLossy_append_single {b : UInt8} (hb : b < 0x80) (before after : Bytes) :
    decodeLossy (before ++ b :: after) =
      decodeLossy before ++ Char.ofNat b.toNat :: decodeLossy after := by
  simp only [decodeLossy, decodeFrom_append_single soundState_none hb, List.map_append,
    List.map_cons, Option.getD_some]

theorem toNat_ofNat {n : Nat} (h : n.isValidChar) : (Char.ofNat n).toNat = n := by
  rw [Char.ofNat, dif_pos h]
  rfl

theorem eq_of_ofNat_newline {n : Nat} (h : Char.ofNat n = '\n') : n = 10 := by
  by_cases hvalid : n.isValidChar
  · rw [← toNat_ofNat hvalid, h]
    rfl
  · rw [Char.ofNat, dif_neg hvalid] at h
    exact absurd h (by decide)

theorem mem_start {b : UInt8} (h : some '\n' ∈ (start b).1) : b = newline := by
  have hs := starts b
  generalize start b = r at h hs
  cases hs with
  | single hb =>
      rw [List.mem_singleton, Option.some.injEq] at h
      exact UInt8.toNat_inj.1 (eq_of_ofNat_newline h.symm)
  | cut => exact absurd h (by decide)
  | begun hk => exact absurd h List.not_mem_nil

/-- What is put together from more than one byte is no newline. -/
theorem mem_step {k : Option Begun} (hk : SoundState k) {b : UInt8}
    (h : some '\n' ∈ (step k b).1) : b = newline := by
  cases k with
  | none => exact mem_start h
  | some k =>
      by_cases hb : k.low ≤ b ∧ b ≤ k.high
      · cases hf : k.further with
        | zero =>
            simp only [step, hb, and_self, if_true, hf, List.mem_singleton, Option.some.injEq] at h
            have hten := eq_of_ofNat_newline h.symm
            have hle := UInt8.le_iff_toNat_le.1 hb.1
            have hleast := (hk k rfl).least
            rw [Begun.least, hf, Nat.pow_eq, Nat.pow_zero, Nat.mul_one] at hleast
            omega
        | succ n =>
            simp only [step, hb, and_self, if_true, hf] at h
            exact absurd h List.not_mem_nil
      · simp only [step, hb, if_false, List.mem_cons, reduceCtorEq, false_or] at h
        exact mem_start h

theorem mem_decodeFrom {k : Option Begun} (hk : SoundState k) {bytes : Bytes}
    (h : some '\n' ∈ decodeFrom k bytes) : newline ∈ bytes := by
  induction bytes generalizing k with
  | nil => cases k <;> simp [decodeFrom] at h
  | cons b bytes ih =>
      have hcons : some '\n' ∈ (step k b).1 ++ decodeFrom (step k b).2 bytes := by
        cases k <;> simpa only [decodeFrom] using h
      cases List.mem_append.1 hcons with
      | inl hb => exact List.mem_cons.2 (.inl (mem_step hk hb).symm)
      | inr hrest => exact List.mem_cons_of_mem _ (ih (soundState_step hk b) hrest)

theorem not_mem_decodeLossy {bytes : Bytes} (h : newline ∉ bytes) : '\n' ∉ decodeLossy bytes := by
  intro hmem
  obtain ⟨d, hd, hn⟩ := List.mem_map.1 hmem
  cases d with
  | none => exact absurd hn (by decide)
  | some c =>
      rw [Option.getD_some] at hn
      exact h (mem_decodeFrom soundState_none (hn ▸ hd))

theorem decodeFrom_ne_nil (k : Begun) (bytes : Bytes) : decodeFrom (some k) bytes ≠ [] := by
  induction bytes generalizing k with
  | nil => exact List.cons_ne_nil none []
  | cons b bytes ih =>
      rw [decodeFrom]
      by_cases hb : k.low ≤ b ∧ b ≤ k.high
      · cases hf : k.further with
        | zero => simp [step, hb, hf]
        | succ n =>
            simp only [step, hb, and_self, if_true, hf, List.nil_append]
            exact ih _
      · simp [step, hb]

theorem decodeLossy_ne_nil {bytes : Bytes} (h : bytes ≠ []) : decodeLossy bytes ≠ [] := by
  cases bytes with
  | nil => exact absurd rfl h
  | cons b bytes =>
      rw [decodeLossy, ne_eq, List.map_eq_nil_iff, decodeFrom, step]
      have hs := starts b
      generalize start b = r at hs
      cases hs with
      | single hb => exact List.cons_ne_nil _ _
      | cut => exact List.cons_ne_nil _ _
      | begun hk => exact decodeFrom_ne_nil _ bytes

theorem decodeLossy_append_newline (before after : Bytes) :
    decodeLossy (before ++ newline :: after) = decodeLossy before ++ '\n' :: decodeLossy after :=
  decodeLossy_append_single (by decide) before after

/-- Induction along the separators of a list, from the last to the first. -/
theorem separated_induction {α : Type} (sep : α) {motive : List α → Prop}
    (last : ∀ l, sep ∉ l → motive l)
    (cut : ∀ piece rest, sep ∉ piece → motive rest → motive (piece ++ sep :: rest))
    (l : List α) : motive l := by
  induction hn : l.length using Nat.strongRecOn generalizing l with
  | ind n ih =>
      by_cases h : sep ∈ l
      · obtain ⟨piece, rest, rfl, hpiece⟩ := List.eq_append_cons_of_mem h
        refine cut piece rest hpiece (ih rest.length ?_ rest rfl)
        rw [← hn, List.length_append, List.length_cons]
        omega
      · exact last l h

theorem splitAfter_of_not_mem {α : Type} [DecidableEq α] {sep : α} {l : List α} (h : sep ∉ l)
    (hne : l ≠ []) : splitAfter sep l = [l] := by
  obtain ⟨front, a, rfl⟩ := (List.eq_nil_or_concat l).resolve_left hne
  rw [List.concat_eq_append] at h ⊢
  exact splitAfter_concat a fun hmem => h (List.mem_append_left _ hmem)

theorem map_decodeLossy_splitOn (bytes : Bytes) :
    (splitOn newline bytes).map decodeLossy = splitOn '\n' (decodeLossy bytes) := by
  induction bytes using separated_induction newline with
  | last bytes h =>
      rw [splitOn_of_not_mem h, splitOn_of_not_mem (not_mem_decodeLossy h), List.map_singleton]
  | cut piece rest h ih =>
      rw [splitOn_append, List.map_append, ih, splitOn_of_not_mem h, decodeLossy_append_newline,
        splitOn_append, splitOn_of_not_mem (not_mem_decodeLossy h), List.map_singleton]

theorem map_decodeLossy_splitAfter (bytes : Bytes) :
    (splitAfter newline bytes).map decodeLossy = splitAfter '\n' (decodeLossy bytes) := by
  induction bytes using separated_induction newline with
  | last bytes h =>
      by_cases hne : bytes = []
      · rw [hne]
        rfl
      · rw [splitAfter_of_not_mem h hne, List.map_singleton,
          splitAfter_of_not_mem (not_mem_decodeLossy h) (decodeLossy_ne_nil hne)]
  | cut piece rest h ih =>
      rw [splitAfter_append rest h, List.map_cons, ih, decodeLossy_append_newline,
        decodeLossy_append_newline, splitAfter_append _ (not_mem_decodeLossy h)]
      rfl

end HeaderGather.Text
