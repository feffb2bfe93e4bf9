/-! Whole numbers as digits, in a base of at most sixteen, and characters by their
codes in such digits. -/
namespace HeaderGather.Text

def digitValue? (c : Char) : Option Nat :=
  if c.isDigit then some (c.toNat - 0x30)
  else if 'a' ≤ c && c ≤ 'f' then some (c.toNat - 0x57)
  else if 'A' ≤ c && c ≤ 'F' then some (c.toNat - 0x37)
  else none

def hexDigit (n : Nat) : Char :=
  if n < 10 then Char.ofNat (0x30 + n) else Char.ofNat (0x57 + n)

theorem digitValue?_hexDigit : ∀ n < 16, digitValue? (hexDigit n) = some n := by decide

/-- The number that digits spell, of which there is one at least. -/
def number? (base : Nat) (digits : List Char) : Option Nat :=
  if digits = [] then none
  else digits.foldlM (fun n c =>
    (digitValue? c).bind fun d => if d < base then some (n * base + d) else none) 0

/-- The number that digits spell after a plus sign or without one. -/
def unsigned? (base : Nat) : List Char → Option Nat
  | '+' :: digits => number? base digits
  | digits => number? base digits

/-- A character spelled by its code. -/
def byCode (c : Char) : List Char := ['\\', 'u', '{'] ++ Nat.toDigits 16 c.toNat ++ ['}']

end HeaderGather.Text
