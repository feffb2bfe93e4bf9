import HeaderGather.Text.Utf8

/-! File patterns over bytes. A pattern leads from some places in a name, before its
first byte or after any of them, to others; the name matches if its end can be
reached from its beginning. -/
namespace HeaderGather

/-- The bytes in one of the ranges, or those in none of them. -/
structure ByteSet where
  negated : Bool
  ranges : List (UInt8 × UInt8)
  deriving DecidableEq, Repr

namespace ByteSet

def all : ByteSet := ⟨true, []⟩

def single (b : UInt8) : ByteSet := ⟨false, [(b, b)]⟩

def has (s : ByteSet) (b : UInt8) : Bool :=
  (s.ranges.any fun r => r.1 ≤ b && b ≤ r.2) != s.negated

end ByteSet

inductive Pattern where
  /-- The empty name. -/
  | blank
  | byte (set : ByteSet)
  /-- Any bytes, slashes included. -/
  | run
  | seq (first rest : Pattern)
  | either (a b : Pattern)
  deriving DecidableEq, Repr

namespace Pattern

/-- Sequence, where an empty first part is left out and two runs are one. -/
def andThen : Pattern → Pattern → Pattern
  | .blank, q => q
  | .run, .run => .run
  | .run, .seq .run q => .seq .run q
  | p, q => .seq p q

/-- Every place after one that was reached, and that one. -/
def onwards : (reached : Bool) → List Bool → List Bool
  | _, [] => []
  | reached, here :: rest => (reached || here) :: onwards (reached || here) rest

/-- The places in a name that a pattern leads to from those reached. -/
def advance (name : Text.Bytes) : Pattern → (reached : List Bool) → List Bool
  | .blank, reached => reached
  | .byte set, reached => false :: List.zipWith (fun here b => here && set.has b) reached name
  | .run, reached => onwards false reached
  | .seq p q, reached => q.advance name (p.advance name reached)
  | .either p q, reached => List.zipWith (· || ·) (p.advance name reached) (q.advance name reached)

def accepts (p : Pattern) (name : Text.Bytes) : Bool :=
  (p.advance name (true :: name.map fun _ => false)).getLast? = some true

def exactly (bytes : Text.Bytes) : Pattern :=
  bytes.foldr (fun b p => .seq (.byte (.single b)) p) .blank

def seqAll (ps : List Pattern) : Pattern := ps.foldr andThen .blank

/-- One of the patterns; the empty name if there are none. -/
def oneOf : List Pattern → Pattern
  | [] => .blank
  | [p] => p
  | p :: ps => .either p (oneOf ps)

end Pattern

end HeaderGather
