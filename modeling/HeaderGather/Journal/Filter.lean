import HeaderGather.Journal

/-! Choosing among the events of a journal. A filter is a list of rules, a level
for the targets that begin with a name. The rule with the longest such name
decides; an event that no rule is about is not shown. -/
namespace HeaderGather

namespace Level

def lowercase (text : String) : String := String.ofList (text.toList.map Char.toLower)

def all : List Level := [.off, .error, .warn, .info, .debug, .trace]

/-- A level by its rank, or by its name in letters of either case. -/
def ofText? (text : String) : Option Level :=
  ((Text.unsigned? 10 text.toList).bind fun rank => all.find? fun l => l.rank = rank).or
    (all.find? fun l => lowercase l.name = lowercase text)

end Level

structure Rule where
  /-- What the targets of the rule begin with. -/
  target : String
  level : Level
  deriving DecidableEq, Repr

namespace Rule

def covers (r : Rule) (e : Event) : Bool := r.target.toList.isPrefixOf e.target.toList

def isStart (c : Char) : Bool := c.isAlphanum || c ∈ ['-', ':', '_'] || 0x80 ≤ c.toNat

/-- A level for every target, a target with a level, or a target to show whole. -/
def ofText? (text : String) : Option Rule :=
  let target := text.toList.takeWhile (· ≠ '=')
  match (text.toList.dropWhile Text.isBlank).head?, text.toList.drop target.length with
  | none, _ => none
  | some c, [] =>
    if isStart c then some (((Level.ofText? text).map (Rule.mk "")).getD ⟨text, .trace⟩)
    else none
  | some c, _ :: level =>
    if isStart c && target.head? = some c then
      if level = [] then some ⟨String.ofList target, .trace⟩
      else (Level.ofText? (String.ofList level)).map (Rule.mk (String.ofList target))
    else none

end Rule

structure Filter where
  rules : List Rule
  deriving DecidableEq, Repr

namespace Filter

def ofLevel (level : Level) : Filter := ⟨[⟨"", level⟩]⟩

/-- Rules between commas. Without any, errors are shown. -/
def ofText? (text : String) : Option Filter :=
  let parts := (Text.splitOn ',' text.toList).filter (· ≠ [])
  if parts = [] then some (ofLevel .error)
  else (parts.mapM fun part => Rule.ofText? (String.ofList part)).map Filter.mk

/-- The better of two rules: that of the longer target, or the later one. -/
def prefer (best : Option Rule) (r : Rule) : Option Rule :=
  match best with
  | none => some r
  | some b => if b.target.length ≤ r.target.length then some r else some b

def shows (f : Filter) (e : Event) : Bool :=
  match (f.rules.filter fun r => r.covers e).foldl prefer none with
  | some r => e.level.rank ≤ r.level.rank
  | none => false

def lines (f : Filter) (j : Journal) : List String := (j.filter f.shows).map Event.line

end Filter

end HeaderGather
