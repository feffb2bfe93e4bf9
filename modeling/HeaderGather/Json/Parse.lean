import HeaderGather.Json.Token

/-! From tokens to a value. The lists and objects begun and not closed form a
stack; each token closes one, opens one or adds to the innermost. -/
namespace HeaderGather.Json

/-- A list or object begun, its last part first. -/
inductive Frame where
  | list (items : List Json)
  /-- With the key whose value is to come. -/
  | object (members : List (Option String × Json)) (key : Option String)

inductive Awaited where
  | value
  | valueOrClose
  | key
  | keyOrClose
  | colon
  | commaOrClose
  | done (value : Json)

structure Parsing where
  stack : List Frame
  awaited : Awaited

namespace Parsing

/-- An object with a key that cannot be read cannot be read itself. -/
def objectOf (members : List (Option String × Json)) : Json :=
  match members.mapM fun m => m.1.map fun key => (key, m.2) with
  | some members => .object members
  | none => .illegible

/-- A complete value goes into the innermost frame. -/
def complete (value : Json) : List Frame → Parsing
  | [] => ⟨[], .done value⟩
  | .list items :: outer => ⟨.list (value :: items) :: outer, .commaOrClose⟩
  | .object members key :: outer =>
    ⟨.object ((key, value) :: members) none :: outer, .commaOrClose⟩

def opening? (stack : List Frame) : Token → Option Parsing
  | .openList => some ⟨.list [] :: stack, .valueOrClose⟩
  | .openObject => some ⟨.object [] none :: stack, .keyOrClose⟩
  | .text (some value) => some (complete (.text value) stack)
  | .text none => some (complete .illegible stack)
  | .word value => some (complete value stack)
  | _ => none

def closing? : List Frame → Token → Option Parsing
  | .list items :: outer, .closeList => some (complete (.list items.reverse) outer)
  | .object members _ :: outer, .closeObject => some (complete (objectOf members.reverse) outer)
  | _, _ => none

def key? : List Frame → Token → Option Parsing
  | .object members _ :: outer, .text key => some ⟨.object members key :: outer, .colon⟩
  | _, _ => none

def comma? : List Frame → Token → Option Parsing
  | .list items :: outer, .comma => some ⟨.list items :: outer, .value⟩
  | .object members key :: outer, .comma => some ⟨.object members key :: outer, .key⟩
  | _, _ => none

def step? (p : Parsing) (token : Token) : Option Parsing :=
  match p.awaited with
  | .value => opening? p.stack token
  | .valueOrClose => (closing? p.stack token).or (opening? p.stack token)
  | .key => key? p.stack token
  | .keyOrClose => (closing? p.stack token).or (key? p.stack token)
  | .colon =>
    match token with
    | .colon => some { p with awaited := .value }
    | _ => none
  | .commaOrClose => (closing? p.stack token).or (comma? p.stack token)
  | .done _ => none

end Parsing

def ofTokens? (tokens : List Token) : Option Json :=
  match tokens.foldlM Parsing.step? ⟨[], .value⟩ with
  | some ⟨_, .done value⟩ => some value
  | _ => none

def parse? (text : String) : Option Json := (tokens? text).bind ofTokens?

end HeaderGather.Json
