import HeaderGather.Yaml.Node

/-! Reading YAML documents from tokens. A document is a node. -/
namespace HeaderGather.Yaml.Document

/-- What reading goes on: the tokens to come, and of the document the numbers of
the names anchored and the prefixes that tag handles stand for. -/
structure Reading where
  tokens : List Token
  numbers : List (String × Nat) := []
  prefixes : List (String × Text.Bytes) := []

abbrev Reader := StateT Reading Option

def peek : Reader Token := do pure ((← get).tokens.head?.getD .streamEnd)

def drop : Reader Unit := modify fun r => { r with tokens := r.tokens.tail }

def fail {α : Type} : Reader α := fun _ => none

/-- The handles that every document knows. -/
def commonPrefixes : List (String × Text.Bytes) :=
  [("!", Text.encode ['!']), ("!!", typeTag "")]

def wholeTag (tag : Tag) : Reader Text.Bytes := do
  if tag.handle = "" then pure tag.suffix
  else match ((← get).prefixes ++ commonPrefixes).lookup tag.handle with
    | some start => pure (start ++ tag.suffix)
    | none => fail

/-- An anchor and a tag before a node, in either order. -/
def properties : Reader (Option String × Option Tag) := do
  match ← peek with
  | .anchor name =>
    drop
    match ← peek with
    | .tag tag => drop; pure (some name, some tag)
    | _ => pure (some name, none)
  | .tag tag =>
    drop
    match ← peek with
    | .anchor name => drop; pure (some name, some tag)
    | _ => pure (none, some tag)
  | _ => pure (none, none)

/-- The number of a new anchor: how many names were anchored before it. A name that
is anchored again takes the number that the next new name will take too. -/
def number (name : String) : Reader Nat := do
  let numbers := (← get).numbers
  modify fun r => { r with numbers := (name, numbers.length) :: numbers.filter (·.1 ≠ name) }
  pure numbers.length

/-- A node under a name, which names it already while it is read. -/
def anchored (name : Option String) (read : Reader Node) : Reader Node := do
  match name with
  | none => read
  | some name =>
    let number ← number name
    pure (.anchored number (← read))

/-- What a name stands for that was anchored before. -/
def aliased (name : String) : Reader Node := do
  match (← get).numbers.lookup name with
  | some number => pure (.alias number)
  | none => fail

/-- Which collections may begin where a node is read. -/
inductive Context where
  | flow
  | block
  /-- As a key or value of a block mapping, whose sequences need no indentation. -/
  | mappingPart
  deriving DecidableEq

mutual

def node (fuel : Nat) (context : Context) : Reader Node :=
  match fuel with
  | 0 => fail
  | fuel + 1 => do
    match ← peek with
    | .alias name => drop; aliased name
    | _ =>
      let (name, tag) ← properties
      let hasProperty := name.isSome || tag.isSome
      let tag ← tag.mapM wholeTag
      anchored name do
        match ← peek with
        | .scalar text style =>
          drop
          pure (.scalar text style tag)
        | .flowSequence => drop; pure (.sequence (← flowItems fuel true))
        | .flowMapping => drop; pure (.mapping (← flowEntries fuel true))
        | token =>
          if token = .blockEntry && context = .mappingPart then
            pure (.sequence (← plainItems fuel))
          else if token = .blockSequence && context ≠ .flow then
            drop; pure (.sequence (← blockItems fuel))
          else if token = .blockMapping && context ≠ .flow then
            drop; pure (.mapping (← blockEntries fuel))
          else if hasProperty then pure (Node.empty tag)
          else fail

/-- A node, or the empty scalar where one of the tokens `ends` comes. -/
def nodeUnless (fuel : Nat) (context : Context) (ends : List Token) : Reader Node :=
  match fuel with
  | 0 => fail
  | fuel + 1 => do
    if ends.contains (← peek) then pure (Node.empty none) else node fuel context

def blockItems (fuel : Nat) : Reader (List Node) :=
  match fuel with
  | 0 => fail
  | fuel + 1 => do
    match ← peek with
    | .blockEntry =>
      drop
      let item ← nodeUnless fuel .block [.blockEntry, .blockEnd]
      pure (item :: (← blockItems fuel))
    | .blockEnd => drop; pure []
    | _ => fail

/-- The items of a block sequence at the indentation of its mapping. -/
def plainItems (fuel : Nat) : Reader (List Node) :=
  match fuel with
  | 0 => fail
  | fuel + 1 => do
    match ← peek with
    | .blockEntry =>
      drop
      let item ← nodeUnless fuel .block [.blockEntry, .key, .value, .blockEnd]
      pure (item :: (← plainItems fuel))
    | _ => pure []

def blockEntries (fuel : Nat) : Reader (List (Node × Node)) :=
  match fuel with
  | 0 => fail
  | fuel + 1 => do
    match ← peek with
    | .key =>
      drop
      let key ← nodeUnless fuel .mappingPart [.key, .value, .blockEnd]
      let value ← blockValue fuel
      pure ((key, value) :: (← blockEntries fuel))
    | .blockEnd => drop; pure []
    | _ => fail

def blockValue (fuel : Nat) : Reader Node :=
  match fuel with
  | 0 => fail
  | fuel + 1 => do
    match ← peek with
    | .value => drop; nodeUnless fuel .mappingPart [.key, .value, .blockEnd]
    | _ => pure (Node.empty none)

/-- The items of a flow sequence after its bracket or after an item. An item may
be a mapping of one entry. -/
def flowItems (fuel : Nat) (first : Bool) : Reader (List Node) :=
  match fuel with
  | 0 => fail
  | fuel + 1 => do
    if (← peek) = .flowSequenceEnd then drop; pure []
    else
      if !first then
        if (← peek) = .flowEntry then drop else fail
      match ← peek with
      | .flowSequenceEnd => drop; pure []
      | .key =>
        drop
        let item ← singleEntry fuel
        pure (item :: (← flowItems fuel false))
      | _ =>
        let item ← node fuel .flow
        pure (item :: (← flowItems fuel false))

/-- A mapping of one entry in a flow sequence. An absent key takes the token after
it along. -/
def singleEntry (fuel : Nat) : Reader Node :=
  match fuel with
  | 0 => fail
  | fuel + 1 => do
    let ends := [Token.value, .flowEntry, .flowSequenceEnd]
    let key ←
      if ends.contains (← peek) then do drop; pure (Node.empty none) else node fuel .flow
    match ← peek with
    | .value =>
      drop
      let value ← nodeUnless fuel .flow [.flowEntry, .flowSequenceEnd]
      pure (.mapping [(key, value)])
    | _ => pure (.mapping [(key, Node.empty none)])

def flowEntries (fuel : Nat) (first : Bool) : Reader (List (Node × Node)) :=
  match fuel with
  | 0 => fail
  | fuel + 1 => do
    if (← peek) = .flowMappingEnd then drop; pure []
    else
      if !first then
        if (← peek) = .flowEntry then drop else fail
      match ← peek with
      | .flowMappingEnd => drop; pure []
      | .key =>
        drop
        let key ← nodeUnless fuel .flow [.value, .flowEntry, .flowMappingEnd]
        let value ← flowValue fuel
        pure ((key, value) :: (← flowEntries fuel false))
      | _ =>
        let key ← node fuel .flow
        pure ((key, Node.empty none) :: (← flowEntries fuel false))

def flowValue (fuel : Nat) : Reader Node :=
  match fuel with
  | 0 => fail
  | fuel + 1 => do
    match ← peek with
    | .value => drop; nodeUnless fuel .flow [.flowEntry, .flowMappingEnd]
    | _ => pure (Node.empty none)

end

/-- The directives before a document: at most one version, of the first major
number, and a prefix for each handle at most once. -/
def directives : (fuel : Nat) → (version : Bool) → Reader Unit
  | 0, _ => fail
  | fuel + 1, version => do
    match ← peek with
    | .directive (.version major minor) =>
      drop
      if version || major ≠ 1 || (minor ≠ 1 && minor ≠ 2) then fail
      else directives fuel true
    | .directive (.tagPrefix handle start) =>
      drop
      if ((← get).prefixes.map (·.1)).contains handle then fail
      else
        modify fun r => { r with prefixes := r.prefixes ++ [(handle, start)] }
        directives fuel version
    | _ => pure ()

def isDirective : Token → Bool
  | .directive _ => true
  | _ => false

def content (fuel : Nat) : Reader Node := do
  let token ← peek
  if isDirective token || token ∈ [.documentStart, .documentEnd, .streamEnd] then
    pure (Node.empty none)
  else node fuel .block

def dropEnds : (fuel : Nat) → Reader Unit
  | 0 => fail
  | fuel + 1 => do
    if (← peek) = .documentEnd then drop; dropEnds fuel else pure ()

/-- The documents of a stream. Only the first may begin without dashes. -/
def documentsFrom : (fuel : Nat) → (first : Bool) → Reader (List Node)
  | 0, _ => fail
  | fuel + 1, first => do
    modify fun r => { r with numbers := [], prefixes := [] }
    if !first then dropEnds fuel
    let token ← peek
    if token = .streamEnd then pure []
    else
      let document ←
        if first && !isDirective token && token ≠ .documentStart then node fuel .block
        else do
          directives fuel false
          if (← peek) = .documentStart then drop; content fuel else fail
      if (← peek) = .documentEnd then drop
      pure (document :: (← documentsFrom fuel false))

def readAll? (text : String) : Option (List Node) := do
  let tokens ← tokens? text
  let (documents, _) ← (documentsFrom (8 * tokens.length + 8) true).run { tokens }
  pure documents

end HeaderGather.Yaml.Document
