import HeaderGather.Json.Parse
import HeaderGather.Proofs.Json.Quote
import HeaderGather.Proofs.Json.Word

/-! Every value that can be read is read from what is written of it, in any layout. Writing is
followed in two steps: what is written has the tokens of the value, and from these tokens the
value is put together. -/
namespace HeaderGather.Json

/-- A value that stands for itself: its numbers are numbers, and no text in it is lost. -/
inductive Legible : Json → Prop where
  | null : Legible .null
  | bool (value : Bool) : Legible (.bool value)
  | number {digits : String} (h : isNumber digits.toList = true) : Legible (.number digits)
  | text (value : String) : Legible (.text value)
  | list {items : List Json} (h : ∀ item ∈ items, Legible item) : Legible (.list items)
  | object {members : List (String × Json)} (h : ∀ m ∈ members, Legible m.2) :
    Legible (.object members)

/-- A layout that puts nothing but blanks between tokens. -/
structure Layout.Blank (l : Layout) : Prop where
  before : ∀ depth, ∀ c ∈ l.before depth, isBlank c = true
  colon : ∃ after, l.colon = ':' :: after ∧ ∀ c ∈ after, isBlank c = true

theorem Layout.blank_compact : Layout.compact.Blank :=
  ⟨fun _ _ h => absurd h List.not_mem_nil, [], rfl, nofun⟩

theorem Layout.blank_pretty : Layout.pretty.Blank := by
  refine ⟨fun depth c hc => ?_, [' '], rfl, List.forall_mem_singleton.2 rfl⟩
  cases List.mem_cons.1 hc with
  | inl h => rw [h]; rfl
  | inr h => rw [List.eq_of_mem_replicate h]; rfl

mutual

def tokens : Json → List Token
  | .list [] => [.openList, .closeList]
  | .list (item :: items) => .openList :: tokens item ++ itemTokens items ++ [.closeList]
  | .object [] => [.openObject, .closeObject]
  | .object ((key, value) :: members) =>
    .openObject :: .text (some key) :: .colon :: tokens value ++ memberTokens members
      ++ [.closeObject]
  | .text value => [.text (some value)]
  | value => [.word value]

def itemTokens : List Json → List Token
  | [] => []
  | item :: items => .comma :: tokens item ++ itemTokens items

def memberTokens : List (String × Json) → List Token
  | [] => []
  | (key, value) :: members =>
    .comma :: .text (some key) :: .colon :: tokens value ++ memberTokens members

end

/-- What is written reads as some tokens, if it is followed by what it asks for. -/
def Reads (follow : List Char → Prop) (written : List Char) (tokens : List Token) : Prop :=
  ∀ rest, follow rest →
    tokensFrom? .between (written ++ rest) = (tokensFrom? .between rest).map (tokens ++ ·)

/-- Anything may follow. -/
def Any : List Char → Prop := fun _ => True

section Reads

variable {follow follow' : List Char → Prop} {w w' : List Char} {ts ts' : List Token}

theorem Reads.weaken (h : Reads Any w ts) : Reads Stops w ts := fun rest _ => h rest trivial

theorem Reads.append (h : Reads follow w ts) (h' : Reads follow' w' ts')
    (hfollow : ∀ rest, follow' rest → follow (w' ++ rest)) :
    Reads follow' (w ++ w') (ts ++ ts') := by
  intro rest hrest
  rw [List.append_assoc, h _ (hfollow rest hrest), h' rest hrest, Option.map_map]
  congr 1
  funext more
  simp

theorem reads_nil : Reads Stops [] [] := by
  intro rest _
  simp

theorem reads_mark {c : Char} {token : Token} (h : mark? c = some token)
    (hblank : isBlank c = false) (hquote : c ≠ '"') : Reads Any [c] [token] :=
  fun rest _ => tokensFrom?_mark h hblank hquote rest

theorem reads_blanks {blanks : List Char} (h : ∀ c ∈ blanks, isBlank c = true) :
    Reads Any blanks [] := by
  intro rest _
  rw [tokensFrom?_blanks h]
  simp

theorem reads_quote (text : String) : Reads Any (quote text) [.text (some text)] :=
  fun rest _ => tokensFrom?_quote text rest

theorem reads_word {cs : List Char} {token : Token} (hne : cs ≠ [])
    (hcs : cs.all (fun c => !endsWord c) = true) (hword : word? cs = some token) :
    Reads Stops cs [token] :=
  fun _ hrest => tokensFrom?_word hrest hne (by simpa using hcs) hword

theorem reads_marks {c d : Char} {token token' : Token} (hc : mark? c = some token)
    (hblank : isBlank c = false) (hquote : c ≠ '"') (hd : mark? d = some token')
    (hblank' : isBlank d = false) (hquote' : d ≠ '"') : Reads Stops [c, d] [token, token'] :=
  (reads_mark hc hblank hquote).append (reads_mark hd hblank' hquote').weaken fun _ _ => trivial

theorem reads_number {digits : String} (h : isNumber digits.toList = true) :
    Reads Stops digits.toList [.word (.number digits)] := by
  have apart : ∀ word ∈ [[], "null".toList, "true".toList, "false".toList],
      isNumber word = false := by decide
  have hne : ∀ word ∈ [[], "null".toList, "true".toList, "false".toList],
      digits.toList ≠ word := by
    intro word hword he
    exact Bool.false_ne_true ((apart word hword).symm.trans (he ▸ h))
  simp only [List.forall_mem_cons] at hne
  obtain ⟨hempty, hnull, htrue, hfalse, -⟩ := hne
  have hcs : digits.toList.all (fun c => !endsWord c) = true := by
    refine List.all_eq_true.2 fun c hc => ?_
    rw [endsWord_of_isNumeral (isNumeral_of_isNumber h c hc)]
    rfl
  refine reads_word hempty hcs ?_
  rw [word?, if_neg hnull, if_neg htrue, if_neg hfalse, if_pos h, String.ofList_toList]

end Reads

theorem stops_blanks {blanks rest : List Char} (h : ∀ c ∈ blanks, isBlank c = true)
    (hrest : Stops rest) : Stops (blanks ++ rest) := by
  cases blanks with
  | nil => exact hrest
  | cons c blanks =>
      refine stops_cons ?_ (blanks ++ rest)
      rw [endsWord, h c List.mem_cons_self]
      rfl

section Layout

variable {l : Layout} (hl : l.Blank) {c : Char} {token : Token} (hmark : mark? c = some token)
  (hblank : isBlank c = false) (hquote : c ≠ '"')
include hl

theorem reads_colon : Reads Any l.colon [.colon] := by
  obtain ⟨after, hcolon, hafter⟩ := hl.colon
  rw [hcolon]
  exact (reads_mark rfl rfl (by decide)).append (reads_blanks hafter) fun _ _ => trivial

include hmark hblank hquote

theorem reads_before (depth : Nat) : Reads Any (c :: l.before depth) [token] :=
  (reads_mark hmark hblank hquote).append (reads_blanks (hl.before depth)) fun _ _ => trivial

/-- A value after the mark before it. -/
theorem reads_item {depth : Nat} {value : Json}
    (hvalue : Reads Stops (write l depth value) (tokens value)) :
    Reads Stops (c :: l.before depth ++ write l depth value) (token :: tokens value) :=
  (reads_before hl hmark hblank hquote depth).append hvalue fun _ _ => trivial

/-- A key and its value after the mark before them. -/
theorem reads_member {depth : Nat} (key : String) {value : Json}
    (hvalue : Reads Stops (write l depth value) (tokens value)) :
    Reads Stops (c :: l.before depth ++ quote key ++ l.colon ++ write l depth value)
      (token :: .text (some key) :: .colon :: tokens value) := by
  have hkey := (reads_before hl hmark hblank hquote depth).append (reads_quote key)
    (fun _ _ => trivial)
  exact (hkey.append (reads_colon hl) fun _ _ => trivial).append hvalue fun _ _ => trivial

end Layout

theorem stops_writeItems {l : Layout} {depth : Nat} (items : List Json) {rest : List Char}
    (h : Stops rest) : Stops (writeItems l depth items ++ rest) := by
  cases items with
  | nil => exact h
  | cons item items => exact stops_cons rfl _

theorem stops_writeMembers {l : Layout} {depth : Nat} (members : List (String × Json))
    {rest : List Char} (h : Stops rest) : Stops (writeMembers l depth members ++ rest) := by
  cases members with
  | nil => exact h
  | cons m members => exact stops_cons rfl _

section Parts

variable {l : Layout} (hl : l.Blank)
include hl

theorem reads_writeItems {depth : Nat} {items : List Json}
    (h : ∀ item ∈ items, Reads Stops (write l depth item) (tokens item)) :
    Reads Stops (writeItems l depth items) (itemTokens items) := by
  induction items with
  | nil => exact reads_nil
  | cons item items ih =>
      have hitem := reads_item hl (c := ',') rfl rfl (by decide) (h item List.mem_cons_self)
      exact hitem.append (ih fun other ho => h other (List.mem_cons_of_mem _ ho))
        fun _ => stops_writeItems items

theorem reads_writeMembers {depth : Nat} {members : List (String × Json)}
    (h : ∀ m ∈ members, Reads Stops (write l depth m.2) (tokens m.2)) :
    Reads Stops (writeMembers l depth members) (memberTokens members) := by
  induction members with
  | nil => exact reads_nil
  | cons m members ih =>
      obtain ⟨key, value⟩ := m
      have hmember := reads_member hl (c := ',') rfl rfl (by decide) key
        (h (key, value) List.mem_cons_self)
      exact hmember.append (ih fun other ho => h other (List.mem_cons_of_mem _ ho))
        fun _ => stops_writeMembers members

/-- The end of a list or an object. -/
theorem reads_end {depth : Nat} {c : Char} {token : Token} {w : List Char} {ts : List Token}
    (h : Reads Stops w ts) (hmark : mark? c = some token) (hblank : isBlank c = false)
    (hquote : c ≠ '"') : Reads Stops (w ++ l.before depth ++ [c]) (ts ++ [token]) := by
  have hbefore : Reads Stops (w ++ l.before depth) (ts ++ []) :=
    h.append (reads_blanks (hl.before depth)).weaken fun _ => stops_blanks (hl.before depth)
  rw [List.append_nil] at hbefore
  refine hbefore.append (reads_mark hmark hblank hquote).weaken fun rest _ => stops_cons ?_ rest
  rw [endsWord, hmark]
  simp

/-- What is written of a value has the tokens of the value. -/
theorem reads_write {value : Json} (h : value.Legible) (depth : Nat) :
    Reads Stops (write l depth value) (tokens value) := by
  induction h generalizing depth with
  | null => rw [write]; exact reads_word (by decide) (by decide) rfl
  | bool value => cases value <;> (rw [write]; exact reads_word (by decide) (by decide) rfl)
  | number h => rw [write]; exact reads_number h
  | text value => rw [write]; exact (reads_quote value).weaken
  | @list items h ih =>
      cases items with
      | nil => rw [write]; exact reads_marks rfl rfl (by decide) rfl rfl (by decide)
      | cons item items =>
          have hfirst := reads_item hl (c := '[') rfl rfl (by decide)
            (ih item List.mem_cons_self (depth + 1))
          have hrest := reads_writeItems hl fun other ho =>
            ih other (List.mem_cons_of_mem _ ho) (depth + 1)
          rw [write, tokens]
          exact reads_end hl (hfirst.append hrest fun _ => stops_writeItems items) rfl rfl
            (by decide)
  | @object members h ih =>
      cases members with
      | nil => rw [write]; exact reads_marks rfl rfl (by decide) rfl rfl (by decide)
      | cons m members =>
          obtain ⟨key, value⟩ := m
          have hfirst := reads_member hl (c := '{') rfl rfl (by decide) key
            (ih (key, value) List.mem_cons_self (depth + 1))
          have hrest := reads_writeMembers hl fun other ho =>
            ih other (List.mem_cons_of_mem _ ho) (depth + 1)
          rw [write, tokens]
          exact reads_end hl (hfirst.append hrest fun _ => stops_writeMembers members) rfl rfl
            (by decide)

end Parts

namespace Parsing

/-- Tokens that lead from one point of reading to another. -/
def Leads (p : Parsing) (ts : List Token) (q : Parsing) : Prop := ts.foldlM step? p = some q

variable {p q r : Parsing} {ts ts' : List Token}

theorem leads_nil : Leads p [] p := rfl

theorem Leads.cons {token : Token} (h : step? p token = some q) (h' : Leads q ts r) :
    Leads p (token :: ts) r := by
  rw [Leads, List.foldlM_cons, h]
  exact h'

theorem Leads.append (h : Leads p ts q) (h' : Leads q ts' r) : Leads p (ts ++ ts') r := by
  rw [Leads, List.foldlM_append, h]
  exact h'

/-- A value may begin. -/
inductive TakesValue : Awaited → Prop where
  | value : TakesValue .value
  | valueOrClose : TakesValue .valueOrClose

theorem step?_opening {stack : List Frame} {awaited : Awaited} (ha : TakesValue awaited)
    {token : Token} (h : opening? stack token = some q) :
    step? ⟨stack, awaited⟩ token = some q := by
  have hclosing : closing? stack token = none := by
    unfold closing?
    split <;> simp_all [opening?]
  cases ha with
  | value => exact h
  | valueOrClose =>
      have hstep : step? ⟨stack, .valueOrClose⟩ token =
          (closing? stack token).or (opening? stack token) := rfl
      rw [hstep, hclosing, Option.none_or, h]

/-- The parts of a list after its first. -/
theorem leads_itemTokens {items : List Json} (stack : List Frame) (read : List Json)
    (h : ∀ item ∈ items, ∀ stack, Leads ⟨stack, .value⟩ (tokens item) (complete item stack)) :
    Leads ⟨.list read :: stack, .commaOrClose⟩ (itemTokens items)
      ⟨.list (items.reverse ++ read) :: stack, .commaOrClose⟩ := by
  induction items generalizing read with
  | nil => exact leads_nil
  | cons item items ih =>
      have hcomma : step? ⟨.list read :: stack, .commaOrClose⟩ .comma =
          some ⟨.list read :: stack, .value⟩ := rfl
      have hitem := h item List.mem_cons_self (.list read :: stack)
      have hitems := ih (item :: read) fun other ho => h other (List.mem_cons_of_mem _ ho)
      rw [List.reverse_cons, List.append_assoc]
      exact .cons hcomma (hitem.append hitems)

/-- The members of an object after its first. -/
theorem leads_memberTokens {members : List (String × Json)} (stack : List Frame)
    (read : List (Option String × Json))
    (h : ∀ m ∈ members, ∀ stack, Leads ⟨stack, .value⟩ (tokens m.2) (complete m.2 stack)) :
    Leads ⟨.object read none :: stack, .commaOrClose⟩ (memberTokens members)
      ⟨.object ((members.map fun m => (some m.1, m.2)).reverse ++ read) none :: stack,
        .commaOrClose⟩ := by
  induction members generalizing read with
  | nil => exact leads_nil
  | cons m members ih =>
      obtain ⟨key, value⟩ := m
      have hcomma : step? ⟨.object read none :: stack, .commaOrClose⟩ .comma =
          some ⟨.object read none :: stack, .key⟩ := rfl
      have hkey : step? ⟨.object read none :: stack, .key⟩ (.text (some key)) =
          some ⟨.object read (some key) :: stack, .colon⟩ := rfl
      have hcolon : step? ⟨.object read (some key) :: stack, .colon⟩ .colon =
          some ⟨.object read (some key) :: stack, .value⟩ := rfl
      have hvalue := h (key, value) List.mem_cons_self (.object read (some key) :: stack)
      have hmembers := ih ((some key, value) :: read) fun other ho =>
        h other (List.mem_cons_of_mem _ ho)
      rw [List.map_cons, List.reverse_cons, List.append_assoc]
      exact .cons hcomma (.cons hkey (.cons hcolon (hvalue.append hmembers)))

theorem objectOf_some (members : List (String × Json)) :
    objectOf (members.map fun m => (some m.1, m.2)) = .object members := by
  have hmapM : (members.map fun m => (some m.1, m.2)).mapM
      (fun m : Option String × Json => m.1.map fun key => (key, m.2)) = some members := by
    rw [List.mapM_map]
    exact List.mapM_pure.trans (congrArg some (List.map_id members))
  rw [objectOf, hmapM]

/-- The tokens of a value lead to the value, wherever one may begin. -/
theorem leads_tokens {value : Json} (h : value.Legible) (stack : List Frame) {awaited : Awaited}
    (ha : TakesValue awaited) : Leads ⟨stack, awaited⟩ (tokens value) (complete value stack) := by
  induction h generalizing stack awaited with
  | null => exact .cons (step?_opening ha rfl) leads_nil
  | bool value => exact .cons (step?_opening ha rfl) leads_nil
  | number h => exact .cons (step?_opening ha rfl) leads_nil
  | text value => exact .cons (step?_opening ha rfl) leads_nil
  | @list items h ih =>
      have hopen : step? ⟨stack, awaited⟩ .openList = some ⟨.list [] :: stack, .valueOrClose⟩ :=
        step?_opening ha rfl
      cases items with
      | nil => exact .cons hopen (.cons rfl leads_nil)
      | cons item items =>
          have hitem := ih item List.mem_cons_self (.list [] :: stack) .valueOrClose
          have hitems := leads_itemTokens stack [item] fun other ho stack =>
            ih other (List.mem_cons_of_mem _ ho) stack .value
          refine .append ((Leads.cons hopen hitem).append hitems) (.cons ?_ leads_nil)
          simp [step?, closing?]
  | @object members h ih =>
      have hopen : step? ⟨stack, awaited⟩ .openObject =
          some ⟨.object [] none :: stack, .keyOrClose⟩ := step?_opening ha rfl
      cases members with
      | nil => exact .cons hopen (.cons rfl leads_nil)
      | cons m members =>
          obtain ⟨key, value⟩ := m
          have hkey : step? ⟨.object [] none :: stack, .keyOrClose⟩ (.text (some key)) =
              some ⟨.object [] (some key) :: stack, .colon⟩ := rfl
          have hcolon : step? ⟨.object [] (some key) :: stack, .colon⟩ .colon =
              some ⟨.object [] (some key) :: stack, .value⟩ := rfl
          have hvalue := ih (key, value) List.mem_cons_self (.object [] (some key) :: stack) .value
          have hmembers := leads_memberTokens stack [(some key, value)] fun other ho stack =>
            ih other (List.mem_cons_of_mem _ ho) stack .value
          refine .append ((Leads.cons hopen (.cons hkey (.cons hcolon hvalue))).append hmembers)
            (.cons ?_ leads_nil)
          have hobject := objectOf_some ((key, value) :: members)
          simp_all [step?, closing?]

end Parsing

/-- Every value that stands for itself is read from what is written of it. -/
theorem parse?_write {value : Json} (h : value.Legible) {l : Layout} (hl : l.Blank) :
    parse? (String.ofList (write l 0 value)) = some value := by
  have htokens : tokensFrom? .between (write l 0 value) = some (tokens value) := by
    have hread := reads_write hl h 0 [] stops_nil
    rwa [List.append_nil, tokensFrom?, Option.map_some, List.append_nil] at hread
  have hleads : (tokens value).foldlM Parsing.step? ⟨[], .value⟩ = some ⟨[], .done value⟩ :=
    Parsing.leads_tokens h [] .value
  rw [parse?, tokens?, String.toList_ofList, htokens, Option.bind_some, ofTokens?, hleads]

end HeaderGather.Json
