import HeaderGather.Proofs.Scan.Window

/-! What scanned lines do to a catalog: each name they mention that is new to it is put
at its end, in the order of the first mentions and with the texts of these. -/
namespace HeaderGather

namespace Counts

theorem add_def (a b : Counts) : a + b =
    ⟨a.filesScanned + b.filesScanned, a.filesUnreadable + b.filesUnreadable,
      a.includesSeen + b.includesSeen, a.malformed + b.malformed,
      a.newHeaders + b.newHeaders⟩ := rfl

end Counts

/-- The name and the text of an include. -/
def Directive.mention? : Directive → Option (String × String)
  | .include text name => some (String.ofList name, String.ofList text)
  | _ => none

namespace Scan

/-- The names and texts of the includes, line by line. -/
def mentions (lines : List (List Char)) : List (String × String) :=
  lines.filterMap fun line => (Directive.ofLine line).mention?

theorem mentions_cons (line : List Char) (lines : List (List Char)) :
    mentions (line :: lines) = (Directive.ofLine line).mention?.toList ++ mentions lines := by
  cases h : (Directive.ofLine line).mention? <;> simp [mentions, h]

/-- The mentions of names that are not known and that no earlier mention has. -/
def firstMentions (known : List String) (all : List (String × String)) : List (String × String) :=
  (all.zipIdx.filter fun (m, i) => m.1 ∉ known ∧ m.1 ∉ (all.take i).map Prod.fst).map Prod.fst

/-- The entry that a mention makes. -/
def entryOf (m : String × String) : String × Location := (m.1, .wanted m.2)

theorem firstMentions_congr {known known' : List String} (all : List (String × String))
    (h : ∀ name, name ∈ known ↔ name ∈ known') :
    firstMentions known all = firstMentions known' all := by
  simp only [firstMentions, h]

theorem firstMentions_cons (known : List String) (m : String × String)
    (all : List (String × String)) :
    firstMentions known (m :: all) =
      if m.1 ∈ known then firstMentions known all
      else m :: firstMentions (known ++ [m.1]) all := by
  have shift : ∀ p : String → Prop, ∀ [DecidablePred p],
      (((all.zipIdx 1).filter fun (n, i) =>
        p n.1 ∧ n.1 ∉ ((m :: all).take i).map Prod.fst).map Prod.fst) =
      ((all.zipIdx.filter fun (n, i) =>
        (p n.1 ∧ n.1 ≠ m.1) ∧ n.1 ∉ (all.take i).map Prod.fst).map Prod.fst) := by
    intro p _
    rw [List.zipIdx_succ, List.filter_map, List.map_map]
    simp [Function.comp_def, and_assoc]
  simp only [firstMentions, List.zipIdx_cons, Nat.zero_add, List.filter_cons]
  by_cases h : m.1 ∈ known
  · simp only [h, not_true_eq_false, false_and, decide_false, Bool.false_eq_true, if_false, if_true]
    rw [shift (· ∉ known)]
    congr 2
    funext ⟨n, i⟩
    have hne : n.1 ∉ known → n.1 ≠ m.1 := fun hn e => hn (e ▸ h)
    grind
  · simp only [h, not_false_eq_true, List.take_zero, List.map_nil, List.not_mem_nil, and_self,
      decide_true, if_true, if_false, List.map_cons]
    rw [shift (· ∉ known)]
    simp only [List.mem_append, List.mem_singleton, not_or]

theorem mem_append_cons_of_mem {α : Type} {a b : α} {known rest : List α} (h : a ∈ known) :
    b ∈ known ++ a :: rest ↔ b ∈ known ++ rest := by
  simp only [List.mem_append, List.mem_cons]
  constructor
  · rintro (hk | rfl | hr)
    · exact .inl hk
    · exact .inl h
    · exact .inr hr
  · rintro (hk | hr)
    · exact .inl hk
    · exact .inr (.inr hr)

theorem firstMentions_append (known : List String) (first rest : List (String × String)) :
    firstMentions known (first ++ rest) =
      firstMentions known first ++ firstMentions (known ++ first.map Prod.fst) rest := by
  induction first generalizing known with
  | nil => simp [firstMentions]
  | cons m first ih =>
      rw [List.cons_append, firstMentions_cons, firstMentions_cons]
      by_cases h : m.1 ∈ known
      · rw [if_pos h, if_pos h, ih]
        congr 1
        apply firstMentions_congr
        intro name
        rw [List.map_cons, mem_append_cons_of_mem h]
      · rw [if_neg h, if_neg h, ih]
        simp only [List.map_cons, List.append_assoc, List.cons_append, List.nil_append]

/-- The names after a scan are the names before it and those mentioned. -/
theorem mem_firstMentions_names (known : List String) (all : List (String × String))
    (name : String) :
    name ∈ known ++ (firstMentions known all).map Prod.fst ↔
      name ∈ known ++ all.map Prod.fst := by
  induction all generalizing known with
  | nil => simp [firstMentions]
  | cons m all ih =>
      rw [firstMentions_cons]
      by_cases h : m.1 ∈ known
      · rw [if_pos h, ih, List.map_cons, mem_append_cons_of_mem h]
      · rw [if_neg h]
        have step := ih (known ++ [m.1])
        simpa only [List.map_cons, List.append_assoc, List.cons_append, List.nil_append] using step

/-- What scanned lines count. -/
def countsOf (known : List String) (lines : List (List Char)) : Counts where
  includesSeen := lines.countP isInclude
  malformed := lines.countP isMalformed
  newHeaders := (firstMentions known (mentions lines)).length

theorem ofLines_entries (origin : Path) (c : Catalog) (lines : List (List Char)) :
    (ofLines origin c lines).catalog.entries =
      c.entries ++ (firstMentions c.names (mentions lines)).map entryOf := by
  induction lines generalizing c with
  | nil => simp [ofLines, mentions, firstMentions]
  | cons line lines ih =>
      cases h : Directive.ofLine line with
      | other => simpa [ofLines, mentions_cons, h, Directive.mention?] using ih c
      | malformed => simpa [ofLines, after, mentions_cons, h, Directive.mention?] using ih c
      | «include» text name =>
          by_cases known : String.ofList name ∈ c.names
          · simpa [ofLines, after, mentions_cons, h, Directive.mention?, firstMentions_cons, known]
              using ih c
          · have step := ih (c.add (String.ofList name) (String.ofList text))
            rw [Catalog.entries_add, Catalog.names_add, if_neg known, if_neg known] at step
            simpa [ofLines, after, mentions_cons, h, Directive.mention?, firstMentions_cons, known,
              entryOf] using step

theorem ofLines_counts (origin : Path) (c : Catalog) (lines : List (List Char)) :
    (ofLines origin c lines).counts = countsOf c.names lines := by
  induction lines generalizing c with
  | nil => rfl
  | cons line lines ih =>
      cases h : Directive.ofLine line with
      | other =>
          simp [ofLines, h, ih, countsOf, isInclude, isMalformed, Directive.isInclude,
            mentions_cons, Directive.mention?]
      | malformed =>
          simp [ofLines, after, h, ih, countsOf, isInclude, isMalformed, Directive.isInclude,
            mentions_cons, Directive.mention?, Counts.add_def, Nat.add_comm]
      | «include» text name =>
          by_cases known : String.ofList name ∈ c.names
          · simp [ofLines, after, h, known, ih, countsOf, isInclude, isMalformed,
              Directive.isInclude, mentions_cons, Directive.mention?, firstMentions_cons,
              Counts.add_def, Nat.add_comm]
          · simp [ofLines, after, h, known, ih, countsOf, isInclude, isMalformed,
              Directive.isInclude, mentions_cons, Directive.mention?, firstMentions_cons,
              Catalog.names_add, Counts.add_def, Nat.add_comm]

end Scan

end HeaderGather
