import Mathlib.Data.List.Forall2
import HeaderGather.Proofs.Scan.Mentions
import HeaderGather.Proofs.Text.Cut

/-! Sources scanned one after the other, against what they say when each is read as a
whole: the parts read, the entries that these parts add, and the counts. -/
namespace HeaderGather

/-- The lines of some bytes: cut after every newline, decoded, without their line ends. -/
def Text.linesOf (bytes : Text.Bytes) : List (List Char) :=
  (Text.splitAfter Text.newline bytes).map Text.lineOf

/-- A source that is read to its end. -/
def Source.complete (bytes : Text.Bytes) : Source := { bytes }

@[simp] theorem Source.fault?_complete (bytes : Text.Bytes) :
    (Source.complete bytes).fault? = none := rfl

@[simp] theorem Source.lines_complete (bytes : Text.Bytes) :
    (Source.complete bytes).lines = Text.linesOf bytes := rfl

namespace Scan

/-- `part` is what is read of a source that holds `bytes`. -/
def IsPart (window : Option Nat) (bytes : Text.Bytes) (part : List (List Char)) : Prop :=
  ∃ pieces, Text.IsCut Text.newline bytes pieces ∧ IsRead window (pieces.map Text.lineOf) part

theorem isPart_iff (window : Option Nat) (bytes : Text.Bytes) (part : List (List Char)) :
    IsPart window bytes part ↔ part = consumed window none (Text.linesOf bytes) := by
  constructor
  · rintro ⟨pieces, cut, read⟩
    rw [cut.eq_splitAfter] at read
    exact read.unique (isRead_consumed _ _)
  · rintro rfl
    exact ⟨_, Text.isCut_splitAfter _ _, isRead_consumed _ _⟩

/-- Scans sources one after the other into one catalog. Each comes with the path that the
journal names, and is counted on its own. -/
def ofSources (window : Option Nat) : Catalog → List (Path × Source) → Catalog × List Counts
  | c, [] => (c, [])
  | c, (origin, source) :: rest =>
    let s := ofSource window origin source c
    let others := ofSources window s.catalog rest
    (others.1, s.counts :: others.2)

/-- What was read goes into the catalog, however the reading ended. -/
theorem ofSource_catalog (window : Option Nat) (origin : Path) (source : Source) (c : Catalog) :
    (ofSource window origin source c).catalog =
      (ofLines origin c (consumed window none source.lines)).catalog := by
  simp only [ofSource]
  split
  · rfl
  · split <;> rfl

theorem ofSource_counts_complete (window : Option Nat) (origin : Path) (bytes : Text.Bytes)
    (c : Catalog) :
    (ofSource window origin (.complete bytes) c).counts =
      countsOf c.names (consumed window none (Text.linesOf bytes)) + { filesScanned := 1 } := by
  rw [← ofLines_counts origin]
  by_cases h : passed window (sinceAfter (consumed window none (Text.linesOf bytes))) = true <;>
    simp [ofSource, h]

theorem names_ofLines (origin : Path) (c : Catalog) (lines : List (List Char)) (name : String) :
    name ∈ (ofLines origin c lines).catalog.names ↔
      name ∈ c.names ++ (mentions lines).map Prod.fst := by
  rw [← mem_firstMentions_names]
  simp [Catalog.names, ofLines_entries, entryOf, Function.comp_def]

/-- The lines that are read of a source. -/
def partOf (window : Option Nat) (source : Source) : List (List Char) :=
  consumed window none source.lines

/-- The names that these lines mention. -/
def namesIn (window : Option Nat) (source : Source) : List String :=
  (mentions (partOf window source)).map Prod.fst

theorem mem_names_ofSource (window : Option Nat) (origin : Path) (source : Source) (c : Catalog)
    (name : String) : name ∈ (ofSource window origin source c).catalog.names ↔
      name ∈ c.names ∨ name ∈ namesIn window source := by
  rw [ofSource_catalog, names_ofLines, List.mem_append]
  rfl

/-- The names after a scan are those before it and those that the sources mention, in whatever
order these come. -/
theorem mem_names_ofSources (window : Option Nat) (c : Catalog) (sources : List (Path × Source))
    (name : String) : name ∈ (ofSources window c sources).1.names ↔
      name ∈ c.names ∨ ∃ source ∈ sources.map Prod.snd, name ∈ namesIn window source := by
  induction sources generalizing c with
  | nil => simp [ofSources]
  | cons one sources ih =>
      obtain ⟨origin, source⟩ := one
      simp only [ofSources, ih, mem_names_ofSource, List.map_cons, List.exists_mem_cons_iff,
        or_assoc]

/-- The counts of a source of which `part` was read, after sources of which `before` was. -/
def countsAfter (known : List String) (before : List (List (List Char)))
    (part : List (List Char)) : Counts where
  filesScanned := 1
  includesSeen := part.countP isInclude
  malformed := part.countP isMalformed
  newHeaders :=
    (firstMentions (known ++ (before.flatMap mentions).map Prod.fst) (mentions part)).length

theorem countsAfter_congr {known known' : List String} {before before' : List (List (List Char))}
    (part : List (List Char))
    (h : ∀ name, name ∈ known ++ (before.flatMap mentions).map Prod.fst ↔
      name ∈ known' ++ (before'.flatMap mentions).map Prod.fst) :
    countsAfter known before part = countsAfter known' before' part := by
  simp only [countsAfter, firstMentions_congr _ h]

/-- Every source is read up to the first point where the window has passed since its last
include. The catalog gets the headers that the parts read mention first, and each source
counts its own includes, malformed directives and new headers. -/
theorem ofSources_exact (window : Option Nat) (c : Catalog) (inputs : List (Path × Text.Bytes)) :
    ∃ parts : List (List (List Char)),
      List.Forall₂ (fun input part => IsPart (Settings.positive window) input.2 part)
        inputs parts ∧
      (ofSources (Settings.positive window) c
          (inputs.map fun input => (input.1, .complete input.2))).1.entries =
        c.entries ++ (firstMentions c.names (parts.flatMap mentions)).map entryOf ∧
      (ofSources (Settings.positive window) c
          (inputs.map fun input => (input.1, .complete input.2))).2 =
        parts.mapIdx fun i part => countsAfter c.names (parts.take i) part := by
  generalize Settings.positive window = w
  induction inputs generalizing c with
  | nil => exact ⟨[], .nil, by simp [ofSources, firstMentions], rfl⟩
  | cons input inputs ih =>
      obtain ⟨origin, bytes⟩ := input
      let part := consumed w none (Text.linesOf bytes)
      have hcat : (ofSource w origin (.complete bytes) c).catalog =
          (ofLines origin c part).catalog := ofSource_catalog w origin (.complete bytes) c
      obtain ⟨parts, hread, hentries, hcounts⟩ := ih (ofLines origin c part).catalog
      have later : ∀ before : List (List (List Char)), ∀ name,
          name ∈ (ofLines origin c part).catalog.names ++ (before.flatMap mentions).map Prod.fst ↔
            name ∈ c.names ++ ((part :: before).flatMap mentions).map Prod.fst := by
        intro before name
        rw [List.mem_append, names_ofLines]
        simp only [List.flatMap_cons, List.map_append, List.mem_append, or_assoc]
      refine ⟨part :: parts, .cons ((isPart_iff _ _ _).2 rfl) hread, ?_, ?_⟩
      · simp only [ofSources, List.map_cons, hcat]
        rw [hentries, ofLines_entries, List.flatMap_cons, firstMentions_append, List.map_append,
          List.append_assoc]
        congr 3
        apply firstMentions_congr
        intro name
        simpa using later [] name
      · simp only [ofSources, List.map_cons, hcat, List.mapIdx_cons]
        rw [hcounts, ofSource_counts_complete]
        congr 1
        · simp [countsAfter, countsOf, Counts.add_def, part]
        · congr 1
          funext i other
          exact countsAfter_congr other (later _)

end Scan

end HeaderGather
