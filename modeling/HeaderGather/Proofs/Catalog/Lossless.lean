import HeaderGather.Proofs.Json.RoundTrip
import HeaderGather.Proofs.Text.Encoding
import HeaderGather.Report

/-! The JSON form of a catalog keeps everything: names, locations and their order are read back
from it, from its own text and from the file of a report. -/
namespace HeaderGather

namespace Location

theorem onlyMember?_perm {members others : List (String × Json)} {key : String} {value : Json}
    (h : members.Perm others) (honly : others.filter (·.1 = key) = [(key, value)]) :
    onlyMember? key members = some value := by
  have hfilter : members.filter (·.1 = key) = [(key, value)] :=
    List.perm_singleton.1 (honly ▸ h.filter _)
  rw [onlyMember?, hfilter]

/-- The state and the path are read in either order. -/
theorem ofJson?_perm {l : Location} {members : List (String × Json)}
    (h : members.Perm [("state", .text l.state), ("path", .text l.content)]) :
    ofJson? (.object members) = some l := by
  have hstate : onlyMember? "state" members = some (.text l.state) := onlyMember?_perm h rfl
  have hpath : onlyMember? "path" members = some (.text l.content) := onlyMember?_perm h rfl
  have hparts : ofJson? (.object members) = ofParts? (.text l.state) (.text l.content) := by
    simp [ofJson?, hstate, hpath]
  rw [hparts]
  cases l <;> rfl

theorem ofJson?_toJson (l : Location) : ofJson? l.toJson = some l := ofJson?_perm (.refl _)

theorem legible_toJson (l : Location) : l.toJson.Legible := by
  refine .object ?_
  simp only [List.forall_mem_cons]
  exact ⟨.text _, .text _, nofun⟩

end Location

namespace Catalog

theorem entries_set (c : Catalog) (name : String) (location : Location) :
    (c.set name location).entries =
      c.entries.map fun e => (e.1, if e.1 = name then location else e.2) := rfl

theorem entries_add_set {c : Catalog} {name : String} (h : name ∉ c.names) (text : String)
    (location : Location) :
    ((c.add name text).set name location).entries = c.entries ++ [(name, location)] := by
  have hkeep : c.entries.map (fun e => (e.1, if e.1 = name then location else e.2)) =
      c.entries := by
    conv_rhs => rw [← List.map_id c.entries]
    refine List.map_congr_left fun e he => ?_
    rw [if_neg fun hname : e.1 = name => h (hname ▸ List.mem_map_of_mem he)]
    rfl
  rw [entries_set, entries_add, if_neg h, List.map_append, hkeep]
  simp

theorem entries_foldl_add_set (entries : List (String × Location)) {c : Catalog}
    (h : (c.names ++ entries.map Prod.fst).Nodup) :
    (entries.foldl (fun c e => (c.add e.1 "").set e.1 e.2) c).entries = c.entries ++ entries := by
  induction entries generalizing c with
  | nil => simp
  | cons e entries ih =>
      have hnew : e.1 ∉ c.names := by
        intro hmem
        exact (List.nodup_append.1 h).2.2 e.1 hmem e.1 (by simp) rfl
      have hentries := entries_add_set hnew "" e.2
      have hnames : ((c.add e.1 "").set e.1 e.2).names = c.names ++ [e.1] := by
        rw [names, hentries, List.map_append, names]
        rfl
      rw [List.foldl_cons, ih, hentries, List.append_assoc, List.singleton_append]
      rwa [hnames, List.append_assoc, List.singleton_append]

/-- The entries of a catalog make the catalog again. -/
theorem ofEntries_entries (c : Catalog) : ofEntries c.entries = c := by
  refine Catalog.ext ?_
  rw [ofEntries, entries_foldl_add_set c.entries (by simpa [names, empty] using c.distinct)]
  simp [empty]

theorem ofJson?_toJson (c : Catalog) : ofJson? c.toJson = some c := by
  have hmapM : (c.entries.map fun e => (e.1, e.2.toJson)).mapM
      (fun m => (Location.ofJson? m.2).map fun l => (m.1, l)) = some c.entries := by
    rw [List.mapM_map]
    have hpure : ((fun m : String × Json => (Location.ofJson? m.2).map fun l => (m.1, l)) ∘
        fun e : String × Location => (e.1, e.2.toJson)) = fun e => pure (id e) := by
      funext e
      simp [Location.ofJson?_toJson]
    rw [hpure, List.mapM_pure, List.map_id]
    rfl
  rw [toJson, ofJson?, hmapM, Option.map_some, ofEntries_entries]

theorem legible_toJson (c : Catalog) : c.toJson.Legible := by
  refine .object fun m hm => ?_
  obtain ⟨e, -, rfl⟩ := List.mem_map.1 hm
  exact e.2.legible_toJson

/-- What is written of an entry: its name, and under it the state and the path. -/
def writtenEntry (e : String × Location) : List Char :=
  Json.quote e.1 ++ [':', '{'] ++ Json.quote "state" ++ [':'] ++ Json.quote e.2.state ++ [',']
    ++ Json.quote "path" ++ [':'] ++ Json.quote e.2.content ++ ['}']

theorem writeMembers_compact (depth : Nat) (entries : List (String × Location)) :
    Json.writeMembers .compact depth (entries.map fun e => (e.1, e.2.toJson)) =
      entries.flatMap fun e => ',' :: writtenEntry e := by
  induction entries with
  | nil => rfl
  | cons e entries ih =>
      rw [List.map_cons, Json.writeMembers, ih, List.flatMap_cons]
      simp [writtenEntry, Location.toJson, Json.write, Json.writeMembers, Json.Layout.compact]

theorem intercalate_cons (sep : Char) (part : List Char) (parts : List (List Char)) :
    [sep].intercalate (part :: parts) = part ++ parts.flatMap (sep :: ·) := by
  induction parts generalizing part with
  | nil => simp
  | cons other parts ih =>
      rw [List.intercalate_cons_of_ne_nil (List.cons_ne_nil other parts), ih]
      simp

/-- The compact text: the entries in their order, between commas. -/
theorem write_compact (c : Catalog) :
    c.toJson.write .compact 0 =
      '{' :: [','].intercalate (c.entries.map writtenEntry) ++ ['}'] := by
  obtain ⟨entries, distinct⟩ := c
  cases entries with
  | nil => rfl
  | cons e entries =>
      rw [List.map_cons, intercalate_cons, List.flatMap_map, toJson, List.map_cons, Json.write,
        writeMembers_compact]
      simp [writtenEntry, Location.toJson, Json.write, Json.writeMembers, Json.Layout.compact]

theorem ofText?_compact (c : Catalog) : ofText? c.toJson.compact = some c := by
  rw [ofText?, Json.compact, Json.parse?_write c.legible_toJson Json.Layout.blank_compact,
    Option.bind_some, ofJson?_toJson]

end Catalog

namespace Report

theorem legible_ofNat (n : Nat) : (Json.ofNat n).Legible := .number (Json.isNumber_toString n)

theorem legible_list {α : Type} (items : List α) {f : α → Json} (h : ∀ a, (f a).Legible) :
    (Json.list (items.map f)).Legible := by
  refine .list fun item hitem => ?_
  obtain ⟨a, -, rfl⟩ := List.mem_map.1 hitem
  exact h a

theorem legible_paths (paths : List Path) : (Json.list (paths.map Path.toJson)).Legible :=
  legible_list paths fun p => .text p.text

theorem legible_toJson (r : Report) : r.toJson.Legible := by
  have hscan : r.scan.toJson.Legible := by
    refine .object ?_
    simp only [List.forall_mem_cons]
    exact ⟨legible_ofNat _, legible_ofNat _, legible_ofNat _, legible_ofNat _, legible_ofNat _,
      nofun⟩
  have hsearch : r.search.toJson.Legible := by
    refine .object ?_
    simp only [List.forall_mem_cons]
    exact ⟨legible_ofNat _, legible_list _ .text, legible_paths _, nofun⟩
  have hdelivery : r.delivery.toJson.Legible := by
    refine .object ?_
    simp only [List.forall_mem_cons]
    exact ⟨legible_ofNat _, legible_ofNat _, legible_ofNat _, legible_paths _, nofun⟩
  refine .object ?_
  simp only [List.forall_mem_cons]
  exact ⟨.text _, legible_paths _, hscan, hsearch, hdelivery, r.headers.legible_toJson, nofun⟩

/-- The headers that the file of a report tells of. -/
def headersIn? (file : Text.Bytes) : Option Catalog :=
  (Text.decode? file).bind fun text =>
    (Json.parse? (String.ofList text)).bind fun report =>
      (report.member? "headers").bind Catalog.ofJson?

theorem headersIn?_pretty (r : Report) :
    headersIn? (Text.encode r.toJson.pretty.toList) = some r.headers := by
  have hmember : r.toJson.member? "headers" = some r.headers.toJson := rfl
  rw [headersIn?, Text.decode?_encode, Option.bind_some, String.ofList_toList, Json.pretty,
    Json.parse?_write r.legible_toJson Json.Layout.blank_pretty, Option.bind_some, hmember,
    Option.bind_some, Catalog.ofJson?_toJson]

end Report

/-- The JSON form of catalogs loses nothing. Its text is that of the entries in their order;
the catalog is read from the text, and from the file of a report that holds it; catalogs that
differ have texts that differ; and a catalog read from any text is read again from its own. -/
theorem Catalog.json_lossless :
    (∀ c : Catalog, c.toJson.compact =
      String.ofList ('{' :: [','].intercalate (c.entries.map writtenEntry) ++ ['}'])) ∧
    (∀ c : Catalog, ofText? c.toJson.compact = some c) ∧
    (∀ r : Report, Report.headersIn? (Text.encode r.toJson.pretty.toList) = some r.headers) ∧
    (∀ c d : Catalog, c.toJson.compact = d.toJson.compact ↔ c = d) ∧
    ∀ text, (ofText? text).bind (fun c => ofText? c.toJson.compact) = ofText? text := by
  refine ⟨fun c => ?_, ofText?_compact, Report.headersIn?_pretty, fun c d => ⟨?_, ?_⟩,
    fun text => ?_⟩
  · rw [Json.compact, write_compact]
  · intro h
    exact Option.some.inj
      ((ofText?_compact c).symm.trans ((congrArg _ h).trans (ofText?_compact d)))
  · rintro rfl
    rfl
  · cases h : ofText? text with
    | none => rfl
    | some c => exact ofText?_compact c

end HeaderGather
