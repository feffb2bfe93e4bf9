import HeaderGather.Proofs.Catalog.Naming
import HeaderGather.Proofs.Delivery.Result

/-! Where headers go. The trail of a path forgets where the path begins and what it takes
back, so that two paths may well have one trail. The names of a catalog keep its headers
apart: each is the end of the destination. -/
namespace HeaderGather

namespace Path

/-- A destination goes beyond the output directory, and its end tells the name. -/
structure LeadsTo (out dest : Path) (name : String) (names : List String) (last : String) :
    Prop where
  components : dest.components = out.components ++ (names ++ [last]).map .name
  isName : ∀ n ∈ names ++ [last], isName n = true
  named : name.toList = Text.afterLast '\\' last.toList

theorem leadsTo_destination {path : Path} {name : String}
    (h : (Location.found path).Names name) (out : Path) :
    ∃ names last, out.LeadsTo (out.destination path) name names last := by
  obtain ⟨last, hlast, hdot, hup, hname⟩ := h
  obtain ⟨names, htrail⟩ := List.getLast?_eq_some_iff.1 (getLast?_trail hlast hdot hup)
  refine ⟨names, last, ?_, ?_, hname⟩
  · rw [components_destination, htrail]
  · intro n hn
    exact isName_of_mem_trail (htrail ▸ hn)

/-- Two names that one destination tells are one name. -/
theorem LeadsTo.name_eq {out dest dest' : Path} {name name' last last' : String}
    {names names' : List String} (h : out.LeadsTo dest name names last)
    (h' : out.LeadsTo dest' name' names' last') (same : dest.same dest' = true) :
    name = name' := by
  have hc : dest.components = dest'.components := by simpa [Path.same] using same
  rw [h.components, h'.components] at hc
  have hlast := congrArg List.getLast? (List.append_cancel_left hc)
  simp only [List.map_append, List.map_cons, List.map_nil, List.getLast?_concat,
    Option.some.injEq, Component.name.injEq] at hlast
  apply String.toList_injective
  rw [h.named, h'.named, hlast]

end Path

namespace Catalog

/-- Where the found headers go. -/
def destinations (c : Catalog) (out : Path) : List Path := c.headers.map out.destination

theorem deliver_dryRun (c : Catalog) (out : Path) (t : FileTree) :
    ∃ d, (Delivery.deliver true out t c).2.1 = .ok d ∧ d.planned = c.destinations out :=
  ⟨_, (Delivery.deliver_plan out t c).2, rfl⟩

/-- No two headers of a gathered catalog go to one destination. Every destination is the
output directory with one name more at least, and of its last name the part after the last
backslash is the name of the header. So a dry run plans no destination twice. -/
theorem destinations_distinct {c : Catalog} (h : c.Gathered) (out : Path) :
    (c.found.Pairwise fun e e' => (out.destination e.2).same (out.destination e'.2) = false) ∧
      (∀ e ∈ c.found, ∃ names last, out.LeadsTo (out.destination e.2) e.1 names last) ∧
      ∀ t, ∃ d, (Delivery.deliver true out t c).2.1 = .ok d ∧ d.planned = c.destinations out ∧
        d.planned.Pairwise fun p q => p.same q = false := by
  have leads : ∀ e ∈ c.found, ∃ names last, out.LeadsTo (out.destination e.2) e.1 names last := by
    intro e he
    exact Path.leadsTo_destination (h.wellNamed _ (mem_found.1 he)) out
  have apart : c.found.Pairwise fun e e' =>
      (out.destination e.2).same (out.destination e'.2) = false := by
    have names : c.found.Pairwise fun e e' => e.1 ≠ e'.1 := List.pairwise_map.1 c.nodup_found
    refine names.imp_of_mem fun {e e'} he he' hne => ?_
    obtain ⟨_, _, hlead⟩ := leads e he
    obtain ⟨_, _, hlead'⟩ := leads e' he'
    exact Bool.eq_false_iff.2 fun hsame => hne (hlead.name_eq hlead' hsame)
  refine ⟨apart, leads, ?_⟩
  intro t
  obtain ⟨d, hok, hplanned⟩ := c.deliver_dryRun out t
  refine ⟨d, hok, hplanned, ?_⟩
  rw [hplanned, destinations, headers_eq, List.map_map, List.pairwise_map]
  exact apart

/-- A directory with two headers, one of which has a backslash in its name. -/
def twoHeaders : FileTree :=
  FileTree.bare
    |>.add [] "inc" .directory
    |>.add ["inc"] "a.h" (.file [] 0o644)
    |>.add ["inc"] "d\\b.h" (.file [] 0o644)

/-- Both are included, the first on a way that leads back. -/
def twoIncluded : Source :=
  .complete (Text.encode "#include <../inc/./a.h>\n#include \"d\\b.h\"\n".toList)

def twoGathered : Catalog :=
  ((SearchPath.ofList [⟨"/inc"⟩]).locateAll twoHeaders
    (Scan.ofSource none ⟨"m.c"⟩ twoIncluded .empty).catalog).1

theorem destinations_of_twoGathered :
    twoGathered.Gathered ∧
      twoGathered.found = [("a.h", ⟨"/inc/../inc/./a.h"⟩), ("b.h", ⟨"/inc/d\\b.h"⟩)] ∧
      twoGathered.destinations ⟨"out"⟩ = [⟨"out/inc/a.h"⟩, ⟨"out/inc/d\\b.h"⟩] ∧
      twoGathered.found.Pairwise fun e e' =>
        (Path.destination ⟨"out"⟩ e.2).same (Path.destination ⟨"out"⟩ e'.2) = false := by
  have gathered : twoGathered.Gathered :=
    .search (.ofList [⟨"/inc"⟩]) twoHeaders (.scanSource none ⟨"m.c"⟩ twoIncluded .empty)
  refine ⟨gathered, by decide +kernel, by decide +kernel, ?_⟩
  exact (destinations_distinct gathered ⟨"out"⟩).1

end Catalog

end HeaderGather
