import HeaderGather.Catalog
import HeaderGather.FileTree.Access
import HeaderGather.Journal

/-! Delivering headers: each found header is copied below the output directory,
to the place that its own path spells out from the root. -/
namespace HeaderGather

/-- The names that a path leads through, once each two dots have taken back the
name before them. Nothing is taken back beyond the beginning. -/
def Path.trail (p : Path) : List String :=
  (p.components.foldl turn []).reverse
where
  turn (names : List String) : Path.Component → List String
    | .name n => n :: names
    | .up => names.tail
    | .root => names
    | .here => names

def Path.destination (out header : Path) : Path := out.extend header.trail

structure Delivery where
  copied : Nat := 0
  /-- Headers that were not found, so not tried. -/
  skipped : Nat := 0
  failed : Nat := 0
  /-- Destinations named and not written to. -/
  planned : List Path := []
  deriving DecidableEq, Repr

namespace Delivery

def attempted (d : Delivery) : Nat := d.copied + d.failed

/-- Copies one header, making the directories it needs. They stay when the copy
itself is refused. -/
def copyHeader (t : FileTree) (out header : Path) : FileTree × Except Failure Path :=
  let dest := out.destination header
  match t.ensureParent dest with
  | (t, some fault) => (t, .error (.copy header dest fault))
  | (t, none) =>
    match t.copy header dest with
    | .error fault => (t, .error (.copy header dest fault))
    | .ok t => (t, .ok dest)

structure Progress where
  tree : FileTree
  delivery : Delivery
  journal : Journal

def deliverNext (dryRun : Bool) (out : Path) (p : Progress) (e : String × Location) : Progress :=
  match e.2 with
  | .wanted text =>
    { p with
      delivery := { p.delivery with skipped := p.delivery.skipped + 1 }
      journal := p.journal ++ [.notCopied e.1 text] }
  | .found header =>
    if dryRun then
      let dest := out.destination header
      { p with
        delivery := { p.delivery with planned := p.delivery.planned ++ [dest] }
        journal := p.journal ++ [.planned header dest] }
    else
      match copyHeader p.tree out header with
      | (t, .ok dest) =>
        { tree := t
          delivery := { p.delivery with copied := p.delivery.copied + 1 }
          journal := p.journal ++ [.copied header dest] }
      | (t, .error failure) =>
        { tree := t
          delivery := { p.delivery with failed := p.delivery.failed + 1 }
          journal := p.journal ++ [.copyRefused failure] }

def progress (dryRun : Bool) (out : Path) (t : FileTree) (c : Catalog) : Progress :=
  c.entries.foldl (deliverNext dryRun out) ⟨t, {}, []⟩

/-- Delivers a catalog. It fails if copies were tried and none was made. -/
def deliver (dryRun : Bool) (out : Path) (t : FileTree) (c : Catalog) :
    FileTree × Except Failure Delivery × Journal :=
  let p := progress dryRun out t c
  let d := p.delivery
  let journal := p.journal ++ [.delivered out d.copied d.skipped d.failed]
  if 0 < d.attempted && d.copied = 0 then (p.tree, .error (.everyCopy d.attempted), journal)
  else (p.tree, .ok d, journal)

end Delivery

end HeaderGather
