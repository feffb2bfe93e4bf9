import HeaderGather.Proofs.Delivery.Copies

/-! Where copies leave their mark. A destination is known before anything is copied, but not
the place that it denotes: links lead elsewhere, and directories are made on the way. Afterwards
every change is at a place that a destination denotes, or at one that an ancestor of a
destination does. -/
namespace HeaderGather.Delivery

/-- A change that copies to some destinations explain: the place is that of a copied file, or
it is that of a new directory around a destination. -/
inductive Foreseen (before after : FileTree) (dests : List Path) (place : Place) : Prop where
  | file {dest : Path} {bytes : Text.Bytes} {mode : Nat} : dest ∈ dests →
    after.locate dest = .ok place → after.get? place = some (.file bytes mode) →
    Foreseen before after dests place
  | directory {dest around : Path} : dest ∈ dests → around.IsAncestor dest →
    after.locate around = .ok place → before.get? place = none →
    after.get? place = some .directory → Foreseen before after dests place

/-- Nothing is lost, and every change is foreseen. -/
structure Footprint (t t' : FileTree) (dests : List Path) : Prop where
  grows : t.Grows t'
  foreseen : ∀ place, t'.get? place ≠ t.get? place → Foreseen t t' dests place

variable {t t' t'' : FileTree} {dests more : List Path} {place : Place}

theorem Foreseen.mono (h : Foreseen t t' dests place) (hsub : dests ⊆ more) :
    Foreseen t t' more place := by
  cases h with
  | file hdest hlocate hfile => exact .file (hsub hdest) hlocate hfile
  | directory hdest haround hlocate hnone hdir =>
      exact .directory (hsub hdest) haround hlocate hnone hdir

/-- What was foreseen of a place that is left alone from then on. -/
theorem Foreseen.later (h : Foreseen t t' dests place) (hg : t'.Grows t'')
    (hsame : t''.get? place = t'.get? place) : Foreseen t t'' dests place := by
  cases h with
  | file hdest hlocate hfile =>
      exact .file hdest (FileTree.locate_grows hg hlocate) (hsame.trans hfile)
  | directory hdest haround hlocate hnone hdir =>
      exact .directory hdest haround (FileTree.locate_grows hg hlocate) hnone (hsame.trans hdir)

/-- What is new now was new all the more before. -/
theorem Foreseen.earlier (h : Foreseen t' t'' dests place) (hg : t.Grows t') :
    Foreseen t t'' dests place := by
  cases h with
  | file hdest hlocate hfile => exact .file hdest hlocate hfile
  | directory hdest haround hlocate hnone hdir =>
      refine .directory hdest haround hlocate ?_ hdir
      cases hbefore : t.get? place with
      | none => rfl
      | some e =>
          obtain ⟨e', he', -⟩ := hg.kept hbefore
          exact absurd (hnone.symm.trans he') nofun

namespace Footprint

theorem refl (t : FileTree) (dests : List Path) : Footprint t t dests :=
  ⟨.refl t, fun _ h => absurd rfl h⟩

theorem mono (h : Footprint t t' dests) (hsub : dests ⊆ more) : Footprint t t' more :=
  ⟨h.grows, fun place hne => (h.foreseen place hne).mono hsub⟩

theorem trans (h : Footprint t t' dests) (h' : Footprint t' t'' dests) : Footprint t t'' dests := by
  refine ⟨h.grows.trans h'.grows, fun place hne => ?_⟩
  by_cases hsame : t''.get? place = t'.get? place
  · exact (h.foreseen place (hsame ▸ hne)).later h'.grows hsame
  · exact (h'.foreseen place hsame).earlier h.grows

end Footprint

theorem footprint_of_paves {dest : Path} (h : t.Paves t' (·.IsAncestor dest)) :
    Footprint t t' [dest] := by
  refine ⟨h.widens.grows, fun place hne => ?_⟩
  cases hbefore : t.get? place with
  | some e => exact absurd ((h.widens.kept hbefore).trans hbefore.symm) hne
  | none =>
      have hsome : t'.get? place ≠ none := hbefore ▸ hne
      obtain ⟨around, haround, hlocate⟩ := h.denoted hbefore hsome
      obtain ⟨e, he⟩ := Option.ne_none_iff_exists'.1 hsome
      exact .directory List.mem_cons_self haround hlocate hbefore
        (he.trans (congrArg some (h.widens.fresh hbefore he)))

theorem footprint_of_copySpec {source dest : Path} {s d : Place}
    (h : FileTree.CopySpec t t' source dest s d) : Footprint t t' [dest] := by
  refine ⟨h.grows, fun place hne => ?_⟩
  obtain ⟨mode, -, hwritten⟩ := h.written
  by_cases hplace : place = d
  · exact .file List.mem_cons_self (hplace ▸ h.denotesDest) (hplace ▸ hwritten)
  · exact absurd (h.others hplace) hne

theorem footprint_copyHeader (t : FileTree) (out header : Path) :
    Footprint t (copyHeader t out header).1 [out.destination header] := by
  obtain ⟨mid, hpaves, ⟨_, -, h⟩ | ⟨_, _, -, spec⟩⟩ := copyHeader_cases (Prod.eta _).symm
  · exact h ▸ footprint_of_paves hpaves
  · exact (footprint_of_paves hpaves).trans (footprint_of_copySpec spec)

theorem footprint_copyAll (out : Path) (t : FileTree) (headers : List Path) :
    Footprint t (copyAll out t headers).1 (headers.map out.destination) := by
  induction headers generalizing t with
  | nil => exact .refl t []
  | cons header headers ih =>
      have hone := footprint_copyHeader t out header
      cases h : copyHeader t out header with
      | mk t' result =>
          rw [h] at hone
          rw [copyAll_cons headers h, List.map_cons]
          apply (hone.mono _).trans ((ih t').mono _)
          · exact List.cons_subset.2 ⟨List.mem_cons_self, List.nil_subset _⟩
          · exact List.subset_cons_self (out.destination header) _

end HeaderGather.Delivery
