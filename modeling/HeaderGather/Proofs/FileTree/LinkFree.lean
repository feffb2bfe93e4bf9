import HeaderGather.Proofs.FileTree.Writing
import HeaderGather.Proofs.Path.Trail

/-! Trees without links. There the names of a path say where it leads, so that the place of an
entry is spelled by every absolute path to it. -/
namespace HeaderGather

def Entry.isLink : Entry → Bool
  | .link _ => true
  | _ => false

namespace FileTree

def LinkFree (t : FileTree) : Prop := ∀ e ∈ t.entries, e.2.isLink = false

instance (t : FileTree) : Decidable t.LinkFree := inferInstanceAs (Decidable (∀ e ∈ t.entries, _))

variable {t t' : FileTree} {p q : Path} {dir place : Place}

theorem linkFree_iff : t.LinkFree ↔ ∀ place target, t.get? place ≠ some (.link target) := by
  constructor
  · intro h place target hlink
    have hne : place ≠ [] := by
      rintro rfl
      exact nomatch hlink
    exact Bool.false_ne_true (h _ (mem_of_get? hlink hne)).symm
  · rintro h ⟨place, entry⟩ he
    cases entry with
    | file bytes mode => rfl
    | directory => rfl
    | link target => exact absurd (get?_of_mem he) (h place target)

theorem LinkFree.get? (ht : t.LinkFree) (place : Place) (target : Path) :
    t.get? place ≠ some (.link target) := linkFree_iff.1 ht place target

theorem IsLookup.step {name : String} (h : IsLookup name) (place : Place) :
    place.step name = place ++ [name] := place.step_name h.notEmpty h.notHere h.notUp

section LinkFree

variable (ht : t.LinkFree)
include ht

theorem LinkFree.followLinks_walk {writing : Bool} {links : Nat} {names : List String}
    (h : t.followLinks writing links dir names = .found place) : place = dir.walk names := by
  revert place
  apply followLinks_induction (motive := fun _ dir names o =>
    ∀ {place}, o = .found place → place = dir.walk names)
  case found =>
    intro _ dir place h
    exact (Outcome.found.inj h).symm
  case idle =>
    intro _ dir name rest o hn ih place h
    rw [Place.walk_cons, dir.step_idle (hn.imp_right And.left), ih h]
  case up =>
    intro _ dir rest o _ ih place h
    rw [Place.walk_cons, dir.step_up, ih h]
  case refused =>
    intro _ _ _ _ _ h
    exact nomatch h
  case absent =>
    intro _ _ _ _ _ _ _ _ h
    exact nomatch h
  case directory =>
    intro _ dir name rest o _ hn _ ih place h
    rw [Place.walk_cons, hn.step, ih h]
  case file =>
    intro _ dir name _ _ _ hn _ place h
    rw [Place.walk_cons, hn.step, Place.walk_nil, Outcome.found.inj h]
  case blocked =>
    intro _ _ _ _ _ _ _ _ _ _ h
    exact nomatch h
  case link =>
    intro _ dir name _ target _ _ _ hlink
    exact absurd hlink (ht.get? (dir ++ [name]) target)

/-- What a path denotes stands where its segments lead. -/
theorem LinkFree.locate_walk (h : t.locate p = .ok place) :
    place = (t.startOf p).walk p.segments := by
  have hreach := locate_eq_ok.1 h
  unfold reach at hreach
  split at hreach
  · exact nomatch hreach
  · rw [ht.followLinks_walk hreach, Path.steps, Place.walk_append]
    split
    · rw [Place.walk_cons, Place.step_idle _ (.inl rfl), Place.walk_nil]
    · rw [Place.walk_nil]

/-- What an absolute path denotes stands at its trail. -/
theorem LinkFree.locate_trail (hp : p.isAbsolute = true) (h : t.locate p = .ok place) :
    p.trail = place := by
  rw [ht.locate_walk h, startOf, if_pos hp, Path.trail_eq_walk]

end LinkFree

end FileTree

end HeaderGather
