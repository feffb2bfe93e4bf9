import HeaderGather.FileTree.Basic
import HeaderGather.Proofs.Path.Spelling

/-! Where the components of a path lead, one after the other. The trail of a path is where
they lead from the root, and what leads nowhere can be put into a path without changing it. -/
namespace HeaderGather

namespace Place

/-- Where a component leads from a place: a name to what is below it, two dots to what is
around it, and from the root two dots lead nowhere. -/
def turn (place : Place) : Path.Component → Place
  | .name n => place ++ [n]
  | .up => place.dropLast
  | .root => place
  | .here => place

/-- The same for a name as it is followed, which may be empty or a dot. -/
def step (place : Place) (name : String) : Place :=
  if name = "" ∨ name = "." then place
  else if name = ".." then place.dropLast
  else place ++ [name]

def walk (place : Place) (names : List String) : Place := names.foldl step place

variable (place : Place) {name : String}

@[simp] theorem walk_nil : place.walk [] = place := rfl

@[simp] theorem walk_cons (name : String) (names : List String) :
    place.walk (name :: names) = (place.step name).walk names := rfl

theorem walk_append (names more : List String) :
    place.walk (names ++ more) = (place.walk names).walk more := List.foldl_append

theorem step_idle (h : name = "" ∨ name = ".") : place.step name = place := if_pos h

theorem step_up : place.step ".." = place.dropLast := by simp [step]

theorem step_name (hempty : name ≠ "") (hhere : name ≠ ".") (hup : name ≠ "..") :
    place.step name = place ++ [name] := by simp [step, hempty, hhere, hup]

theorem step_isName (h : isName name = true) : place.step name = place ++ [name] := by
  obtain ⟨hempty, hhere, hup, -⟩ := (isName_iff name).1 h
  exact step_name place hempty hhere hup

/-- A segment leads where its component does, or nowhere. -/
theorem foldl_turn_segment {segment : String} (h : segment ≠ "") :
    (Path.Component.ofSegment? segment).toList.foldl turn place = place.step segment := by
  by_cases hhere : segment = "."
  · rw [step_idle place (.inr hhere), hhere]
    rfl
  · by_cases hup : segment = ".."
    · rw [hup, step_up]
      rfl
    · rw [step_name place h hhere hup, Path.ofSegment?_of_ne hhere, if_neg hup]
      rfl

end Place

namespace Path

variable {p q : Path} {name : String}

theorem foldl_turn_beginning (p : Path) (place : Place) :
    p.beginning.foldl Place.turn place = place := by
  unfold beginning
  split
  · rfl
  · split <;> rfl

/-- The components of a path lead where its segments do. -/
theorem foldl_turn_components (p : Path) (place : Place) :
    p.components.foldl Place.turn place = place.walk p.segments := by
  have run : ∀ segments : List String, (∀ s ∈ segments, s ≠ "") → ∀ place : Place,
      (segments.filterMap Component.ofSegment?).foldl Place.turn place = place.walk segments := by
    intro segments
    induction segments with
    | nil =>
        intro _ place
        rfl
    | cons s segments ih =>
        intro hne place
        obtain ⟨hs, hne⟩ := List.forall_mem_cons.1 hne
        have hhead := Place.foldl_turn_segment place hs
        rw [Place.walk_cons, ← ih hne, ← hhead]
        cases hc : Component.ofSegment? s with
        | none => simp [hc]
        | some c => simp [hc]
  rw [components_eq, List.foldl_append, foldl_turn_beginning]
  exact run p.segments (fun _ hs => (of_mem_segmentsOf hs).1) place

/-- The trail is the place to which the components lead from the root. -/
theorem trail_eq_foldl (p : Path) : p.trail = p.components.foldl Place.turn [] := by
  have run : ∀ (cs : List Component) (names : List String),
      (cs.foldl trail.turn names).reverse = cs.foldl Place.turn names.reverse := by
    intro cs
    induction cs with
    | nil =>
        intro names
        rfl
    | cons c cs ih =>
        intro names
        have hturn : (trail.turn names c).reverse = Place.turn names.reverse c := by
          cases c with
          | name n => exact List.reverse_cons
          | up => exact List.dropLast_reverse.symm
          | root => rfl
          | here => rfl
        rw [List.foldl_cons, List.foldl_cons, ih, hturn]
  exact run p.components []

theorem trail_eq_walk (p : Path) : p.trail = Place.walk [] p.segments := by
  rw [trail_eq_foldl, foldl_turn_components]

/-- A name, and two dots that lead out of it again. -/
def detour (name : String) : Path := ⟨name ++ "/.."⟩

/-- Something that leads nowhere is put into a path: a slash or a dot beside a slash, or a
name with two dots after it, before the first component or at the end or between. -/
inductive Pads : Path → Path → Prop
  | slash (front back : String) : Pads ⟨front ++ "/" ++ back⟩ ⟨front ++ "//" ++ back⟩
  | dot (front back : String) : Pads ⟨front ++ "/" ++ back⟩ ⟨front ++ "/./" ++ back⟩
  | between (front name back : String) (h : isName name = true) :
    Pads ⟨front ++ "/" ++ back⟩ ⟨front ++ "/" ++ name ++ "/../" ++ back⟩
  | before (name : String) (p : Path) (h : isName name = true) (relative : p.isAbsolute = false) :
    Pads p ((detour name).join p)
  | after (p : Path) (name : String) (h : isName name = true) : Pads p (p.join (detour name))

theorem segments_detour (h : isName name = true) : (detour name).segments = [name, ".."] := by
  obtain ⟨hempty, -, -, hslash⟩ := (isName_iff name).1 h
  have htext : (detour name).text.toList = name.toList ++ '/' :: "..".toList := by simp [detour]
  rw [segments_eq, htext, segmentsOf_append, segmentsOf_name hempty hslash]
  rfl

theorem isAbsolute_detour (h : isName name = true) : (detour name).isAbsolute = false := by
  have hname := isAbsolute_name h
  obtain ⟨hempty, -⟩ := (isName_iff name).1 h
  cases ht : name.toList with
  | nil => exact absurd ht (toList_ne_nil hempty)
  | cons c rest => simpa [isAbsolute, detour, ht] using hname

/-- A detour ends where it began. -/
theorem walk_detour (h : isName name = true) (place : Place) :
    place.walk [name, ".."] = place := by
  rw [Place.walk_cons, Place.step_isName place h, Place.walk_cons, Place.step_up,
    List.dropLast_concat, Place.walk_nil]

theorem segments_joined (h : q.isAbsolute = false) :
    (p.join q).segments = p.segments ++ q.segments := by
  by_cases hp : p.text = ""
  · simp [join, h, hp, segments_eq, segmentsOf_nil]
  · obtain ⟨front, hfront, hjoin⟩ := toList_join hp h
    have hsegments : p.segments = segmentsOf front := by
      cases hfront with
      | inl e => rw [segments_eq, e]
      | inr e => rw [segments_eq, e, segmentsOf_concat]
    rw [segments_eq, hjoin, segmentsOf_append, ← hsegments, ← segments_eq]

/-- What is put in leads nowhere, from any place. -/
theorem Pads.walk_eq (h : Pads p q) (place : Place) :
    place.walk q.segments = place.walk p.segments := by
  have cut : ∀ front back : String,
      (Path.mk (front ++ "/" ++ back)).segments =
        segmentsOf front.toList ++ segmentsOf back.toList := by
    intro front back
    rw [← segmentsOf_append, segments_eq]
    simp
  cases h with
  | slash front back =>
      have hq : (Path.mk (front ++ "//" ++ back)).segments =
          (Path.mk (front ++ "/" ++ back)).segments := by
        rw [cut front back, segments_eq]
        have htext : (front ++ "//" ++ back).toList =
            front.toList ++ '/' :: ([] ++ '/' :: back.toList) := by simp
        rw [htext, segmentsOf_append, segmentsOf_append, segmentsOf_nil, List.nil_append]
      rw [hq]
  | dot front back =>
      have hq : (Path.mk (front ++ "/./" ++ back)).segments =
          segmentsOf front.toList ++ ("." :: segmentsOf back.toList) := by
        have htext : (front ++ "/./" ++ back).toList =
            front.toList ++ '/' :: (".".toList ++ '/' :: back.toList) := by simp
        rw [segments_eq, htext, segmentsOf_append, segmentsOf_append]
        rfl
      rw [hq, cut front back, Place.walk_append, Place.walk_append, Place.walk_cons,
        Place.step_idle _ (.inr rfl)]
  | between front name back hname =>
      have hq : (Path.mk (front ++ "/" ++ name ++ "/../" ++ back)).segments =
          segmentsOf front.toList ++ ([name, ".."] ++ segmentsOf back.toList) := by
        have htext : (front ++ "/" ++ name ++ "/../" ++ back).toList =
            front.toList ++ '/' :: ((detour name).text.toList ++ '/' :: back.toList) := by
          simp [detour]
        rw [segments_eq, htext, segmentsOf_append, segmentsOf_append, ← segments_eq (detour name),
          segments_detour hname]
      rw [hq, cut front back, Place.walk_append, Place.walk_append, Place.walk_append,
        walk_detour hname]
  | before _ _ hname relative =>
      rw [segments_joined relative, segments_detour hname, Place.walk_append, walk_detour hname]
  | after _ _ hname =>
      rw [segments_joined (isAbsolute_detour hname), segments_detour hname, Place.walk_append,
        walk_detour hname]

theorem Pads.trail_eq (h : Pads p q) : q.trail = p.trail := by
  rw [trail_eq_walk, trail_eq_walk, h.walk_eq]

end Path

end HeaderGather
