import Mathlib.Data.List.Induction
import HeaderGather.Delivery
import HeaderGather.Proofs.Catalog.Found
import HeaderGather.Proofs.FileTree.Directories

/-! The copies of a delivery, one after the other. A refused copy leaves new directories at
most; a copy that is made writes one file. A dry run makes none. -/
namespace HeaderGather

namespace Delivery

/-- Copies headers, and tells for each how that ended. -/
def copyAll (out : Path) : FileTree → List Path → FileTree × List (Path × Except Failure Path)
  | t, [] => (t, [])
  | t, header :: rest =>
    let one := copyHeader t out header
    let others := copyAll out one.1 rest
    (others.1, (header, one.2) :: others.2)

/-- The headers of which a copy was made. -/
def made (out : Path) (t : FileTree) (headers : List Path) : List Path :=
  ((copyAll out t headers).2.filter fun r => r.2.isOk).map Prod.fst

section Cons

variable {t t' : FileTree} {out header dest : Path} {failure : Failure} (rest : List Path)

theorem copyAll_cons {result : Except Failure Path} (h : copyHeader t out header = (t', result)) :
    copyAll out t (header :: rest) =
      ((copyAll out t' rest).1, (header, result) :: (copyAll out t' rest).2) := by
  rw [copyAll, h]

theorem made_cons_ok (h : copyHeader t out header = (t', .ok dest)) :
    made out t (header :: rest) = header :: made out t' rest := by
  rw [made, copyAll_cons rest h]
  rfl

theorem made_cons_error (h : copyHeader t out header = (t', .error failure)) :
    made out t (header :: rest) = made out t' rest := by
  rw [made, copyAll_cons rest h]
  rfl

end Cons

theorem made_sublist (out : Path) (t : FileTree) (headers : List Path) :
    (made out t headers).Sublist headers := by
  induction headers generalizing t with
  | nil => exact .refl []
  | cons header headers ih =>
      cases h : copyHeader t out header with
      | mk t' result =>
          cases result with
          | ok dest =>
              rw [made_cons_ok headers h]
              exact (ih t').cons_cons header
          | error failure =>
              rw [made_cons_error headers h]
              exact (ih t').cons header

section Next

variable {p : Progress} {t' : FileTree} {out header dest : Path} {failure : Failure} (name : String)

theorem deliverNext_dryRun : deliverNext true out p (name, .found header) =
    { p with
      delivery := { p.delivery with planned := p.delivery.planned ++ [out.destination header] }
      journal := p.journal ++ [.planned header (out.destination header)] } := rfl

theorem deliverNext_ok (h : copyHeader p.tree out header = (t', .ok dest)) :
    deliverNext false out p (name, .found header) =
      ⟨t', { p.delivery with copied := p.delivery.copied + 1 },
        p.journal ++ [.copied header dest]⟩ := by
  simp [deliverNext, h]

theorem deliverNext_error (h : copyHeader p.tree out header = (t', .error failure)) :
    deliverNext false out p (name, .found header) =
      ⟨t', { p.delivery with failed := p.delivery.failed + 1 },
        p.journal ++ [.copyRefused failure]⟩ := by
  simp [deliverNext, h]

end Next

/-- What a delivery of some entries has counted. A dry run names what any other tries. -/
structure Accounts (dryRun : Bool) (entries : List (String × Location)) (d : Delivery) : Prop where
  skipped : d.skipped = entries.countP fun e => !e.2.isFound
  found : d.attempted + d.planned.length = entries.countP fun e => e.2.isFound
  mode : if dryRun then d.attempted = 0 else d.planned = []

theorem Accounts.next {dryRun : Bool} {entries : List (String × Location)} {p : Progress}
    (h : Accounts dryRun entries p.delivery) (out : Path) (e : String × Location) :
    Accounts dryRun (entries ++ [e]) (deliverNext dryRun out p e).delivery := by
  obtain ⟨hskipped, hfound, hmode⟩ := h
  obtain ⟨name, location⟩ := e
  cases location with
  | wanted text =>
      refine ⟨?_, ?_, hmode⟩
      · simp [deliverNext, hskipped, List.countP_append, Location.isFound]
      · simpa [deliverNext, attempted, List.countP_append, Location.isFound] using hfound
  | found header =>
      have skips : (entries ++ [(name, Location.found header)]).countP (fun e => !e.2.isFound) =
          p.delivery.skipped := by
        simp [hskipped, List.countP_append, Location.isFound]
      have finds : (entries ++ [(name, Location.found header)]).countP (fun e => e.2.isFound) =
          p.delivery.attempted + p.delivery.planned.length + 1 := by
        simp [hfound, List.countP_append, Location.isFound]
      cases dryRun with
      | true =>
          rw [deliverNext_dryRun]
          refine ⟨skips.symm, ?_, hmode⟩
          rw [finds, List.length_append]
          rfl
      | false =>
          cases hone : copyHeader p.tree out header with
          | mk tree result =>
              cases result with
              | ok dest =>
                  rw [deliverNext_ok name hone]
                  refine ⟨skips.symm, ?_, hmode⟩
                  rw [finds]
                  simp only [attempted]
                  omega
              | error failure =>
                  rw [deliverNext_error name hone]
                  refine ⟨skips.symm, ?_, hmode⟩
                  rw [finds]
                  simp only [attempted]
                  omega

theorem accounts_progress (dryRun : Bool) (out : Path) (t : FileTree) (c : Catalog) :
    Accounts dryRun c.entries (progress dryRun out t c).delivery := by
  rw [progress]
  induction c.entries using List.reverseRecOn with
  | nil => cases dryRun <;> exact ⟨rfl, rfl, rfl⟩
  | append_singleton entries e ih =>
      rw [List.foldl_append]
      exact ih.next out e

/-- Every found header is tried, but none in a dry run. -/
theorem attempted_progress (dryRun : Bool) (out : Path) (t : FileTree) (c : Catalog) :
    (progress dryRun out t c).delivery.attempted = if dryRun then 0 else c.foundCount := by
  obtain ⟨-, hfound, hmode⟩ := accounts_progress dryRun out t c
  cases dryRun with
  | true => exact hmode
  | false =>
      have hplanned : (progress false out t c).delivery.planned = [] := hmode
      rw [hplanned] at hfound
      exact hfound

/-- A delivery is the copies of the found headers, counted. -/
theorem progress_copyAll (out : Path) (t : FileTree) (c : Catalog) :
    (progress false out t c).tree = (copyAll out t c.headers).1 ∧
      (progress false out t c).delivery.copied = (made out t c.headers).length := by
  have run : ∀ (entries : List (String × Location)) (p : Progress),
      let headers := entries.filterMap fun e => e.2.path?
      let q := entries.foldl (deliverNext false out) p
      q.tree = (copyAll out p.tree headers).1 ∧
        q.delivery.copied = p.delivery.copied + (made out p.tree headers).length := by
    intro entries
    induction entries with
    | nil =>
        intro p
        exact ⟨rfl, rfl⟩
    | cons e entries ih =>
        intro p
        obtain ⟨name, location⟩ := e
        obtain ⟨htree, hcopied⟩ := ih (deliverNext false out p (name, location))
        simp only [List.foldl_cons, htree, hcopied]
        cases location with
        | wanted text => exact ⟨rfl, rfl⟩
        | found header =>
            have paths : ((name, Location.found header) :: entries).filterMap (fun e => e.2.path?) =
                header :: entries.filterMap (fun e => e.2.path?) := rfl
            cases hone : copyHeader p.tree out header with
            | mk t' result =>
                cases result with
                | ok dest =>
                    simp only [paths, deliverNext_ok name hone, copyAll_cons _ hone,
                      made_cons_ok _ hone, List.length_cons, true_and]
                    omega
                | error failure =>
                    simp only [paths, deliverNext_error name hone, copyAll_cons _ hone,
                      made_cons_error _ hone, and_self]
  obtain ⟨htree, hcopied⟩ := run c.entries ⟨t, {}, []⟩
  exact ⟨htree, hcopied.trans (Nat.zero_add _)⟩

/-- A dry run names the destinations and does nothing else. -/
theorem progress_dryRun (out : Path) (t : FileTree) (c : Catalog) :
    (progress true out t c).tree = t ∧
      (progress true out t c).delivery.planned = c.headers.map out.destination := by
  rw [progress, Catalog.headers]
  induction c.entries using List.reverseRecOn with
  | nil => exact ⟨rfl, rfl⟩
  | append_singleton entries e ih =>
      obtain ⟨name, location⟩ := e
      obtain ⟨htree, hplanned⟩ := ih
      rw [List.foldl_append, List.filterMap_append, List.map_append, ← hplanned]
      cases location with
      | wanted text => exact ⟨htree, (List.append_nil _).symm⟩
      | found header => exact ⟨htree, rfl⟩

variable {t t' : FileTree} {out header dest : Path} {failure : Failure}

/-- How copying a header ends: directories around its destination are refused, or the copy is,
or it is made. -/
inductive CopyEnds (t : FileTree) (out header : Path) : FileTree → Except Failure Path → Prop
  | noParent {mid : FileTree} {fault : Fault}
    (parent : t.ensureParent (out.destination header) = (mid, some fault)) :
    CopyEnds t out header mid (.error (.copy header (out.destination header) fault))
  | refused {mid : FileTree} {fault : Fault}
    (parent : t.ensureParent (out.destination header) = (mid, none))
    (copy : mid.copy header (out.destination header) = .error fault) :
    CopyEnds t out header mid (.error (.copy header (out.destination header) fault))
  | copied {mid t' : FileTree} (parent : t.ensureParent (out.destination header) = (mid, none))
    (copy : mid.copy header (out.destination header) = .ok t') :
    CopyEnds t out header t' (.ok (out.destination header))

theorem CopyEnds.copyHeader_eq {result : Except Failure Path}
    (h : CopyEnds t out header t' result) : copyHeader t out header = (t', result) := by
  unfold copyHeader
  cases h with
  | noParent parent => simp only [parent]
  | refused parent copy => simp only [parent, copy]
  | copied parent copy => simp only [parent, copy]

theorem copyHeader_ends {result : Except Failure Path}
    (h : copyHeader t out header = (t', result)) : CopyEnds t out header t' result := by
  have exists_ends : ∃ t' result, CopyEnds t out header t' result := by
    cases hparent : t.ensureParent (out.destination header) with
    | mk mid fault? =>
        cases fault? with
        | some fault => exact ⟨_, _, .noParent hparent⟩
        | none =>
            cases hcopy : mid.copy header (out.destination header) with
            | error fault => exact ⟨_, _, .refused hparent hcopy⟩
            | ok t' => exact ⟨_, _, .copied hparent hcopy⟩
  obtain ⟨_, _, hends⟩ := exists_ends
  obtain ⟨rfl, rfl⟩ := Prod.mk.inj (h.symm.trans hends.copyHeader_eq)
  exact hends

/-- What one copy does: it makes directories around the destination, and then is refused or
writes one file. -/
theorem copyHeader_cases {result : Except Failure Path}
    (h : copyHeader t out header = (t', result)) :
    ∃ mid, t.Paves mid (·.IsAncestor (out.destination header)) ∧
      ((∃ fault, result = .error (.copy header (out.destination header) fault) ∧ t' = mid) ∨
        ∃ source target, result = .ok (out.destination header) ∧
          FileTree.CopySpec mid t' header (out.destination header) source target) := by
  have hpaves := FileTree.ensureParent_paves t (out.destination header)
  cases copyHeader_ends h with
  | noParent parent =>
      rw [parent] at hpaves
      exact ⟨_, hpaves, .inl ⟨_, rfl, rfl⟩⟩
  | refused parent copy =>
      rw [parent] at hpaves
      exact ⟨_, hpaves, .inl ⟨_, rfl, rfl⟩⟩
  | copied parent copy =>
      rw [parent] at hpaves
      obtain ⟨source, target, spec⟩ := FileTree.copy_spec copy
      exact ⟨_, hpaves, .inr ⟨source, target, rfl, spec⟩⟩

theorem copyHeader_error (h : copyHeader t out header = (t', .error failure)) :
    t.Widens t' ∧ ∃ fault, failure = .copy header (out.destination header) fault := by
  obtain ⟨mid, hpaves, ⟨fault, herror, rfl⟩ | ⟨_, _, hok, -⟩⟩ := copyHeader_cases h
  · exact ⟨hpaves.widens, fault, Except.error.inj herror⟩
  · exact nomatch hok

theorem copyHeader_ok (h : copyHeader t out header = (t', .ok dest)) :
    dest = out.destination header ∧ ∃ mid source target, t.Widens mid ∧
      FileTree.CopySpec mid t' header (out.destination header) source target := by
  obtain ⟨mid, hpaves, ⟨_, herror, -⟩ | ⟨source, target, hok, spec⟩⟩ := copyHeader_cases h
  · exact nomatch herror
  · exact ⟨Except.ok.inj hok, mid, source, target, hpaves.widens, spec⟩

theorem copyHeader_grows (t : FileTree) (out header : Path) :
    t.Grows (copyHeader t out header).1 := by
  obtain ⟨mid, hpaves, ⟨_, -, h⟩ | ⟨_, _, -, spec⟩⟩ := copyHeader_cases (Prod.eta _).symm
  · exact h ▸ hpaves.widens.grows
  · exact hpaves.widens.grows.trans spec.grows

/-- A copy lets every file be read that could be read. -/
theorem copyHeader_readableAt (out header : Path) {place : Place} (h : t.ReadableAt place) :
    (copyHeader t out header).1.ReadableAt place := by
  obtain ⟨mid, hpaves, ⟨_, -, hmid⟩ | ⟨_, _, -, spec⟩⟩ := copyHeader_cases (Prod.eta _).symm
  · exact hmid ▸ hpaves.widens.readableAt h
  · exact spec.readableAt (hpaves.widens.readableAt h)

theorem copyHeader_isReadable (out header : Path) {p : Path} (h : t.isReadable p = true) :
    (copyHeader t out header).1.isReadable p = true := by
  obtain ⟨place, hr⟩ := FileTree.isReadable_iff.1 h
  exact FileTree.isReadable_iff.2 ⟨place,
    hr.grows (copyHeader_grows t out header) (copyHeader_readableAt out header hr.readable)⟩

theorem copyAll_readableAt (out : Path) (headers : List Path) {place : Place}
    (h : t.ReadableAt place) : (copyAll out t headers).1.ReadableAt place := by
  induction headers generalizing t with
  | nil => exact h
  | cons header headers ih =>
      rw [copyAll]
      exact ih (copyHeader_readableAt out header h)

theorem copyAll_grows (out : Path) (t : FileTree) (headers : List Path) :
    t.Grows (copyAll out t headers).1 := by
  induction headers generalizing t with
  | nil => exact .refl t
  | cons header headers ih =>
      have hone := copyHeader_grows t out header
      cases h : copyHeader t out header with
      | mk t' result =>
          rw [h] at hone
          rw [copyAll_cons headers h]
          exact hone.trans (ih t')

/-- Where no copy is made, no file changes. -/
theorem copyAll_widens (out : Path) (t : FileTree) (headers : List Path)
    (h : made out t headers = []) : t.Widens (copyAll out t headers).1 := by
  induction headers generalizing t with
  | nil => exact .refl t
  | cons header headers ih =>
      cases hone : copyHeader t out header with
      | mk t' result =>
          cases result with
          | ok dest =>
              rw [made_cons_ok headers hone] at h
              exact absurd h (List.cons_ne_nil header _)
          | error failure =>
              rw [made_cons_error headers hone] at h
              rw [copyAll_cons headers hone]
              exact (copyHeader_error hone).1.trans (ih t' h)

end Delivery

end HeaderGather
