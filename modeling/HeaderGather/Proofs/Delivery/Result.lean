import HeaderGather.Proofs.Delivery.Copies

/-! How a delivery ends. A dry run always ends with a plan; a delivery that copies fails if there
are headers to copy and every copy is refused. -/
namespace HeaderGather

namespace Delivery

variable {dryRun : Bool} {out : Path} {t : FileTree} {c : Catalog}

theorem tree_deliver (dryRun : Bool) (out : Path) (t : FileTree) (c : Catalog) :
    (deliver dryRun out t c).1 = (progress dryRun out t c).tree := by
  unfold deliver
  simp only
  split <;> rfl

/-- A delivery ends well with what it has counted, and only if no copy was tried or one was
made. -/
theorem deliver_eq_ok {d : Delivery} (h : (deliver dryRun out t c).2.1 = .ok d) :
    d = (progress dryRun out t c).delivery ∧ (d.copied = 0 → d.attempted = 0) := by
  simp only [deliver] at h
  split at h
  · exact nomatch h
  · rename_i hsome
    obtain rfl := Except.ok.inj h
    simp only [Bool.and_eq_true, decide_eq_true_eq, not_and] at hsome
    refine ⟨rfl, fun hzero => ?_⟩
    by_contra hne
    exact hsome (Nat.pos_of_ne_zero hne) hzero

/-- Every copy is refused. -/
def AllRefused (out : Path) (t : FileTree) (headers : List Path) : Prop :=
  ∀ r ∈ (copyAll out t headers).2, r.2.isOk = false

theorem allRefused_iff {headers : List Path} :
    AllRefused out t headers ↔ made out t headers = [] := by
  simp [AllRefused, made]

theorem deliver_refused (hc : 0 < c.foundCount) (h : AllRefused out t c.headers) :
    (deliver false out t c).2.1 = .error (.everyCopy c.foundCount) := by
  obtain ⟨-, hcopied⟩ := progress_copyAll out t c
  rw [allRefused_iff.1 h] at hcopied
  simp [deliver, hcopied, attempted_progress, hc]

theorem deliver_done
    (h : dryRun = true ∨ c.foundCount = 0 ∨ ¬ AllRefused out t c.headers) :
    (deliver dryRun out t c).2.1 = .ok (progress dryRun out t c).delivery := by
  cases dryRun with
  | true => simp [deliver, attempted_progress]
  | false =>
      obtain ⟨-, hcopied⟩ := progress_copyAll out t c
      cases h.resolve_left Bool.false_ne_true with
      | inl hzero => simp [deliver, attempted_progress, hzero]
      | inr hmade =>
          rw [allRefused_iff, ← List.length_eq_zero_iff, ← hcopied] at hmade
          simp [deliver, hmade]

/-- A dry run names every destination, in the order of the catalog. -/
theorem deliver_plan (out : Path) (t : FileTree) (c : Catalog) :
    (deliver true out t c).1 = t ∧
      (deliver true out t c).2.1 =
        .ok ⟨0, c.wantedNames.length, 0, c.headers.map out.destination⟩ := by
  obtain ⟨htree, hplanned⟩ := progress_dryRun out t c
  obtain ⟨hskipped, -, hmode⟩ := accounts_progress true out t c
  have hattempted : (progress true out t c).delivery.attempted = 0 := hmode
  obtain ⟨hcopied, hfailed⟩ := Nat.add_eq_zero_iff.1 hattempted
  rw [tree_deliver, deliver_done (.inl rfl), c.length_wantedNames, ← hplanned, ← hskipped]
  refine ⟨htree, congrArg Except.ok ?_⟩
  cases hd : (progress true out t c).delivery with
  | mk copied skipped failed planned =>
      rw [hd] at hcopied hfailed
      obtain rfl : copied = 0 := hcopied
      obtain rfl : failed = 0 := hfailed
      rfl

/-- A delivery that copies tries all found headers, and fails if all copies do. -/
theorem deliver_real (out : Path) (t : FileTree) (c : Catalog) :
    (∃ d, (deliver false out t c).2.1 = .ok d ∧ d.skipped = c.wantedNames.length ∧
        d.copied + d.failed = c.foundCount ∧ d.planned = []) ∨
      (deliver false out t c).2.1 = .error (.everyCopy c.foundCount) := by
  by_cases hdone : c.foundCount = 0 ∨ ¬ AllRefused out t c.headers
  · obtain ⟨hskipped, -, hmode⟩ := accounts_progress false out t c
    refine .inl ⟨_, deliver_done (.inr hdone), ?_, attempted_progress false out t c, hmode⟩
    rw [c.length_wantedNames, hskipped]
  · rw [not_or, not_not] at hdone
    exact .inr (deliver_refused (Nat.pos_of_ne_zero hdone.1) hdone.2)

end Delivery

end HeaderGather
