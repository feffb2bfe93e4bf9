import HeaderGather.Proofs.Delivery.Footprint
import HeaderGather.Proofs.Gathering.Attempts
import HeaderGather.Proofs.Gathering.Outcome

/-! Dry runs. A dry run tells what a run that copies would find, and where it would copy to,
and changes nothing. -/
namespace HeaderGather

/-- A report on copies, which were made or failed as the plan has them. -/
structure Report.Follows (r plan : Report) : Prop where
  sourceRoot : r.sourceRoot = plan.sourceRoot
  includeDirs : r.includeDirs = plan.includeDirs
  scan : r.scan = plan.scan
  search : r.search = plan.search
  headers : r.headers = plan.headers
  skipped : r.delivery.skipped = plan.delivery.skipped
  attempted : r.delivery.copied + r.delivery.failed = plan.delivery.planned.length
  planned : r.delivery.planned = []

/-- How a dry run and a run that copies go together. If the one fails, the other fails alike,
and before it copies anything. If the dry run makes a plan, the other tries the copies that are
planned, one by one, and changes nothing that these do not foretell. -/
inductive Run.Previews (t : FileTree) (out : Path) (dry real : Run Report) : Prop where
  | stopped {failure : Failure} : dry.result = .error failure → dry.tree = t →
    (∀ n, failure ≠ .everyCopy n) → dry.journal.attempts = [] → real = dry →
    Previews t out dry real
  | planned {plan : Report} : dry.result = .ok plan → dry.tree = t →
    plan.delivery.copied = 0 → plan.delivery.failed = 0 → dry.journal.attempts = [] →
    plan.delivery.planned = plan.headers.headers.map out.destination →
    real.journal.attempts = plan.delivery.planned →
    ((∃ report, real.result = .ok report ∧ report.Follows plan) ∨
      real.result = .error (.everyCopy plan.delivery.planned.length)) →
    (∀ place, real.tree.get? place ≠ t.get? place →
      Delivery.Foreseen t real.tree plan.delivery.planned place) →
    Previews t out dry real

open Journal

namespace Settings

variable {s : Settings} {t : FileTree} {build out : Path}

/-- A dry run tries no copies, so it does not fail for them. -/
theorem Ends.ne_everyCopy {failure : Failure} (hdry : s.dryRun = true)
    (h : s.Ends t build out (some failure)) (n : Nat) : failure ≠ .everyCopy n := by
  cases h with
  | everyCopy _ _ hwet _ _ => exact absurd (hdry.symm.trans hwet) nofun
  | cacheFile _ => exact nofun
  | noSourceRoot _ _ => exact nofun
  | sourceRoot _ _ => exact nofun
  | pattern _ _ _ => exact nofun

section Delivered

variable {cache : BuildCache} {catalog : Catalog} {counts : Counts} (out : Path)
  (hc : (s.readCache t build).1 = .ok cache)
  (hs : (s.scanTree t cache.sourceRoot).1 = .ok (catalog, counts))
include hc hs

theorem attempts_gather : (s.gather t build out).journal.attempts =
    if s.dryRun then [] else (located t cache catalog).headers.map out.destination := by
  rw [gather_of_deliver out hc hs]
  simp only [attempts_append, attempts_readCache, attempts_scanTree,
    SearchPath.attempts_locateAll, Delivery.attempts_deliver, located, List.nil_append]

theorem gather_plan (hdry : s.dryRun = true) :
    (s.gather t build out).result =
        .ok (reportOf t cache catalog counts ⟨0, (located t cache catalog).wantedNames.length, 0,
          (located t cache catalog).headers.map out.destination⟩) ∧
      (s.gather t build out).tree = t := by
  obtain ⟨htree, hplan⟩ := Delivery.deliver_plan out t (located t cache catalog)
  rw [gather_of_deliver out hc hs, hdry, hplan]
  exact ⟨rfl, htree⟩

theorem gather_real (hwet : s.dryRun = false) :
    ((∃ d, (s.gather t build out).result = .ok (reportOf t cache catalog counts d) ∧
          d.skipped = (located t cache catalog).wantedNames.length ∧
          d.copied + d.failed = (located t cache catalog).foundCount ∧ d.planned = []) ∨
        (s.gather t build out).result =
          .error (.everyCopy (located t cache catalog).foundCount)) ∧
      (s.gather t build out).tree =
        (Delivery.copyAll out t (located t cache catalog).headers).1 := by
  obtain ⟨hcopies, -⟩ := Delivery.progress_copyAll out t (located t cache catalog)
  rw [gather_of_deliver out hc hs, hwet, Delivery.tree_deliver]
  refine ⟨?_, hcopies⟩
  cases Delivery.deliver_real out t (located t cache catalog) with
  | inl h =>
      obtain ⟨d, hd, hcounts⟩ := h
      exact .inl ⟨d, by rw [hd]; rfl, hcounts⟩
  | inr h => exact .inr (by rw [h]; rfl)

end Delivered

/-- A dry run is an exact preview of the run that copies, from the same tree. -/
theorem gather_preview (s : Settings) (t : FileTree) (build out : Path) :
    Run.Previews t out ({ s with dryRun := true }.gather t build out)
      ({ s with dryRun := false }.gather t build out) := by
  let dry : Settings := { s with dryRun := true }
  let wet : Settings := { s with dryRun := false }
  have hends := ends_failure? dry t build out
  cases hc : (wet.readCache t build).1 with
  | error failure =>
      have hdry : dry.gather t build out = _ := gather_of_readCache hc
      have hwet : wet.gather t build out = _ := gather_of_readCache hc
      rw [hdry] at hends
      rw [hdry, hwet]
      exact .stopped rfl rfl (hends.ne_everyCopy rfl) (dry.attempts_readCache t build) rfl
  | ok cache =>
      cases hs : (wet.scanTree t cache.sourceRoot).1 with
      | error failure =>
          have hdry : dry.gather t build out = _ := gather_of_scanTree hc hs
          have hwet : wet.gather t build out = _ := gather_of_scanTree hc hs
          rw [hdry] at hends
          rw [hdry, hwet]
          refine .stopped rfl rfl (hends.ne_everyCopy rfl) ?_ rfl
          rw [attempts_append, attempts_readCache, attempts_scanTree, List.append_nil]
      | ok scanned =>
          obtain ⟨catalog, counts⟩ := scanned
          have hnone : (dry.gather t build out).journal.attempts = [] := attempts_gather out hc hs
          have htried : (wet.gather t build out).journal.attempts = _ := attempts_gather out hc hs
          have hlength : ((located t cache catalog).headers.map out.destination).length =
              (located t cache catalog).foundCount := by
            rw [List.length_map, Catalog.length_headers]
          obtain ⟨hplan, hkept⟩ : (dry.gather t build out).result = _ ∧ _ :=
            gather_plan out hc hs rfl
          obtain ⟨hresult, htree⟩ := gather_real (s := wet) out hc hs rfl
          refine .planned hplan hkept rfl rfl hnone rfl htried ?_ ?_
          · cases hresult with
            | inl h =>
                obtain ⟨d, hd, hskipped, hattempted, hplanned⟩ := h
                exact .inl ⟨_, hd, rfl, rfl, rfl, rfl, rfl, hskipped,
                  hattempted.trans hlength.symm, hplanned⟩
            | inr h =>
                rw [← hlength] at h
                exact .inr h
          · rw [htree]
            exact (Delivery.footprint_copyAll out t (located t cache catalog).headers).foreseen

end Settings

end HeaderGather
