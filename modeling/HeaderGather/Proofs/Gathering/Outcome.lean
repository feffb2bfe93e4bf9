import HeaderGather.Proofs.Delivery.Result
import HeaderGather.Proofs.Gathering.Stages

/-! How runs end. The first stage that fails ends the run. What a run that fails may leave
behind is new directories, made for copies all of which were refused. -/
namespace HeaderGather

/-- The failure that ended a run. -/
def Run.failure? {α : Type} (r : Run α) : Option Failure :=
  match r.result with
  | .error failure => some failure
  | .ok _ => none

namespace Settings

/-- The catalog that a run delivers, once the cache is read and the tree scanned. -/
def located (t : FileTree) (cache : BuildCache) (catalog : Catalog) : Catalog :=
  ((SearchPath.ofList cache.includeDirs).locateAll t catalog).1

/-- How a run ends: with a failure, or with none. -/
inductive Ends (s : Settings) (t : FileTree) (build out : Path) : Option Failure → Prop where
  | cacheFile {fault : Fault} : t.ReadFault (s.cachePath build) fault →
    Ends s t build out (some (.cacheFile (s.cachePath build) fault))
  | noSourceRoot {source : Source} : t.ReadsWhole (s.cachePath build) source →
    (∀ line ∈ source.lines, ¬ s.NamesRoot line) →
    Ends s t build out
      (some (.noSourceRoot (BuildCache.shownKey s.rootMark) (s.cachePath build)))
  | sourceRoot {cache : BuildCache} {fault : Fault} : (s.readCache t build).1 = .ok cache →
    t.openDirectory cache.sourceRoot = .error fault →
    Ends s t build out (some (.sourceRoot cache.sourceRoot fault))
  | pattern {cache : BuildCache} {place : Place} {text : String} {problem : Pattern.Problem} :
    (s.readCache t build).1 = .ok cache → t.openDirectory cache.sourceRoot = .ok place →
    Pattern.FirstFault s.patterns text problem →
    Ends s t build out (some (.pattern text problem))
  | everyCopy {cache : BuildCache} {catalog : Catalog} {counts : Counts} :
    (s.readCache t build).1 = .ok cache →
    (s.scanTree t cache.sourceRoot).1 = .ok (catalog, counts) → s.dryRun = false →
    0 < (located t cache catalog).foundCount →
    Delivery.AllRefused out t (located t cache catalog).headers →
    Ends s t build out (some (.everyCopy (located t cache catalog).foundCount))
  | done {cache : BuildCache} {catalog : Catalog} {counts : Counts} :
    (s.readCache t build).1 = .ok cache →
    (s.scanTree t cache.sourceRoot).1 = .ok (catalog, counts) →
    (s.dryRun = true ∨ (located t cache catalog).foundCount = 0 ∨
      ¬ Delivery.AllRefused out t (located t cache catalog).headers) →
    Ends s t build out none

variable {s : Settings} {t : FileTree} {build out : Path}

/-- Every run ends in one of these ways. -/
theorem exists_ends (s : Settings) (t : FileTree) (build out : Path) :
    ∃ f, s.Ends t build out f := by
  cases hopen : t.openSource (s.cachePath build) with
  | error fault => exact ⟨_, .cacheFile (.inl hopen)⟩
  | ok source =>
      cases hwhole : source.fault? with
      | some fault => exact ⟨_, .cacheFile (.inr ⟨source, hopen, hwhole⟩)⟩
      | none =>
          by_cases hroot : ∀ line ∈ source.lines, ¬ s.NamesRoot line
          · exact ⟨_, .noSourceRoot ⟨hopen, hwhole⟩ hroot⟩
          · simp only [not_forall, not_not] at hroot
            obtain ⟨line, hline, hnames⟩ := hroot
            obtain ⟨cache, hcache⟩ := readCache_root ⟨hopen, hwhole⟩ hline hnames
            cases hdir : t.openDirectory cache.sourceRoot with
            | error fault => exact ⟨_, .sourceRoot hcache hdir⟩
            | ok place =>
                cases Pattern.exists_firstFault s.patterns with
                | inr hbad =>
                    obtain ⟨text, problem, hbad⟩ := hbad
                    exact ⟨_, .pattern hcache hdir hbad⟩
                | inl hspelled =>
                    obtain ⟨catalog, counts, hscan⟩ := scanTree_ok hdir hspelled
                    by_cases hdone : s.dryRun = true ∨
                        (located t cache catalog).foundCount = 0 ∨
                        ¬ Delivery.AllRefused out t (located t cache catalog).headers
                    · exact ⟨_, .done hcache hscan hdone⟩
                    · simp only [not_or, Bool.not_eq_true, not_not] at hdone
                      obtain ⟨hwet, hfound, hrefused⟩ := hdone
                      exact ⟨_, .everyCopy hcache hscan hwet (Nat.pos_of_ne_zero hfound) hrefused⟩

theorem gather_of_readCache {failure : Failure} (h : (s.readCache t build).1 = .error failure) :
    s.gather t build out = ⟨.error failure, t, (s.readCache t build).2⟩ := by
  unfold gather
  cases hc : s.readCache t build with
  | mk result journal =>
      rw [hc] at h
      obtain rfl := h
      rfl

theorem gather_of_scanTree {cache : BuildCache} {failure : Failure}
    (hc : (s.readCache t build).1 = .ok cache)
    (h : (s.scanTree t cache.sourceRoot).1 = .error failure) :
    s.gather t build out =
      ⟨.error failure, t, (s.readCache t build).2 ++ (s.scanTree t cache.sourceRoot).2⟩ := by
  unfold gather
  cases hread : s.readCache t build with
  | mk result journal =>
      rw [hread] at hc
      obtain rfl := hc
      cases hs : s.scanTree t cache.sourceRoot with
      | mk result journal =>
          rw [hs] at h
          obtain rfl := h
          simp only [hs]

/-- The report of a run on what was delivered. -/
def reportOf (t : FileTree) (cache : BuildCache) (catalog : Catalog) (counts : Counts)
    (delivery : Delivery) : Report :=
  ⟨cache.sourceRoot, cache.includeDirs, counts,
    ((SearchPath.ofList cache.includeDirs).locateAll t catalog).2.1, delivery,
    located t cache catalog⟩

theorem gather_of_deliver (out : Path) {cache : BuildCache} {catalog : Catalog} {counts : Counts}
    (hc : (s.readCache t build).1 = .ok cache)
    (hs : (s.scanTree t cache.sourceRoot).1 = .ok (catalog, counts)) :
    let delivered := Delivery.deliver s.dryRun out t (located t cache catalog)
    s.gather t build out =
      ⟨delivered.2.1.map (reportOf t cache catalog counts), delivered.1,
        (s.readCache t build).2 ++ (s.scanTree t cache.sourceRoot).2 ++
          ((SearchPath.ofList cache.includeDirs).locateAll t catalog).2.2 ++ delivered.2.2⟩ := by
  unfold gather
  cases hread : s.readCache t build with
  | mk result journal =>
      rw [hread] at hc
      obtain rfl := hc
      cases hscan : s.scanTree t cache.sourceRoot with
      | mk result journal =>
          rw [hscan] at hs
          obtain rfl := hs
          simp only [hscan, located]
          cases Delivery.deliver s.dryRun out t
              ((SearchPath.ofList cache.includeDirs).locateAll t catalog).1 with
          | mk tree rest =>
              obtain ⟨result, journal⟩ := rest
              cases result <;> rfl

/-- A run that ends well has read the cache, scanned the tree and delivered. -/
theorem gather_eq_ok {report : Report} (h : (s.gather t build out).result = .ok report) :
    ∃ cache catalog counts delivery, (s.readCache t build).1 = .ok cache ∧
      (s.scanTree t cache.sourceRoot).1 = .ok (catalog, counts) ∧
      (Delivery.deliver s.dryRun out t (located t cache catalog)).2.1 = .ok delivery ∧
      (s.gather t build out).tree =
        (Delivery.deliver s.dryRun out t (located t cache catalog)).1 ∧
      report = reportOf t cache catalog counts delivery := by
  cases hc : (s.readCache t build).1 with
  | error failure =>
      rw [gather_of_readCache hc] at h
      exact nomatch h
  | ok cache =>
      cases hs : (s.scanTree t cache.sourceRoot).1 with
      | error failure =>
          rw [gather_of_scanTree hc hs] at h
          exact nomatch h
      | ok scanned =>
          obtain ⟨catalog, counts⟩ := scanned
          have hrun := gather_of_deliver out hc hs
          rw [hrun] at h ⊢
          cases hd : (Delivery.deliver s.dryRun out t (located t cache catalog)).2.1 with
          | error failure => simp [hd, Except.map] at h
          | ok delivery =>
              simp only [hd, Except.map, Except.ok.injEq] at h
              exact ⟨cache, catalog, counts, delivery, rfl, hs, hd, rfl, h.symm⟩

theorem failure?_of_error {α : Type} {r : Run α} {failure : Failure}
    (h : r.result = .error failure) : r.failure? = some failure := by
  simp only [Run.failure?, h]

theorem Ends.failure? {f : Option Failure} (h : s.Ends t build out f) :
    (s.gather t build out).failure? = f := by
  cases h with
  | cacheFile h =>
      rw [gather_of_readCache (readCache_fault h)]
      rfl
  | noSourceRoot h hnone =>
      rw [gather_of_readCache (readCache_noSourceRoot h hnone)]
      rfl
  | sourceRoot hcache h =>
      rw [gather_of_scanTree hcache (scanTree_sourceRoot h)]
      rfl
  | pattern hcache hdir h =>
      rw [gather_of_scanTree hcache (scanTree_pattern hdir h)]
      rfl
  | everyCopy hcache hscan hwet hfound hrefused =>
      rw [gather_of_deliver out hcache hscan, hwet, Delivery.deliver_refused hfound hrefused]
      rfl
  | done hcache hscan hdone =>
      rw [gather_of_deliver out hcache hscan, Delivery.deliver_done hdone]
      rfl

theorem Ends.isFatal {failure : Failure} (h : s.Ends t build out (some failure)) :
    failure.isFatal = true := by
  cases h <;> rfl

/-- Nothing is written before the delivery, and where every copy is refused no file is. -/
theorem Ends.tree {failure : Failure} (h : s.Ends t build out (some failure)) :
    ((∀ n, failure ≠ .everyCopy n) → (s.gather t build out).tree = t) ∧
      t.Widens (s.gather t build out).tree := by
  have unchanged : ∀ {journal : Journal},
      s.gather t build out = ⟨.error failure, t, journal⟩ →
      ((∀ n, failure ≠ .everyCopy n) → (s.gather t build out).tree = t) ∧
        t.Widens (s.gather t build out).tree := by
    intro journal h
    rw [h]
    exact ⟨fun _ => rfl, .refl t⟩
  cases h with
  | cacheFile h => exact unchanged (gather_of_readCache (readCache_fault h))
  | noSourceRoot h hnone => exact unchanged (gather_of_readCache (readCache_noSourceRoot h hnone))
  | sourceRoot hcache h => exact unchanged (gather_of_scanTree hcache (scanTree_sourceRoot h))
  | pattern hcache hdir h => exact unchanged (gather_of_scanTree hcache (scanTree_pattern hdir h))
  | @everyCopy cache catalog counts hcache hscan hwet hfound hrefused =>
      refine ⟨fun hne => absurd rfl (hne _), ?_⟩
      obtain ⟨hcopies, -⟩ := Delivery.progress_copyAll out t (located t cache catalog)
      rw [gather_of_deliver out hcache hscan, hwet, Delivery.tree_deliver, hcopies]
      exact Delivery.copyAll_widens out t _ (Delivery.allRefused_iff.1 hrefused)

theorem ends_failure? (s : Settings) (t : FileTree) (build out : Path) :
    s.Ends t build out (s.gather t build out).failure? := by
  obtain ⟨f, hf⟩ := exists_ends s t build out
  rw [hf.failure?]
  exact hf

/-- The outcome of a run. It ends in exactly one way, whichever stage fails first. Every
failure is fatal; the tree is as before, and where all copies failed it has no more than new
directories. -/
theorem gather_outcome (s : Settings) (t : FileTree) (build out : Path) :
    (∀ f, (s.gather t build out).failure? = f ↔ s.Ends t build out f) ∧
      ∀ failure, (s.gather t build out).result = .error failure →
        failure.isFatal = true ∧
          ((∀ n, failure ≠ .everyCopy n) → (s.gather t build out).tree = t) ∧
          t.Widens (s.gather t build out).tree := by
  have ends := ends_failure? s t build out
  constructor
  · intro f
    constructor
    · rintro rfl
      exact ends
    · exact Ends.failure?
  · intro failure h
    rw [failure?_of_error h] at ends
    exact ⟨ends.isFatal, ends.tree⟩

end Settings

end HeaderGather
