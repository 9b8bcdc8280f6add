/-
  SassImports/Proofs/Graph/Bound.lean
  ===================================
  How far from the entry a graph goes.  The depth of a file is an argument of the walk that leaves no
  trace in the graph, but the edges tell it: from each file a chain of them leads back to the entry,
  one edge for every level.

    * `Graph.Chain`: a chain of so many edges from the entry to a path;
    * `collect_within`: with a bound on the depth no chain has to be longer than the bound;
    * `explore_withMaxDepth`: a walk that has seen few locations has not come far;
    * `collect_withMaxDepth`: hence a bound above the number of files is no bound.
-/
import SassImports.Proofs.Graph.Depth

namespace SassImports

/-- A chain of so many edges leads from the entry to the path: the first edge is that of the entry,
    each next one is that of a child of the one before, and the path is that of a child of the last
    one.  Without edges the chain ends at the entry. -/
inductive Graph.Chain (g : Graph) : Nat → Path → Prop where
  | entry : Chain g 0 g.entry
  | step {n : Nat} {e : Edge} {c : Dependency} (chain : Chain g n e.parent) (edge : e ∈ g.edges)
      (child : c ∈ e.children) : Chain g (n + 1) c.path

theorem Graph.chain_zero_iff {g : Graph} {p : Path} : g.Chain 0 p ↔ p = g.entry := by
  constructor
  · intro h
    cases h
    rfl
  · rintro rfl
    exact .entry

/-- Every file ends a chain of edges no longer than the bound, and every stylesheet with an edge, the
    entry or another one, a chain that is shorter; the stylesheets with an edge are among the listed
    ones, in their order; and the entry and the files are at different places. -/
structure Graph.Within (g : Graph) (d : Disk) (bound : Nat) : Prop where
  files : ∀ p ∈ g.files, ∃ n, 0 < n ∧ n ≤ bound ∧ g.Chain n p
  parents : ∀ e ∈ g.edges, ∃ n < bound, g.Chain n e.parent
  order : (g.edges.map Edge.parent).Sublist g.rerunPaths
  distinct : ∃ ls : List Location, g.rerunPaths.map d.canonicalize = ls.map .ok ∧ ls.Nodup

namespace Survey

variable {s : Survey} {bound depth : Nat} {seen seen' : List Location} {assets : List Asset}
  {agenda : List (Asset × Nat)} {found : Findings} {entry : Path} {g : Graph}

/-! ### Chains of edges -/

theorem Visits.sublist_reached (h : s.Visits depth seen assets found seen') :
    (found.edges.map Edge.parent).Sublist found.reached := by
  induction h with
  | nil => exact .slnil
  | again _ _ _ ih => exact ih
  | stop _ _ _ _ ih => exact ih.cons _
  | read _ _ _ _ _ _ inside after =>
    refine .cons_cons _ ?_
    rw [Findings.edges_append, List.map_append]
    exact inside.append after

theorem exists_locations_of_collect (h : (s.collect entry).outcome = .ok g) :
    ∃ ls : List Location, g.rerunPaths.map s.disk.canonicalize = ls.map .ok ∧ ls.Nodup := by
  obtain ⟨found, seen, hv, -, hreached⟩ := exists_visits_of_collect h
  obtain ⟨ls, hls, -, hnodup, -⟩ := hv.exists_locations
  exact ⟨ls, hreached ▸ hls, hnodup⟩

theorem entry_notMem_files (h : (s.collect entry).outcome = .ok g) : g.entry ∉ g.files := by
  obtain ⟨ls, hls, hnodup⟩ := exists_locations_of_collect h
  cases ls with
  | nil => cases hls
  | cons l ls =>
    obtain ⟨hentry, hfiles⟩ := List.cons.inj hls
    intro hmem
    have hl : (.ok l : Except IoError Location) ∈ ls.map .ok := by
      rw [← hfiles, ← hentry]
      exact List.mem_map_of_mem hmem
    obtain ⟨k, hk, heq⟩ := List.mem_map.1 hl
    cases heq
    exact (List.nodup_cons.1 hnodup).1 hk

/-- **Walks with a bound do not go too deep.** -/
theorem collect_within (hb : s.maxDepth? = some bound) (h : (s.collect entry).outcome = .ok g) :
    g.Within s.disk bound := by
  obtain ⟨found, seen, hv, hedges, hreached⟩ := exists_visits_of_collect h
  have hentry : ∀ b ∈ [Asset.ofPath entry], g.Chain 0 b.path := by
    intro b hb
    rw [List.mem_singleton.1 hb, Asset.path_ofPath, ← entry_eq_of_collect h]
    exact .entry
  have hstep : ∀ n (a : Asset) imported, g.Chain n a.path → s.Imports a imported →
      .ofAssets a.path imported ∈ g.edges → ∀ c ∈ imported, g.Chain (n + 1) c.path := by
    intro n a imported hchain _ hedge c hc
    exact .step (c := .ofAsset c) hchain hedge (List.mem_map_of_mem hc)
  obtain ⟨hlisted, hread⟩ := hv.exists_depth (P := fun n a => g.Chain n a.path) hb
    (hedges ▸ List.Subset.refl _) (Nat.zero_le bound) hstep hentry
  constructor
  case files =>
    intro p hp
    have hmem : p ∈ g.rerunPaths := List.mem_cons_of_mem _ hp
    obtain ⟨n, hn, b, hchain, rfl, -⟩ := hlisted p (hreached ▸ hmem)
    refine ⟨n, Nat.pos_of_ne_zero ?_, hn, hchain⟩
    rintro rfl
    exact entry_notMem_files h (Graph.chain_zero_iff.1 hchain ▸ hp)
  case parents =>
    intro e he
    obtain ⟨n, hn, b, hchain, heq⟩ := hread e (hedges ▸ he)
    exact ⟨n, hn, heq ▸ hchain⟩
  case order =>
    rw [← hedges, ← hreached]
    exact hv.sublist_reached
  case distinct => exact exists_locations_of_collect h

/-- One file is listed at the bound, and the other one is read. -/
theorem collect_within_diamond :
    diamondSurvey.maxDepth? = some 2 ∧
      (diamondSurvey.collect (.ofString "m.scss")).outcome = .ok diamondGraph ∧
      diamondGraph.Within diamondDisk 2 :=
  ⟨rfl, collect_diamond, collect_within rfl collect_diamond⟩

/-! ### Bounds that are large enough -/

def withMaxDepth (s : Survey) (bound : Nat) : Survey := { s with maxDepth? := some bound }

/-- Before an asset comes up so far from the entry, as many locations have been seen; and each of them
    will be listed.  So the bound is never met if it is above the number of all of them. -/
theorem explore_withMaxDepth (hd : s.maxDepth? = none)
    (h : (s.explore seen agenda).outcome = .ok found)
    (hagenda : ∀ x ∈ agenda, x.2 ≤ seen.length)
    (hbound : seen.length + found.reached.length ≤ bound) :
    (s.withMaxDepth bound).explore seen agenda = s.explore seen agenda := by
  induction seen, agenda using Survey.explore.induct s generalizing found with
  | case1 seen => rw [explore_nil, explore_nil]
  | case2 seen a depth rest e hl => rw [explore_of_error hl] at h; cases h
  | case3 seen a depth rest l hl old ih =>
    have hl' : (s.withMaxDepth bound).disk.canonicalize a.path = .ok l := hl
    rw [explore_of_seen hl old] at h ⊢
    rw [explore_of_seen hl' old, ih h (List.forall_mem_cons.1 hagenda).2 hbound]
  | case4 seen a depth rest l hl fresh far ih => rw [stopsAt_eq_false hd] at far; cases far
  | case5 seen a depth rest l hl fresh near ih =>
    have hl' : (s.withMaxDepth bound).disk.canonicalize a.path = .ok l := hl
    have near : s.stopsAt depth = false := by simpa using near
    obtain ⟨hdepth, hrest⟩ := List.forall_mem_cons.1 hagenda
    rw [explore_of_reads hl fresh near] at h ⊢
    obtain ⟨assets, hassets, h⟩ := Traced.outcome_bind_eq_ok_iff.1 h
    rw [Traced.outcome_bind_pure] at h
    obtain ⟨found, hfound, rfl⟩ := Outcome.map_eq_ok_iff.1 h
    simp only [Findings.reached_reach, Findings.reached_connect, List.length_cons] at hbound hdepth
    have near' : (s.withMaxDepth bound).stopsAt depth = false := by
      rw [← Bool.not_eq_true, stopsAt_eq_true_iff rfl]
      omega
    rw [explore_of_reads hl' fresh near']
    have hagenda' : ∀ x ∈ assets.map (·, depth + 1) ++ rest, x.2 ≤ (l :: seen).length := by
      intro x hx
      rw [List.length_cons]
      rcases List.mem_append.1 hx with hx | hx
      · obtain ⟨b, -, rfl⟩ := List.mem_map.1 hx
        exact Nat.succ_le_succ hdepth
      · exact Nat.le_succ_of_le (hrest x hx)
    have hchildren : (s.withMaxDepth bound).children a depth = s.children a depth := rfl
    rw [hchildren, Traced.bind_ok hassets, Traced.bind_ok hassets,
      ih assets hfound hagenda' (by rw [List.length_cons]; omega)]

/-- **A large enough bound is no bound.**  If a walk without a bound succeeds, then any bound above the
    number of files in its graph leaves the whole run as it is: the graph, and everything that is
    asked, read and reported on the way. -/
theorem collect_withMaxDepth (hd : s.maxDepth? = none) (h : (s.collect entry).outcome = .ok g)
    (hbound : g.files.length < bound) :
    (s.withMaxDepth bound).collect entry = s.collect entry := by
  obtain ⟨found, seen, hv, -, hreached⟩ := exists_visits_of_collect h
  have hexplore : (s.withMaxDepth bound).explore [] [(.ofPath entry, 0)] =
      s.explore [] [(.ofPath entry, 0)] := by
    apply explore_withMaxDepth hd hv.outcome_explore_map
    · simp
    · rw [hreached, Graph.rerunPaths, List.length_cons, List.length_nil]
      omega
  unfold collect
  change ((s.withMaxDepth bound).explore [] [(.ofPath entry, 0)] >>= _) = _
  rw [hexplore]
  rfl

/-- Two files are listed, one of them two imports away from the entry. -/
theorem collect_withMaxDepth_linked :
    (linkedSurvey none).maxDepth? = none ∧
      ((linkedSurvey none).collect (.ofString "m.scss")).outcome = .ok linkedGraph ∧
      linkedGraph.files.length < 3 ∧
      ((linkedSurvey none).withMaxDepth 3).collect (.ofString "m.scss") =
        (linkedSurvey none).collect (.ofString "m.scss") := by
  have hcollect : ((linkedSurvey none).collect (.ofString "m.scss")).outcome = .ok linkedGraph :=
    collect_linked fun _ _ => rfl
  exact ⟨rfl, hcollect, by decide, collect_withMaxDepth rfl hcollect (by decide)⟩

end Survey
end SassImports
