/-
  SassImports/Proofs/Graph/Closure.lean
  =====================================
  What a walk lists.  Each file is listed once, whatever its spellings; every import is listed, under
  one spelling or another; and every file is listed because a stylesheet before it imports it.

    * `Visits.exists_locations`: the locations seen during a walk are those of the files it lists,
      one for each;
    * `Visits.edge_imports` and `Visits.exists_mem_seen`: an edge holds what its stylesheet imports,
      all of it seen by the end;
    * `collect_closed`: without a bound on the depth a graph is closed.
-/
import SassImports.Proofs.Disk.Resolution
import SassImports.Proofs.Graph.Visit

namespace SassImports

/-- The graph lists the file at the path, under this spelling or another one. -/
def Graph.Lists (g : Graph) (d : Disk) (p : Path) : Prop :=
  ∃ q ∈ g.rerunPaths, d.SameFile p q

instance (g : Graph) (d : Disk) (p : Path) : Decidable (g.Lists d p) :=
  inferInstanceAs (Decidable (∃ q ∈ g.rerunPaths, d.SameFile p q))

/-- The graph lists the entry and what is imported from it, each file once: the entry and the files
    are at different places, every import is listed, and every file is imported by an edge that comes
    no later in its list than the file does. -/
structure Graph.Closed (g : Graph) (d : Disk) : Prop where
  distinct : ∃ ls : List Location, g.rerunPaths.map d.canonicalize = ls.map .ok ∧ ls.Nodup
  lists : ∀ e ∈ g.edges, ∀ c ∈ e.children, g.Lists d c.path
  imported : ∀ (i : Nat) (p : Path), g.files[i]? = some p →
    ∃ k ≤ i, ∃ e, g.edges[k]? = some e ∧ ∃ c ∈ e.children, c.path = p

namespace Survey

variable {s : Survey} {depth : Nat} {seen seen' : List Location} {assets : List Asset}
  {found : Findings} {entry : Path} {g : Graph}

/-! ### Locations -/

/-- A walk sees the locations of the files it lists, each for the first time. -/
theorem Visits.exists_locations (h : s.Visits depth seen assets found seen') :
    ∃ ls : List Location, found.reached.map s.disk.canonicalize = ls.map .ok ∧
      seen' = ls.reverse ++ seen ∧ ls.Nodup ∧ ∀ l ∈ ls, l ∉ seen := by
  induction h with
  | nil => exact ⟨[], rfl, rfl, .nil, by simp⟩
  | again _ _ _ ih => exact ih
  | @stop _ _ _ a _ _ l location fresh _ _ ih =>
    obtain ⟨ls, hls, hseen, hnodup, hfresh⟩ := ih
    refine ⟨l :: ls, by simp [location, hls], by simp [hseen], ?_, ?_⟩
    · exact List.nodup_cons.2 ⟨fun hl => hfresh l hl (by simp), hnodup⟩
    · intro k hk
      rcases List.mem_cons.1 hk with rfl | hk
      · exact fresh
      · exact fun hseen => hfresh k hk (by simp [hseen])
  | @read _ _ _ _ a _ _ _ _ l location fresh _ _ _ _ inside after =>
    obtain ⟨ls, hls, rfl, hnodup, hfresh⟩ := inside
    obtain ⟨ls', hls', hseen', hnodup', hfresh'⟩ := after
    refine ⟨l :: (ls ++ ls'), by simp [location, hls, hls'], by simp [hseen'], ?_, ?_⟩
    · -- the later locations are new after the earlier ones, which are new after `l`
      refine List.nodup_cons.2 ⟨fun hl => ?_, List.nodup_append.2 ⟨hnodup, hnodup', ?_⟩⟩
      · rcases List.mem_append.1 hl with hl | hl
        · exact hfresh l hl (by simp)
        · exact hfresh' l hl (by simp)
      · rintro k hk k' hk' rfl
        exact hfresh' k hk' (by simp [hk])
    · intro k hk hseen
      rcases List.mem_cons.1 hk with rfl | hk
      · exact fresh hseen
      · rcases List.mem_append.1 hk with hk | hk
        · exact hfresh k hk (by simp [hseen])
        · exact hfresh' k hk (by simp [hseen])

theorem Visits.exists_reached {l : Location} (h : s.Visits depth [] assets found seen)
    (hl : l ∈ seen) : ∃ p ∈ found.reached, s.disk.canonicalize p = .ok l := by
  obtain ⟨ls, hls, rfl, -, -⟩ := h.exists_locations
  have hmem : (.ok l : Except IoError Location) ∈ ls.map .ok :=
    List.mem_map_of_mem (by simpa using hl)
  rw [← hls] at hmem
  exact List.mem_map.1 hmem

/-! ### Edges -/

theorem Visits.exists_mem_seen (h : s.Visits depth seen assets found seen') :
    ∀ a ∈ assets, ∃ l ∈ seen', s.disk.canonicalize a.path = .ok l := by
  induction h with
  | nil => simp
  | again location old after ih =>
    exact List.forall_mem_cons.2 ⟨⟨_, after.subset old, location⟩, ih⟩
  | stop location _ _ after ih =>
    exact List.forall_mem_cons.2 ⟨⟨_, after.subset (by simp), location⟩, ih⟩
  | read location _ _ _ inside after _ ih =>
    exact List.forall_mem_cons.2
      ⟨⟨_, after.subset (inside.subset (by simp)), location⟩, ih⟩

/-- An edge holds the imports of a listed file, and all of them have been seen by the end. -/
theorem Visits.edge_imports (h : s.Visits depth seen assets found seen') :
    ∀ e ∈ found.edges, ∃ a imported, s.Imports a imported ∧ a.path ∈ found.reached ∧
      e = .ofAssets a.path imported ∧
      ∀ b ∈ imported, ∃ l ∈ seen', s.disk.canonicalize b.path = .ok l := by
  induction h with
  | nil => simp
  | again _ _ _ ih => exact ih
  | stop _ _ _ _ ih =>
    intro e he
    obtain ⟨a, imported, himports, ha, rest⟩ := ih e he
    exact ⟨a, imported, himports, List.mem_cons_of_mem _ ha, rest⟩
  | read _ _ _ imports inside after ih ih' =>
    intro e he
    rcases List.mem_cons.1 he with rfl | he
    · refine ⟨_, _, imports, by simp, rfl, fun b hb => ?_⟩
      obtain ⟨l, hl, hb⟩ := inside.exists_mem_seen b hb
      exact ⟨l, after.subset hl, hb⟩
    · rcases List.mem_append.1 he with he | he
      · obtain ⟨a, imported, himports, ha, rfl, hseen⟩ := ih e he
        refine ⟨a, imported, himports, by simp [ha], rfl, fun b hb => ?_⟩
        obtain ⟨l, hl, hb⟩ := hseen b hb
        exact ⟨l, after.subset hl, hb⟩
      · obtain ⟨a, imported, himports, ha, rfl, hseen⟩ := ih' e he
        exact ⟨a, imported, himports, by simp [ha], rfl, hseen⟩

/-! ### Without a bound -/

theorem Visits.map_parent (h : s.Visits depth seen assets found seen') (hd : s.maxDepth? = none) :
    found.edges.map Edge.parent = found.reached := by
  induction h with
  | nil => rfl
  | again _ _ _ ih => exact ih
  | stop _ _ far _ _ => rw [stopsAt_eq_false hd] at far; cases far
  | read _ _ _ _ _ _ inside after => simp [inside, after, Edge.ofAssets]

/-- A listed file is one of the given assets or imported by a file listed before it. -/
theorem Visits.listed_of_imported (h : s.Visits depth seen assets found seen')
    (hd : s.maxDepth? = none) :
    ∀ i p, found.reached[i]? = some p →
      (∃ a ∈ assets, a.path = p) ∨ ∃ e ∈ found.edges.take i, ∃ c ∈ e.children, c.path = p := by
  induction h with
  | nil => simp
  | again _ _ _ ih =>
    intro i p hp
    refine (ih i p hp).imp_left ?_
    rintro ⟨a, ha, rfl⟩
    exact ⟨a, List.mem_cons_of_mem _ ha, rfl⟩
  | stop _ _ far _ _ => rw [stopsAt_eq_false hd] at far; cases far
  | @read _ _ _ _ a _ imported below found l _ _ _ _ inside after ih ih' =>
    intro i p hp
    have hlength : below.edges.length = below.reached.length := by
      rw [← inside.map_parent hd, List.length_map]
    cases i with
    | zero =>
      simp only [Findings.reached_reach, List.getElem?_cons_zero, Option.some.injEq] at hp
      exact Or.inl ⟨a, by simp, hp⟩
    | succ i =>
      simp only [Findings.reached_reach, Findings.reached_connect, Findings.reached_append,
        List.getElem?_cons_succ] at hp
      simp only [Findings.edges_reach, Findings.edges_connect, Findings.edges_append,
        List.take_succ_cons, List.take_append, List.mem_cons, List.mem_append, hlength]
      by_cases hi : i < below.reached.length
      · -- found below the file, where the edge of the file itself comes first
        rw [List.getElem?_append_left hi] at hp
        rcases ih i p hp with ⟨c, hc, rfl⟩ | ⟨e, he, hchild⟩
        · exact Or.inr ⟨_, Or.inl rfl, .ofAsset c, List.mem_map_of_mem hc, rfl⟩
        · exact Or.inr ⟨e, Or.inr (Or.inl he), hchild⟩
      · rw [List.getElem?_append_right (by omega)] at hp
        rcases ih' _ p hp with ⟨c, hc, rfl⟩ | ⟨e, he, hchild⟩
        · exact Or.inl ⟨c, Or.inr hc, rfl⟩
        · exact Or.inr ⟨e, Or.inr (Or.inr he), hchild⟩

/-! ### Graphs -/

/-- An edge holds what its stylesheet imports, and all of it is listed. -/
theorem exists_imports_of_mem_edges {e : Edge} (h : (s.collect entry).outcome = .ok g)
    (he : e ∈ g.edges) :
    ∃ imported, s.Imports (.ofPath e.parent) imported ∧ e.parent ∈ g.rerunPaths ∧
      e = .ofAssets e.parent imported ∧ ∀ b ∈ imported, g.Lists s.disk b.path := by
  obtain ⟨found, seen, hv, hedges, hreached⟩ := exists_visits_of_collect h
  rw [← hedges] at he
  obtain ⟨a, imported, himports, ha, rfl, hseen⟩ := hv.edge_imports e he
  refine ⟨imported, (imports_congr (Asset.path_ofPath a.path)).2 himports, hreached ▸ ha, rfl, ?_⟩
  intro b hb
  obtain ⟨l, hl, hcanonical⟩ := hseen b hb
  obtain ⟨p, hp, hpl⟩ := hv.exists_reached hl
  exact ⟨p, hreached ▸ hp, l, hcanonical, hpl⟩

/-- Without a bound the files, the entry first, are those that have an edge. -/
theorem map_parent_eq_rerunPaths (hd : s.maxDepth? = none)
    (h : (s.collect entry).outcome = .ok g) : g.edges.map Edge.parent = g.rerunPaths := by
  obtain ⟨found, seen, hv, hedges, hreached⟩ := exists_visits_of_collect h
  rw [← hedges, ← hreached]
  exact hv.map_parent hd

theorem collect_closed (hd : s.maxDepth? = none) (h : (s.collect entry).outcome = .ok g) :
    g.Closed s.disk := by
  constructor
  case distinct =>
    obtain ⟨found, seen, hv, -, hreached⟩ := exists_visits_of_collect h
    obtain ⟨ls, hls, -, hnodup, -⟩ := hv.exists_locations
    exact ⟨ls, hreached ▸ hls, hnodup⟩
  case lists =>
    intro e he c hc
    obtain ⟨imported, -, -, heq, hlists⟩ := exists_imports_of_mem_edges h he
    rw [heq] at hc
    obtain ⟨b, hb, rfl⟩ := List.mem_map.1 hc
    exact hlists b hb
  case imported =>
    intro i p hp
    obtain ⟨l, imported, below, seen, -, -, hv, hedges, hfiles⟩ := exists_visits_imports hd h
    rw [(List.cons.inj hfiles).2] at hp
    rw [hedges]
    rcases hv.listed_of_imported hd i p hp with ⟨c, hc, rfl⟩ | ⟨e, he, hchild⟩
    · exact ⟨0, Nat.zero_le i, _, rfl, .ofAsset c, List.mem_map_of_mem hc, rfl⟩
    · obtain ⟨k, hk, rfl⟩ := List.mem_take_iff_getElem.1 he
      exact ⟨k + 1, by omega, _, by rw [List.getElem?_cons_succ, List.getElem?_eq_getElem], hchild⟩

/-! ### A cycle and two links -/

def foundIn (directory path : String) : Asset :=
  (Asset.ofPaths (.ofString directory) (.ofString path)).ensureFilter .sassc

/-- Two links lead to `a/x.scss`, one of them from another directory, and what it imports leads back
    to the entry. -/
def linkedDisk : Disk where
  entries :=
    [(["m.scss".toList], .file (.text "@import 'a/x', 'a/z', 'b/x';".toList)),
      (["a".toList], .directory),
      (["x.scss".toList, "a".toList], .file (.text "@import 'y';".toList)),
      (["y.scss".toList, "a".toList], .file (.text "@import '../m';".toList)),
      (["z.scss".toList, "a".toList], .link "x.scss".toList),
      (["b".toList], .directory),
      (["x.scss".toList, "b".toList], .link "../a/x.scss".toList),
      (["y.scss".toList, "b".toList], .file (.text []))]
  workingDirectory := []

def linkedSurvey (maxDepth? : Option Nat) : Survey :=
  .ofDisk linkedDisk (.ofLoadPaths .empty) maxDepth?

def linkedGraph : Graph where
  entry := .ofString "m.scss"
  edges :=
    [.ofAssets (.ofString "m.scss")
        [foundIn "." "a/x.scss", foundIn "." "a/z.scss", foundIn "." "b/x.scss"],
      .ofAssets (.ofString "./a/x.scss") [foundIn "./a" "y.scss"],
      .ofAssets (.ofString "./a/y.scss") [foundIn "./a" "../m.scss"]]
  files := [.ofString "./a/x.scss", .ofString "./a/y.scss"]

set_option maxRecDepth 10000 in
theorem collect_linked {maxDepth? : Option Nat}
    (hd : ∀ depth ≤ 2, (linkedSurvey maxDepth?).stopsAt depth = false) :
    ((linkedSurvey maxDepth?).collect (.ofString "m.scss")).outcome = .ok linkedGraph := by
  -- where the files are and what they import does not depend on the bound
  have locate_m : linkedDisk.canonicalize (Asset.ofPath (.ofString "m.scss")).path =
      .ok ["m.scss".toList] := by
    decide +kernel
  have locate_x : linkedDisk.canonicalize (foundIn "." "a/x.scss").path =
      .ok ["x.scss".toList, "a".toList] := by
    decide +kernel
  have locate_z : linkedDisk.canonicalize (foundIn "." "a/z.scss").path =
      .ok ["x.scss".toList, "a".toList] := by
    decide +kernel
  have locate_x' : linkedDisk.canonicalize (foundIn "." "b/x.scss").path =
      .ok ["x.scss".toList, "a".toList] := by
    decide +kernel
  have locate_y : linkedDisk.canonicalize (foundIn "./a" "y.scss").path =
      .ok ["y.scss".toList, "a".toList] := by
    decide +kernel
  have locate_m' : linkedDisk.canonicalize (foundIn "./a" "../m.scss").path =
      .ok ["m.scss".toList] := by
    decide +kernel
  have imports_m : (linkedSurvey none).Imports (.ofPath (.ofString "m.scss"))
      [foundIn "." "a/x.scss", foundIn "." "a/z.scss", foundIn "." "b/x.scss"] := by
    decide +kernel
  have imports_x : (linkedSurvey none).Imports (foundIn "." "a/x.scss")
      [foundIn "./a" "y.scss"] := by
    decide +kernel
  have imports_y : (linkedSurvey none).Imports (foundIn "./a" "y.scss")
      [foundIn "./a" "../m.scss"] := by
    decide +kernel
  have hvisits := @Visits.read (linkedSurvey maxDepth?) 0 [] _ _ _ _ _ _ _ _
    locate_m (by decide) (hd 0 (by decide)) imports_m
    (.read locate_x (by decide) (hd 1 (by decide)) imports_x
      (.read locate_y (by decide) (hd 2 (by decide)) imports_y
        (.again locate_m' (by decide) .nil) .nil)
      (.again locate_z (by decide) (.again locate_x' (by decide) .nil))) .nil
  exact hvisits.outcome_collect

theorem collect_closed_linked :
    (linkedSurvey none).maxDepth? = none ∧
      ((linkedSurvey none).collect (.ofString "m.scss")).outcome = .ok linkedGraph ∧
      linkedGraph.Closed linkedDisk :=
  ⟨rfl, collect_linked fun _ _ => rfl, collect_closed rfl (collect_linked fun _ _ => rfl)⟩

end Survey
end SassImports
