/-
  SassImports/Proofs/Graph/Visit.lean
  ===================================
  The walk as a recursion.  `Survey.explore` works through one agenda of assets that are still to be
  visited.  Here the same walk is a derivation: `Visits` says what is found from a list of assets
  that are equally far from the entry, and which locations were seen by the end.  A file that is
  read has a derivation of its own for its imports, below the derivation of the assets after it,
  so that facts about whole walks are inductions over derivations.

    * `Visits.outcome_explore` and `exists_visits_of_explore`: a derivation is what `explore` does
      with the head of its agenda, and every walk that succeeds has one;
    * `exists_visits_of_collect`: the derivation behind a graph.
-/
import SassImports.Graph.Walk
import SassImports.Outcome

namespace SassImports

/-! ### Findings one after the other -/

namespace Findings

instance : Append Findings := ⟨fun f g => ⟨f.edges ++ g.edges, f.reached ++ g.reached⟩⟩

@[simp] theorem edges_none : none.edges = [] := rfl

@[simp] theorem reached_none : none.reached = [] := rfl

@[simp] theorem edges_append (f g : Findings) : (f ++ g).edges = f.edges ++ g.edges := rfl

@[simp] theorem reached_append (f g : Findings) : (f ++ g).reached = f.reached ++ g.reached := rfl

@[simp] theorem edges_reach (p : Path) (f : Findings) : (f.reach p).edges = f.edges := rfl

@[simp] theorem reached_reach (p : Path) (f : Findings) : (f.reach p).reached = p :: f.reached := rfl

@[simp] theorem edges_connect (e : Edge) (f : Findings) : (f.connect e).edges = e :: f.edges := rfl

@[simp] theorem reached_connect (e : Edge) (f : Findings) : (f.connect e).reached = f.reached := rfl

@[simp] theorem append_none (f : Findings) : f ++ none = f := by
  show Findings.mk _ _ = f
  simp

theorem append_assoc (f g h : Findings) : f ++ g ++ h = f ++ (g ++ h) := by
  show Findings.mk _ _ = Findings.mk _ _
  simp

end Findings

namespace Asset

/-- The asset at a path that was found in no directory, such as a walk starts from. -/
def ofPath (file : Path) : Asset := .ofPaths ⟨[]⟩ file

@[simp] theorem path_ofPath (file : Path) : (ofPath file).path = file := by
  simp [ofPath, path, ofPaths, Path.join]

theorem sourceDirectory_eq {a b : Asset} (h : a.path = b.path) :
    a.sourceDirectory = b.sourceDirectory := by
  rw [sourceDirectory, sourceDirectory, h]

end Asset

namespace Survey

/-! ### The imports of one stylesheet -/

/-- The asset's file can be read, and these are the assets that its text imports, looked for in its
    own directory first. -/
def Imports (s : Survey) (a : Asset) (assets : List Asset) : Prop :=
  ∃ source, s.disk.read a.path = .ok source ∧
    (resolveChildren s.context s.filter source (some a.sourceDirectory)).outcome = .ok assets

variable {s : Survey} {depth : Nat} {seen seen' : List Location} {a : Asset}
  {assets rest : List Asset} {found : Findings}

theorem outcome_children_eq_ok_iff :
    (s.children a depth).outcome = .ok assets ↔ s.Imports a assets := by
  unfold children readSource Imports
  constructor
  · intro h
    obtain ⟨source, hsource, hassets⟩ := Traced.outcome_bind_eq_ok_iff.1 h
    obtain ⟨_, -, hread⟩ := Traced.outcome_bind_eq_ok_iff.1 hsource
    exact ⟨source, Traced.outcome_ofExcept_eq_ok_iff.1 hread, hassets⟩
  · rintro ⟨source, hread, hassets⟩
    refine Traced.outcome_bind_eq_ok_iff.2 ⟨source, ?_, hassets⟩
    exact Traced.outcome_bind_eq_ok_iff.2
      ⟨(), rfl, Traced.outcome_ofExcept_eq_ok_iff.2 hread⟩

instance (s : Survey) (a : Asset) (assets : List Asset) : Decidable (s.Imports a assets) :=
  decidable_of_iff ((s.children a 0).outcome = .ok assets) outcome_children_eq_ok_iff

theorem imports_congr {b : Asset} (h : a.path = b.path) :
    s.Imports a assets ↔ s.Imports b assets := by
  rw [Imports, Imports, h, Asset.sourceDirectory_eq h]

/-! ### Derivations -/

/-- What a walk finds from assets that are so far from the entry, given the locations that were
    seen before; and the locations seen afterwards, the last one first.  A file that was seen before
    is passed over, one that is too far away is listed and not read, and what any other file imports
    is visited before the assets that come after it. -/
inductive Visits (s : Survey) :
    Nat → List Location → List Asset → Findings → List Location → Prop where
  | nil {depth : Nat} {seen : List Location} : Visits s depth seen [] .none seen
  | again {depth : Nat} {seen seen' : List Location} {a : Asset} {rest : List Asset}
      {found : Findings} {l : Location}
      (location : s.disk.canonicalize a.path = .ok l) (old : l ∈ seen)
      (after : Visits s depth seen rest found seen') : Visits s depth seen (a :: rest) found seen'
  | stop {depth : Nat} {seen seen' : List Location} {a : Asset} {rest : List Asset}
      {found : Findings} {l : Location}
      (location : s.disk.canonicalize a.path = .ok l) (fresh : l ∉ seen)
      (far : s.stopsAt depth = true) (after : Visits s depth (l :: seen) rest found seen') :
      Visits s depth seen (a :: rest) (found.reach a.path) seen'
  | read {depth : Nat} {seen between seen' : List Location} {a : Asset} {rest assets : List Asset}
      {below found : Findings} {l : Location}
      (location : s.disk.canonicalize a.path = .ok l) (fresh : l ∉ seen)
      (near : s.stopsAt depth = false) (imports : s.Imports a assets)
      (inside : Visits s (depth + 1) (l :: seen) assets below between)
      (after : Visits s depth between rest found seen') :
      Visits s depth seen (a :: rest)
        (((below ++ found).connect (.ofAssets a.path assets)).reach a.path) seen'

theorem Visits.subset (h : s.Visits depth seen assets found seen') : seen ⊆ seen' := by
  induction h with
  | nil => exact List.Subset.refl _
  | again _ _ _ ih => exact ih
  | stop _ _ _ _ ih => exact fun l hl => ih (List.mem_cons_of_mem _ hl)
  | read _ _ _ _ _ _ inside after => exact fun l hl => after (inside (List.mem_cons_of_mem _ hl))

/-! ### Derivations and the agenda -/

theorem Visits.outcome_explore (h : s.Visits depth seen assets found seen')
    (agenda : List (Asset × Nat)) :
    (s.explore seen (assets.map (·, depth) ++ agenda)).outcome =
      (s.explore seen' agenda).outcome.map (found ++ ·) := by
  induction h generalizing agenda with
  | nil => cases h : (s.explore _ agenda).outcome <;> simp [h, Except.map]; rfl
  | again location old _ ih =>
    rw [List.map_cons, List.cons_append, explore_of_seen location old, ih]
  | stop location fresh far _ ih =>
    rw [List.map_cons, List.cons_append, explore_of_stops location fresh far,
      Traced.outcome_bind_pure, ih]
    cases (s.explore _ agenda).outcome <;> rfl
  | read location fresh near imports _ _ inside after =>
    rw [List.map_cons, List.cons_append, explore_of_reads location fresh near,
      Traced.bind_ok (outcome_children_eq_ok_iff.2 imports)]
    -- the imports come before the other assets of the agenda, which come before its end
    rw [Traced.outcome_bind_pure, inside, after]
    cases (s.explore _ agenda).outcome with
    | error e => rfl
    | ok g => simp only [Except.map, ← Findings.append_assoc]; rfl

theorem length_unseen_le (h : seen ⊆ seen') :
    (s.unseen seen').length ≤ (s.unseen seen).length := by
  unfold unseen
  rw [← List.countP_eq_length_filter, ← List.countP_eq_length_filter]
  refine List.countP_mono_left fun l _ hl => ?_
  simp only [decide_eq_true_eq] at hl ⊢
  exact fun hl' => hl (h hl')

/-- A walk that succeeds has a derivation for the assets at the head of its agenda. -/
theorem exists_visits_of_explore {seen : List Location} {assets : List Asset}
    {agenda : List (Asset × Nat)} {depth : Nat} {found : Findings}
    (h : (s.explore seen (assets.map (·, depth) ++ agenda)).outcome = .ok found) :
    ∃ first between last, s.Visits depth seen assets first between ∧
      (s.explore between agenda).outcome = .ok last ∧ found = first ++ last := by
  match assets with
  | [] => exact ⟨.none, seen, found, .nil, h, rfl⟩
  | a :: others =>
    rw [List.map_cons, List.cons_append] at h
    cases hl : s.disk.canonicalize a.path with
    | error e => rw [explore_of_error hl] at h; cases h
    | ok l =>
      by_cases old : l ∈ seen
      · rw [explore_of_seen hl old] at h
        obtain ⟨first, between, last, hv, hrest, rfl⟩ := exists_visits_of_explore h
        exact ⟨first, between, last, .again hl old hv, hrest, rfl⟩
      · have hlt := length_unseen_cons (Disk.mem_locations_of_canonicalize hl) old
        cases hd : s.stopsAt depth with
        | true =>
          rw [explore_of_stops hl old hd, Traced.outcome_bind_pure] at h
          obtain ⟨others', hothers, rfl⟩ := Outcome.map_eq_ok_iff.1 h
          obtain ⟨first, between, last, hv, hrest, rfl⟩ := exists_visits_of_explore hothers
          exact ⟨_, between, last, .stop hl old hd hv, hrest, rfl⟩
        | false =>
          rw [explore_of_reads hl old hd] at h
          obtain ⟨imported, himported, hfound⟩ := Traced.outcome_bind_eq_ok_iff.1 h
          rw [Traced.outcome_bind_pure] at hfound
          obtain ⟨all, hall, rfl⟩ := Outcome.map_eq_ok_iff.1 hfound
          -- first the imports, then what is left of the given assets
          obtain ⟨below, middle, _, hin, hmiddle, rfl⟩ := exists_visits_of_explore hall
          have hle : (s.unseen middle).length ≤ (s.unseen (l :: seen)).length :=
            length_unseen_le hin.subset
          obtain ⟨first, between, last, hafter, hrest, rfl⟩ := exists_visits_of_explore hmiddle
          refine ⟨_, between, last,
            .read hl old hd (outcome_children_eq_ok_iff.1 himported) hin hafter, hrest, ?_⟩
          rw [← Findings.append_assoc]
          rfl
termination_by ((s.unseen seen).length, assets.length)
decreasing_by
  · exact .right _ (Nat.lt_succ_self _)
  · exact .left _ _ hlt
  · exact .left _ _ (Nat.lt_of_le_of_lt hle hlt)
  · exact .left _ _ hlt

/-! ### The derivation behind a graph -/

/-- What a graph lists, the entry first, is what is found from the entry. -/
theorem exists_visits_of_collect {entry : Path} {g : Graph}
    (h : (s.collect entry).outcome = .ok g) :
    ∃ found seen, s.Visits 0 [] [.ofPath entry] found seen ∧ found.edges = g.edges ∧
      found.reached = g.rerunPaths := by
  obtain ⟨found, hfound, h⟩ := Traced.outcome_bind_eq_ok_iff.1 h
  obtain ⟨_, -, h⟩ := Traced.outcome_bind_eq_ok_iff.1 h
  obtain rfl := Except.ok.inj h
  obtain ⟨first, seen, last, hv, hlast, rfl⟩ :=
    @exists_visits_of_explore s [] [.ofPath entry] [] 0 _ hfound
  rw [explore_nil] at hlast
  obtain rfl := Except.ok.inj hlast
  refine ⟨first, seen, hv, by simp, ?_⟩
  -- nothing was seen before the entry, so it is the first file of the derivation
  cases hv with
  | again _ old _ => cases old
  | stop => simp [Graph.rerunPaths]
  | read => simp [Graph.rerunPaths]

theorem Visits.outcome_explore_map (h : s.Visits depth seen assets found seen') :
    (s.explore seen (assets.map (·, depth))).outcome = .ok found := by
  have hmap := h.outcome_explore []
  rw [explore_nil] at hmap
  simpa [Except.map] using hmap

/-- A derivation from the entry makes the walk succeed. -/
theorem Visits.outcome_collect {entry : Path} (h : s.Visits 0 [] [.ofPath entry] found seen) :
    (s.collect entry).outcome = .ok ⟨entry, found.edges, found.reached.tail⟩ :=
  Traced.outcome_bind_eq_ok_iff.2 ⟨found, h.outcome_explore_map,
    Traced.outcome_bind_eq_ok_iff.2 ⟨(), rfl, rfl⟩⟩

theorem stopsAt_eq_false (hd : s.maxDepth? = none) (depth : Nat) : s.stopsAt depth = false := by
  simp [stopsAt, hd]

/-- Without a bound the entry is read, and the rest of the graph is found from its imports. -/
theorem exists_visits_imports {entry : Path} {g : Graph} (hd : s.maxDepth? = none)
    (h : (s.collect entry).outcome = .ok g) :
    ∃ l imported found seen, s.disk.canonicalize entry = .ok l ∧
      s.Imports (.ofPath entry) imported ∧
      s.Visits 1 [l] imported found seen ∧ g.edges = .ofAssets entry imported :: found.edges ∧
      g.rerunPaths = entry :: found.reached := by
  obtain ⟨found, seen, hv, hedges, hreached⟩ := exists_visits_of_collect h
  cases hv with
  | again _ old _ => cases old
  | stop _ _ far _ => rw [stopsAt_eq_false hd] at far; cases far
  | read location _ _ imports inside after =>
    cases after
    refine ⟨_, _, _, _, by simpa using location, imports, inside, ?_, ?_⟩
    · simpa using hedges.symm
    · simpa using hreached.symm

end Survey
end SassImports
