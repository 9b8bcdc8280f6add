/-
  SassImports/Proofs/Graph/Tagging.lean
  =====================================
  Which filters the files of a graph are tagged with, and what else depends on them.

    * `Asset.filters_foldl_ensureFilter`: registering filters keeps the first of each;
    * `exists_leaf_of_mem_children`: a child has the filters of the asset that was made for it, and
      the walk's own filter;
    * `Traced.Alike`: two runs do the same, and their results belong together.  It is kept by every
      step of a walk under two filters that differ in their names (`alike_explore`), where the
      results are the same up to the filters that they are tagged with;
    * `tagging_exact`: all together.
-/
import SassImports.Proofs.Graph.Spelling
import SassImports.Proofs.Resolve.Report

namespace SassImports

/-! ### Registering filters -/

theorem Asset.filters_foldl_ensureFilter (ids : List FilterId) (a : Asset) :
    (ids.foldl Asset.ensureFilter a).filters =
      a.filters ++ (ids.filter (· ∉ a.filters)).eraseDups := by
  induction ids generalizing a with
  | nil => exact (List.append_nil _).symm
  | cons id ids ih =>
    rw [List.foldl_cons, ih, filters_ensureFilter]
    by_cases hid : id ∈ a.filters
    · rw [if_pos hid, List.filter_cons_of_neg (by simpa using hid)]
    · -- what is registered now is kept, and dropped from the rest
      have hrest : ids.filter (· ∉ a.filters ++ [id]) =
          (ids.filter (· ∉ a.filters)).filter (!· == id) := by
        rw [List.filter_filter]
        apply List.filter_congr
        intro x _
        by_cases hx : x = id <;> simp [hx]
      rw [if_neg hid, List.filter_cons_of_pos (by simpa using hid), List.eraseDups_cons, hrest,
        List.append_assoc, List.singleton_append]

theorem Asset.count_filters_ensureFilter (a : Asset) (id : FilterId) :
    (a.ensureFilter id).filters.count id = 1 := by
  have hmem : id ∈ (a.ensureFilter id).filters := by
    rw [filters_ensureFilter]
    split
    · assumption
    · simp
  rw [(a.ensureFilter id).nodup.count, if_pos hmem]

@[simp] theorem Asset.root_ensureFilter (a : Asset) (id : FilterId) :
    (a.ensureFilter id).root = a.root := by
  unfold ensureFilter
  split <;> rfl

@[simp] theorem Asset.sourcePath_ensureFilter (a : Asset) (id : FilterId) :
    (a.ensureFilter id).sourcePath = a.sourcePath := by
  unfold ensureFilter
  split <;> rfl

/-! ### Two runs -/

/-- Two runs do the same, and both fail alike or both succeed with results that belong together. -/
inductive Traced.Alike {α β : Type} (R : α → β → Prop) : Traced α → Traced β → Prop where
  | ok {a : α} {b : β} {events : List Event} (related : R a b) :
      Alike R ⟨.ok a, events⟩ ⟨.ok b, events⟩
  | error {e : Failure} {events : List Event} : Alike R ⟨.error e, events⟩ ⟨.error e, events⟩

namespace Traced

variable {α β γ δ : Type} {R : α → β → Prop} {S : γ → δ → Prop} {x : Traced α} {y : Traced β}

theorem alike_pure {a : α} {b : β} (h : R a b) : Alike R (pure a) (pure b) := .ok h

theorem alike_refl {R : α → α → Prop} (hR : ∀ a, R a a) (x : Traced α) : Alike R x x := by
  obtain ⟨outcome, events⟩ := x
  cases outcome with
  | ok a => exact .ok (hR a)
  | error e => exact .error

theorem Alike.bind (h : Alike R x y) {f : α → Traced γ} {g : β → Traced δ}
    (hf : ∀ a b, R a b → Alike S (f a) (g b)) : Alike S (x >>= f) (y >>= g) := by
  cases h with
  | error => exact .error
  | @ok a b events related =>
    rw [bind_ok rfl, bind_ok rfl]
    generalize f a = fa, g b = gb, hf a b related = hab
    cases hab with
    | ok related => exact .ok related
    | error => exact .error

theorem Alike.events_eq (h : Alike R x y) : x.events = y.events := by
  cases h <;> rfl

theorem Alike.map_outcome_eq {f : α → γ} {g : β → γ} (h : Alike R x y)
    (hfg : ∀ a b, R a b → f a = g b) : x.outcome.map f = y.outcome.map g := by
  cases h with
  | ok related => exact congrArg Except.ok (hfg _ _ related)
  | error => rfl

end Traced

/-! ### Imports under two names of the filter -/

/-- Both assets are the same file found in the same directory; their filters may differ. -/
structure Asset.SamePlace (a b : Asset) : Prop where
  root : a.root = b.root
  sourcePath : a.sourcePath = b.sourcePath

theorem Asset.SamePlace.path_eq {a b : Asset} (h : a.SamePlace b) : a.path = b.path := by
  rw [path, path, h.root, h.sourcePath]

theorem Asset.samePlace_ensureFilter (a : Asset) (id id' : FilterId) :
    (a.ensureFilter id).SamePlace (a.ensureFilter id') :=
  ⟨by simp, by simp⟩

variable {c : Context} {id : FilterId} {s : SearchPath}

theorem alike_resolveImport (c : Context) (id id' : FilterId) (s : SearchPath) (r : Reference) :
    Traced.Alike (List.Forall₂ Asset.SamePlace)
      (resolveImport c id s r >>= fun asset? => pure asset?.toList)
      (resolveImport c id' s r >>= fun asset? => pure asset?.toList) := by
  unfold resolveImport
  split
  · exact .ok .nil
  split
  · exact .ok .nil
  · simp only [bind_assoc]
    apply Traced.Alike.bind (Traced.alike_refl (fun _ => rfl) _)
    rintro found _ rfl
    cases found with
    | none => exact .ok .nil
    | some x => exact .ok (.cons (x.2.samePlace_ensureFilter id id') .nil)

theorem alike_resolveImports (c : Context) (id id' : FilterId) (s : SearchPath)
    (rs : List Reference) :
    Traced.Alike (List.Forall₂ Asset.SamePlace) (resolveImports c id s rs)
      (resolveImports c id' s rs) := by
  induction rs with
  | nil => exact .ok .nil
  | cons r rs ih =>
    have hsplit : ∀ id, resolveImports c id s (r :: rs) =
        (resolveImport c id s r >>= fun asset? => pure asset?.toList) >>= fun first =>
          resolveImports c id s rs >>= fun others => pure (first ++ others) := by
      intro id
      simp only [resolveImports, bind_assoc, pure_bind]
    rw [hsplit, hsplit]
    refine (alike_resolveImport c id id' s r).bind fun first first' hfirst => ?_
    refine ih.bind fun others others' hothers => ?_
    exact Traced.alike_pure (List.rel_append hfirst hothers)

theorem alike_resolveChildren (c : Context) (f : Filter) (id : FilterId) (source : Text)
    (leading? : Option Path) :
    Traced.Alike (List.Forall₂ Asset.SamePlace) (resolveChildren c f source leading?)
      (resolveChildren c (f.withId id) source leading?) := by
  unfold resolveChildren
  by_cases hsearch : (SearchPath.ofLoadPaths leading? f.loadPaths).isEmpty = true
  · have hsearch' : (SearchPath.ofLoadPaths leading? (f.withId id).loadPaths).isEmpty = true :=
      hsearch
    rw [if_pos hsearch, if_pos hsearch']
    exact .ok .nil
  · have hsearch' : ¬(SearchPath.ofLoadPaths leading? (f.withId id).loadPaths).isEmpty = true :=
      hsearch
    rw [if_neg hsearch, if_neg hsearch']
    apply Traced.Alike.bind (Traced.alike_refl (fun _ => rfl) _)
    rintro references _ rfl
    exact alike_resolveImports c f.id id _ references

/-! ### Graphs without their tags -/

def Dependency.untagged (c : Dependency) : Dependency := { c with filters := [] }

def Edge.untagged (e : Edge) : Edge := { e with children := e.children.map Dependency.untagged }

def Graph.untagged (g : Graph) : Graph := { g with edges := g.edges.map Edge.untagged }

theorem Asset.SamePlace.untagged_eq {a b : Asset} (h : a.SamePlace b) :
    (Dependency.ofAsset a).untagged = (Dependency.ofAsset b).untagged := by
  simp [Dependency.ofAsset, Dependency.untagged, h.root, h.path_eq]

theorem untagged_ofAssets {file : Path} {assets assets' : List Asset}
    (h : List.Forall₂ Asset.SamePlace assets assets') :
    (Edge.ofAssets file assets).untagged = (Edge.ofAssets file assets').untagged := by
  have hchildren : (assets.map Dependency.ofAsset).map Dependency.untagged =
      (assets'.map Dependency.ofAsset).map Dependency.untagged := by
    induction h with
    | nil => rfl
    | cons hfirst _ ih =>
      simp only [List.map_cons]
      rw [hfirst.untagged_eq, ih]
  simp only [Edge.ofAssets, Edge.untagged, hchildren]

/-- The findings are the same up to the filters of the files. -/
structure Findings.SameUntagged (f g : Findings) : Prop where
  edges : f.edges.map Edge.untagged = g.edges.map Edge.untagged
  reached : f.reached = g.reached

namespace Survey

variable {s : Survey} {entry : Path} {g : Graph}

def withFilterId (s : Survey) (id : FilterId) : Survey := { s with filter := s.filter.withId id }

/-! ### Walks under two names of the filter -/

theorem alike_children (s : Survey) (id : FilterId) {a b : Asset} (h : a.SamePlace b)
    (depth : Nat) :
    Traced.Alike (List.Forall₂ Asset.SamePlace) (s.children a depth)
      ((s.withFilterId id).children b depth) := by
  unfold children
  rw [Asset.sourceDirectory_eq h.path_eq, h.path_eq]
  apply Traced.Alike.bind (Traced.alike_refl (fun _ => rfl) _)
  rintro source _ rfl
  exact alike_resolveChildren s.context s.filter id source (some b.sourceDirectory)

/-- Agendas with the same files take the two walks the same way. -/
theorem alike_explore (s : Survey) (id : FilterId) (seen : List Location)
    {agenda agenda' : List (Asset × Nat)}
    (h : List.Forall₂ (fun x y => x.1.SamePlace y.1 ∧ x.2 = y.2) agenda agenda') :
    Traced.Alike Findings.SameUntagged (s.explore seen agenda)
      ((s.withFilterId id).explore seen agenda') := by
  induction seen, agenda using Survey.explore.induct s generalizing agenda' with
  | case1 seen =>
    cases h
    rw [explore_nil, explore_nil]
    exact .ok ⟨rfl, rfl⟩
  | case2 seen a depth rest e hl =>
    obtain ⟨⟨b, _⟩, rest', ⟨hplace, rfl⟩, hrest, rfl⟩ := List.forall₂_cons_left_iff.1 h
    have hl' : (s.withFilterId id).disk.canonicalize b.path = .error e := hplace.path_eq ▸ hl
    rw [explore_of_error hl, explore_of_error hl', hplace.path_eq]
    exact .error
  | case3 seen a depth rest l hl old ih =>
    obtain ⟨⟨b, _⟩, rest', ⟨hplace, rfl⟩, hrest, rfl⟩ := List.forall₂_cons_left_iff.1 h
    have hl' : (s.withFilterId id).disk.canonicalize b.path = .ok l := hplace.path_eq ▸ hl
    rw [explore_of_seen hl old, explore_of_seen hl' old]
    exact ih hrest
  | case4 seen a depth rest l hl fresh far ih =>
    obtain ⟨⟨b, _⟩, rest', ⟨hplace, rfl⟩, hrest, rfl⟩ := List.forall₂_cons_left_iff.1 h
    have hl' : (s.withFilterId id).disk.canonicalize b.path = .ok l := hplace.path_eq ▸ hl
    have far' : (s.withFilterId id).stopsAt depth = true := far
    rw [explore_of_stops hl fresh far, explore_of_stops hl' fresh far']
    refine (ih hrest).bind fun found found' hfound => ?_
    exact Traced.alike_pure ⟨hfound.edges, congrArg₂ List.cons hplace.path_eq hfound.reached⟩
  | case5 seen a depth rest l hl fresh near ih =>
    obtain ⟨⟨b, _⟩, rest', ⟨hplace, rfl⟩, hrest, rfl⟩ := List.forall₂_cons_left_iff.1 h
    have hl' : (s.withFilterId id).disk.canonicalize b.path = .ok l := hplace.path_eq ▸ hl
    have near : s.stopsAt depth = false := by simpa using near
    have near' : (s.withFilterId id).stopsAt depth = false := near
    rw [explore_of_reads hl fresh near, explore_of_reads hl' fresh near']
    refine (alike_children s id hplace depth).bind fun assets assets' hassets => ?_
    have hagenda : List.Forall₂ (fun x y => x.1.SamePlace y.1 ∧ x.2 = y.2)
        (assets.map (·, depth + 1) ++ rest) (assets'.map (·, depth + 1) ++ rest') := by
      refine List.rel_append ?_ hrest
      rw [List.forall₂_map_left_iff, List.forall₂_map_right_iff]
      exact hassets.imp fun _ _ hasset => ⟨hasset, rfl⟩
    refine (ih assets hagenda).bind fun found found' hfound => ?_
    refine Traced.alike_pure ⟨?_, congrArg₂ List.cons hplace.path_eq hfound.reached⟩
    rw [hplace.path_eq]
    exact congrArg₂ List.cons (untagged_ofAssets hassets) hfound.edges

theorem alike_collect (s : Survey) (id : FilterId) (entry : Path) :
    Traced.Alike (fun g g' => g.untagged = g'.untagged) (s.collect entry)
      ((s.withFilterId id).collect entry) := by
  have hagenda : List.Forall₂ (fun x y : Asset × Nat => x.1.SamePlace y.1 ∧ x.2 = y.2)
      [(.ofPaths ⟨[]⟩ entry, 0)] [(.ofPaths ⟨[]⟩ entry, 0)] :=
    .cons ⟨⟨rfl, rfl⟩, rfl⟩ .nil
  refine (alike_explore s id [] hagenda).bind fun found found' hfound => ?_
  rw [hfound.reached]
  apply Traced.Alike.bind (Traced.alike_refl (fun _ => rfl) _)
  rintro _ _ rfl
  exact Traced.alike_pure (by simp only [Graph.untagged, hfound.edges])

/-! ### The filters of a child -/

/-- A child has the filters of the asset that was made for it, and the walk's own filter. -/
theorem exists_leaf_of_mem_children {e : Edge} {child : Dependency}
    (h : (s.collect entry).outcome = .ok g) (he : e ∈ g.edges) (hchild : child ∈ e.children) :
    ∃ source r x leaf, s.disk.read e.parent = .ok source ∧ r ∈ s.context.references source ∧
      s.context.Finds
        (.ofLoadPaths (some (Asset.ofPath e.parent).sourceDirectory) s.filter.loadPaths) r x leaf ∧
      child = .ofAsset (leaf.ensureFilter s.filter.id) := by
  obtain ⟨imported, himports, -, heq, -⟩ := exists_imports_of_mem_edges h he
  rw [heq] at hchild
  obtain ⟨b, hb, rfl⟩ := List.mem_map.1 hchild
  obtain ⟨r, source, hread, hr, hb⟩ := (mem_iff_importsAs himports).1 hb
  rw [Asset.path_ofPath] at hread
  obtain ⟨x, leaf, hfinds, rfl⟩ := (reported_of_ok hb).exists_finds
  exact ⟨source, r, x, leaf, hread, hr, hfinds, rfl⟩

/-- **Tagging is exact and changes nothing else.**  Registering filters one after the other keeps
    the first of each.  In a graph every child of an edge has the filters of the first asset that was
    made for the place where its reference was found, and behind them the walk's own filter unless it
    was among them; so this filter is named once.  And under another name of the filter a walk does
    and reports the same, and ends in the same failure or in the same graph but for the filters. -/
theorem tagging_exact :
    (∀ (root sourcePath : Path) (ids : List FilterId),
      (ids.foldl Asset.ensureFilter (.ofPaths root sourcePath)).filters = ids.eraseDups) ∧
    ∀ (s : Survey) (entry : Path),
      (∀ g, (s.collect entry).outcome = .ok g → ∀ e ∈ g.edges, ∀ child ∈ e.children,
        ∃ source r x leaf, s.disk.read e.parent = .ok source ∧ r ∈ s.context.references source ∧
          s.context.Finds
            (.ofLoadPaths (some (Asset.ofPath e.parent).sourceDirectory) s.filter.loadPaths)
            r x leaf ∧
          child.path = leaf.path ∧ child.root = leaf.root ∧
          child.filters = (if s.filter.id ∈ leaf.filters then leaf.filters
            else leaf.filters ++ [s.filter.id]) ∧
          child.filters.count s.filter.id = 1) ∧
      ∀ id, ((s.withFilterId id).collect entry).events = (s.collect entry).events ∧
        ((s.withFilterId id).collect entry).outcome.map Graph.untagged =
          (s.collect entry).outcome.map Graph.untagged := by
  constructor
  · intro root sourcePath ids
    rw [Asset.filters_foldl_ensureFilter]
    simp [Asset.ofPaths]
  · intro s entry
    constructor
    · intro g h e he child hchild
      obtain ⟨source, r, x, leaf, hread, hr, hfinds, rfl⟩ := exists_leaf_of_mem_children h he hchild
      refine ⟨source, r, x, leaf, hread, hr, hfinds, path_ensureFilter _ _,
        Asset.root_ensureFilter _ _, Asset.filters_ensureFilter _ _, ?_⟩
      exact leaf.count_filters_ensureFilter s.filter.id
    · intro id
      have halike := alike_collect s id entry
      exact ⟨halike.events_eq.symm, (halike.map_outcome_eq fun _ _ huntagged => huntagged).symm⟩

def lintId : FilterId := ⟨"lint".toList⟩

def brandedDisk : Disk where
  entries :=
    [(["m.scss".toList], .file (.text "@import 'x', 'y';".toList)),
      (["x.scss".toList], .file (.text [])),
      (["y.scss".toList], .file (.text []))]
  workingDirectory := []

/-- Assets are made with filters: all need linting, and `y.scss` is known to be a Sass file. -/
def brandedSurvey : Survey where
  disk := brandedDisk
  context := { Context.ofDisk brandedDisk with
    assets := fun file directory =>
      let a := Asset.ofFile file directory
      .ok [if file = .ofString "./y.scss" then (a.ensureFilter .sassc).ensureFilter lintId
        else a.ensureFilter lintId] }
  filter := .ofLoadPaths .empty
  maxDepth? := none

/-- The file that needs linting first and Sass second. -/
def brandedX : Asset :=
  ((Asset.ofPaths (.ofString ".") (.ofString "x.scss")).ensureFilter lintId).ensureFilter .sassc

/-- The file that needs Sass first and linting second. -/
def brandedY : Asset :=
  ((Asset.ofPaths (.ofString ".") (.ofString "y.scss")).ensureFilter .sassc).ensureFilter lintId

def brandedGraph : Graph where
  entry := .ofString "m.scss"
  edges :=
    [.ofAssets (.ofString "m.scss") [brandedX, brandedY], .ofAssets (.ofString "./x.scss") [],
      .ofAssets (.ofString "./y.scss") []]
  files := [.ofString "./x.scss", .ofString "./y.scss"]

theorem collect_branded :
    (brandedSurvey.collect (.ofString "m.scss")).outcome = .ok brandedGraph := by
  have locate_m : brandedDisk.canonicalize (Asset.ofPath (.ofString "m.scss")).path =
      .ok ["m.scss".toList] := by
    decide +kernel
  have locate_x : brandedDisk.canonicalize brandedX.path = .ok ["x.scss".toList] := by
    decide +kernel
  have locate_y : brandedDisk.canonicalize brandedY.path = .ok ["y.scss".toList] := by
    decide +kernel
  have imports_m : brandedSurvey.Imports (.ofPath (.ofString "m.scss")) [brandedX, brandedY] := by
    decide +kernel
  have imports_x : brandedSurvey.Imports brandedX [] := by
    decide +kernel
  have imports_y : brandedSurvey.Imports brandedY [] := by
    decide +kernel
  have hvisits := @Visits.read brandedSurvey 0 [] _ _ _ _ _ _ _ _ locate_m (by decide) rfl imports_m
    (.read locate_x (by decide) rfl imports_x .nil
      (.read locate_y (by decide) rfl imports_y .nil .nil)) .nil
  exact hvisits.outcome_collect

theorem tagging_exact_branded :
    ([lintId, .sassc, lintId].foldl Asset.ensureFilter
        (.ofPaths (.ofString ".") (.ofString "x.scss"))).filters = [lintId, .sassc] ∧
    (brandedSurvey.collect (.ofString "m.scss")).outcome = .ok brandedGraph ∧
    .ofAssets (.ofString "m.scss") [brandedX, brandedY] ∈ brandedGraph.edges ∧
    Dependency.ofAsset brandedX ∈
      (Edge.ofAssets (.ofString "m.scss") [brandedX, brandedY]).children ∧
    (Dependency.ofAsset brandedX).filters.count .sassc = 1 ∧
    ((brandedSurvey.withFilterId lintId).collect (.ofString "m.scss")).events =
      (brandedSurvey.collect (.ofString "m.scss")).events ∧
    ((brandedSurvey.withFilterId lintId).collect (.ofString "m.scss")).outcome.map Graph.untagged =
      .ok brandedGraph.untagged := by
  have hcollect := collect_branded
  have hedge : Edge.ofAssets (.ofString "m.scss") [brandedX, brandedY] ∈ brandedGraph.edges := by
    decide +kernel
  have hchild : Dependency.ofAsset brandedX ∈
      (Edge.ofAssets (.ofString "m.scss") [brandedX, brandedY]).children := by
    decide +kernel
  obtain ⟨hregister, hwalk⟩ := tagging_exact
  obtain ⟨hchildren, hnames⟩ := hwalk brandedSurvey (.ofString "m.scss")
  obtain ⟨source, r, x, leaf, -, -, -, -, -, -, hcount⟩ := hchildren _ hcollect _ hedge _ hchild
  obtain ⟨hevents, houtcome⟩ := hnames lintId
  rw [hcollect] at houtcome
  exact ⟨(hregister _ _ _).trans (by decide), hcollect, hedge, hchild, hcount, hevents, houtcome⟩

end Survey
end SassImports
