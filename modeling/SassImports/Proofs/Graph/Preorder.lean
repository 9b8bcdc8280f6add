/-
  SassImports/Proofs/Graph/Preorder.lean
  ======================================
  How the two lists of a graph belong together.  The edges alone fix in which order the files are
  listed: `DepthFirst` goes through the children of an edge and, whenever a child is at a place that
  was not seen before, lists it, takes the next edge for it, and goes through the children of that
  edge before it comes back for the other children.  It says nothing of how a walk is carried out.

    * `Visits.depthFirst`: what a walk finds is in this order;
    * `collect_faithful`: without a bound on the depth edges, files and contents agree.
-/
import SassImports.Proofs.Graph.Closure

namespace SassImports

/-! ### Files in the order of their edges -/

/-- The edges and files below some children, given the locations that were seen before; and the
    locations seen afterwards.  All that is below a new child comes before the children after it. -/
inductive DepthFirst (d : Disk) :
    List Location → List Dependency → List Edge → List Path → List Location → Prop where
  | nil {seen : List Location} : DepthFirst d seen [] [] [] seen
  | again {seen seen' : List Location} {c : Dependency} {rest : List Dependency}
      {edges : List Edge} {files : List Path} {l : Location}
      (location : d.canonicalize c.path = .ok l) (old : l ∈ seen)
      (after : DepthFirst d seen rest edges files seen') :
      DepthFirst d seen (c :: rest) edges files seen'
  | first {seen between seen' : List Location} {c : Dependency} {rest : List Dependency} {e : Edge}
      {edges edges' : List Edge} {files files' : List Path} {l : Location}
      (location : d.canonicalize c.path = .ok l) (fresh : l ∉ seen) (parent : e.parent = c.path)
      (inside : DepthFirst d (l :: seen) e.children edges files between)
      (after : DepthFirst d between rest edges' files' seen') :
      DepthFirst d seen (c :: rest) (e :: (edges ++ edges')) (c.path :: (files ++ files')) seen'

namespace Survey

variable {s : Survey} {depth : Nat} {seen seen' : List Location} {assets : List Asset}
  {found : Findings} {entry : Path} {g : Graph}

theorem Visits.depthFirst (h : s.Visits depth seen assets found seen') (hd : s.maxDepth? = none) :
    DepthFirst s.disk seen (assets.map Dependency.ofAsset) found.edges found.reached seen' := by
  induction h with
  | nil => exact .nil
  | again location old _ ih => exact .again location old ih
  | stop _ _ far _ _ => rw [stopsAt_eq_false hd] at far; cases far
  | read location fresh _ _ _ _ inside after => exact .first location fresh rfl inside after

/-- Edges, files and contents of the graph agree: the files, the entry first, are those that have an
    edge; an edge holds what the text of its stylesheet imports, in order and with repetitions; and
    the files are listed depth first, as the edges have them. -/
structure Faithful (s : Survey) (g : Graph) : Prop where
  parents : g.edges.map Edge.parent = g.rerunPaths
  children : ∀ e ∈ g.edges, ∃ imported, s.Imports (.ofPath e.parent) imported ∧
    e.children = imported.map Dependency.ofAsset
  order : ∃ l e edges seen, s.disk.canonicalize g.entry = .ok l ∧ g.edges = e :: edges ∧
    DepthFirst s.disk [l] e.children edges g.files seen

theorem collect_faithful (hd : s.maxDepth? = none) (h : (s.collect entry).outcome = .ok g) :
    s.Faithful g := by
  constructor
  case parents => exact map_parent_eq_rerunPaths hd h
  case children =>
    intro e he
    obtain ⟨imported, himports, -, heq, -⟩ := exists_imports_of_mem_edges h he
    exact ⟨imported, himports, by rw [heq]; rfl⟩
  case order =>
    obtain ⟨l, imported, below, seen, hl, -, hv, hedges, hfiles⟩ := exists_visits_imports hd h
    obtain ⟨hentry, hfiles⟩ := List.cons.inj hfiles
    refine ⟨l, _, _, seen, hentry ▸ hl, hedges, ?_⟩
    rw [hfiles]
    exact hv.depthFirst hd

theorem collect_faithful_linked :
    (linkedSurvey none).maxDepth? = none ∧
      ((linkedSurvey none).collect (.ofString "m.scss")).outcome = .ok linkedGraph ∧
      (linkedSurvey none).Faithful linkedGraph :=
  ⟨rfl, collect_linked fun _ _ => rfl, collect_faithful rfl (collect_linked fun _ _ => rfl)⟩

end Survey
end SassImports
