/-
  SassImports/Proofs/Graph/Log.lean
  =================================
  The log of a walk.  A stylesheet is reported on while its references are resolved, before its edge
  is known and before anything below it is visited.  So the log has a segment for every edge, in the
  order of the edges, and one report at the end of a walk that succeeds.

    * `exists_segments_of_explore`: the log of an agenda is that of the edges found from it;
    * `isFinal_of_mem_explore`: before the end nothing reports the end, also in a walk that fails;
    * `log_accounts`: the log of a source, and of a walk.
-/
import SassImports.Proofs.Graph.Placement
import SassImports.Proofs.Resolve.Report

namespace SassImports

/-! ### One source -/

section

variable {c : Context} {f : Filter} {source : Text} {leading? : Option Path} {n : Notice}
  {children : List Asset}

theorem not_nothingToSearch (h : (SearchPath.ofLoadPaths leading? f.loadPaths).isEmpty = false) :
    ¬NothingToSearch leading? f.loadPaths := by
  rw [← isEmpty_ofLoadPaths_iff, h]
  exact Bool.false_ne_true

theorem notices_resolveChildren
    (hsearch : (SearchPath.ofLoadPaths leading? f.loadPaths).isEmpty = false) :
    (resolveChildren c f source leading?).notices =
      (resolveImports c f.id (.ofLoadPaths leading? f.loadPaths) (c.references source)).notices := by
  rw [resolveChildren_of_searched (not_nothingToSearch hsearch)]
  rfl

theorem log_resolveChildren
    (hsearch : (SearchPath.ofLoadPaths leading? f.loadPaths).isEmpty = false)
    (h : (resolveChildren c f source leading?).outcome = .ok children) :
    Log c f.id (.ofLoadPaths leading? f.loadPaths) (c.references source) children
      (resolveChildren c f source leading?).notices := by
  rw [notices_resolveChildren hsearch]
  rw [resolveChildren_of_searched (not_nothingToSearch hsearch)] at h
  exact log_of_ok h

theorem isFinal_of_mem_resolveChildren
    (h : n ∈ (resolveChildren c f source leading?).notices) : n.isFinal = false := by
  by_cases hsearch : (SearchPath.ofLoadPaths leading? f.loadPaths).isEmpty = true
  · rw [resolveChildren_of_nothingToSearch (isEmpty_ofLoadPaths_iff.1 hsearch)] at h
    cases h
  · rw [notices_resolveChildren (by simpa using hsearch)] at h
    exact isFinal_of_mem_resolveImports h

end

namespace Survey

variable {s : Survey} {a : Asset} {depth : Nat} {seen : List Location}
  {agenda : List (Asset × Nat)} {assets : List Asset} {found : Findings} {n : Notice}

/-! ### One stylesheet -/

theorem isEmpty_searchPath (a : Asset) (l : LoadPaths) :
    (SearchPath.ofLoadPaths (some a.sourceDirectory) l).isEmpty = false := by
  rw [ofLoadPaths_some a.text_sourceDirectory_ne_nil]
  rfl

theorem notices_readSource (s : Survey) (file : Path) (depth : Nat) :
    (s.readSource file depth).notices = [] := by
  unfold readSource
  cases s.disk.read file <;> rfl

/-- The log has this for the edge: what the references in the text of its stylesheet add, its
    children being what they add to these. -/
def Segment (s : Survey) (e : Edge) (log : List Notice) : Prop :=
  ∃ source assets, s.disk.read e.parent = .ok source ∧
    e.children = assets.map Dependency.ofAsset ∧
    Log s.context s.filter.id
      (.ofLoadPaths (some (Asset.ofPath e.parent).sourceDirectory) s.filter.loadPaths)
      (s.context.references source) assets log

theorem segment_children (h : (s.children a depth).outcome = .ok assets) :
    s.Segment (.ofAssets a.path assets) (s.children a depth).notices := by
  obtain ⟨source, hsource, hassets⟩ := Traced.outcome_bind_eq_ok_iff.1 h
  obtain ⟨_, -, hread⟩ := Traced.outcome_bind_eq_ok_iff.1 hsource
  refine ⟨source, assets, Traced.outcome_ofExcept_eq_ok_iff.1 hread, rfl, ?_⟩
  have hdirectory : (Asset.ofPath a.path).sourceDirectory = a.sourceDirectory :=
    Asset.sourceDirectory_eq (Asset.path_ofPath a.path)
  show Log _ _ (.ofLoadPaths (some (Asset.ofPath a.path).sourceDirectory) _) _ _ _
  rw [children, Traced.notices_bind_of_ok hsource, notices_readSource, List.nil_append, hdirectory]
  exact log_resolveChildren (isEmpty_searchPath a s.filter.loadPaths) hassets

theorem isFinal_of_mem_children (h : n ∈ (s.children a depth).notices) : n.isFinal = false := by
  rcases Traced.mem_notices_bind_iff.1 h with h | ⟨source, -, h⟩
  · rw [notices_readSource] at h
    cases h
  · exact isFinal_of_mem_resolveChildren h

/-! ### Walks -/

/-- The log of a walk has a segment for every edge, in the order of the edges. -/
theorem exists_segments_of_explore (h : (s.explore seen agenda).outcome = .ok found) :
    ∃ segments, List.Forall₂ s.Segment found.edges segments ∧
      (s.explore seen agenda).notices = segments.flatten := by
  induction seen, agenda using Survey.explore.induct s generalizing found with
  | case1 seen =>
    rw [explore_nil] at h ⊢
    cases h
    exact ⟨[], .nil, rfl⟩
  | case2 seen a depth rest e hl =>
    rw [explore_of_error hl] at h
    cases h
  | case3 seen a depth rest l hl old ih =>
    rw [explore_of_seen hl old] at h ⊢
    exact ih h
  | case4 seen a depth rest l hl fresh far ih =>
    rw [explore_of_stops hl fresh far] at h ⊢
    rw [Traced.outcome_bind_pure] at h
    obtain ⟨found, hfound, rfl⟩ := Outcome.map_eq_ok_iff.1 h
    obtain ⟨segments, hsegments, hlog⟩ := ih hfound
    exact ⟨segments, hsegments, Traced.notices_bind_pure.trans hlog⟩
  | case5 seen a depth rest l hl fresh near ih =>
    rw [explore_of_reads hl fresh (by simpa using near)] at h ⊢
    obtain ⟨assets, hassets, h⟩ := Traced.outcome_bind_eq_ok_iff.1 h
    rw [Traced.outcome_bind_pure] at h
    obtain ⟨found, hfound, rfl⟩ := Outcome.map_eq_ok_iff.1 h
    obtain ⟨segments, hsegments, hlog⟩ := ih assets hfound
    -- the stylesheet has been reported on when the rest of the agenda is taken up
    refine ⟨_ :: segments, .cons (segment_children hassets) hsegments, ?_⟩
    rw [Traced.notices_bind_of_ok hassets, Traced.notices_bind_pure, hlog, List.flatten_cons]

theorem isFinal_of_mem_explore (h : n ∈ (s.explore seen agenda).notices) : n.isFinal = false := by
  induction seen, agenda using Survey.explore.induct s with
  | case1 seen =>
    rw [explore_nil] at h
    cases h
  | case2 seen a depth rest e hl =>
    rw [explore_of_error hl] at h
    cases h
  | case3 seen a depth rest l hl old ih =>
    rw [explore_of_seen hl old] at h
    exact ih h
  | case4 seen a depth rest l hl fresh far ih =>
    rw [explore_of_stops hl fresh far, Traced.notices_bind_pure] at h
    exact ih h
  | case5 seen a depth rest l hl fresh near ih =>
    rw [explore_of_reads hl fresh (by simpa using near)] at h
    rcases Traced.mem_notices_bind_iff.1 h with h | ⟨assets, -, h⟩
    · exact isFinal_of_mem_children h
    · rw [Traced.notices_bind_pure] at h
      exact ih assets h

/-- **The log accounts for every reference.**  Where there is something to search, resolving the
    references of a source without a failure reports on them one after the other: on an empty one
    not at all, and on any other one once, as `Reported` says; so as many are reported as resolved as
    there are children.  The log of a walk that succeeds is that of its edges, one after the other,
    and then the one report of the end, with the number of files; a walk that fails never reports
    its end. -/
theorem log_accounts :
    (∀ (c : Context) (f : Filter) (source : Text) (leading? : Option Path) (children : List Asset),
      (SearchPath.ofLoadPaths leading? f.loadPaths).isEmpty = false →
      (resolveChildren c f source leading?).outcome = .ok children →
      Log c f.id (.ofLoadPaths leading? f.loadPaths) (c.references source) children
          (resolveChildren c f source leading?).notices ∧
        (resolveChildren c f source leading?).notices.countP Notice.isResolved =
          children.length) ∧
    ∀ (s : Survey) (entry : Path),
      (∀ g, (s.collect entry).outcome = .ok g →
        ∃ segments, List.Forall₂ s.Segment g.edges segments ∧
          (s.collect entry).notices =
            segments.flatten ++ [.collectedDependencies entry g.files.length]) ∧
      ∀ e, (s.collect entry).outcome = .error e →
        ∀ n ∈ (s.collect entry).notices, n.isFinal = false := by
  constructor
  · intro c f source leading? children hsearch h
    have hlog := log_resolveChildren hsearch h
    exact ⟨hlog, hlog.countP_isResolved⟩
  · intro s entry
    constructor
    · intro g h
      obtain ⟨found, hfound, h⟩ := Traced.outcome_bind_eq_ok_iff.1 h
      obtain ⟨_, -, h⟩ := Traced.outcome_bind_eq_ok_iff.1 h
      obtain rfl := Except.ok.inj h
      obtain ⟨segments, hsegments, hlog⟩ := exists_segments_of_explore hfound
      refine ⟨segments, hsegments, ?_⟩
      rw [collect, Traced.notices_bind_of_ok hfound, hlog]
      rfl
    · intro e h n hn
      rcases Traced.outcome_bind_eq_error_iff.1 h with h | ⟨found, -, h⟩
      · rw [collect, Traced.notices_bind_of_error h] at hn
        exact isFinal_of_mem_explore hn
      · cases h

def linewiseBase : Asset :=
  (Asset.ofPaths (.ofString "/a") (.ofString "_base.scss")).ensureFilter .sassc

theorem log_accounts_linewise :
    (SearchPath.ofLoadPaths none linewiseFilter.loadPaths).isEmpty = false ∧
    (resolveChildren linewiseContext linewiseFilter "base\nlocked.css\nlost\n\nbase".toList
      none).outcome = .ok [linewiseBase, linewiseBase] ∧
    Log linewiseContext .sassc linewisePath
      (linewiseContext.references "base\nlocked.css\nlost\n\nbase".toList)
      [linewiseBase, linewiseBase]
      (resolveChildren linewiseContext linewiseFilter "base\nlocked.css\nlost\n\nbase".toList
        none).notices ∧
    (resolveChildren linewiseContext linewiseFilter "base\nlocked.css\nlost\n\nbase".toList
      none).notices.countP Notice.isResolved = 2 ∧
    ((linkedSurvey none).collect (.ofString "m.scss")).outcome = .ok linkedGraph ∧
    (∃ segments, List.Forall₂ (linkedSurvey none).Segment linkedGraph.edges segments ∧
      ((linkedSurvey none).collect (.ofString "m.scss")).notices =
        segments.flatten ++ [.collectedDependencies (.ofString "m.scss") 2]) ∧
    ((linkedSurvey none).collect (.ofString "lost.scss")).outcome =
      .error (.canonicalize (.ofString "lost.scss") .notFound) ∧
    ∀ n ∈ ((linkedSurvey none).collect (.ofString "lost.scss")).notices, n.isFinal = false := by
  have hsearch : (SearchPath.ofLoadPaths none linewiseFilter.loadPaths).isEmpty = false := rfl
  have hchildren : (resolveChildren linewiseContext linewiseFilter
      "base\nlocked.css\nlost\n\nbase".toList none).outcome =
        .ok [linewiseBase, linewiseBase] := by
    decide +kernel
  have hcollect : ((linkedSurvey none).collect (.ofString "m.scss")).outcome = .ok linkedGraph :=
    collect_linked fun _ _ => rfl
  have hlost : ((linkedSurvey none).collect (.ofString "lost.scss")).outcome =
      .error (.canonicalize (.ofString "lost.scss") .notFound) := by
    have hnone : linkedDisk.canonicalize (.ofString "lost.scss") = .error .notFound := by
      decide +kernel
    rw [collect_of_error hnone]
    rfl
  obtain ⟨hsource, hwalk⟩ := log_accounts
  obtain ⟨hlog, hcount⟩ := hsource _ _ _ _ _ hsearch hchildren
  exact ⟨hsearch, hchildren, hlog, hcount, hcollect, (hwalk _ _).1 _ hcollect, hlost,
    (hwalk _ _).2 _ hlost⟩

end Survey
end SassImports
