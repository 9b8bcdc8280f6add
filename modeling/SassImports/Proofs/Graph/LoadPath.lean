/-
  SassImports/Proofs/Graph/LoadPath.lean
  ======================================
  One more load path, searched after all others.  A walk on which every import is resolved never comes
  to it: each search ends before, each stylesheet has the same imports, and so the walk takes the
  same way.

    * `children_pushLoadPath` and `explore_pushLoadPath`: one stylesheet, and a whole agenda;
    * `collect_pushLoadPath`: the graph, and everything that is asked and reported on the way.
-/
import SassImports.Proofs.Graph.Closure
import SassImports.Proofs.Resolve.Priority

namespace SassImports.Survey

def pushLoadPath (s : Survey) (p : Path) : Survey := { s with filter := s.filter.pushLoadPath p }

variable {s : Survey} {a : Asset} {depth : Nat} {seen : List Location}
  {agenda : List (Asset × Nat)} {entry : Path}

/-- A stylesheet has a directory of its own, so that its imports are searched for in any case. -/
theorem children_pushLoadPath (h : (s.children a depth).AllResolved) (p : Path) :
    (s.pushLoadPath p).children a depth = s.children a depth := by
  have hsearch : (SearchPath.ofLoadPaths (some a.sourceDirectory) s.filter.loadPaths).isEmpty =
      false := by
    simp [SearchPath.ofLoadPaths, SearchPath.isEmpty, Option.filter,
      a.text_sourceDirectory_ne_nil]
  apply Traced.bind_congr_of_ok
  intro source hsource
  exact resolveChildren_pushLoadPath hsearch ((Traced.allResolved_bind_iff.1 h).2 source hsource) p

theorem explore_pushLoadPath (h : (s.explore seen agenda).AllResolved) (p : Path) :
    (s.pushLoadPath p).explore seen agenda = s.explore seen agenda := by
  induction seen, agenda using Survey.explore.induct s with
  | case1 seen => rw [explore_nil, explore_nil]
  | case2 seen a depth rest e hl =>
    have hl' : (s.pushLoadPath p).disk.canonicalize a.path = .error e := hl
    rw [explore_of_error hl, explore_of_error hl']
  | case3 seen a depth rest l hl old ih =>
    have hl' : (s.pushLoadPath p).disk.canonicalize a.path = .ok l := hl
    rw [explore_of_seen hl old] at h ⊢
    rw [explore_of_seen hl' old, ih h]
  | case4 seen a depth rest l hl fresh far ih =>
    have hl' : (s.pushLoadPath p).disk.canonicalize a.path = .ok l := hl
    have far' : (s.pushLoadPath p).stopsAt depth = true := far
    rw [explore_of_stops hl fresh far] at h ⊢
    rw [explore_of_stops hl' fresh far', ih (Traced.allResolved_bind_iff.1 h).1]
  | case5 seen a depth rest l hl fresh near ih =>
    have hl' : (s.pushLoadPath p).disk.canonicalize a.path = .ok l := hl
    have near : s.stopsAt depth = false := by simpa using near
    have near' : (s.pushLoadPath p).stopsAt depth = false := near
    rw [explore_of_reads hl fresh near] at h ⊢
    rw [explore_of_reads hl' fresh near']
    obtain ⟨hchildren, hrest⟩ := Traced.allResolved_bind_iff.1 h
    rw [children_pushLoadPath hchildren]
    -- the imports are the same, and so is what is visited after the stylesheet
    apply Traced.bind_congr_of_ok
    intro assets hassets
    rw [ih assets (Traced.allResolved_bind_iff.1 (hrest assets hassets)).1]

/-- **A load path of lower priority.**  If every import of a walk is resolved, one more load path
    changes nothing: the walk finds the same graph, or fails in the same way, and everything that it
    asks and reports on the way is the same. -/
theorem collect_pushLoadPath (h : (s.collect entry).AllResolved) (p : Path) :
    (s.pushLoadPath p).collect entry = s.collect entry := by
  unfold collect at h ⊢
  rw [explore_pushLoadPath (Traced.allResolved_bind_iff.1 h).1]

/-! ### A file that hides another one -/

theorem allResolved_explore_of_reads {assets : List Asset} {l : Location}
    (hl : s.disk.canonicalize a.path = .ok l) (fresh : l ∉ seen) (near : s.stopsAt depth = false)
    (hassets : (s.children a depth).outcome = .ok assets)
    (hresolved : (s.children a depth).AllResolved)
    (hrest : (s.explore (l :: seen) (assets.map (·, depth + 1) ++ agenda)).AllResolved) :
    (s.explore seen ((a, depth) :: agenda)).AllResolved := by
  rw [explore_of_reads hl fresh near]
  refine Traced.allResolved_bind_iff.2 ⟨hresolved, fun assets' hassets' => ?_⟩
  obtain rfl := Except.ok.inj (hassets.symm.trans hassets')
  exact Traced.allResolved_bind_iff.2 ⟨hrest, fun _ _ => Traced.allResolved_pure _⟩

/-- Two files have the same name; one of them lies beside the entry, which imports it. -/
def namesakeDisk : Disk where
  entries :=
    [(["m.scss".toList], .file (.text "@import 'a', 'b.css';".toList)),
      (["a.scss".toList], .file (.text [])),
      (["vendor".toList], .directory),
      (["a.scss".toList, "vendor".toList], .file (.text []))]
  workingDirectory := []

def namesakeSurvey : Survey := .ofDisk namesakeDisk (.ofLoadPaths .empty) none

set_option maxRecDepth 10000 in
theorem allResolved_namesake : (namesakeSurvey.collect (.ofString "m.scss")).AllResolved := by
  have locate_m : namesakeSurvey.disk.canonicalize (Asset.ofPath (.ofString "m.scss")).path =
      .ok ["m.scss".toList] := by
    decide +kernel
  have locate_a : namesakeSurvey.disk.canonicalize (foundIn "." "a.scss").path =
      .ok ["a.scss".toList] := by
    decide +kernel
  have children_m : (namesakeSurvey.children (.ofPath (.ofString "m.scss")) 0).outcome =
      .ok [foundIn "." "a.scss"] := by
    decide +kernel
  have children_a : (namesakeSurvey.children (foundIn "." "a.scss") 1).outcome = .ok [] := by
    decide +kernel
  have visit_a : (namesakeSurvey.explore [["m.scss".toList]]
      [(foundIn "." "a.scss", 1)]).AllResolved := by
    apply allResolved_explore_of_reads locate_a (by decide) rfl children_a (by decide +kernel)
    rw [List.map_nil, List.nil_append, explore_nil]
    exact Traced.allResolved_pure _
  have visit_m : (namesakeSurvey.explore [] [(.ofPath (.ofString "m.scss"), 0)]).AllResolved :=
    allResolved_explore_of_reads locate_m List.not_mem_nil rfl children_m (by decide +kernel)
      visit_a
  refine Traced.allResolved_bind_iff.2 ⟨visit_m, fun found _ => ?_⟩
  exact Traced.allResolved_bind_iff.2
    ⟨by simp [Traced.AllResolved, Traced.emit, Event.isUnresolved], fun _ _ => Traced.allResolved_pure _⟩

theorem collect_pushLoadPath_namesake :
    (namesakeSurvey.collect (.ofString "m.scss")).AllResolved ∧
      (namesakeSurvey.pushLoadPath (.ofString "vendor")).collect (.ofString "m.scss") =
        namesakeSurvey.collect (.ofString "m.scss") :=
  ⟨allResolved_namesake, collect_pushLoadPath allResolved_namesake _⟩

end SassImports.Survey
