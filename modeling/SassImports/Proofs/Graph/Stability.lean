/-
  SassImports/Proofs/Graph/Stability.lean
  =======================================
  A graph names everything that it depends on.  A walk may look anywhere on the disk for candidates,
  but the only files whose text it sees are those that it lists.  So another text in any other file
  changes nothing: not the graph, and not even what is asked on the way.

    * `explore_onDisk`: two walks go in step as long as the files that they read hold the same;
    * `collect_stable`: hence the paths of `rerunPaths` are all that has to be watched.
-/
import SassImports.Proofs.Disk.Shape
import SassImports.Proofs.Graph.Closure

namespace SassImports

/-- A disk answers alike for the existence of files, whatever they hold. -/
theorem Disk.SameShape.ofDisk_eq {d d' : Disk} (h : d.SameShape d') :
    Context.ofDisk d = Context.ofDisk d' := by
  have hprobe : d.exists? = d'.exists? := by
    funext p
    exact h.exists?_eq p
  unfold Context.ofDisk
  rw [hprobe]

namespace Survey

def onDisk (s : Survey) (d : Disk) : Survey := { s with disk := d }

variable {s : Survey} {d : Disk} {seen : List Location} {agenda : List (Asset × Nat)}
  {found : Findings} {entry : Path} {g : Graph}

theorem children_onDisk {a : Asset} (hread : s.disk.read a.path = d.read a.path) (depth : Nat) :
    (s.onDisk d).children a depth = s.children a depth := by
  unfold children readSource
  show Traced.andThen (Traced.andThen _ fun _ => Traced.ofExcept _ (d.read a.path)) _ = _
  rw [← hread]
  rfl

theorem explore_onDisk (hshape : s.disk.SameShape d)
    (h : (s.explore seen agenda).outcome = .ok found)
    (hsame : ∀ p ∈ found.reached, ∀ l, s.disk.canonicalize p = .ok l →
      s.disk.entry? l = d.entry? l) :
    (s.onDisk d).explore seen agenda = s.explore seen agenda := by
  induction seen, agenda using Survey.explore.induct s generalizing found with
  | case1 seen => rw [explore_nil, explore_nil]
  | case2 seen a depth rest e hl => rw [explore_of_error hl] at h; cases h
  | case3 seen a depth rest l hl old ih =>
    have hl' : (s.onDisk d).disk.canonicalize a.path = .ok l :=
      (hshape.canonicalize_eq _).symm.trans hl
    rw [explore_of_seen hl old] at h ⊢
    rw [explore_of_seen hl' old]
    exact ih h hsame
  | case4 seen a depth rest l hl fresh far ih =>
    have hl' : (s.onDisk d).disk.canonicalize a.path = .ok l :=
      (hshape.canonicalize_eq _).symm.trans hl
    rw [explore_of_stops hl fresh far] at h ⊢
    rw [explore_of_stops hl' fresh far]
    rw [Traced.outcome_bind_pure] at h
    obtain ⟨found, hfound, rfl⟩ := Outcome.map_eq_ok_iff.1 h
    rw [ih hfound fun p hp => hsame p (List.mem_cons_of_mem _ hp)]
  | case5 seen a depth rest l hl fresh near ih =>
    have hl' : (s.onDisk d).disk.canonicalize a.path = .ok l :=
      (hshape.canonicalize_eq _).symm.trans hl
    have near : s.stopsAt depth = false := by simpa using near
    rw [explore_of_reads hl fresh near] at h ⊢
    rw [explore_of_reads hl' fresh near]
    obtain ⟨assets, hassets, h⟩ := Traced.outcome_bind_eq_ok_iff.1 h
    rw [Traced.outcome_bind_pure] at h
    obtain ⟨found, hfound, rfl⟩ := Outcome.map_eq_ok_iff.1 h
    -- the file that is read now is listed, so that it holds the same on both disks
    have hread : s.disk.read a.path = d.read a.path :=
      hshape.read_eq (Disk.resolve_of_limit hl) (hsame a.path List.mem_cons_self l hl)
    rw [children_onDisk hread, Traced.bind_ok hassets, Traced.bind_ok hassets]
    rw [ih assets hfound fun p hp => hsame p (List.mem_cons_of_mem _ hp)]

/-! ### Graphs -/

theorem collect_onDisk (hshape : s.disk.SameShape d) (h : (s.collect entry).outcome = .ok g)
    (hsame : ∀ p ∈ g.rerunPaths, ∀ l, s.disk.canonicalize p = .ok l →
      s.disk.entry? l = d.entry? l) :
    (s.onDisk d).collect entry = s.collect entry := by
  obtain ⟨found, seen, hv, -, hreached⟩ := exists_visits_of_collect h
  have hexplore : (s.onDisk d).explore [] [(.ofPath entry, 0)] =
      s.explore [] [(.ofPath entry, 0)] := by
    apply explore_onDisk hshape hv.outcome_explore_map
    rw [hreached]
    exact hsame
  unfold collect
  change ((s.onDisk d).explore [] [(.ofPath entry, 0)] >>= _) = _
  rw [hexplore]
  rfl

/-- **What has to be watched.**  Two disks differ in what some files hold, and none of these files
    is listed in the graph that a walk finds on the first disk.  Then the walk on the second disk
    finds this graph as well, asks the same on the way and reports the same.  The context may look
    at the disk, but not at what files hold. -/
theorem collect_stable {d' : Disk} {context : Disk → Context} {f : Filter}
    {maxDepth? : Option Nat} (hcontext : ∀ d d', d.SameShape d' → context d = context d')
    (hshape : d.SameShape d')
    (h : ((Survey.mk d (context d) f maxDepth?).collect entry).outcome = .ok g)
    (hunlisted : ∀ l, d.entry? l ≠ d'.entry? l → ∀ p ∈ g.rerunPaths, d.canonicalize p ≠ .ok l) :
    ((Survey.mk d' (context d') f maxDepth?).collect entry).outcome = .ok g ∧
      ((Survey.mk d' (context d') f maxDepth?).collect entry).events =
        ((Survey.mk d (context d) f maxDepth?).collect entry).events := by
  have hcollect : (Survey.mk d' (context d') f maxDepth?).collect entry =
      (Survey.mk d (context d) f maxDepth?).collect entry := by
    rw [← hcontext d d' hshape]
    apply collect_onDisk hshape h
    intro p hp l hl
    apply Decidable.byContradiction
    intro hne
    exact hunlisted l hne p hp hl
  rw [hcollect]
  exact ⟨h, rfl⟩

/-- The disk of `linkedDisk` with a file that its graph does not list overwritten. -/
def overwrittenDisk : Disk where
  entries := linkedDisk.entries.map fun (l, e) =>
    (l, if l = ["y.scss".toList, "b".toList] then .file .binary else e)
  workingDirectory := []

set_option maxRecDepth 10000 in
theorem collect_stable_overwritten :
    linkedDisk.SameShape overwrittenDisk ∧
      linkedDisk.entry? ["y.scss".toList, "b".toList] ≠
        overwrittenDisk.entry? ["y.scss".toList, "b".toList] ∧
      ((linkedSurvey none).collect (.ofString "m.scss")).outcome = .ok linkedGraph ∧
      (∀ l, linkedDisk.entry? l ≠ overwrittenDisk.entry? l →
        ∀ p ∈ linkedGraph.rerunPaths, linkedDisk.canonicalize p ≠ .ok l) ∧
      ((Survey.ofDisk overwrittenDisk (.ofLoadPaths .empty) none).collect
        (.ofString "m.scss")).outcome = .ok linkedGraph ∧
      ((Survey.ofDisk overwrittenDisk (.ofLoadPaths .empty) none).collect
        (.ofString "m.scss")).events =
          ((linkedSurvey none).collect (.ofString "m.scss")).events := by
  have hshape : linkedDisk.SameShape overwrittenDisk :=
    Disk.sameShape_of_map_emptied rfl (by decide +kernel)
  have hunlisted : ∀ l, linkedDisk.entry? l ≠ overwrittenDisk.entry? l →
      ∀ p ∈ linkedGraph.rerunPaths, linkedDisk.canonicalize p ≠ .ok l := by
    have hsame : ∀ p ∈ linkedGraph.rerunPaths, ((linkedDisk.canonicalize p).toOption.all fun l =>
        linkedDisk.entry? l = overwrittenDisk.entry? l) = true := by
      decide +kernel
    intro l hne p hp hl
    have hpl := hsame p hp
    rw [hl] at hpl
    exact hne (of_decide_eq_true hpl)
  have hcollect : ((linkedSurvey none).collect (.ofString "m.scss")).outcome = .ok linkedGraph :=
    collect_linked fun _ _ => rfl
  exact ⟨hshape, by decide +kernel, hcollect, hunlisted,
    collect_stable (fun _ _ h => h.ofDisk_eq) hshape hcollect hunlisted⟩

end Survey
end SassImports
