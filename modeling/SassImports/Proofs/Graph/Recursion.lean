/-
  SassImports/Proofs/Graph/Recursion.lean
  =======================================
  The walk as calls inside one another, and what bounds it.  `Survey.enter` visits one stylesheet:
  it reads the stylesheet and enters every import that was not seen before.  Import cycles, and the
  many spellings of a file below a linked directory, could nest these calls without end; so it is
  given the number of calls that may be inside one another, and is lost where there are too few.

    * `Disk.canonicalLocations`: the canonical locations of all paths, finitely many places;
    * `collectNested_eq`: as many calls as there are places are always enough, and then the
      recursion is the walk, event by event;
    * `reads_explore`: no place is read twice, also in a walk that fails;
    * `collect_ends`: both together, with the number of reads.

  A call marks one more place before it makes calls of its own: the places that are not marked yet
  bound what may still be nested.
-/
import Mathlib.Data.Set.Card
import SassImports.Proofs.Graph.Visit
import SassImports.Proofs.Resolve.Children

namespace SassImports

/-! ### Places -/

/-- The canonical locations of all paths. -/
def Disk.canonicalLocations (d : Disk) : Set Location := {l | ∃ p, d.canonicalize p = .ok l}

/-- Those of them that were not seen yet. -/
def Disk.unvisited (d : Disk) (seen : List Location) : Set Location :=
  {l ∈ d.canonicalLocations | l ∉ seen}

namespace Disk
variable {d : Disk} {seen seen' : List Location} {l : Location} {p : Path}

theorem finite_canonicalLocations (d : Disk) : d.canonicalLocations.Finite := by
  apply Set.Finite.subset (List.finite_toSet d.locations)
  rintro l ⟨p, hp⟩
  exact Disk.mem_locations_of_canonicalize hp

theorem finite_unvisited (d : Disk) (seen : List Location) : (d.unvisited seen).Finite :=
  d.finite_canonicalLocations.subset fun _ hl => hl.1

theorem ncard_unvisited_le (h : seen ⊆ seen') :
    (d.unvisited seen').ncard ≤ (d.unvisited seen).ncard := by
  apply Set.ncard_le_ncard
  · rintro l ⟨hl, hseen⟩
    exact ⟨hl, fun hold => hseen (h hold)⟩
  · exact d.finite_unvisited seen

theorem ncard_unvisited_cons_lt (hp : d.canonicalize p = .ok l) (hl : l ∉ seen) :
    (d.unvisited (l :: seen)).ncard < (d.unvisited seen).ncard := by
  apply Set.ncard_lt_ncard
  · constructor
    · rintro k ⟨hk, hfresh⟩
      exact ⟨hk, fun hold => hfresh (List.mem_cons_of_mem _ hold)⟩
    · intro hsub
      have hboth := hsub ⟨⟨p, hp⟩, hl⟩
      exact hboth.2 List.mem_cons_self
  · exact d.finite_unvisited seen

end Disk

/-! ### Calls inside one another -/

namespace Survey

def visitEach (s : Survey)
    (enter : Asset → List Location → OptionT Traced (Findings × List Location)) :
    List Location → List Asset → OptionT Traced (Findings × List Location)
  | seen, [] => return (.none, seen)
  | seen, a :: rest =>
    match s.disk.canonicalize a.path with
    | .error e => OptionT.lift (.fail (.canonicalize a.path e))
    | .ok l =>
      if seen.contains l then s.visitEach enter seen rest
      else do
        let (below, between) ← enter a (l :: seen)
        let (found, seen') ← s.visitEach enter between rest
        return (below.reach a.path ++ found, seen')

/-- Visits a stylesheet whose location was just marked.  The numbers are those of the calls that may
    be inside one another, this one included, and of the imports between entry and stylesheet. -/
def enter (s : Survey) :
    Nat → Nat → Asset → List Location → OptionT Traced (Findings × List Location)
  | 0, _, _, _ => failure
  | calls + 1, depth, a, seen =>
    if s.stopsAt depth then return (.none, seen)
    else do
      let assets ← OptionT.lift (s.children a depth)
      let (below, seen') ← s.visitEach (s.enter calls (depth + 1)) seen assets
      return (below.connect (.ofAssets a.path assets), seen')

def collectNested (s : Survey) (calls : Nat) (entry : Path) : OptionT Traced Graph := do
  let (found, _) ← s.visitEach (s.enter calls 0) [] [.ofPath entry]
  let files := found.reached.tail
  Traced.emit (.noticed (.collectedDependencies entry files.length))
  return ⟨entry, found.edges, files⟩

end Survey

/-- A step that cannot fail for want of calls, and what follows it where it succeeds. -/
theorem Traced.lift_bind_eq {α β : Type} {x : Traced α} {f : α → OptionT Traced β}
    {g : α → Traced β}
    (h : ∀ a, x.outcome = .ok a → f a = OptionT.lift (g a)) :
    OptionT.lift x >>= f = OptionT.lift (x >>= g) := by
  apply OptionT.ext
  simp only [OptionT.run_bind, OptionT.run_lift, Option.elimM, bind_assoc, pure_bind,
    Option.elim_some]
  apply Traced.bind_congr_of_ok
  intro a ha
  rw [h a ha, OptionT.run_lift]

namespace Survey
variable {s : Survey} {seen : List Location} {assets : List Asset} {depth calls : Nat}
  {entry : Path}

/-! ### Calls and the agenda -/

/-- The run does with the head of an agenda what the walk does with it, and forgets no location. -/
structure Handles (s : Survey) (seen : List Location) (head : List (Asset × Nat))
    (run : Traced (Findings × List Location)) : Prop where
  subset : ∀ r, run.outcome = .ok r → seen ⊆ r.2
  explore : ∀ agenda, s.explore seen (head ++ agenda) =
    run >>= fun r => s.explore r.2 agenda >>= fun found => pure (r.1 ++ found)

theorem handles_nil : s.Handles seen [] (pure (.none, seen)) := by
  constructor
  case subset =>
    intro r hr
    obtain rfl := Except.ok.inj hr
    exact List.Subset.refl seen
  case explore =>
    intro agenda
    rw [pure_bind]
    exact (bind_pure _).symm

/-- One head after the other. -/
theorem Handles.append {head head' : List (Asset × Nat)} {run : Traced (Findings × List Location)}
    {run' : Findings × List Location → Traced (Findings × List Location)}
    (h : s.Handles seen head run) (h' : ∀ r, run.outcome = .ok r → s.Handles r.2 head' (run' r)) :
    s.Handles seen (head ++ head')
      (run >>= fun r => run' r >>= fun r' => pure (r.1 ++ r'.1, r'.2)) := by
  constructor
  case subset =>
    intro last hlast
    obtain ⟨r, hr, hlast⟩ := Traced.outcome_bind_eq_ok_iff.1 hlast
    obtain ⟨r', hr', hlast⟩ := Traced.outcome_bind_eq_ok_iff.1 hlast
    obtain rfl := Except.ok.inj hlast
    exact List.Subset.trans (h.subset r hr) ((h' r hr).subset r' hr')
  case explore =>
    intro agenda
    rw [List.append_assoc, h.explore, bind_assoc]
    apply Traced.bind_congr_of_ok
    intro r hr
    rw [(h' r hr).explore]
    simp only [bind_assoc, pure_bind, Findings.append_assoc]

/-- A stylesheet that is read: its imports are handled before what comes after it. -/
theorem Handles.of_reads {a : Asset} {l : Location}
    {run : List Asset → Traced (Findings × List Location)}
    (hl : s.disk.canonicalize a.path = .ok l) (fresh : l ∉ seen) (near : s.stopsAt depth = false)
    (h : ∀ assets, s.Handles (l :: seen) (assets.map (·, depth + 1)) (run assets)) :
    s.Handles seen [(a, depth)]
      ((s.children a depth >>= fun assets => run assets >>= fun r =>
        pure (r.1.connect (.ofAssets a.path assets), r.2)) >>= fun r =>
          pure (r.1.reach a.path, r.2)) := by
  constructor
  case subset =>
    intro last hlast
    obtain ⟨_, hentered, hlast⟩ := Traced.outcome_bind_eq_ok_iff.1 hlast
    obtain ⟨assets, _, hentered⟩ := Traced.outcome_bind_eq_ok_iff.1 hentered
    obtain ⟨r, hr, hentered⟩ := Traced.outcome_bind_eq_ok_iff.1 hentered
    obtain rfl := Except.ok.inj hentered
    obtain rfl := Except.ok.inj hlast
    exact List.Subset.trans (List.subset_cons_self l seen) ((h assets).subset r hr)
  case explore =>
    intro agenda
    rw [List.singleton_append, explore_of_reads hl fresh near]
    simp only [bind_assoc, pure_bind]
    apply Traced.bind_congr_of_ok
    intro assets _
    rw [(h assets).explore]
    simp only [bind_assoc, pure_bind]
    rfl

/-- If the calls suffice for each new asset, they suffice for a list of assets. -/
theorem exists_visitEach
    {enter : Asset → List Location → OptionT Traced (Findings × List Location)}
    (henter : ∀ seen a l, (s.disk.unvisited seen).ncard ≤ calls →
      s.disk.canonicalize a.path = .ok l → l ∉ seen →
      ∃ run, enter a (l :: seen) = OptionT.lift run ∧
        s.Handles seen [(a, depth)] (run >>= fun r => pure (r.1.reach a.path, r.2)))
    (hcalls : (s.disk.unvisited seen).ncard ≤ calls) :
    ∃ run, s.visitEach enter seen assets = OptionT.lift run ∧
      s.Handles seen (assets.map (·, depth)) run := by
  induction assets generalizing seen with
  | nil => exact ⟨pure (.none, seen), rfl, handles_nil⟩
  | cons a rest ih =>
    cases hl : s.disk.canonicalize a.path with
    | error e =>
      refine ⟨.fail (.canonicalize a.path e), by rw [visitEach, hl], ?_, ?_⟩
      · intro r hr
        cases hr
      · intro agenda
        exact explore_of_error hl
    | ok l =>
      by_cases old : l ∈ seen
      · obtain ⟨run, hrun, hhandles⟩ := ih hcalls
        rw [visitEach, hl]
        dsimp only
        rw [if_pos (by simpa using old)]
        refine ⟨run, hrun, hhandles.subset, ?_⟩
        intro agenda
        rw [List.map_cons, List.cons_append, explore_of_seen hl old]
        exact hhandles.explore agenda
      · rw [visitEach, hl]
        dsimp only
        rw [if_neg (by simpa using old)]
        obtain ⟨run, hrun, hhandles⟩ := henter seen a l hcalls hl old
        have hrest : ∀ r, (run >>= fun r => pure (r.1.reach a.path, r.2)).outcome = .ok r →
            ∃ run', s.visitEach enter r.2 rest = OptionT.lift run' ∧
              s.Handles r.2 (rest.map (·, depth)) run' := by
          intro r hr
          apply ih
          exact Nat.le_trans (Disk.ncard_unvisited_le (hhandles.subset r hr)) hcalls
        choose! run' hrun' hhandles' using hrest
        refine ⟨_, ?_, hhandles.append hhandles'⟩
        rw [hrun, bind_assoc]
        apply Traced.lift_bind_eq
        intro r hr
        have hr' : (run >>= fun r => pure (r.1.reach a.path, r.2)).outcome =
            .ok (r.1.reach a.path, r.2) := by
          rw [Traced.outcome_bind_pure, hr]
          rfl
        obtain ⟨below, between⟩ := r
        rw [pure_bind]
        show s.visitEach enter between rest >>= _ = _
        rw [hrun' _ hr']
        exact Traced.lift_bind_eq fun r' _ => rfl

/-- The calls suffice for an asset if there are as many as places not seen before it. -/
theorem exists_enter {a : Asset} {l : Location} (hcalls : (s.disk.unvisited seen).ncard ≤ calls)
    (hl : s.disk.canonicalize a.path = .ok l) (fresh : l ∉ seen) :
    ∃ run, s.enter calls depth a (l :: seen) = OptionT.lift run ∧
      s.Handles seen [(a, depth)] (run >>= fun r => pure (r.1.reach a.path, r.2)) := by
  have hlt := Disk.ncard_unvisited_cons_lt hl fresh
  induction calls generalizing seen depth a l with
  | zero => omega
  | succ calls ih =>
    unfold enter
    cases hd : s.stopsAt depth with
    | true =>
      refine ⟨pure (.none, l :: seen), rfl, ?_, ?_⟩
      · intro r hr
        obtain rfl := Except.ok.inj hr
        exact List.subset_cons_self l seen
      · intro agenda
        exact explore_of_stops hl fresh hd
    | false =>
      have hinside : ∀ assets, ∃ run,
          s.visitEach (s.enter calls (depth + 1)) (l :: seen) assets = OptionT.lift run ∧
            s.Handles (l :: seen) (assets.map (·, depth + 1)) run := by
        intro assets
        apply exists_visitEach
        · intro seen a l hcalls hl fresh
          exact ih hcalls hl fresh (Disk.ncard_unvisited_cons_lt hl fresh)
        · omega
      choose run hrun hhandles using hinside
      refine ⟨s.children a depth >>= fun assets => run assets >>= fun r =>
        pure (r.1.connect (.ofAssets a.path assets), r.2), ?_, .of_reads hl fresh hd hhandles⟩
      rw [if_neg Bool.false_ne_true]
      apply Traced.lift_bind_eq
      intro assets _
      rw [hrun]
      exact Traced.lift_bind_eq fun r _ => rfl

/-- As many calls inside one another as there are places are enough for any walk. -/
theorem collectNested_eq (s : Survey) (entry : Path) :
    s.collectNested s.disk.canonicalLocations.ncard entry = OptionT.lift (s.collect entry) := by
  have hcalls : (s.disk.unvisited []).ncard ≤ s.disk.canonicalLocations.ncard := by
    simp [Disk.unvisited]
  have hexists : ∃ run, s.visitEach (s.enter s.disk.canonicalLocations.ncard 0) []
      [.ofPaths ⟨[]⟩ entry] = OptionT.lift run ∧ s.Handles [] [(.ofPaths ⟨[]⟩ entry, 0)] run := by
    apply exists_visitEach
    · intro seen a l hcalls hl fresh
      exact exists_enter hcalls hl fresh
    · exact hcalls
  obtain ⟨run, hrun, hhandles⟩ := hexists
  have hexplore : s.explore [] [(.ofPaths ⟨[]⟩ entry, 0)] = run >>= fun r => pure r.1 := by
    have h := hhandles.explore []
    rw [List.append_nil] at h
    simpa [explore_nil] using h
  unfold collectNested collect
  rw [hexplore, bind_assoc]
  show s.visitEach (s.enter s.disk.canonicalLocations.ncard 0) [] [.ofPaths ⟨[]⟩ entry] >>= _ = _
  rw [hrun]
  apply Traced.lift_bind_eq
  intro r _
  rw [pure_bind]
  rfl

/-! ### Reading -/

theorem reads_bind_of_nil {α β : Type} (x : Traced α) {f : α → Traced β}
    (hf : ∀ a, (f a).reads = []) : (x >>= f).reads = x.reads := by
  cases h : x.outcome with
  | ok a =>
    rw [Traced.bind_ok h, Traced.reads, List.filterMap_append]
    exact (congrArg (x.reads ++ ·) (hf a)).trans (List.append_nil _)
  | error e => rw [Traced.bind_error h, Traced.reads, Traced.reads]

theorem reads_ofExcept {α ε : Type} (failure : ε → Failure) (x : Except ε α) :
    (Traced.ofExcept failure x).reads = [] := by
  cases x <;> rfl

theorem reads_children (s : Survey) (a : Asset) (depth : Nat) :
    (s.children a depth).reads = [(a.path, depth)] := by
  rw [children, reads_bind_of_nil]
  · unfold readSource
    rw [reads_bind_of_nil]
    · rfl
    · intro _
      exact reads_ofExcept _ _
  · intro source
    unfold resolveChildren
    dsimp only
    split
    · rfl
    · rw [reads_bind_of_nil]
      · rfl
      · intro references
        exact Traced.reads_eq_nil fun _ he => isReading_of_mem_resolveImports he

/-- The files that are read lie at different places, none of them seen before. -/
theorem reads_explore (seen : List Location) (agenda : List (Asset × Nat)) :
    ∃ ls : List Location, (s.explore seen agenda).reads.map (fun r => s.disk.canonicalize r.1) =
      ls.map .ok ∧ ls.Nodup ∧ ∀ l ∈ ls, l ∉ seen := by
  induction seen, agenda using Survey.explore.induct s with
  | case1 seen => exact ⟨[], by rw [explore_nil]; rfl, List.nodup_nil, by simp⟩
  | case2 seen a depth rest e hl =>
    exact ⟨[], by rw [explore_of_error hl]; rfl, List.nodup_nil, by simp⟩
  | case3 seen a depth rest l hl old ih => rwa [explore_of_seen hl old]
  | case4 seen a depth rest l hl fresh far ih =>
    obtain ⟨ls, hreads, hnodup, hfresh⟩ := ih
    rw [explore_of_stops hl fresh far, reads_bind_of_nil _ fun _ => rfl]
    exact ⟨ls, hreads, hnodup, fun k hk hold => hfresh k hk (List.mem_cons_of_mem _ hold)⟩
  | case5 seen a depth rest l hl fresh near ih =>
    rw [explore_of_reads hl fresh (by simpa using near)]
    cases hassets : (s.children a depth).outcome with
    | error e =>
      refine ⟨[l], ?_, List.nodup_singleton l, by simpa using fresh⟩
      rw [Traced.bind_error hassets]
      show ((s.children a depth).reads.map _) = _
      simp [reads_children, hl]
    | ok assets =>
      obtain ⟨ls, hreads, hnodup, hfresh⟩ := ih assets
      -- the location that is read now is seen during the rest of the walk
      have hl' : l ∉ ls := fun hmem => hfresh l hmem List.mem_cons_self
      refine ⟨l :: ls, ?_, List.nodup_cons.2 ⟨hl', hnodup⟩, ?_⟩
      · rw [Traced.bind_ok hassets]
        show List.map _ (List.filterMap _ (_ ++ _)) = _
        rw [List.filterMap_append]
        show List.map _ ((s.children a depth).reads ++ Traced.reads (_ >>= _)) = _
        rw [reads_children, reads_bind_of_nil _ fun _ => rfl, List.map_append, hreads]
        simp [hl]
      · intro k hk
        rcases List.mem_cons.1 hk with rfl | hk
        · exact fresh
        · exact fun hold => hfresh k hk (List.mem_cons_of_mem _ hold)

theorem reads_collect (s : Survey) (entry : Path) :
    ∃ ls : List Location,
      (s.collect entry).reads.map (fun r => s.disk.canonicalize r.1) = ls.map .ok ∧ ls.Nodup := by
  obtain ⟨ls, hreads, hnodup, -⟩ := @reads_explore s [] [(.ofPath entry, 0)]
  refine ⟨ls, ?_, hnodup⟩
  unfold collect
  rw [reads_bind_of_nil _ fun _ => rfl]
  exact hreads

/-- **The walk ends.**  With as many calls inside one another as there are places on the disk, the
    recursion never runs out of calls and is the walk, with the same outcome and the same events.
    Whether it succeeds or fails, the files that it reads lie at different places, and there are no
    more of them than places. -/
theorem collect_ends (s : Survey) (entry : Path) :
    s.collectNested s.disk.canonicalLocations.ncard entry = OptionT.lift (s.collect entry) ∧
      (∃ ls : List Location,
        (s.collect entry).reads.map (fun r => s.disk.canonicalize r.1) = ls.map .ok ∧ ls.Nodup) ∧
      (s.collect entry).reads.length ≤ s.disk.canonicalLocations.ncard := by
  obtain ⟨ls, hreads, hnodup⟩ := reads_collect s entry
  refine ⟨collectNested_eq s entry, ⟨ls, hreads, hnodup⟩, ?_⟩
  have hlength : (s.collect entry).reads.length = ls.length := by
    simpa using congrArg List.length hreads
  have hsubset : (↑ls.toFinset : Set Location) ⊆ s.disk.canonicalLocations := by
    intro l hl
    have hmem : Except.ok l ∈ ls.map (Except.ok (ε := IoError)) :=
      List.mem_map_of_mem (by simpa using hl)
    rw [← hreads] at hmem
    obtain ⟨r, -, hr⟩ := List.mem_map.1 hmem
    exact ⟨r.1, hr⟩
  rw [hlength, ← List.toFinset_card_of_nodup hnodup, ← Set.ncard_coe_finset]
  exact Set.ncard_le_ncard hsubset s.disk.finite_canonicalLocations

end Survey
end SassImports
