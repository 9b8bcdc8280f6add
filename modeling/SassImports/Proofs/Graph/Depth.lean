/-
  SassImports/Proofs/Graph/Depth.lean
  ===================================
  Walks with a bound on the depth.  What is listed is near enough, but not everything that is near
  enough is listed: a stylesheet that is listed without having been read from its own directory
  hides what it imports (`bounded_graphs_miss_files`).  A file is missing for no other reason
  (`lists_or_skips_of_bound`).
-/
import SassImports.Proofs.Graph.Spelling

namespace SassImports.Survey

variable {s : Survey} {d : Disk} {f : Filter} {bound depth n : Nat} {seen seen' : List Location}
  {assets : List Asset} {found : Findings} {entry : Path} {g : Graph} {a b : Asset}

/-! ### Chains of imports -/

/-- A chain of so many imports leads from the first asset to the second one. -/
inductive Reaches (s : Survey) (a : Asset) : Nat → Asset → Prop where
  | refl : Reaches s a 0 a
  | step {n : Nat} {b c : Asset} {imported : List Asset} (chain : Reaches s a n b)
      (imports : s.Imports b imported) (hc : c ∈ imported) : Reaches s a (n + 1) c

/-- A walk from the graph's entry passes over what the asset imports, although it lists its file.
    It has met the file at the bound as well, or from another directory. -/
structure Skips (s : Survey) (g : Graph) (bound : Nat) (a : Asset) : Prop where
  listed : g.Lists s.disk a.path
  unread : ¬g.ReadsFrom s.disk a
  hides : ∃ imported, s.Imports a imported ∧ ∃ c ∈ imported, ¬g.Lists s.disk c.path
  met : ∃ n ≤ bound, ∃ b, s.Reaches (.ofPath g.entry) n b ∧ s.disk.SameFile b.path a.path ∧
    (n = bound ∨ ¬s.disk.SameFile b.sourceDirectory a.sourceDirectory)

/-! ### Walks with a bound -/

theorem stopsAt_eq_true_iff (hb : s.maxDepth? = some bound) :
    s.stopsAt depth = true ↔ bound ≤ depth := by
  simp [stopsAt, hb]

theorem lt_of_stopsAt_eq_false (hb : s.maxDepth? = some bound) (near : s.stopsAt depth = false) :
    depth < bound := by
  apply Nat.lt_of_not_le
  intro hle
  rw [(stopsAt_eq_true_iff hb).2 hle] at near
  cases near

/-- What is handed on from a stylesheet at some depth to its imports one level further, along the
    edges that are found, comes to every listed file at a depth within the bound, and to every
    stylesheet that was read at a depth below it. -/
theorem Visits.exists_depth {P : Nat → Asset → Prop} {edges : List Edge}
    (h : s.Visits depth seen assets found seen') (hb : s.maxDepth? = some bound)
    (hedges : found.edges ⊆ edges) (hdepth : depth ≤ bound)
    (hstep : ∀ n a imported, P n a → s.Imports a imported → .ofAssets a.path imported ∈ edges →
      ∀ c ∈ imported, P (n + 1) c)
    (ha : ∀ b ∈ assets, P depth b) :
    (∀ p ∈ found.reached, ∃ n ≤ bound, ∃ b, P n b ∧ b.path = p ∧
      (n = bound ∨ ∃ e ∈ found.edges, e.parent = p)) ∧
    ∀ e ∈ found.edges, ∃ n < bound, ∃ b, P n b ∧ b.path = e.parent := by
  induction h with
  | nil => simp
  | again _ _ _ ih => exact ih hedges hdepth (List.forall_mem_cons.1 ha).2
  | stop _ _ far _ ih =>
    obtain ⟨hfirst, hrest⟩ := List.forall_mem_cons.1 ha
    have hbound := Nat.le_antisymm hdepth ((stopsAt_eq_true_iff hb).1 far)
    obtain ⟨hreached, hread⟩ := ih hedges hdepth hrest
    exact ⟨List.forall_mem_cons.2 ⟨⟨_, hdepth, _, hfirst, rfl, Or.inl hbound⟩, hreached⟩, hread⟩
  | @read depth _ _ _ b _ imported below found _ _ _ near imports _ _ inside after =>
    obtain ⟨hfirst, hrest⟩ := List.forall_mem_cons.1 ha
    have hlt := lt_of_stopsAt_eq_false hb near
    obtain ⟨hedge, hedges⟩ := List.cons_subset.1 hedges
    obtain ⟨hbelow, hfound⟩ := List.append_subset.1 hedges
    obtain ⟨hreached, hread⟩ := inside hbelow hlt (hstep depth b imported hfirst imports hedge)
    obtain ⟨hreached', hread'⟩ := after hfound hdepth hrest
    constructor
    · refine List.forall_mem_cons.2 ⟨⟨depth, hdepth, b, hfirst, rfl, Or.inr ?_⟩, fun p hp => ?_⟩
      · exact ⟨_, List.mem_cons_self, rfl⟩
      · rcases List.mem_append.1 hp with hp | hp
        · obtain ⟨n, hn, c, hc, rfl, hcase⟩ := hreached p hp
          exact ⟨n, hn, c, hc, rfl, hcase.imp_right fun ⟨e, he, heq⟩ => ⟨e, by simp [he], heq⟩⟩
        · obtain ⟨n, hn, c, hc, rfl, hcase⟩ := hreached' p hp
          exact ⟨n, hn, c, hc, rfl, hcase.imp_right fun ⟨e, he, heq⟩ => ⟨e, by simp [he], heq⟩⟩
    · refine List.forall_mem_cons.2 ⟨⟨depth, hlt, b, hfirst, rfl⟩, fun e he => ?_⟩
      exact (List.mem_append.1 he).elim (hread e) (hread' e)

/-- A listed file is the end of a chain of imports no longer than the bound, and it was read unless
    the chain is as long as the bound. -/
theorem Visits.exists_reaches (h : s.Visits depth seen assets found seen')
    (hb : s.maxDepth? = some bound) (hdepth : depth ≤ bound)
    (ha : ∀ b ∈ assets, s.Reaches a depth b) :
    ∀ p ∈ found.reached, ∃ n ≤ bound, ∃ b, s.Reaches a n b ∧ b.path = p ∧
      (n = bound ∨ ∃ e ∈ found.edges, e.parent = p) := by
  refine (h.exists_depth hb (List.Subset.refl _) hdepth ?_ ha).1
  intro n b imported hb himports _ c hc
  exact .step hb himports hc

theorem entry_eq_of_collect (h : (s.collect entry).outcome = .ok g) : g.entry = entry := by
  obtain ⟨_, _, h⟩ := Traced.outcome_bind_eq_ok_iff.1 h
  obtain ⟨_, _, h⟩ := Traced.outcome_bind_eq_ok_iff.1 h
  obtain rfl := Except.ok.inj h
  rfl

theorem lists_entry (h : (s.collect entry).outcome = .ok g) : g.Lists s.disk g.entry := by
  obtain ⟨found, seen, hv, -, hreached⟩ := exists_visits_of_collect h
  obtain ⟨l, hl, hentry⟩ := hv.exists_mem_seen (.ofPath entry) (by simp)
  rw [Asset.path_ofPath, ← entry_eq_of_collect h] at hentry
  exact ⟨g.entry, by simp [Graph.rerunPaths], l, hentry, hentry⟩

theorem exists_reaches_of_mem_rerunPaths (hb : s.maxDepth? = some bound)
    (h : (s.collect entry).outcome = .ok g) :
    ∀ p ∈ g.rerunPaths, ∃ n ≤ bound, ∃ a, s.Reaches (.ofPath g.entry) n a ∧ a.path = p ∧
      (n = bound ∨ ∃ e ∈ g.edges, e.parent = p) := by
  obtain ⟨found, seen, hv, hedges, hreached⟩ := exists_visits_of_collect h
  rw [← hedges, ← hreached, entry_eq_of_collect h]
  refine hv.exists_reaches hb (Nat.zero_le _) fun b hb => ?_
  rw [List.mem_singleton.1 hb]
  exact .refl

theorem skips_of_not_lists {imported : List Asset} {c : Asset}
    (h : ((ofDisk d f (some bound)).collect entry).outcome = .ok g) (ha : g.Lists d a.path)
    (himports : (ofDisk d f (some bound)).Imports a imported) (hc : c ∈ imported)
    (hlists : ¬g.Lists d c.path) : (ofDisk d f (some bound)).Skips g bound a := by
  have hread : ¬g.ReadsFrom d a := fun hread => hlists (lists_of_readsFrom h hread himports c hc)
  refine ⟨ha, hread, ⟨imported, himports, c, hc, hlists⟩, ?_⟩
  -- the spelling that is listed was met at the bound or was read, if not from this directory
  obtain ⟨p, hp, hsame⟩ := ha
  obtain ⟨n, hn, b, hb, rfl, hcase⟩ := exists_reaches_of_mem_rerunPaths rfl h p hp
  refine ⟨n, hn, b, hb, hsame.symm, hcase.imp_right ?_⟩
  rintro ⟨e, he, heq⟩ hdirectory
  apply hread
  refine ⟨e, he, heq ▸ hsame.symm, ?_⟩
  rwa [Asset.sourceDirectory_eq ((Asset.path_ofPath _).trans heq)]

theorem Reaches.lists_or_skips (h : ((ofDisk d f (some bound)).collect entry).outcome = .ok g)
    (hchain : (ofDisk d f (some bound)).Reaches (.ofPath g.entry) n a) :
    g.Lists d a.path ∨ ∃ m < n, ∃ b, (ofDisk d f (some bound)).Reaches (.ofPath g.entry) m b ∧
      (ofDisk d f (some bound)).Skips g bound b ∧
      (ofDisk d f (some bound)).Reaches b (n - m) a := by
  induction hchain with
  | refl =>
    rw [Asset.path_ofPath]
    exact Or.inl (lists_entry h)
  | @step n b c imported chain imports hc ih =>
    rcases ih with hb | ⟨m, hm, b', hb', hskips, hrest⟩
    · by_cases hlists : g.Lists d c.path
      · exact Or.inl hlists
      · refine Or.inr ⟨n, n.lt_succ_self, b, chain, skips_of_not_lists h hb imports hc hlists, ?_⟩
        rw [Nat.add_sub_cancel_left]
        exact .step .refl imports hc
    · refine Or.inr ⟨m, Nat.lt_succ_of_lt hm, b', hb', hskips, ?_⟩
      rw [Nat.succ_sub (Nat.le_of_lt hm)]
      exact .step hrest imports hc

/-- **Walks with a bound.**  Every listed file ends a chain of imports no longer than the bound, and
    one that was not read ends a chain as long as the bound.  The end of any chain no longer than the
    bound is listed, unless the chain leads through a stylesheet that was skipped. -/
theorem lists_or_skips_of_bound
    (h : ((ofDisk d f (some bound)).collect entry).outcome = .ok g) :
    (∀ p ∈ g.rerunPaths, ∃ n ≤ bound, ∃ a,
      (ofDisk d f (some bound)).Reaches (.ofPath g.entry) n a ∧ a.path = p ∧
        (n = bound ∨ ∃ e ∈ g.edges, e.parent = p)) ∧
      ∀ n ≤ bound, ∀ a, (ofDisk d f (some bound)).Reaches (.ofPath g.entry) n a →
        g.Lists d a.path ∨ ∃ m < n, ∃ b,
          (ofDisk d f (some bound)).Reaches (.ofPath g.entry) m b ∧
            (ofDisk d f (some bound)).Skips g bound b ∧
            (ofDisk d f (some bound)).Reaches b (n - m) a :=
  ⟨exists_reaches_of_mem_rerunPaths rfl h, fun _ _ _ hchain => hchain.lists_or_skips h⟩

/-! ### A file on two chains -/

/-- `b.scss` is imported by the entry itself and by `a.scss`, which comes before it. -/
def diamondDisk : Disk where
  entries :=
    [(["m.scss".toList], .file (.text "@import 'a', 'b';".toList)),
      (["a.scss".toList], .file (.text "@import 'b';".toList)),
      (["b.scss".toList], .file (.text "@import 'c';".toList)),
      (["c.scss".toList], .file (.text []))]
  workingDirectory := []

def diamondSurvey : Survey := .ofDisk diamondDisk (.ofLoadPaths .empty) (some 2)

def diamondGraph : Graph where
  entry := .ofString "m.scss"
  edges :=
    [.ofAssets (.ofString "m.scss") [foundIn "." "a.scss", foundIn "." "b.scss"],
      .ofAssets (.ofString "./a.scss") [foundIn "." "b.scss"]]
  files := [.ofString "./a.scss", .ofString "./b.scss"]

set_option maxRecDepth 10000 in
theorem imports_diamond_entry : diamondSurvey.Imports (.ofPath (.ofString "m.scss"))
    [foundIn "." "a.scss", foundIn "." "b.scss"] := by
  decide +kernel

set_option maxRecDepth 10000 in
theorem collect_diamond :
    (diamondSurvey.collect (.ofString "m.scss")).outcome = .ok diamondGraph := by
  have ha : diamondSurvey.Imports (foundIn "." "a.scss") [foundIn "." "b.scss"] := by
    decide +kernel
  -- `b.scss` is met at the bound below `a.scss`, and then again below the entry
  have hfar : diamondSurvey.Visits 2 [["a.scss".toList], ["m.scss".toList]]
      [foundIn "." "b.scss"] (.reach (foundIn "." "b.scss").path .none)
      [["b.scss".toList], ["a.scss".toList], ["m.scss".toList]] :=
    .stop (l := ["b.scss".toList]) (by decide +kernel) (by decide) rfl .nil
  have hagain : diamondSurvey.Visits 1 [["b.scss".toList], ["a.scss".toList], ["m.scss".toList]]
      [foundIn "." "b.scss"] .none [["b.scss".toList], ["a.scss".toList], ["m.scss".toList]] :=
    .again (l := ["b.scss".toList]) (by decide +kernel) (by decide) .nil
  have hvisits := Visits.read (by decide +kernel) (by decide) rfl imports_diamond_entry
    (.read (by decide +kernel) (by decide) rfl ha hfar hagain) .nil
  exact hvisits.outcome_collect

theorem reaches_diamond_end : diamondSurvey.Reaches (.ofPath (.ofString "m.scss")) 2
    (foundIn "." "c.scss") := by
  have hb : diamondSurvey.Imports (foundIn "." "b.scss") [foundIn "." "c.scss"] := by
    decide +kernel
  exact .step (.step .refl imports_diamond_entry (by simp)) hb (by simp)

theorem lists_or_skips_diamond :
    (diamondSurvey.collect (.ofString "m.scss")).outcome = .ok diamondGraph ∧
      .ofString "./b.scss" ∈ diamondGraph.rerunPaths ∧
      (∃ n ≤ 2, ∃ a, diamondSurvey.Reaches (.ofPath (.ofString "m.scss")) n a ∧
        a.path = .ofString "./b.scss" ∧
          (n = 2 ∨ ∃ e ∈ diamondGraph.edges, e.parent = .ofString "./b.scss")) ∧
      diamondSurvey.Reaches (.ofPath (.ofString "m.scss")) 2 (foundIn "." "c.scss") ∧
      (diamondGraph.Lists diamondDisk (foundIn "." "c.scss").path ∨
        ∃ m < 2, ∃ b, diamondSurvey.Reaches (.ofPath (.ofString "m.scss")) m b ∧
          diamondSurvey.Skips diamondGraph 2 b ∧
          diamondSurvey.Reaches b (2 - m) (foundIn "." "c.scss")) := by
  have hmem : .ofString "./b.scss" ∈ diamondGraph.rerunPaths := by decide
  obtain ⟨hlisted, hreached⟩ := lists_or_skips_of_bound collect_diamond
  exact ⟨collect_diamond, hmem, hlisted _ hmem, reaches_diamond_end,
    hreached 2 (Nat.le_refl 2) _ reaches_diamond_end⟩

set_option maxRecDepth 10000 in
theorem bounded_graphs_miss_files :
    (((linkedSurvey (some 3)).collect (.ofString "m.scss")).outcome = .ok linkedGraph ∧
      (linkedSurvey (some 3)).Reaches (.ofPath (.ofString "m.scss")) 2 (foundIn "./b" "y.scss") ∧
      ¬linkedGraph.Lists linkedDisk (foundIn "./b" "y.scss").path) ∧
    (diamondSurvey.collect (.ofString "m.scss")).outcome = .ok diamondGraph ∧
      diamondSurvey.Reaches (.ofPath (.ofString "m.scss")) 2 (foundIn "." "c.scss") ∧
      ¬diamondGraph.Lists diamondDisk (foundIn "." "c.scss").path := by
  refine ⟨⟨?_, ?_, by decide +kernel⟩, collect_diamond, reaches_diamond_end, by decide +kernel⟩
  · exact collect_linked (by decide)
  · have hm : (linkedSurvey (some 3)).Imports (.ofPath (.ofString "m.scss"))
        [foundIn "." "a/x.scss", foundIn "." "a/z.scss", foundIn "." "b/x.scss"] := by
      decide +kernel
    have hx : (linkedSurvey (some 3)).Imports (foundIn "." "b/x.scss") [foundIn "./b" "y.scss"] := by
      decide +kernel
    exact .step (.step .refl hm (by simp)) hx (by simp)

end SassImports.Survey
