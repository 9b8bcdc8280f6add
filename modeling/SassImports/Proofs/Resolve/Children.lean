/-
  SassImports/Proofs/Resolve/Children.lean
  ========================================
  The children of a source are the assets of its references, and its run is theirs, one after the
  other, up to the first that fails.

    * `resolveImports_of_ok` and `resolveImports_of_fails`: the references of a list, as far as they
      are resolved;
    * `resolveChildren_of_searched`: the references are extracted once, and first;
    * `resolveChildren_spec`: the children of a source, with everything that is asked for them.
-/
import SassImports.Proofs.Resolve.FirstMatch

namespace SassImports

variable {c : Context} {id : FilterId} {s : SearchPath} {r : Reference} {e : Failure}
  {rs before : List Reference}

/-! ### The references of a list -/

def importEvents (c : Context) (id : FilterId) (s : SearchPath) (rs : List Reference) :
    List Event :=
  rs.flatMap fun r => (resolveImport c id s r).events

theorem resolveImports_cons_of_ok {found : Option Asset}
    (h : (resolveImport c id s r).outcome = .ok found) (rs : List Reference) :
    resolveImports c id s (r :: rs) =
      ⟨(resolveImports c id s rs).outcome.map (found.toList ++ ·),
        (resolveImport c id s r).events ++ (resolveImports c id s rs).events⟩ := by
  rw [resolveImports, Traced.bind_ok h]
  rcases hrest : (resolveImports c id s rs).outcome with e | others
  · rw [Traced.bind_error hrest]
    rfl
  · rw [Traced.bind_ok hrest, Traced.events_pure, List.append_nil]
    rfl

/-- References of which none fails stand for the assets that they stand for one by one. -/
theorem resolveImports_of_ok {asset? : Reference → Option Asset}
    (h : ∀ r ∈ rs, (resolveImport c id s r).outcome = .ok (asset? r)) :
    resolveImports c id s rs = ⟨.ok (rs.filterMap asset?), importEvents c id s rs⟩ := by
  induction rs with
  | nil => rfl
  | cons r rs ih =>
    obtain ⟨hr, hrs⟩ := List.forall_mem_cons.1 h
    rw [resolveImports_cons_of_ok hr, ih hrs]
    have hassets : (asset? r).toList ++ rs.filterMap asset? = (r :: rs).filterMap asset? := by
      cases hfound : asset? r <;> simp [hfound]
    simp only [Except.map, hassets, importEvents, List.flatMap_cons]

/-- The first reference that fails is the last one that is resolved. -/
theorem resolveImports_of_fails
    (hbefore : ∀ q ∈ before, ∃ found, (resolveImport c id s q).outcome = .ok found)
    (h : (resolveImport c id s r).outcome = .error e) (after : List Reference) :
    resolveImports c id s (before ++ r :: after) =
      ⟨.error e, importEvents c id s (before ++ [r])⟩ := by
  induction before with
  | nil =>
    rw [List.nil_append, resolveImports, Traced.bind_error h]
    simp [importEvents]
  | cons q before ih =>
    obtain ⟨⟨found, hq⟩, hbefore⟩ := List.forall_mem_cons.1 hbefore
    rw [List.cons_append, resolveImports_cons_of_ok hq, ih hbefore]
    simp only [Except.map, importEvents, List.cons_append, List.flatMap_cons]

/-! ### The references of a source -/

/-- Whatever becomes of a reference, its run asks at places and then reports. -/
theorem exists_events_resolveImport (c : Context) (id : FilterId) (s : SearchPath)
    (r : Reference) : ∃ (asked : List (Path × Path)) (notices : List Notice),
      (resolveImport c id s r).events = asked.flatMap c.asks ++ notices.map .noticed := by
  by_cases hidle : r = [] ∨ Reference.isPlainCss r = true
  · unfold resolveImport
    split
    · exact ⟨[], [], rfl⟩
    · next hne =>
      rw [if_pos (hidle.resolve_left (by simpa using hne))]
      exact ⟨[], [.skippedPlainCss r], rfl⟩
  · obtain ⟨hr, hcss⟩ := not_or.1 hidle
    have hcss : Reference.isPlainCss r = false := by simpa using hcss
    rcases exists_first_or_all_miss c (places s.directories (Reference.candidates r)) with
      hall | ⟨before, x, after, hplaces, hmiss, ⟨leaf, hx⟩ | ⟨e, hx⟩⟩
    · rw [resolveImport_of_misses c id hr hcss hall]
      exact ⟨_, [.unresolvedImport r s.size], rfl⟩
    · rw [resolveImport_of_qualifies id hr hcss hplaces hmiss hx]
      exact ⟨_, [.resolvedImport r x.2], rfl⟩
    · rw [resolveImport_of_fails id hr hcss hplaces hmiss hx]
      exact ⟨_, [], (List.append_nil _).symm⟩

theorem isReading_of_mem_asks {x : Path × Path} {event : Event} (h : event ∈ c.asks x) :
    event.isReading = false := by
  unfold Context.asks at h
  split at h
  · rcases List.mem_cons.1 h with rfl | h
    · rfl
    · obtain rfl := List.mem_singleton.1 h
      rfl
  · obtain rfl := List.mem_singleton.1 h
    rfl

/-- Resolving an import neither opens a stylesheet nor extracts references. -/
theorem isReading_of_mem_resolveImport {event : Event}
    (h : event ∈ (resolveImport c id s r).events) : event.isReading = false := by
  obtain ⟨asked, notices, hevents⟩ := exists_events_resolveImport c id s r
  rw [hevents] at h
  rcases List.mem_append.1 h with hasked | hnoticed
  · obtain ⟨x, -, hx⟩ := List.mem_flatMap.1 hasked
    exact isReading_of_mem_asks hx
  · obtain ⟨notice, -, rfl⟩ := List.mem_map.1 hnoticed
    rfl

theorem extracted_notMem_resolveImport (c : Context) (id : FilterId) (s : SearchPath)
    (r : Reference) : .extracted ∉ (resolveImport c id s r).events := by
  intro hmem
  cases isReading_of_mem_resolveImport hmem

theorem isReading_of_mem_resolveImports {event : Event}
    (h : event ∈ (resolveImports c id s rs).events) : event.isReading = false := by
  induction rs with
  | nil => cases h
  | cons r rs ih =>
    rcases Traced.mem_events_bind_iff.1 h with h | ⟨found, -, h⟩
    · exact isReading_of_mem_resolveImport h
    · rcases Traced.mem_events_bind_iff.1 h with h | ⟨others, -, h⟩
      · exact ih h
      · cases h

/-- The run extracts references once and asks what these references ask, one after the other. -/
structure Context.Resolves {α : Type} (c : Context) (id : FilterId) (s : SearchPath)
    (run : Traced α) (rs : List Reference) : Prop where
  extractions : run.extractions = 1
  probed : run.probed = rs.flatMap fun r => (resolveImport c id s r).probed
  created : run.created = rs.flatMap fun r => (resolveImport c id s r).created

theorem Context.resolves_of_events {α : Type} {run : Traced α}
    (h : run.events = .extracted :: importEvents c id s rs) : c.Resolves id s run rs := by
  constructor
  case extractions =>
    have hnone : .extracted ∉ importEvents c id s rs := by
      intro hmem
      obtain ⟨r, -, hr⟩ := List.mem_flatMap.1 hmem
      exact extracted_notMem_resolveImport c id s r hr
    rw [Traced.extractions, h, List.count_cons_self, List.count_eq_zero.2 hnone]
  case probed =>
    rw [Traced.probed, h, List.filterMap_cons_none rfl, importEvents, List.filterMap_flatMap]
    rfl
  case created =>
    rw [Traced.created, h, List.filterMap_cons_none rfl, importEvents, List.filterMap_flatMap]
    rfl

/-- Whether there is nothing to search: no leading directory with a text, and no load path. -/
def NothingToSearch (leading? : Option Path) (l : LoadPaths) : Prop :=
  (leading? = none ∨ leading? = some ⟨[]⟩) ∧ l = .empty

theorem isEmpty_ofLoadPaths_iff {leading? : Option Path} {l : LoadPaths} :
    (SearchPath.ofLoadPaths leading? l).isEmpty = true ↔ NothingToSearch leading? l := by
  obtain ⟨paths⟩ := l
  rcases leading? with _ | ⟨_ | ⟨c, text⟩⟩
  · simp [SearchPath.ofLoadPaths, SearchPath.isEmpty, NothingToSearch, LoadPaths.empty]
  · simp [SearchPath.ofLoadPaths, SearchPath.isEmpty, NothingToSearch, LoadPaths.empty,
      Option.filter]
  · simp [SearchPath.ofLoadPaths, SearchPath.isEmpty, NothingToSearch, Option.filter]

theorem resolveChildren_of_nothingToSearch {f : Filter} {leading? : Option Path}
    (h : NothingToSearch leading? f.loadPaths) (c : Context) (source : Text) :
    resolveChildren c f source leading? = ⟨.ok [], []⟩ := by
  unfold resolveChildren
  rw [if_pos (isEmpty_ofLoadPaths_iff.2 h)]
  rfl

theorem resolveChildren_of_searched {f : Filter} {leading? : Option Path}
    (h : ¬NothingToSearch leading? f.loadPaths) (c : Context) (source : Text) :
    resolveChildren c f source leading? =
      ⟨(resolveImports c f.id (.ofLoadPaths leading? f.loadPaths) (c.references source)).outcome,
        .extracted ::
          (resolveImports c f.id (.ofLoadPaths leading? f.loadPaths)
            (c.references source)).events⟩ := by
  unfold resolveChildren
  rw [if_neg (mt isEmpty_ofLoadPaths_iff.1 h)]
  rfl

/-- **The children of a source.**  Where there is nothing to search a source has no children, and
    nothing is asked.  Otherwise references are extracted once.  If none of them fails, the children
    are the assets that they stand for, in their order and with repetitions, and all that is asked
    is what they ask one after the other.  Otherwise the first failure is the result, and nothing is
    asked for a reference behind it. -/
theorem resolveChildren_spec (c : Context) (f : Filter) (source : Text) (leading? : Option Path) :
    (NothingToSearch leading? f.loadPaths →
      resolveChildren c f source leading? = ⟨.ok [], []⟩) ∧
    (¬NothingToSearch leading? f.loadPaths →
      (∀ asset? : Reference → Option Asset,
        (∀ r ∈ c.references source,
          (resolveImport c f.id (.ofLoadPaths leading? f.loadPaths) r).outcome = .ok (asset? r)) →
        (resolveChildren c f source leading?).outcome =
            .ok ((c.references source).filterMap asset?) ∧
          c.Resolves f.id (.ofLoadPaths leading? f.loadPaths)
            (resolveChildren c f source leading?) (c.references source)) ∧
      ∀ before r after e, c.references source = before ++ r :: after →
        (∀ q ∈ before, ∃ found,
          (resolveImport c f.id (.ofLoadPaths leading? f.loadPaths) q).outcome = .ok found) →
        (resolveImport c f.id (.ofLoadPaths leading? f.loadPaths) r).outcome = .error e →
        (resolveChildren c f source leading?).outcome = .error e ∧
          c.Resolves f.id (.ofLoadPaths leading? f.loadPaths)
            (resolveChildren c f source leading?) (before ++ [r])) := by
  constructor
  · intro hnothing
    exact resolveChildren_of_nothingToSearch hnothing c source
  · intro hsearched
    rw [resolveChildren_of_searched hsearched]
    constructor
    · intro asset? hassets
      rw [resolveImports_of_ok hassets]
      exact ⟨rfl, Context.resolves_of_events rfl⟩
    · intro before r after e hreferences hbefore hr
      rw [hreferences, resolveImports_of_fails hbefore hr]
      exact ⟨rfl, Context.resolves_of_events rfl⟩

/-- References stand one on a line; one file exists, and of one it cannot be told. -/
def linewiseContext : Context where
  probe file :=
    if file = .ofString "/a/locked.scss" then .error (.reported .permissionDenied "denied".toList)
    else .ok (file = .ofString "/a/_base.scss")
  assets file directory := .ok [Asset.ofFile file directory]
  references source := source.splitOn '\n'

def linewiseFilter : Filter := .ofLoadPaths ⟨[.ofString "/a"]⟩

def linewisePath : SearchPath := .ofLoadPaths none linewiseFilter.loadPaths

def linewiseAsset? (r : Reference) : Option Asset :=
  if r = "base".toList then
    some ((Asset.ofPaths (.ofString "/a") (.ofString "_base.scss")).ensureFilter .sassc)
  else none

theorem resolveChildren_spec_linewise :
    NothingToSearch (some ⟨[]⟩) .empty ∧
      resolveChildren linewiseContext (.ofLoadPaths .empty) "base".toList (some ⟨[]⟩) =
        ⟨.ok [], []⟩ ∧
    ¬NothingToSearch none linewiseFilter.loadPaths ∧
    (∀ r ∈ linewiseContext.references "base\nlocked.css\nlost\n\nbase".toList,
      (resolveImport linewiseContext .sassc linewisePath r).outcome = .ok (linewiseAsset? r)) ∧
    ((resolveChildren linewiseContext linewiseFilter "base\nlocked.css\nlost\n\nbase".toList
        none).outcome =
        .ok ((linewiseContext.references "base\nlocked.css\nlost\n\nbase".toList).filterMap
          linewiseAsset?) ∧
      linewiseContext.Resolves .sassc linewisePath
        (resolveChildren linewiseContext linewiseFilter "base\nlocked.css\nlost\n\nbase".toList
          none)
        (linewiseContext.references "base\nlocked.css\nlost\n\nbase".toList)) ∧
    (∀ q ∈ ["base".toList, "lost".toList], ∃ found,
      (resolveImport linewiseContext .sassc linewisePath q).outcome = .ok found) ∧
    (resolveImport linewiseContext .sassc linewisePath "locked".toList).outcome =
      .error (.probe (.ofString "/a/locked.scss")
        (.reported .permissionDenied "denied".toList)) ∧
    (resolveChildren linewiseContext linewiseFilter "base\nlost\nlocked\nbase".toList
        none).outcome =
      .error (.probe (.ofString "/a/locked.scss")
        (.reported .permissionDenied "denied".toList)) ∧
    linewiseContext.Resolves .sassc linewisePath
      (resolveChildren linewiseContext linewiseFilter "base\nlost\nlocked\nbase".toList none)
      (["base".toList, "lost".toList] ++ ["locked".toList]) := by
  have hnothing : NothingToSearch (some ⟨[]⟩) .empty := ⟨.inr rfl, rfl⟩
  have hsearched : ¬NothingToSearch none linewiseFilter.loadPaths := by
    rintro ⟨-, hempty⟩
    cases hempty
  have hassets : ∀ r ∈ linewiseContext.references "base\nlocked.css\nlost\n\nbase".toList,
      (resolveImport linewiseContext .sassc linewisePath r).outcome = .ok (linewiseAsset? r) := by
    decide +kernel
  have hbefore : ∀ q ∈ ["base".toList, "lost".toList], ∃ found,
      (resolveImport linewiseContext .sassc linewisePath q).outcome = .ok found := by
    intro q hq
    refine ⟨linewiseAsset? q, hassets q ?_⟩
    revert q
    decide +kernel
  have hlocked : (resolveImport linewiseContext .sassc linewisePath "locked".toList).outcome =
      .error (.probe (.ofString "/a/locked.scss")
        (.reported .permissionDenied "denied".toList)) := rfl
  have hspec := (resolveChildren_spec linewiseContext linewiseFilter
    "base\nlocked.css\nlost\n\nbase".toList none).2 hsearched
  have hspec' := (resolveChildren_spec linewiseContext linewiseFilter
    "base\nlost\nlocked\nbase".toList none).2 hsearched
  exact ⟨hnothing, (resolveChildren_spec linewiseContext (.ofLoadPaths .empty) "base".toList
    (some ⟨[]⟩)).1 hnothing, hsearched, hassets, hspec.1 linewiseAsset? hassets, hbefore, hlocked,
    hspec'.2 ["base".toList, "lost".toList] "locked".toList ["base".toList] _ (by decide +kernel)
      hbefore hlocked⟩

end SassImports
