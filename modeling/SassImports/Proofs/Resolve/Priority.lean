/-
  SassImports/Proofs/Resolve/Priority.lean
  ========================================
  Directories that are searched later matter only to a search that has found nothing before them.

    * `firstMatch_append_eq`: a search through two lists of places is a search through the first one,
      and then through the second one where nothing was found;
    * `outcome_resolveImport_append`: so further directories count only for an import that is not
      resolved without them;
    * `resolveImport_append`: and for any other import they change nothing of what is asked and
      reported either;
    * `resolveImport_compose`: two search paths one after the other, with all that is asked;
    * `resolveChildren_pushLoadPath`: the same for all imports of a source.
-/
import SassImports.Proofs.Resolve.FirstMatch

namespace SassImports

/-! ### Runs that resolve every import -/

/-- Whether the event is the report of an import without a file. -/
def Event.isUnresolved : Event → Bool
  | .noticed (.unresolvedImport ..) => true
  | _ => false

/-- Every import that the run has searched for was found. -/
def Traced.AllResolved {α : Type} (x : Traced α) : Prop :=
  ∀ e ∈ x.events, e.isUnresolved = false

namespace Traced

variable {α β : Type} {x : Traced α} {f : α → Traced β}

instance (x : Traced α) : Decidable x.AllResolved :=
  inferInstanceAs (Decidable (∀ e ∈ x.events, e.isUnresolved = false))

theorem allResolved_pure (a : α) : (pure a : Traced α).AllResolved := by
  simp [AllResolved]

theorem allResolved_bind_iff :
    (x >>= f).AllResolved ↔ x.AllResolved ∧ ∀ a, x.outcome = .ok a → (f a).AllResolved := by
  cases h : x.outcome with
  | ok a => simp [AllResolved, bind_ok h, or_imp, forall_and]
  | error e => simp [AllResolved, bind_error h]

end Traced

variable {c : Context} {id : FilterId} {r : Reference} {ds es : List Path}

/-! ### One import -/

theorem firstMatch_append_eq (c : Context) (xs ys : List (Path × Path)) :
    firstMatch c (xs ++ ys) =
      firstMatch c xs >>= fun found => found.elim (firstMatch c ys) fun x => pure (some x) := by
  induction xs with
  | nil => exact (pure_bind _ _).symm
  | cons x xs ih =>
    obtain ⟨directory, file⟩ := x
    rw [List.cons_append, firstMatch, firstMatch, bind_assoc]
    congr 1
    funext found
    cases found with
    | false => exact ih
    | true =>
      rw [if_pos rfl, if_pos rfl, bind_assoc]
      congr 1
      funext assets
      cases assets with
      | nil => exact ih
      | cons a others => exact (pure_bind _ _).symm

/-- An import that is not searched for, whatever the directories. -/
theorem resolveImport_idle_eq (c : Context) (id : FilterId) (s s' : SearchPath)
    (h : r = [] ∨ Reference.isPlainCss r = true) :
    resolveImport c id s r = resolveImport c id s' r := by
  unfold resolveImport
  split
  · rfl
  · next hne =>
    have hcss := h.resolve_left (by simpa using hne)
    rw [if_pos hcss, if_pos hcss]

/-- An import that is found, or that fails, is never looked for in further directories. -/
theorem resolveImport_append_of_decided (h : (resolveImport c id ⟨ds⟩ r).outcome ≠ .ok none)
    (es : List Path) : resolveImport c id ⟨ds ++ es⟩ r = resolveImport c id ⟨ds⟩ r := by
  by_cases hidle : r = [] ∨ Reference.isPlainCss r = true
  · exact absurd (resolveImport_of_idle c id ⟨ds⟩ hidle).1 h
  · obtain ⟨hr, hcss⟩ := not_or.1 hidle
    rw [resolveImport_eq hr (by simpa using hcss)] at h ⊢
    rw [resolveImport_eq hr (by simpa using hcss), places_append, firstMatch_append_eq, bind_assoc]
    apply Traced.bind_congr_of_ok
    intro found hfound
    cases found with
    | some x => exact pure_bind _ _
    | none =>
      rw [Traced.bind_ok hfound] at h
      exact absurd rfl h

theorem resolveImport_append (h : (resolveImport c id ⟨ds⟩ r).AllResolved) :
    resolveImport c id ⟨ds ++ es⟩ r = resolveImport c id ⟨ds⟩ r := by
  by_cases hidle : r = [] ∨ Reference.isPlainCss r = true
  · exact resolveImport_idle_eq c id _ _ hidle
  · obtain ⟨hr, hcss⟩ := not_or.1 hidle
    apply resolveImport_append_of_decided
    intro hnone
    rw [resolveImport_eq hr (by simpa using hcss)] at h hnone
    obtain ⟨found, hfound, hreport⟩ := Traced.outcome_bind_eq_ok_iff.1 hnone
    have hresolved := (Traced.allResolved_bind_iff.1 h).2 found hfound
    cases found with
    | some x => cases hreport
    | none =>
      -- the report is that of an import without a file
      have hunresolved := hresolved (.noticed (.unresolvedImport r ds.length)) List.mem_cons_self
      cases hunresolved

/-- An import is looked for in further directories just if nothing is found before them. -/
theorem outcome_resolveImport_append (c : Context) (id : FilterId) (ds es : List Path)
    (r : Reference) :
    (resolveImport c id ⟨ds ++ es⟩ r).outcome =
      if (resolveImport c id ⟨ds⟩ r).outcome = .ok none then (resolveImport c id ⟨es⟩ r).outcome
      else (resolveImport c id ⟨ds⟩ r).outcome := by
  by_cases hidle : r = [] ∨ Reference.isPlainCss r = true
  · have hnone : ∀ s, (resolveImport c id s r).outcome = .ok none := fun s =>
      (resolveImport_of_idle c id s hidle).1
    rw [hnone, hnone, hnone, if_pos rfl]
  · obtain ⟨hr, hcss⟩ := not_or.1 hidle
    have hcss : Reference.isPlainCss r = false := by simpa using hcss
    rw [outcome_resolveImport_eq _ hr hcss, outcome_resolveImport_eq _ hr hcss,
      outcome_resolveImport_eq _ hr hcss, places_append, firstMatch_append_eq]
    cases h : (firstMatch c (places ds (Reference.candidates r))).outcome with
    | error e => rw [Traced.bind_error h]; rfl
    | ok found =>
      rw [Traced.bind_ok h]
      cases found with
      | none => rfl
      | some x => rfl

/-! ### Search paths one after the other -/

theorem outcome_resolveImport_append_eq_none_iff :
    (resolveImport c id ⟨ds ++ es⟩ r).outcome = .ok none ↔
      (resolveImport c id ⟨ds⟩ r).outcome = .ok none ∧
        (resolveImport c id ⟨es⟩ r).outcome = .ok none := by
  rw [outcome_resolveImport_append]
  split
  · next h => exact ⟨fun he => ⟨h, he⟩, And.right⟩
  · next h => exact ⟨fun hd => absurd hd h, fun hd => absurd hd.1 h⟩

/-- A directory that is searched already need not be searched again. -/
theorem outcome_resolveImport_again {d : Path} (hd : d ∈ ds) (es : List Path) :
    (resolveImport c id ⟨ds ++ d :: es⟩ r).outcome =
      (resolveImport c id ⟨ds ++ es⟩ r).outcome := by
  rw [outcome_resolveImport_append, outcome_resolveImport_append c id ds es]
  by_cases hnone : (resolveImport c id ⟨ds⟩ r).outcome = .ok none
  · obtain ⟨before, after, rfl⟩ := List.append_of_mem hd
    -- nothing was found in the directory the first time
    have hdirectory : (resolveImport c id ⟨[d]⟩ r).outcome = .ok none := by
      rw [← List.singleton_append, outcome_resolveImport_append_eq_none_iff,
        outcome_resolveImport_append_eq_none_iff] at hnone
      exact hnone.2.1
    rw [if_pos hnone, if_pos hnone, ← List.singleton_append, outcome_resolveImport_append,
      if_pos hdirectory]
  · rw [if_neg hnone, if_neg hnone]

section Views
variable {β : Type} {view : Event → Option β}

theorem filterMap_events_of_idle (hview : ∀ n, view (.noticed n) = none)
    (h : r = [] ∨ Reference.isPlainCss r = true) (s : SearchPath) :
    (resolveImport c id s r).events.filterMap view = [] := by
  unfold resolveImport
  split
  · rfl
  · next hne =>
    rw [if_pos (h.resolve_left (by simpa using hne))]
    exact List.filterMap_cons_none (hview _)

/-- Reports aside, an import does what its search does. -/
theorem filterMap_events_resolveImport (hview : ∀ n, view (.noticed n) = none) (hr : r ≠ [])
    (hcss : Reference.isPlainCss r = false) (s : SearchPath) :
    (resolveImport c id s r).events.filterMap view =
      (firstMatch c (places s.directories (Reference.candidates r))).events.filterMap view := by
  rw [resolveImport_eq hr hcss]
  cases h : (firstMatch c (places s.directories (Reference.candidates r))).outcome with
  | error e => rw [Traced.bind_error h]
  | ok found =>
    have hreport : (report id s r found).events.filterMap view = [] := by
      cases found with
      | none => exact List.filterMap_cons_none (hview _)
      | some x => exact List.filterMap_cons_none (hview _)
    rw [Traced.bind_ok h, List.filterMap_append, hreport, List.append_nil]

/-- What is asked in further directories is asked after all that is asked before them. -/
theorem filterMap_events_append (hview : ∀ n, view (.noticed n) = none)
    (h : (resolveImport c id ⟨ds⟩ r).outcome = .ok none) (es : List Path) :
    (resolveImport c id ⟨ds ++ es⟩ r).events.filterMap view =
      (resolveImport c id ⟨ds⟩ r).events.filterMap view ++
        (resolveImport c id ⟨es⟩ r).events.filterMap view := by
  by_cases hidle : r = [] ∨ Reference.isPlainCss r = true
  · simp only [filterMap_events_of_idle hview hidle, List.append_nil]
  · obtain ⟨hr, hcss⟩ := not_or.1 hidle
    have hcss : Reference.isPlainCss r = false := by simpa using hcss
    have hnone : (firstMatch c (places ds (Reference.candidates r))).outcome = .ok none := by
      rw [outcome_resolveImport_eq _ hr hcss] at h
      obtain ⟨found, hfound, hasset⟩ := Outcome.map_eq_ok_iff.1 h
      rw [hfound, Option.map_eq_none_iff.1 hasset]
    simp only [filterMap_events_resolveImport hview hr hcss, places_append, firstMatch_append_eq,
      Traced.bind_ok hnone, List.filterMap_append, Option.elim_none]

end Views

/-- **Search paths compose by priority.**  An import that is found or fails in the first directories
    stays the same run, event by event, with any further ones.  One that is not found in them has the
    outcome of the further directories alone, and these are asked after the first ones.  Hence a
    directory may be left out where it comes a second time. -/
theorem resolveImport_compose (c : Context) (id : FilterId) (r : Reference) (ds es : List Path) :
    ((resolveImport c id ⟨ds⟩ r).outcome ≠ .ok none →
      resolveImport c id ⟨ds ++ es⟩ r = resolveImport c id ⟨ds⟩ r) ∧
    ((resolveImport c id ⟨ds⟩ r).outcome = .ok none →
      (resolveImport c id ⟨ds ++ es⟩ r).outcome = (resolveImport c id ⟨es⟩ r).outcome ∧
      (resolveImport c id ⟨ds ++ es⟩ r).probed =
        (resolveImport c id ⟨ds⟩ r).probed ++ (resolveImport c id ⟨es⟩ r).probed ∧
      (resolveImport c id ⟨ds ++ es⟩ r).created =
        (resolveImport c id ⟨ds⟩ r).created ++ (resolveImport c id ⟨es⟩ r).created) ∧
    ∀ d ∈ ds, (resolveImport c id ⟨ds ++ d :: es⟩ r).outcome =
      (resolveImport c id ⟨ds ++ es⟩ r).outcome := by
  refine ⟨fun h => resolveImport_append_of_decided h es, fun h => ⟨?_, ?_, ?_⟩, fun d hd => ?_⟩
  · rw [outcome_resolveImport_append, if_pos h]
  · exact filterMap_events_append (fun _ => rfl) h es
  · exact filterMap_events_append (fun _ => rfl) h es
  · exact outcome_resolveImport_again hd es

/-- The import is found in the second directory and not in the first one. -/
theorem resolveImport_compose_navigation :
    (resolveImport navigationContext .sassc ⟨[.ofString "/b"]⟩ "nav".toList).outcome ≠ .ok none ∧
    resolveImport navigationContext .sassc ⟨[.ofString "/b"] ++ [.ofString "/a"]⟩ "nav".toList =
      resolveImport navigationContext .sassc ⟨[.ofString "/b"]⟩ "nav".toList ∧
    (resolveImport navigationContext .sassc ⟨[.ofString "/a"]⟩ "nav".toList).outcome = .ok none ∧
    ((resolveImport navigationContext .sassc ⟨[.ofString "/a"] ++ [.ofString "/b"]⟩
        "nav".toList).outcome =
        (resolveImport navigationContext .sassc ⟨[.ofString "/b"]⟩ "nav".toList).outcome ∧
      (resolveImport navigationContext .sassc ⟨[.ofString "/a"] ++ [.ofString "/b"]⟩
        "nav".toList).probed =
        (resolveImport navigationContext .sassc ⟨[.ofString "/a"]⟩ "nav".toList).probed ++
          (resolveImport navigationContext .sassc ⟨[.ofString "/b"]⟩ "nav".toList).probed ∧
      (resolveImport navigationContext .sassc ⟨[.ofString "/a"] ++ [.ofString "/b"]⟩
        "nav".toList).created =
        (resolveImport navigationContext .sassc ⟨[.ofString "/a"]⟩ "nav".toList).created ++
          (resolveImport navigationContext .sassc ⟨[.ofString "/b"]⟩ "nav".toList).created) ∧
    .ofString "/a" ∈ [Path.ofString "/a"] ∧
    (resolveImport navigationContext .sassc ⟨[.ofString "/a"] ++ .ofString "/a" :: [.ofString "/b"]⟩
        "nav".toList).outcome =
      (resolveImport navigationContext .sassc ⟨[.ofString "/a"] ++ [.ofString "/b"]⟩
        "nav".toList).outcome := by
  have hfound : (resolveImport navigationContext .sassc ⟨[.ofString "/b"]⟩ "nav".toList).outcome ≠
      .ok none := by
    decide
  have hnone : (resolveImport navigationContext .sassc ⟨[.ofString "/a"]⟩ "nav".toList).outcome =
      .ok none := by
    decide
  have hfirst := resolveImport_compose navigationContext .sassc "nav".toList [.ofString "/b"]
    [.ofString "/a"]
  obtain ⟨-, hsecond, hagain⟩ := resolveImport_compose navigationContext .sassc "nav".toList
    [.ofString "/a"] [.ofString "/b"]
  exact ⟨hfound, hfirst.1 hfound, hnone, hsecond hnone, List.mem_singleton_self _,
    hagain _ (List.mem_singleton_self _)⟩

/-! ### All imports of a source -/

theorem resolveImports_append {rs : List Reference}
    (h : (resolveImports c id ⟨ds⟩ rs).AllResolved) :
    resolveImports c id ⟨ds ++ es⟩ rs = resolveImports c id ⟨ds⟩ rs := by
  induction rs with
  | nil => rfl
  | cons r rs ih =>
    obtain ⟨hfirst, hrest⟩ := Traced.allResolved_bind_iff.1 h
    rw [resolveImports, resolveImports, resolveImport_append hfirst]
    apply Traced.bind_congr_of_ok
    intro found hfound
    rw [ih (Traced.allResolved_bind_iff.1 (hrest found hfound)).1]

theorem ofLoadPaths_push {leading? : Option Path} {l : LoadPaths} (p : Path) :
    SearchPath.ofLoadPaths leading? (l.push p) =
      ⟨(SearchPath.ofLoadPaths leading? l).directories ++ [p]⟩ := by
  simp [SearchPath.ofLoadPaths, LoadPaths.push]

/-- One more load path, searched last.  Where there is nothing to search without it, not even the
    references of a source are asked for. -/
theorem resolveChildren_pushLoadPath {f : Filter} {source : Text} {leading? : Option Path}
    (hsearch : (SearchPath.ofLoadPaths leading? f.loadPaths).isEmpty = false)
    (h : (resolveChildren c f source leading?).AllResolved) (p : Path) :
    resolveChildren c (f.pushLoadPath p) source leading? = resolveChildren c f source leading? := by
  have hsearch' : (SearchPath.ofLoadPaths leading? (f.pushLoadPath p).loadPaths).isEmpty = false := by
    simp [Filter.pushLoadPath, ofLoadPaths_push, SearchPath.isEmpty]
  unfold resolveChildren at h ⊢
  rw [if_neg (ne_true_of_eq_false hsearch)] at h
  rw [if_neg (ne_true_of_eq_false hsearch), if_neg (ne_true_of_eq_false hsearch')]
  apply Traced.bind_congr_of_ok
  intro references hreferences
  rw [Filter.pushLoadPath, ofLoadPaths_push]
  exact resolveImports_append ((Traced.allResolved_bind_iff.1 h).2 references hreferences)

end SassImports
