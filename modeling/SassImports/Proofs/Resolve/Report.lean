/-
  SassImports/Proofs/Resolve/Report.lean
  ======================================
  What the log says of imports.  A reference that is resolved without a failure is reported once,
  unless it is empty: as plain CSS, as found at a file or as found nowhere.

    * `Reported`: what one reference adds to the children of its source and to the log;
    * `Log`: the same for the references of a source, one after the other;
    * `reported_of_ok` and `log_of_ok`: this is what a search adds, and a list of searches;
    * `notices_of_error`: a search that fails reports nothing.
-/
import SassImports.Proofs.Resolve.OnDisk

namespace SassImports

variable {c : Context} {id : FilterId} {s : SearchPath} {r : Reference} {rs : List Reference}
  {asset? : Option Asset} {assets : List Asset} {log : List Notice} {e : Failure} {n : Notice}

/-! ### Reports of a run -/

namespace Traced

variable {α β : Type} {x : Traced α} {f : α → Traced β}

theorem notices_bind_of_ok {a : α} (h : x.outcome = .ok a) :
    (x >>= f).notices = x.notices ++ (f a).notices := by
  rw [bind_ok h]
  exact List.filterMap_append

theorem notices_bind_of_error (h : x.outcome = .error e) : (x >>= f).notices = x.notices := by
  rw [bind_error h]
  rfl

theorem notices_bind_pure {g : α → β} : (x >>= fun a => pure (g a)).notices = x.notices := by
  cases h : x.outcome with
  | ok a => exact (notices_bind_of_ok h).trans (List.append_nil _)
  | error e => exact notices_bind_of_error h

theorem mem_notices_bind_iff :
    n ∈ (x >>= f).notices ↔ n ∈ x.notices ∨ ∃ a, x.outcome = .ok a ∧ n ∈ (f a).notices := by
  cases h : x.outcome with
  | ok a => simp [notices_bind_of_ok h]
  | error e => simp [notices_bind_of_error h]

end Traced

/-! ### One reference -/

/-- At this place, a directory and a file, the search for the reference ends, and this is the first
    of the assets there. -/
def Context.Finds (c : Context) (s : SearchPath) (r : Reference) (x : Path × Path)
    (leaf : Asset) : Prop :=
  ∃ before after, places s.directories (Reference.candidates r) = before ++ x :: after ∧
    (∀ y ∈ before, c.Misses y) ∧ c.Qualifies x leaf

/-- What a reference adds to the children and to the log. -/
inductive Reported (c : Context) (id : FilterId) (s : SearchPath) :
    Reference → Option Asset → List Notice → Prop where
  | empty : Reported c id s [] none []
  | plainCss {r : Reference} (css : ['.', 'c', 's', 's'] <:+ r) :
      Reported c id s r none [.skippedPlainCss r]
  | resolved {r : Reference} {x : Path × Path} {leaf : Asset} (named : r ≠ [])
      (sass : ¬['.', 'c', 's', 's'] <:+ r) (found : c.Finds s r x leaf) :
      Reported c id s r (some (leaf.ensureFilter id)) [.resolvedImport r x.2]
  | unresolved {r : Reference} (named : r ≠ []) (sass : ¬['.', 'c', 's', 's'] <:+ r)
      (missing : ∀ x ∈ places s.directories (Reference.candidates r), c.Misses x) :
      Reported c id s r none [.unresolvedImport r s.size]

theorem Reported.exists_finds {b : Asset} (h : Reported c id s r (some b) log) :
    ∃ x leaf, c.Finds s r x leaf ∧ b = leaf.ensureFilter id := by
  cases h with
  | @resolved _ x leaf named sass found => exact ⟨x, leaf, found, rfl⟩

/-- Asking at places is not reported. -/
theorem Traced.notices_of_events {α : Type} {run : Traced α} {asked : List (Path × Path)}
    (notices : List Notice) (h : run.events = asked.flatMap c.asks ++ notices.map .noticed) :
    run.notices = notices := by
  have hasks : ∀ x, (c.asks x).filterMap Event.notice? = [] := by
    intro x
    unfold Context.asks
    split <;> rfl
  have hnotices : (notices.map Event.noticed).filterMap Event.notice? = notices := by
    simp [List.filterMap_map, Function.comp_def, Event.notice?]
  rw [Traced.notices, h, List.filterMap_append, hnotices, List.filterMap_flatMap,
    List.flatMap_congr fun x _ => hasks x]
  simp

theorem reported_of_ok (h : (resolveImport c id s r).outcome = .ok asset?) :
    Reported c id s r asset? (resolveImport c id s r).notices := by
  by_cases hempty : r = []
  · subst hempty
    cases h
    exact .empty
  by_cases hcss : Reference.isPlainCss r = true
  · have hidle : resolveImport c id s r = ⟨.ok none, [.noticed (.skippedPlainCss r)]⟩ := by
      unfold resolveImport
      rw [if_neg (by simpa using hempty), if_pos hcss]
      rfl
    rw [hidle] at h ⊢
    cases h
    exact .plainCss (Reference.isPlainCss_iff.1 hcss)
  · have hsass : ¬['.', 'c', 's', 's'] <:+ r := mt Reference.isPlainCss_iff.2 hcss
    have hcss : Reference.isPlainCss r = false := by simpa using hcss
    rcases exists_first_or_all_miss c (places s.directories (Reference.candidates r)) with
      hall | ⟨before, x, after, hplaces, hmiss, ⟨leaf, hx⟩ | ⟨e, hx⟩⟩
    · rw [resolveImport_of_misses c id hempty hcss hall] at h ⊢
      cases h
      rw [Traced.notices_of_events [.unresolvedImport r s.size] rfl]
      exact .unresolved hempty hsass hall
    · rw [resolveImport_of_qualifies id hempty hcss hplaces hmiss hx] at h ⊢
      cases h
      rw [Traced.notices_of_events [.resolvedImport r x.2] rfl]
      exact .resolved hempty hsass ⟨before, after, hplaces, hmiss, hx⟩
    · rw [resolveImport_of_fails id hempty hcss hplaces hmiss hx] at h
      cases h

theorem notices_of_error (h : (resolveImport c id s r).outcome = .error e) :
    (resolveImport c id s r).notices = [] := by
  obtain ⟨hr, hcss, before, x, after, hplaces, hmiss, hx⟩ := outcome_eq_error_iff.1 h
  rw [resolveImport_of_fails id hr hcss hplaces hmiss hx]
  exact Traced.notices_of_events [] (List.append_nil _).symm

/-! ### The references of a source -/

/-- What references add to the children and to the log, one after the other. -/
inductive Log (c : Context) (id : FilterId) (s : SearchPath) :
    List Reference → List Asset → List Notice → Prop where
  | nil : Log c id s [] [] []
  | cons {r : Reference} {rs : List Reference} {asset? : Option Asset} {assets : List Asset}
      {notices log : List Notice} (first : Reported c id s r asset? notices)
      (rest : Log c id s rs assets log) :
      Log c id s (r :: rs) (asset?.toList ++ assets) (notices ++ log)

theorem log_of_ok (h : (resolveImports c id s rs).outcome = .ok assets) :
    Log c id s rs assets (resolveImports c id s rs).notices := by
  induction rs generalizing assets with
  | nil =>
    cases h
    exact .nil
  | cons r rs ih =>
    obtain ⟨asset?, hfirst, h⟩ := Traced.outcome_bind_eq_ok_iff.1 h
    obtain ⟨others, hrest, h⟩ := Traced.outcome_bind_eq_ok_iff.1 h
    cases h
    rw [resolveImports, Traced.notices_bind_of_ok hfirst, Traced.notices_bind_pure]
    exact .cons (reported_of_ok hfirst) (ih hrest)

def Notice.isResolved : Notice → Bool
  | .resolvedImport .. => true
  | _ => false

theorem Reported.countP_isResolved (h : Reported c id s r asset? log) :
    log.countP Notice.isResolved = asset?.toList.length := by
  cases h <;> rfl

/-- As many references are reported as resolved as there are children. -/
theorem Log.countP_isResolved (h : Log c id s rs assets log) :
    log.countP Notice.isResolved = assets.length := by
  induction h with
  | nil => rfl
  | cons first _ ih => rw [List.countP_append, List.length_append, first.countP_isResolved, ih]

/-! ### The end of a walk

What the resolving of references adds to the log is never the report at the end of a walk. -/

def Notice.isFinal : Notice → Bool
  | .collectedDependencies .. => true
  | _ => false

theorem Reported.isFinal (h : Reported c id s r asset? log) (hn : n ∈ log) :
    n.isFinal = false := by
  cases h with
  | empty => cases hn
  | _ =>
    obtain rfl := List.mem_singleton.1 hn
    rfl

theorem isFinal_of_mem_resolveImport (h : n ∈ (resolveImport c id s r).notices) :
    n.isFinal = false := by
  cases houtcome : (resolveImport c id s r).outcome with
  | error e =>
    rw [notices_of_error houtcome] at h
    cases h
  | ok asset? => exact (reported_of_ok houtcome).isFinal h

theorem isFinal_of_mem_resolveImports (h : n ∈ (resolveImports c id s rs).notices) :
    n.isFinal = false := by
  induction rs with
  | nil => cases h
  | cons r rs ih =>
    rcases Traced.mem_notices_bind_iff.1 h with h | ⟨asset?, -, h⟩
    · exact isFinal_of_mem_resolveImport h
    · rw [Traced.notices_bind_pure] at h
      exact ih h

end SassImports
