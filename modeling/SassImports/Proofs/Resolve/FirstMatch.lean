/-
  SassImports/Proofs/Resolve/FirstMatch.lean
  ==========================================
  What a search asks, and what it answers.  A place misses, qualifies or fails, and a search is
  decided by the first place that does not miss: all places up to that one are asked, in order, and
  no other one.

    * `firstMatch_of_misses`, `firstMatch_of_qualifies` and `firstMatch_of_fails` are one step each;
    * `outcome_resolveImport_eq`: the outcome of a search is that of its places;
    * `resolveImport_of_misses`, `resolveImport_of_qualifies`, `resolveImport_of_fails`: the three
      ends of a search, each with everything that it asks and reports;
    * `exists_ends`: every search has one of them;
    * `resolveImport_spec`: the same, told apart by the outcome.
-/
import SassImports.Outcome
import SassImports.Resolve

namespace SassImports

/-! ### Failures name their file -/

def Failure.file : Failure → Path
  | .probe file _ | .create file _ | .read file _ | .canonicalize file _ => file

theorem Failure.file_infix_message (e : Failure) : e.file.text <:+: e.message := by
  have hinfix : ∀ before text after cause : Text, text <:+: before ++ text ++ after ++ cause := by
    intro before text after cause
    exact ⟨before, after ++ cause, by rw [← List.append_assoc]⟩
  cases e with
  | probe file error => exact hinfix _ _ _ _
  | create file reason => exact hinfix _ _ _ _
  | read file error => exact hinfix _ _ _ _
  | canonicalize file error => exact hinfix _ _ _ _

/-! ### Three kinds of places -/

namespace Context

/-- A file exists at the place, a directory and a file, and this is the first of its assets. -/
def Qualifies (c : Context) (x : Path × Path) (a : Asset) : Prop :=
  c.probe x.2 = .ok true ∧ ∃ others, c.assets x.2 x.1 = .ok (a :: others)

/-- It cannot be told whether a file exists at the place, or one does and no assets can be made. -/
inductive Fails (c : Context) (x : Path × Path) : Failure → Prop where
  | probe {e : IoError} (error : c.probe x.2 = .error e) : Fails c x (.probe x.2 e)
  | create {reason : Text} (found : c.probe x.2 = .ok true)
      (error : c.assets x.2 x.1 = .error reason) : Fails c x (.create x.2 reason)

/-- The place decides nothing: no file exists there, or it has no assets. -/
def Misses (c : Context) (x : Path × Path) : Prop :=
  (∀ a, ¬c.Qualifies x a) ∧ ∀ e, ¬c.Fails x e

/-- What is asked at the place: for the file, and for its assets if it exists. -/
def asks (c : Context) (x : Path × Path) : List Event :=
  .probed x.2 :: if c.probe x.2 = .ok true then [.created x.2 x.1] else []

variable {c : Context} {x : Path × Path} {a : Asset} {e : Failure}

theorem misses_or_qualifies_or_fails (c : Context) (x : Path × Path) :
    c.Misses x ∨ (∃ a, c.Qualifies x a) ∨ ∃ e, c.Fails x e := by
  by_cases hfails : ∃ e, c.Fails x e
  · exact Or.inr (Or.inr hfails)
  · by_cases hqualifies : ∃ a, c.Qualifies x a
    · exact Or.inr (Or.inl hqualifies)
    · exact Or.inl ⟨not_exists.1 hqualifies, not_exists.1 hfails⟩

theorem misses_iff :
    c.Misses x ↔ c.probe x.2 = .ok false ∨ c.probe x.2 = .ok true ∧ c.assets x.2 x.1 = .ok [] := by
  constructor
  · rintro ⟨hqualifies, hfails⟩
    cases hprobe : c.probe x.2 with
    | error e => exact absurd (.probe hprobe) (hfails _)
    | ok found =>
      cases found with
      | false => exact Or.inl rfl
      | true =>
        cases hassets : c.assets x.2 x.1 with
        | error reason => exact absurd (.create hprobe hassets) (hfails _)
        | ok assets =>
          cases assets with
          | nil => exact Or.inr ⟨rfl, rfl⟩
          | cons a others => exact absurd ⟨hprobe, others, hassets⟩ (hqualifies a)
  · rintro (hprobe | ⟨hprobe, hassets⟩)
    · constructor
      · rintro a ⟨hprobe', -⟩
        cases hprobe.symm.trans hprobe'
      · rintro e (hprobe' | ⟨hprobe', -⟩)
        · cases hprobe.symm.trans hprobe'
        · cases hprobe.symm.trans hprobe'
    · constructor
      · rintro a ⟨-, others, hassets'⟩
        cases hassets.symm.trans hassets'
      · rintro e (hprobe' | ⟨-, hassets'⟩)
        · cases hprobe.symm.trans hprobe'
        · cases hassets.symm.trans hassets'

end Context

theorem Context.Fails.infix_message {c : Context} {x : Path × Path} {e : Failure}
    (h : c.Fails x e) : x.2.text <:+: e.message := by
  have hfile : e.file = x.2 := by
    cases h with
    | probe => rfl
    | create => rfl
  rw [← hfile]
  exact e.file_infix_message

/-! ### One step of a search -/

variable {c : Context} {id : FilterId} {s : SearchPath} {r : Reference} {x : Path × Path}
  {a : Asset} {e : Failure} {before after : List (Path × Path)}

theorem askProbe_of_ok {file : Path} {found : Bool} (h : c.probe file = .ok found) :
    c.askProbe file = ⟨.ok found, [.probed file]⟩ := by
  rw [Context.askProbe, h]
  rfl

theorem askProbe_of_error {file : Path} {error : IoError} (h : c.probe file = .error error) :
    c.askProbe file = ⟨.error (.probe file error), [.probed file]⟩ := by
  rw [Context.askProbe, h]
  rfl

theorem askAssets_of_ok {file directory : Path} {assets : List Asset}
    (h : c.assets file directory = .ok assets) :
    c.askAssets file directory = ⟨.ok assets, [.created file directory]⟩ := by
  rw [Context.askAssets, h]
  rfl

theorem askAssets_of_error {file directory : Path} {reason : Text}
    (h : c.assets file directory = .error reason) :
    c.askAssets file directory = ⟨.error (.create file reason), [.created file directory]⟩ := by
  rw [Context.askAssets, h]
  rfl

theorem firstMatch_of_misses (h : c.Misses x) (rest : List (Path × Path)) :
    firstMatch c (x :: rest) =
      ⟨(firstMatch c rest).outcome, c.asks x ++ (firstMatch c rest).events⟩ := by
  obtain ⟨directory, file⟩ := x
  rcases Context.misses_iff.1 h with hprobe | ⟨hprobe, hassets⟩
  · rw [firstMatch, askProbe_of_ok hprobe, Traced.bind_ok rfl, Context.asks, hprobe]
    rfl
  · rw [firstMatch, askProbe_of_ok hprobe, Traced.bind_ok rfl, if_pos rfl, askAssets_of_ok hassets,
      Traced.bind_ok rfl, Context.asks, if_pos hprobe]
    rfl

theorem firstMatch_of_qualifies (h : c.Qualifies x a) (rest : List (Path × Path)) :
    firstMatch c (x :: rest) = ⟨.ok (some (x.2, a)), c.asks x⟩ := by
  obtain ⟨directory, file⟩ := x
  obtain ⟨hprobe, others, hassets⟩ := h
  rw [firstMatch, askProbe_of_ok hprobe, Traced.bind_ok rfl, if_pos rfl, askAssets_of_ok hassets,
    Traced.bind_ok rfl, Context.asks, if_pos hprobe]
  rfl

theorem firstMatch_of_fails (h : c.Fails x e) (rest : List (Path × Path)) :
    firstMatch c (x :: rest) = ⟨.error e, c.asks x⟩ := by
  obtain ⟨directory, file⟩ := x
  cases h with
  | probe hprobe =>
    rw [firstMatch, askProbe_of_error hprobe, Traced.bind_error rfl, Context.asks, hprobe]
    rfl
  | create hprobe hassets =>
    rw [firstMatch, askProbe_of_ok hprobe, Traced.bind_ok rfl, if_pos rfl,
      askAssets_of_error hassets, Traced.bind_error rfl, Context.asks, if_pos hprobe]
    rfl

/-! ### Whole searches -/

/-- Places that miss are asked, and the search goes on after them. -/
theorem firstMatch_append (h : ∀ y ∈ before, c.Misses y) (rest : List (Path × Path)) :
    firstMatch c (before ++ rest) =
      ⟨(firstMatch c rest).outcome, before.flatMap c.asks ++ (firstMatch c rest).events⟩ := by
  induction before with
  | nil => rfl
  | cons y before ih =>
    obtain ⟨hy, hbefore⟩ := List.forall_mem_cons.1 h
    rw [List.cons_append, firstMatch_of_misses hy, ih hbefore, List.flatMap_cons, List.append_assoc]

/-- Some place is the first that does not miss, unless all of them do. -/
theorem exists_first_or_all_miss (c : Context) (xs : List (Path × Path)) :
    (∀ y ∈ xs, c.Misses y) ∨ ∃ before x after, xs = before ++ x :: after ∧
      (∀ y ∈ before, c.Misses y) ∧ ((∃ a, c.Qualifies x a) ∨ ∃ e, c.Fails x e) := by
  induction xs with
  | nil => exact Or.inl (by simp)
  | cons x xs ih =>
    rcases c.misses_or_qualifies_or_fails x with hx | hx
    · rcases ih with hxs | ⟨before, y, after, rfl, hbefore, hy⟩
      · exact Or.inl (List.forall_mem_cons.2 ⟨hx, hxs⟩)
      · exact Or.inr ⟨x :: before, y, after, rfl, List.forall_mem_cons.2 ⟨hx, hbefore⟩, hy⟩
    · exact Or.inr ⟨[], x, xs, rfl, by simp, hx⟩

/-! ### Imports

A reference that may have a file is searched for at its places. -/

def report (id : FilterId) (s : SearchPath) (r : Reference) :
    Option (Path × Asset) → Traced (Option Asset)
  | some (file, a) => do
    Traced.emit (.noticed (.resolvedImport r file))
    return some (a.ensureFilter id)
  | none => do
    Traced.emit (.noticed (.unresolvedImport r s.size))
    return none

theorem resolveImport_eq (hr : r ≠ []) (hcss : Reference.isPlainCss r = false) :
    resolveImport c id s r =
      firstMatch c (places s.directories (Reference.candidates r)) >>= report id s r := by
  rw [resolveImport, if_neg (by simpa using hr), if_neg (by simp [hcss])]
  rfl

theorem outcome_resolveImport_eq (s : SearchPath) (hr : r ≠ [])
    (hcss : Reference.isPlainCss r = false) :
    (resolveImport c id s r).outcome =
      (firstMatch c (places s.directories (Reference.candidates r))).outcome.map
        (Option.map fun x => x.2.ensureFilter id) := by
  rw [resolveImport_eq hr hcss]
  cases h : (firstMatch c (places s.directories (Reference.candidates r))).outcome with
  | error e => rw [Traced.bind_error h]; rfl
  | ok found => rw [Traced.bind_ok h]; cases found <;> rfl

theorem resolveImport_of_misses (c : Context) (id : FilterId) (hr : r ≠ [])
    (hcss : Reference.isPlainCss r = false)
    (h : ∀ y ∈ places s.directories (Reference.candidates r), c.Misses y) :
    resolveImport c id s r =
      ⟨.ok none, (places s.directories (Reference.candidates r)).flatMap c.asks ++
        [.noticed (.unresolvedImport r s.size)]⟩ := by
  have hnone : firstMatch c (places s.directories (Reference.candidates r)) =
      ⟨.ok none, (places s.directories (Reference.candidates r)).flatMap c.asks⟩ := by
    have hsearch := firstMatch_append h []
    rw [List.append_nil] at hsearch
    simpa [firstMatch] using hsearch
  rw [resolveImport_eq hr hcss, hnone, Traced.bind_ok rfl]
  rfl

theorem resolveImport_of_qualifies (id : FilterId) (hr : r ≠ [])
    (hcss : Reference.isPlainCss r = false)
    (hpairs : places s.directories (Reference.candidates r) = before ++ x :: after)
    (hbefore : ∀ y ∈ before, c.Misses y) (hx : c.Qualifies x a) :
    resolveImport c id s r =
      ⟨.ok (some (a.ensureFilter id)),
        (before ++ [x]).flatMap c.asks ++ [.noticed (.resolvedImport r x.2)]⟩ := by
  rw [resolveImport_eq hr hcss, hpairs, firstMatch_append hbefore, firstMatch_of_qualifies hx,
    Traced.bind_ok rfl, List.flatMap_append, List.flatMap_singleton]
  rfl

theorem resolveImport_of_fails (id : FilterId) (hr : r ≠ [])
    (hcss : Reference.isPlainCss r = false)
    (hpairs : places s.directories (Reference.candidates r) = before ++ x :: after)
    (hbefore : ∀ y ∈ before, c.Misses y) (hx : c.Fails x e) :
    resolveImport c id s r = ⟨.error e, (before ++ [x]).flatMap c.asks⟩ := by
  rw [resolveImport_eq hr hcss, hpairs, firstMatch_append hbefore, firstMatch_of_fails hx,
    Traced.bind_error rfl, List.flatMap_append, List.flatMap_singleton]

/-! ### What was asked -/

/-- The computation asked whether files exist at these places and nowhere else, in this order, and
    for assets just where one does. -/
structure Context.Asked {α : Type} (c : Context) (run : Traced α) (asked : List (Path × Path)) :
    Prop where
  probed : run.probed = asked.map (·.2)
  created : run.created = (asked.filter fun x => c.probe x.2 = .ok true).map Prod.swap

theorem Context.asked_of_events {α : Type} {run : Traced α} {asked : List (Path × Path)}
    (notices : List Notice) (h : run.events = asked.flatMap c.asks ++ notices.map .noticed) :
    c.Asked run asked := by
  have hprobed : (notices.map Event.noticed).filterMap Event.probed? = [] := by
    simp [List.filterMap_map, Function.comp_def, Event.probed?]
  have hcreated : (notices.map Event.noticed).filterMap Event.created? = [] := by
    simp [List.filterMap_map, Function.comp_def, Event.created?]
  constructor
  case probed =>
    rw [Traced.probed, h, List.filterMap_append, hprobed, List.append_nil]
    clear h
    induction asked with
    | nil => rfl
    | cons x asked ih =>
      rw [List.flatMap_cons, List.filterMap_append, ih, Context.asks]
      split <;> rfl
  case created =>
    rw [Traced.created, h, List.filterMap_append, hcreated, List.append_nil]
    clear h
    induction asked with
    | nil => rfl
    | cons x asked ih =>
      rw [List.flatMap_cons, List.filterMap_append, ih, Context.asks]
      by_cases hx : c.probe x.2 = .ok true
      · rw [if_pos hx, List.filter_cons_of_pos (by simpa using hx)]
        rfl
      · rw [if_neg hx, List.filter_cons_of_neg (by simpa using hx)]
        rfl

theorem resolveImport_of_idle (c : Context) (id : FilterId) (s : SearchPath)
    (h : r = [] ∨ Reference.isPlainCss r = true) :
    (resolveImport c id s r).outcome = .ok none ∧ c.Asked (resolveImport c id s r) [] := by
  unfold resolveImport
  split
  · exact ⟨rfl, rfl, rfl⟩
  · next hne =>
    rw [if_pos (h.resolve_left (by simpa using hne))]
    exact ⟨rfl, rfl, rfl⟩

/-! ### The ends of a search -/

/-- A search through these places ends with this outcome, and has asked so many of them. -/
inductive Ends (c : Context) (id : FilterId) (xs : List (Path × Path)) :
    List (Path × Path) → Except Failure (Option Asset) → Prop where
  | nothing (all : ∀ y ∈ xs, c.Misses y) : Ends c id xs xs (.ok none)
  | found {before after : List (Path × Path)} {x : Path × Path} {leaf : Asset}
      (pairs : xs = before ++ x :: after) (misses : ∀ y ∈ before, c.Misses y)
      (qualifies : c.Qualifies x leaf) :
      Ends c id xs (before ++ [x]) (.ok (some (leaf.ensureFilter id)))
  | failed {before after : List (Path × Path)} {x : Path × Path} {e : Failure}
      (pairs : xs = before ++ x :: after) (misses : ∀ y ∈ before, c.Misses y)
      (fails : c.Fails x e) : Ends c id xs (before ++ [x]) (.error e)

theorem Ends.isPrefix {xs asked : List (Path × Path)} {outcome : Except Failure (Option Asset)}
    (h : Ends c id xs asked outcome) : asked <+: xs := by
  cases h with
  | nothing => exact List.prefix_rfl
  | @found before after x _ pairs => exact ⟨after, by rw [pairs, List.append_assoc]; rfl⟩
  | @failed before after x _ pairs => exact ⟨after, by rw [pairs, List.append_assoc]; rfl⟩

theorem exists_ends (c : Context) (id : FilterId) (s : SearchPath) (hr : r ≠ [])
    (hcss : Reference.isPlainCss r = false) :
    ∃ asked, c.Asked (resolveImport c id s r) asked ∧
      Ends c id (places s.directories (Reference.candidates r)) asked
        (resolveImport c id s r).outcome := by
  rcases exists_first_or_all_miss c (places s.directories (Reference.candidates r)) with
    hall | ⟨before, x, after, hpairs, hbefore, ⟨leaf, hx⟩ | ⟨e, hx⟩⟩
  · rw [resolveImport_of_misses c id hr hcss hall]
    exact ⟨_, Context.asked_of_events [.unresolvedImport r s.size] rfl, .nothing hall⟩
  · rw [resolveImport_of_qualifies id hr hcss hpairs hbefore hx]
    exact ⟨_, Context.asked_of_events [.resolvedImport r x.2] rfl, .found hpairs hbefore hx⟩
  · rw [resolveImport_of_fails id hr hcss hpairs hbefore hx]
    exact ⟨_, Context.asked_of_events [] (List.append_nil _).symm, .failed hpairs hbefore hx⟩

/-- **First match in order of preference.**  An empty reference and one to plain CSS stand for
    nothing, and nothing is asked.  For any other reference the places at the beginning of the list
    are asked.  The first place that does not miss is the last one asked: where it qualifies, the
    result is its first asset, tagged with the filter; where it fails, the result is this failure,
    whose text names the file.  If all places miss, all are asked, and the reference stands for
    nothing. -/
theorem resolveImport_spec (c : Context) (id : FilterId) (s : SearchPath) (r : Reference) :
    (r = [] ∨ Reference.isPlainCss r = true →
      (resolveImport c id s r).outcome = .ok none ∧ c.Asked (resolveImport c id s r) []) ∧
    (r ≠ [] → Reference.isPlainCss r = false →
      ∃ asked, asked <+: places s.directories (Reference.candidates r) ∧
        c.Asked (resolveImport c id s r) asked ∧
        (∀ a, (resolveImport c id s r).outcome = .ok (some a) ↔
          ∃ before x after leaf,
            places s.directories (Reference.candidates r) = before ++ x :: after ∧
            (∀ y ∈ before, c.Misses y) ∧ c.Qualifies x leaf ∧ a = leaf.ensureFilter id ∧
            asked = before ++ [x]) ∧
        ((resolveImport c id s r).outcome = .ok none ↔
          asked = places s.directories (Reference.candidates r) ∧ ∀ y ∈ asked, c.Misses y) ∧
        ∀ e, (resolveImport c id s r).outcome = .error e ↔
          ∃ before x after,
            places s.directories (Reference.candidates r) = before ++ x :: after ∧
            (∀ y ∈ before, c.Misses y) ∧ c.Fails x e ∧ x.2.text <:+: e.message ∧
            asked = before ++ [x]) := by
  refine ⟨resolveImport_of_idle c id s, fun hr hcss => ?_⟩
  obtain ⟨asked, hasked, hends⟩ := exists_ends c id s hr hcss
  refine ⟨asked, hends.isPrefix, hasked, fun a => ⟨fun h => ?_, ?_⟩, ⟨fun h => ?_, ?_⟩,
    fun e => ⟨fun h => ?_, ?_⟩⟩
  -- an outcome belongs to one end only
  · rw [h] at hends
    cases hends with
    | found pairs misses qualifies => exact ⟨_, _, _, _, pairs, misses, qualifies, rfl, rfl⟩
  · rintro ⟨before, x, after, leaf, hpairs, hbefore, hx, rfl, -⟩
    rw [resolveImport_of_qualifies id hr hcss hpairs hbefore hx]
  · rw [h] at hends
    cases hends with
    | nothing all => exact ⟨rfl, all⟩
  · rintro ⟨rfl, hall⟩
    rw [resolveImport_of_misses c id hr hcss hall]
  · rw [h] at hends
    cases hends with
    | failed pairs misses fails =>
      exact ⟨_, _, _, pairs, misses, fails, fails.infix_message, rfl⟩
  · rintro ⟨before, x, after, hpairs, hbefore, hx, -, -⟩
    rw [resolveImport_of_fails id hr hcss hpairs hbefore hx]

/-- Two files exist in the second directory, one of them without assets. -/
def navigationContext : Context where
  probe file := .ok (file = .ofString "/b/nav.scss" ∨ file = .ofString "/b/nav.sass")
  assets file directory :=
    if file = .ofString "/b/nav.scss" then .ok [] else .ok [Asset.ofFile file directory]
  references _ := []

def navigationPath : SearchPath := ⟨[.ofString "/a", .ofString "/b"]⟩

theorem resolveImport_spec_navigation :
    (Reference.isPlainCss "nav.css".toList = true ∧
      (resolveImport navigationContext .sassc navigationPath "nav.css".toList).outcome = .ok none ∧
      navigationContext.Asked
        (resolveImport navigationContext .sassc navigationPath "nav.css".toList) []) ∧
    "nav".toList ≠ [] ∧ Reference.isPlainCss "nav".toList = false ∧
      ∃ asked,
        asked <+: places navigationPath.directories (Reference.candidates "nav".toList) ∧
        navigationContext.Asked
          (resolveImport navigationContext .sassc navigationPath "nav".toList) asked ∧
        ∃ before x after leaf,
          places navigationPath.directories (Reference.candidates "nav".toList) =
            before ++ x :: after ∧
          (∀ y ∈ before, navigationContext.Misses y) ∧ navigationContext.Qualifies x leaf ∧
          (Asset.ofPaths (.ofString "/b") (.ofString "nav.sass")).ensureFilter .sassc =
            leaf.ensureFilter .sassc ∧
          asked = before ++ [x] := by
  obtain ⟨hidle, hsearch⟩ :=
    resolveImport_spec navigationContext .sassc navigationPath "nav".toList
  have hcss : Reference.isPlainCss "nav.css".toList = true := by decide
  refine ⟨⟨hcss, (resolveImport_spec _ _ _ _).1 (Or.inr hcss)⟩, by decide, by decide, ?_⟩
  obtain ⟨asked, hprefix, hasked, hmatch, -⟩ := hsearch (by decide) (by decide)
  exact ⟨asked, hprefix, hasked, (hmatch _).1 (by decide)⟩

end SassImports
