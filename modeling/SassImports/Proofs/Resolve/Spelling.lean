/-
  SassImports/Proofs/Resolve/Spelling.lean
  ========================================
  Imports looked for in two directories.  Where both directories answer alike for the candidates of
  a reference, the same candidate is found from both, and what is found lies at the same location
  (`resolveImport_agree`).  They answer alike when they are two spellings of one directory
  (`agreeAt_placeIn`) and when neither has a candidate.  Both searches have to succeed: a spelling
  that takes more links, or more bytes, may fail where the other one does not.
-/
import Mathlib.Data.List.Forall2
import SassImports.Proofs.Disk.Resolution
import SassImports.Proofs.Resolve.FirstMatch

namespace SassImports

variable {d : Disk} {c : Context} {id : FilterId} {s : SearchPath} {p p' : Path}
  {r : Reference} {found : Option Asset}

/-! ### The outcome of a search -/

theorem outcome_firstMatch_cons (directory file : Path) (rest : List (Path × Path)) :
    (firstMatch (.ofDisk d) ((directory, file) :: rest)).outcome =
      match d.exists? file with
      | .ok true => .ok (some (file, Asset.ofFile file directory))
      | .ok false => (firstMatch (.ofDisk d) rest).outcome
      | .error e => .error (.probe file e) := by
  cases h : d.exists? file with
  | error e =>
    have hfails : (Context.ofDisk d).Fails (directory, file) (.probe file e) := .probe h
    rw [firstMatch_of_fails hfails]
  | ok found =>
    cases found with
    | true =>
      have hqualifies : (Context.ofDisk d).Qualifies (directory, file)
          (Asset.ofFile file directory) :=
        ⟨h, [], rfl⟩
      rw [firstMatch_of_qualifies hqualifies]
    | false =>
      have hmisses : (Context.ofDisk d).Misses (directory, file) :=
        Context.misses_iff.2 (Or.inl h)
      rw [firstMatch_of_misses hmisses]

theorem outcome_resolveImport (h : (resolveImport c id s r).outcome = .ok found) :
    ((r.isEmpty = true ∨ Reference.isPlainCss r = true) ∧ found = none) ∨
      (r.isEmpty = false ∧ Reference.isPlainCss r = false ∧
        ∃ first, (firstMatch c (places s.directories (Reference.candidates r))).outcome =
            .ok first ∧ found = first.map fun x => x.2.ensureFilter id) := by
  by_cases hidle : r = [] ∨ Reference.isPlainCss r = true
  · rw [(resolveImport_of_idle c id s hidle).1] at h
    exact Or.inl ⟨hidle.imp_left fun hr => by rw [hr]; rfl, (Except.ok.inj h).symm⟩
  · obtain ⟨hr, hcss⟩ := not_or.1 hidle
    have hcss : Reference.isPlainCss r = false := by simpa using hcss
    rw [outcome_resolveImport_eq s hr hcss] at h
    obtain ⟨first, hfirst, hfound⟩ := Outcome.map_eq_ok_iff.1 h
    exact Or.inr ⟨by simpa using hr, hcss, first, hfirst, hfound.symm⟩

/-- The assets that references stand for are those that they stand for one by one. -/
theorem outcome_resolveImports {references : List Reference} {assets : List Asset}
    (h : (resolveImports c id s references).outcome = .ok assets) :
    (∀ r ∈ references, ∃ found, (resolveImport c id s r).outcome = .ok found) ∧
      ∀ a, a ∈ assets ↔ ∃ r ∈ references, (resolveImport c id s r).outcome = .ok (some a) := by
  induction references generalizing assets with
  | nil =>
    obtain rfl := Except.ok.inj h
    simp
  | cons r references ih =>
    obtain ⟨found, hfound, h⟩ := Traced.outcome_bind_eq_ok_iff.1 h
    obtain ⟨others, hothers, h⟩ := Traced.outcome_bind_eq_ok_iff.1 h
    obtain rfl := Except.ok.inj h
    obtain ⟨hall, hmem⟩ := ih hothers
    refine ⟨List.forall_mem_cons.2 ⟨⟨found, hfound⟩, hall⟩, fun a => ?_⟩
    simp [hfound, hmem]

theorem ofLoadPaths_some (hp : p.text ≠ []) (loadPaths : LoadPaths) :
    SearchPath.ofLoadPaths (some p) loadPaths = ⟨p :: loadPaths.paths⟩ := by
  simp [SearchPath.ofLoadPaths, Option.filter, hp]

theorem outcome_resolveChildren {f : Filter} {source : Text} {assets : List Asset}
    (hp : p.text ≠ []) (h : (resolveChildren c f source (some p)).outcome = .ok assets) :
    (resolveImports c f.id (.ofLoadPaths (some p) f.loadPaths) (c.references source)).outcome =
      .ok assets := by
  unfold resolveChildren at h
  rw [if_neg (by simp [ofLoadPaths_some hp, SearchPath.isEmpty])] at h
  obtain ⟨references, hreferences, h⟩ := Traced.outcome_bind_eq_ok_iff.1 h
  obtain rfl := Except.ok.inj hreferences
  exact h

/-! ### Assets that lie together -/

/-- Where the first asset has a canonical location, the second one has the same. -/
def Disk.Agree (d : Disk) (a b : Asset) : Prop :=
  ∀ l, d.canonicalize a.path = .ok l → d.canonicalize b.path = .ok l

@[simp] theorem path_ensureFilter (a : Asset) (id : FilterId) :
    (a.ensureFilter id).path = a.path := by
  unfold Asset.ensureFilter
  split <;> rfl

/-- If it is known of two places whether a file exists there, it is the same answer, and the
    assets made there agree. -/
def Disk.AgreeAt (d : Disk) (x y : Path × Path) : Prop :=
  ∀ b b', d.exists? x.2 = .ok b → d.exists? y.2 = .ok b' →
    b = b' ∧ (b = true → d.Agree (Asset.ofFile x.2 x.1) (Asset.ofFile y.2 y.1))

theorem agreeAt_refl (x : Path × Path) : d.AgreeAt x x := by
  intro b b' hb hb'
  exact ⟨Except.ok.inj (hb.symm.trans hb'), fun _ l hl => hl⟩

theorem agreeAt_of_absent {x y : Path × Path} (hx : d.exists? x.2 = .ok false)
    (hy : d.exists? y.2 = .ok false) : d.AgreeAt x y := by
  intro b b' hb hb'
  obtain rfl := Except.ok.inj (hx.symm.trans hb)
  obtain rfl := Except.ok.inj (hy.symm.trans hb')
  exact ⟨rfl, fun hfalse => by cases hfalse⟩

theorem isAbsolute_trimStart (t : Text) : (Path.mk (Text.trimStart '/' t)).isAbsolute = false := by
  have := List.head?_dropWhile_not (· = '/') t
  unfold Path.isAbsolute Text.trimStart
  cases h : (t.dropWhile (· = '/')).head? with
  | none => simp
  | some c => simp_all

/-- Two spellings of a directory have the same files in them. -/
theorem agreeAt_placeIn (h : d.SameFile p p') (candidate : Reference) :
    d.AgreeAt (p, placeIn p candidate) (p', placeIn p' candidate) := by
  obtain ⟨l, hp, hp'⟩ := h
  have hresolve := Disk.resolve_of_limit hp
  have hresolve' := Disk.resolve_of_limit hp'
  have hrelative := isAbsolute_trimStart candidate
  intro b b' hb hb'
  have hfile := Disk.resolve_of_exists? hb
  have hfile' := Disk.resolve_of_exists? hb'
  -- a way that runs out of links gives no answer, so neither does
  have hsame : d.resolve none (placeIn p candidate) = d.resolve none (placeIn p' candidate) := by
    refine Disk.resolve_join_congr hresolve hresolve' (fun hloop => ?_) (fun hloop => ?_)
    · rw [placeIn, hloop] at hfile
      cases b <;> simp at hfile
    · rw [placeIn, hloop] at hfile'
      cases b' <;> simp at hfile'
  cases b with
  | true =>
    obtain ⟨k, hk⟩ := hfile
    have hk' := hsame.symm.trans hk
    cases b' with
    | true =>
      refine ⟨rfl, fun _ => ?_⟩
      -- whether the places have a canonical location is the same question, too
      have hcanonical : d.canonicalize (placeIn p candidate) =
          d.canonicalize (placeIn p' candidate) :=
        Disk.resolve_join_congr hp hp' (Disk.canonicalize_ne_filesystemLoop hk)
          (Disk.canonicalize_ne_filesystemLoop hk')
      have hpath := Disk.canonicalize_path_ofFile_join hrelative hk
      have hpath' := Disk.canonicalize_path_ofFile_join hrelative hk'
      intro m hm
      exact (hpath'.trans hcanonical.symm).trans (hpath.symm.trans hm)
    | false => rw [if_neg Bool.false_ne_true, hk'] at hfile'; cases hfile'
  | false =>
    cases b' with
    | true =>
      obtain ⟨k, hk⟩ := hfile'
      rw [if_neg Bool.false_ne_true, hsame, hk] at hfile
      cases hfile
    | false => exact ⟨rfl, fun hfalse => by cases hfalse⟩

/-! ### Searches that agree -/

theorem firstMatch_agree {xs ys : List (Path × Path)} {first first' : Option (Path × Asset)}
    (hxy : List.Forall₂ d.AgreeAt xs ys)
    (h : (firstMatch (.ofDisk d) xs).outcome = .ok first)
    (h' : (firstMatch (.ofDisk d) ys).outcome = .ok first') :
    Option.Rel (fun x y => d.Agree x.2 y.2) first first' := by
  induction hxy with
  | nil =>
    obtain rfl := Except.ok.inj h
    obtain rfl := Except.ok.inj h'
    exact .none
  | @cons x y xs ys hxy _ ih =>
    rw [outcome_firstMatch_cons x.1 x.2] at h
    rw [outcome_firstMatch_cons y.1 y.2] at h'
    cases hb : d.exists? x.2 with
    | error e => rw [hb] at h; cases h
    | ok b =>
      cases hb' : d.exists? y.2 with
      | error e => rw [hb'] at h'; cases h'
      | ok b' =>
        rw [hb] at h
        rw [hb'] at h'
        obtain ⟨rfl, hagree⟩ := hxy b b' hb hb'
        cases b with
        | true =>
          obtain rfl := Except.ok.inj h
          obtain rfl := Except.ok.inj h'
          exact .some (hagree rfl)
        | false => exact ih h h'

/-- A reference for whose candidates two directories answer alike has agreeing assets from both. -/
theorem resolveImport_agree {paths : List Path} {found' : Option Asset}
    (hr : ∀ candidate ∈ Reference.candidates r,
      d.AgreeAt (p, placeIn p candidate) (p', placeIn p' candidate))
    (h : (resolveImport (.ofDisk d) id ⟨p :: paths⟩ r).outcome = .ok found)
    (h' : (resolveImport (.ofDisk d) id ⟨p' :: paths⟩ r).outcome = .ok found') :
    Option.Rel d.Agree found found' := by
  rcases outcome_resolveImport h with ⟨hskip, rfl⟩ | ⟨hempty, hcss, first, hfirst, rfl⟩
  · rcases outcome_resolveImport h' with ⟨-, rfl⟩ | ⟨hempty, hcss, -⟩
    · exact .none
    · simp [hempty, hcss] at hskip
  · rcases outcome_resolveImport h' with ⟨hskip, rfl⟩ | ⟨-, -, first', hfirst', rfl⟩
    · simp [hempty, hcss] at hskip
    · have hplaces : List.Forall₂ d.AgreeAt
          (places (p :: paths) (Reference.candidates r))
          (places (p' :: paths) (Reference.candidates r)) := by
        simp only [places, List.flatMap_cons]
        refine List.rel_append ?_ (List.forall₂_same.2 fun x _ => agreeAt_refl x)
        rw [List.forall₂_map_left_iff, List.forall₂_map_right_iff]
        exact List.forall₂_same.2 hr
      cases firstMatch_agree hplaces hfirst hfirst' with
      | none => exact .none
      | some hagree =>
        refine .some fun l hl => ?_
        rw [path_ensureFilter] at hl ⊢
        exact hagree l hl

end SassImports
