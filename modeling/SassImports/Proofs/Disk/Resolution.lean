/-
  SassImports/Proofs/Disk/Resolution.lean
  =======================================
  Where paths lead, and when two of them lead to the same file.

    * `canonicalize_of_resolve`: a path that leads somewhere has a canonical location, unless a place
      on the way has an absolute path that is too long;
    * `resolve_join_congr`: two spellings of one directory lead to the same places below it, unless
      one of the ways runs out of links;
    * `resolve_path_ofFile_join`: the asset for a file lies where the file does;
    * `read_unique`: two spellings of one file have the same text.
-/
import SassImports.Proofs.Disk.Follow

namespace SassImports.Disk

variable {d : Disk} {limit? : Option Nat} {links : Nat} {here l : Location} {p p' q : Path}

/-! ### Where paths lead -/

theorem resolve_eq_follow (hnul : '\x00' ∉ p.text) (hne : p.text ≠ []) :
    d.resolve limit? p =
      d.follow limit? maxLinks (startOf p.text d.workingDirectory) p.pieces := by
  rw [resolve, if_neg hnul, if_neg hne]
  rfl

theorem resolve_eq_ok_iff :
    d.resolve limit? p = .ok l ↔ '\x00' ∉ p.text ∧ p.text ≠ [] ∧
      d.follow limit? maxLinks (startOf p.text d.workingDirectory) p.pieces = .ok l := by
  constructor
  · intro h
    unfold resolve at h
    split at h
    · cases h
    · next hnul =>
      split at h
      · cases h
      · next hne => exact ⟨hnul, hne, h⟩
  · rintro ⟨hnul, hne, h⟩
    rw [resolve_eq_follow hnul hne, h]

theorem resolve_of_limit (h : d.resolve limit? p = .ok l) :
    d.resolve none p = .ok l := by
  obtain ⟨hnul, hne, hfollow⟩ := resolve_eq_ok_iff.1 h
  exact resolve_eq_ok_iff.2 ⟨hnul, hne, follow_of_limit hfollow⟩

/-- A path that leads somewhere has a canonical location, unless it comes to a place whose absolute
    path is too long. -/
theorem canonicalize_of_resolve (h : d.resolve none p = .ok l) :
    d.canonicalize p = .ok l ∨
      d.canonicalize p = .error .invalidFilename ∧ d.Exceeds pathLimit := by
  obtain ⟨hnul, hne, hfollow⟩ := resolve_eq_ok_iff.1 h
  rw [canonicalize, resolve_eq_follow hnul hne]
  exact follow_within hfollow

theorem canonicalize_ne_filesystemLoop (h : d.resolve none p = .ok l) :
    d.canonicalize p ≠ .error .filesystemLoop := by
  rcases canonicalize_of_resolve h with hl | ⟨hlong, -⟩
  · rw [hl]
    simp
  · rw [hlong]
    simp

theorem startOf_append {t : Text} (ht : t ≠ []) (t' : Text) (here : Location) :
    startOf (t ++ t') here = startOf t here := by
  obtain ⟨c, t, rfl⟩ := List.exists_cons_of_ne_nil ht
  rfl

theorem follow_innerPieces (h : d.follow limit? links here p.pieces = .ok l) :
    d.follow limit? links here p.innerPieces = .ok l := by
  rcases p.pieces_eq_innerPieces with hp | hp
  · rwa [← hp]
  · rw [hp] at h
    have hempty : Path.Thins [] [[]] := .drop rfl .nil
    have hthin := (Path.Thins.refl p.innerPieces).append hempty
    rw [List.append_nil] at hthin
    exact follow_of_thins hthin h

/-- Below a directory a path goes on from the directory's location. -/
theorem resolve_join (h : d.resolve limit? p = .ok l) (hq : q.isAbsolute = false)
    (hnul : '\x00' ∉ q.text) :
    ∃ left ≤ maxLinks, d.resolve limit? (p.join q) = d.follow limit? left l q.pieces := by
  obtain ⟨hnul', hne, hfollow⟩ := resolve_eq_ok_iff.1 h
  obtain ⟨left, hleft, hgo⟩ := follow_append (follow_innerPieces hfollow) q.pieces
  refine ⟨left, hleft, ?_⟩
  have htext := Path.join_of_relative hne hq
  have hjoin : '\x00' ∉ (p.join q).text := by
    rw [htext]
    split <;> simp [hnul, hnul']
  have hjoin' : (p.join q).text ≠ [] := by
    rw [htext]
    simp [hne]
  have hstart : startOf (p.join q).text d.workingDirectory =
      startOf p.text d.workingDirectory := by
    rw [htext, List.append_assoc, startOf_append hne]
  rw [← hgo, resolve_eq_follow hjoin hjoin', hstart, ← Path.pieces_join hne hq]

/-- Two spellings of one directory lead to the same places below it, or one of the ways runs out of
    links. -/
theorem resolve_join_congr (h : d.resolve limit? p = .ok l)
    (h' : d.resolve limit? p' = .ok l)
    (hloop : d.resolve limit? (p.join q) ≠ .error .filesystemLoop)
    (hloop' : d.resolve limit? (p'.join q) ≠ .error .filesystemLoop) :
    d.resolve limit? (p.join q) = d.resolve limit? (p'.join q) := by
  cases hq : q.isAbsolute with
  | true => rw [Path.join_of_absolute hq, Path.join_of_absolute hq]
  | false =>
    by_cases hnul : '\x00' ∈ q.text
    · have hjoin : ∀ {p : Path}, p.text ≠ [] →
          d.resolve limit? (p.join q) = .error .nulInPath := fun hne => by
        rw [resolve, if_pos]
        rw [Path.join_of_relative hne hq]
        simp [hnul]
      rw [hjoin (resolve_eq_ok_iff.1 h).2.1, hjoin (resolve_eq_ok_iff.1 h').2.1]
    · obtain ⟨left, -, hgo⟩ := resolve_join h hq hnul
      obtain ⟨left', -, hgo'⟩ := resolve_join h' hq hnul
      rw [hgo] at hloop ⊢
      rw [hgo'] at hloop' ⊢
      exact follow_congr hloop hloop'

/-- The asset for a file in a directory leads to where the file does, with any limit. -/
theorem resolve_path_ofFile (hp : p.text ≠ []) (hq : q.isAbsolute = false)
    (h : d.resolve none (p.join q) = .ok l) :
    d.resolve limit? (Asset.ofFile (p.join q) p).path = d.resolve limit? (p.join q) := by
  obtain ⟨hnul, hne, hfollow⟩ := resolve_eq_ok_iff.1 h
  rw [Path.path_ofFile_join hp hq]
  have htext := Path.join_of_relative hp hq
  have htext' := Path.join_of_relative hp q.isAbsolute_trimmed
  have hnul' : '\x00' ∉ (p.join q.trimmed).text := by
    rw [htext] at hnul
    rw [htext']
    intro hmem
    apply hnul
    rcases List.mem_append.1 hmem with hmem | hmem
    · exact List.mem_append_left _ hmem
    · rcases Path.mem_of_mem_trimmed hmem with hslash | hmem
      · cases hslash
      · exact List.mem_append_right _ hmem
  have hne' : (p.join q.trimmed).text ≠ [] := by
    rw [htext']
    simp [hp]
  rw [resolve_eq_follow hnul' hne', resolve_eq_follow hnul hne]
  rw [htext, List.append_assoc, startOf_append hp, Path.pieces_join hp hq] at hfollow ⊢
  rw [htext', List.append_assoc, startOf_append hp, Path.pieces_join hp q.isAbsolute_trimmed]
  exact follow_thins ((Path.Thins.refl _).append q.thins_trimmed) hfollow

theorem resolve_path_ofFile_of_empty (hq : q.isAbsolute = false)
    (h : d.resolve none q = .ok l) :
    d.resolve limit? (Asset.ofFile q ⟨[]⟩).path = d.resolve limit? q := by
  obtain ⟨hnul, hne, hfollow⟩ := resolve_eq_ok_iff.1 h
  have hidles := Path.idlesOn_endTrimmed hne hq
  rw [Path.path_ofFile_of_empty]
  obtain ⟨w, htext⟩ : ∃ w, q.text = q.endTrimmed.text ++ w := by
    rcases hidles with htext | ⟨v, htext, -⟩
    · exact ⟨[], by rw [List.append_nil, ← htext]⟩
    · exact ⟨_, htext⟩
  have hne' : q.endTrimmed.text ≠ [] := by
    intro hnil
    rw [hnil] at hidles
    rcases hidles with htext | ⟨v, htext, -⟩
    · exact hne htext
    · simp [Path.isAbsolute, htext] at hq
  have hnul' : '\x00' ∉ q.endTrimmed.text := by
    intro hmem
    apply hnul
    rw [htext]
    exact List.mem_append_left _ hmem
  have hstart := startOf_append hne' w d.workingDirectory
  rw [← htext] at hstart
  rw [resolve_eq_follow hnul' hne', resolve_eq_follow hnul hne, ← hstart]
  exact follow_thins hidles.thins hfollow

theorem resolve_path_ofFile_join (hq : q.isAbsolute = false)
    (h : d.resolve none (p.join q) = .ok l) :
    d.resolve limit? (Asset.ofFile (p.join q) p).path = d.resolve limit? (p.join q) := by
  by_cases hp : p.text = []
  · have hempty : p.join q = q := by simp [Path.join, hp]
    obtain rfl : p = ⟨[]⟩ := by
      cases p
      simpa using hp
    rw [hempty] at h ⊢
    exact resolve_path_ofFile_of_empty hq h
  · exact resolve_path_ofFile hp hq h

theorem canonicalize_path_ofFile_join (hq : q.isAbsolute = false)
    (h : d.resolve none (p.join q) = .ok l) :
    d.canonicalize (Asset.ofFile (p.join q) p).path = d.canonicalize (p.join q) :=
  resolve_path_ofFile_join hq h

/-! ### The same place -/

/-- Both paths lead to one place. -/
def Coincide (d : Disk) (p q : Path) : Prop :=
  ∃ l, d.resolve none p = .ok l ∧ d.resolve none q = .ok l

/-- Both paths have one canonical location. -/
def SameFile (d : Disk) (p q : Path) : Prop :=
  ∃ l, d.canonicalize p = .ok l ∧ d.canonicalize q = .ok l

/-- Whether two results are there and alike. -/
def decidableOkBoth (x y : Except IoError Location) :
    Decidable (∃ l, x = .ok l ∧ y = .ok l) :=
  match x with
  | .ok l => decidable_of_iff (y = .ok l)
      ⟨fun hy => ⟨l, rfl, hy⟩, fun ⟨_, hl, hy⟩ => (Except.ok.inj hl) ▸ hy⟩
  | .error _ => .isFalse fun ⟨_, hl, _⟩ => by cases hl

instance (p q : Path) : Decidable (d.Coincide p q) := decidableOkBoth _ _

instance (p q : Path) : Decidable (d.SameFile p q) := decidableOkBoth _ _

theorem SameFile.symm : d.SameFile p q → d.SameFile q p :=
  fun ⟨l, hp, hq⟩ => ⟨l, hq, hp⟩

/-- Paths with one canonical location lead there. -/
theorem SameFile.coincide : d.SameFile p q → d.Coincide p q :=
  fun ⟨l, hp, hq⟩ => ⟨l, resolve_of_limit hp, resolve_of_limit hq⟩

/-! ### Asking for files -/

theorem isSome_entry?_of_resolve (h : d.resolve limit? p = .ok l) :
    (d.entry? l).isSome := by
  obtain ⟨-, -, h⟩ := resolve_eq_ok_iff.1 h
  exact isSome_entry?_of_follow h

theorem resolve_of_locate {r : Except IoError Location} (h : d.locate p = r)
    (hr : r ≠ .error .invalidFilename) : d.resolve none p = r := by
  subst h
  unfold locate at *
  by_cases hlong : pathLimit ≤ Text.byteLength p.text ∧ '\x00' ∉ p.text
  · rw [if_pos hlong] at hr
    exact absurd rfl hr
  · rw [if_neg hlong]

theorem exists_resolve_of_find {e : Entry} (h : d.find p = .ok e) :
    ∃ l, d.resolve none p = .ok l ∧ d.entry? l = some e := by
  unfold find at h
  cases hl : d.locate p with
  | error e' => rw [hl] at h; cases h
  | ok l =>
    rw [hl] at h
    refine ⟨l, resolve_of_locate hl (by simp), ?_⟩
    cases he : d.entry? l with
    | none => simp [he] at h
    | some e' => simpa [he] using h

theorem resolve_of_find_eq_notFound (h : d.find p = .error .notFound) :
    d.resolve none p = .error .notFound := by
  unfold find at h
  cases hl : d.locate p with
  | error e =>
    rw [hl] at h
    obtain rfl := Except.error.inj h
    exact resolve_of_locate hl (by simp)
  | ok l =>
    -- a path that leads to a place leads to an entry
    have hresolve := resolve_of_locate hl (by simp)
    obtain ⟨e, he⟩ := Option.isSome_iff_exists.1 (isSome_entry?_of_resolve hresolve)
    simp [hl, he] at h

/-- Where the existence of a file is known, it is the existence of a place that its path leads to. -/
theorem resolve_of_exists? {b : Bool} (h : d.exists? p = .ok b) :
    if b then ∃ l, d.resolve none p = .ok l else d.resolve none p = .error .notFound := by
  unfold exists? at h
  cases hfind : d.find p with
  | ok e =>
    rw [hfind] at h
    obtain rfl := Except.ok.inj h
    obtain ⟨l, hl, -⟩ := exists_resolve_of_find hfind
    exact ⟨l, hl⟩
  | error e =>
    rw [hfind] at h
    cases e with
    | notFound =>
      obtain rfl := Except.ok.inj h
      exact resolve_of_find_eq_notFound hfind
    | _ => cases h

theorem exists_resolve_of_read {source : Text} (h : d.read p = .ok source) :
    ∃ l, d.resolve none p = .ok l ∧ d.entry? l = some (.file (.text source)) := by
  unfold read at h
  split at h
  · next hfind =>
    obtain rfl := Except.ok.inj h
    exact exists_resolve_of_find hfind
  · cases h
  · cases h
  · cases h

/-- Two spellings of one file have the same text. -/
theorem read_unique {source source' : Text} (hsame : d.Coincide p q)
    (h : d.read p = .ok source) (h' : d.read q = .ok source') : source = source' := by
  obtain ⟨l, hp, hq⟩ := hsame
  obtain ⟨k, hk, hentry⟩ := exists_resolve_of_read h
  obtain ⟨k', hk', hentry'⟩ := exists_resolve_of_read h'
  obtain rfl := Except.ok.inj (hp.symm.trans hk)
  obtain rfl := Except.ok.inj (hq.symm.trans hk')
  simpa using hentry.symm.trans hentry'

end SassImports.Disk
