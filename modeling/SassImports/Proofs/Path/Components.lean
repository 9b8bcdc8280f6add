/-
  SassImports/Proofs/Path/Components.lean
  =======================================
  What the operations on paths do to the components, by which paths are compared.

    * `components_join`: joining puts the components of the second path behind those of the first;
    * `components_ofSegments`: cutting segments off at the end cuts their components off, whatever
      becomes of the lead;
    * `components_path_ofFile` and `isAbsolute_sourcePath_ofFile`: so the asset made for a file below
      a directory is at the file's path, and its source path is relative;
    * `exists_parent?_of_fileName?`: the parent of a path that ends in a name has all components but
      this name, so where a name was joined to a path, it has those of the path
      (`exists_parent?_join`).
-/
import SassImports.Proofs.Path.Parent

namespace SassImports.Path

variable {p p' q : Path} {n x : Text} {segments more : List Text}

/-! ### Pieces that stand for nothing -/

theorem filterMap_of_idle (h : ∀ x ∈ segments, isIdle x = true) :
    segments.filterMap Component.ofSegment? = [] := by
  apply List.filterMap_eq_nil_iff.2
  intro x hx
  simpa [isIdle] using h x hx

theorem filterMap_trimEnd (segments : List Text) :
    (trimEnd segments).filterMap Component.ofSegment? =
      segments.filterMap Component.ofSegment? := by
  obtain ⟨idle, hidle, h⟩ := trimEnd_spec segments
  have happend := congrArg (List.filterMap Component.ofSegment?) h
  rw [List.filterMap_append, filterMap_of_idle hidle, List.append_nil] at happend
  exact happend.symm

/-! ### Joining -/

theorem nil_join (q : Path) : (Path.mk []).join q = q := by
  simp [join]

theorem components_join (hp : p.text ≠ []) (hq : q.isAbsolute = false) :
    (p.join q).components = p.components ++ q.pieces.filterMap Component.ofSegment? := by
  obtain ⟨inner, hsegments, hinner⟩ := exists_segments_join hp hq
  rw [components, components, lead?_join hp hq, hsegments, List.filterMap_append, hinner,
    List.append_assoc]

/-- A text that is one component, its name. -/
def IsName (n : Text) : Prop := Component.ofSegment? n = some (.name n) ∧ '/' ∉ n

theorem eq_of_ofSegment? (h : Component.ofSegment? x = some (.name n)) : x = n := by
  unfold Component.ofSegment? at h
  split at h
  · cases h
  · cases h
  · cases h
  · simpa using h

theorem IsName.isAbsolute (h : IsName n) : (Path.mk n).isAbsolute = false := by
  obtain ⟨-, hslash⟩ := h
  cases n with
  | nil => rfl
  | cons c n =>
    have hc : c ≠ '/' := by
      rintro rfl
      exact hslash List.mem_cons_self
    simpa [Path.isAbsolute] using hc

theorem components_join_name (hp : p.text ≠ []) (h : IsName n) :
    (p.join ⟨n⟩).components = p.components ++ [.name n] := by
  have hpieces : (Path.mk n).pieces = [n] := List.splitOn_eq_singleton h.2
  rw [components_join hp h.isAbsolute, hpieces, List.filterMap_cons_some h.1]
  rfl

/-! ### Cutting segments off -/

theorem isAbsolute_iff : p.isAbsolute = true ↔ p.lead? = some .root := by
  constructor
  · intro h
    obtain ⟨t, ht⟩ := exists_text_of_isAbsolute h
    simp [lead?, ht]
  · intro h
    rcases p.lead?_cases with hnone | hcurrent | ⟨-, t, ht⟩
    · rw [hnone] at h
      cases h
    · rw [hcurrent] at h
      cases h
    · simp [isAbsolute, ht]

/-- Where something stands before it, a slash and what follows it do not touch the lead. -/
theorem lead?_append_slash {t : Text} (ht : t ≠ []) (v : Text) :
    (Path.mk (t ++ '/' :: v)).lead? = (Path.mk t).lead? := by
  match t with
  | [c] =>
    by_cases hslash : c = '/'
    · subst hslash; rfl
    · by_cases hdot : c = '.'
      · subst hdot; rfl
      · simp [lead?, hslash, hdot]
  | c :: c' :: t =>
    by_cases hslash : c = '/'
    · subst hslash; rfl
    · by_cases hdot : c = '.'
      · subst hdot
        by_cases hslash' : c' = '/'
        · subst hslash'; rfl
        · simp [lead?, hslash']
      · simp [lead?, hslash, hdot]

/-- The lead as it is written, one character or none. -/
theorem leadText_cases (p : Path) :
    (p.lead? = none ∧ p.leadText = []) ∨ (p.lead? = some .current ∧ p.leadText = ['.']) ∨
      (p.lead? = some .root ∧ p.leadText = ['/']) := by
  cases h : p.isAbsolute with
  | true =>
    obtain ⟨t, ht⟩ := exists_text_of_isAbsolute h
    have hlead := isAbsolute_iff.1 h
    exact .inr (.inr ⟨hlead, by simp [leadText, hlead, ht]⟩)
  | false =>
    rcases lead?_of_relative h with hlead | ⟨hlead, ht | ⟨t, ht⟩⟩
    · exact .inl ⟨hlead, by simp [leadText, hlead]⟩
    · exact .inr (.inl ⟨hlead, by simp [leadText, hlead, ht]⟩)
    · exact .inr (.inl ⟨hlead, by simp [leadText, hlead, ht]⟩)

theorem intercalate_append_cons {xs : List Text} (hxs : xs ≠ []) (y : Text) (ys : List Text) :
    ['/'].intercalate (xs ++ y :: ys) =
      ['/'].intercalate xs ++ '/' :: ['/'].intercalate (y :: ys) := by
  induction xs with
  | nil => exact absurd rfl hxs
  | cons x xs ih =>
    cases xs with
    | nil => simp [List.intercalate_cons_cons]
    | cons x' xs =>
      have hmore := ih (List.cons_ne_nil x' xs)
      rw [List.cons_append] at hmore
      simp [List.intercalate_cons_cons, hmore]

theorem lead?_ofSegments (h : p.segments = segments ++ more) :
    (ofSegments p.leadText segments).lead? = p.lead? := by
  have htext := p.leadText_append_body
  rw [← intercalate_segments, h] at htext
  cases segments with
  | nil =>
    rcases p.leadText_cases with ⟨hlead, ht⟩ | ⟨hlead, ht⟩ | ⟨hlead, ht⟩ <;>
      rw [hlead, ofSegments, ht] <;> rfl
  | cons x segments =>
    cases more with
    | nil =>
      rw [List.append_nil] at htext
      rw [ofSegments, htext]
    | cons y more =>
      rw [intercalate_append_cons (List.cons_ne_nil x segments), ← List.append_assoc] at htext
      by_cases hnil : p.leadText ++ ['/'].intercalate (x :: segments) = []
      · -- the path has no lead, and nothing is left of it
        rw [ofSegments, hnil]
        rcases p.leadText_cases with ⟨hlead, -⟩ | ⟨-, ht⟩ | ⟨-, ht⟩
        · exact hlead.symm
        · simp [ht] at hnil
        · simp [ht] at hnil
      · rw [ofSegments, ← lead?_append_slash hnil, htext]

theorem components_ofSegments (h : p.segments = segments ++ more) :
    (ofSegments p.leadText segments).components =
      p.lead?.toList ++ segments.filterMap Component.ofSegment? := by
  have hlead := lead?_ofSegments h
  have hbody : (ofSegments p.leadText segments).body = ['/'].intercalate segments := by
    rw [body, hlead]
    rcases p.leadText_cases with ⟨hlead, ht⟩ | ⟨hlead, ht⟩ | ⟨hlead, ht⟩ <;>
      simp [ofSegments, hlead, ht]
  rw [components, hlead, Path.segments, hbody]
  cases segments with
  | nil => rfl
  | cons x segments =>
    rw [List.splitOn_intercalate '/' _ (List.cons_ne_nil x segments)]
    intro y hy
    apply slash_notMem_of_mem_splitOn (t := p.body)
    rw [← Path.segments, h]
    exact List.mem_append_left more hy

theorem getLast?_components_of_idle (h : ∀ x ∈ p.segments, isIdle x = true) :
    p.components.getLast? = p.lead? := by
  rw [components, filterMap_of_idle h, List.append_nil]
  cases p.lead? <;> rfl

theorem exists_parent?_of_fileName? (h : p.fileName? = some n) :
    ∃ parent, p.parent? = some parent ∧ p.components = parent.components ++ [.name n] ∧
      IsName n := by
  have hlast : p.components.getLast? = some (.name n) := by
    unfold fileName? at h
    split at h
    · next hlast => rw [hlast, Option.some.inj h]
    · cases h
  obtain ⟨idle, hidle, hsegments⟩ := trimEnd_spec p.segments
  cases hdrop : p.segments.reverse.dropWhile isIdle with
  | nil =>
    -- without a name among the segments the lead would be one
    rw [trimEnd, hdrop, List.reverse_nil, List.nil_append] at hsegments
    rw [getLast?_components_of_idle (by rwa [hsegments])] at hlast
    rcases p.leadText_cases with ⟨hlead, -⟩ | ⟨hlead, -⟩ | ⟨hlead, -⟩ <;>
      rw [hlead] at hlast <;> cases hlast
  | cons x before =>
    rw [trimEnd, hdrop, List.reverse_cons, List.append_assoc] at hsegments
    obtain ⟨trail, -, hbefore⟩ := trimEnd_spec before.reverse
    have hparent : p.parent? = some (ofSegments p.leadText (trimEnd before.reverse)) := by
      unfold parent?
      rw [hdrop]
    have hx : isIdle x = false := by
      have hhead := List.head?_dropWhile_not isIdle p.segments.reverse
      rwa [hdrop] at hhead
    obtain ⟨c, hc⟩ : ∃ c, Component.ofSegment? x = some c := by
      rw [isIdle, Option.isNone_eq_false_iff] at hx
      exact Option.isSome_iff_exists.1 hx
    have hcomponents : p.components =
        (ofSegments p.leadText (trimEnd before.reverse)).components ++ [c] := by
      have hprefix : p.segments = trimEnd before.reverse ++ (trail ++ ([x] ++ idle)) := by
        rw [← List.append_assoc, ← hbefore]
        exact hsegments
      rw [components_ofSegments hprefix, filterMap_trimEnd, components, hsegments,
        List.filterMap_append, List.filterMap_append, filterMap_of_idle hidle, List.append_nil,
        List.filterMap_cons_some hc, List.append_assoc]
      rfl
    rw [hcomponents, List.getLast?_concat] at hlast
    obtain rfl := Option.some.inj hlast
    obtain rfl := eq_of_ofSegment? hc
    refine ⟨_, hparent, hcomponents, hc, slash_notMem_of_mem_splitOn (t := p.body) ?_⟩
    rw [← segments, hsegments]
    simp

/-! ### Paths that end in a name -/

theorem components_of_isName (h : IsName n) : (Path.mk n).components = [.name n] := by
  have hlead : (Path.mk n).lead? = none := by
    rcases lead?_of_relative h.isAbsolute with hlead | ⟨-, ht | ⟨t, ht⟩⟩
    · exact hlead
    · obtain rfl : n = ['.'] := ht
      cases h.1
    · obtain rfl : n = '.' :: '/' :: t := ht
      exact absurd (by simp) h.2
  have hsegments : (Path.mk n).segments = [n] := by
    rw [segments, body, hlead]
    exact List.splitOn_eq_singleton h.2
  rw [components, hlead, hsegments, List.filterMap_cons_some h.1]
  rfl

theorem components_join_isName (p : Path) (h : IsName n) :
    (p.join ⟨n⟩).components = p.components ++ [.name n] := by
  by_cases hp : p.text = []
  · obtain rfl : p = ⟨[]⟩ := by cases p; simpa using hp
    rw [nil_join, components_of_isName h]
    rfl
  · exact components_join_name hp h

theorem fileName?_join (p : Path) (h : IsName n) : (p.join ⟨n⟩).fileName? = some n := by
  rw [fileName?, components_join_isName p h, List.getLast?_concat]

/-- The directory of a path that ends in a name. -/
theorem exists_parent?_join (p : Path) (h : IsName n) :
    ∃ parent, (p.join ⟨n⟩).parent? = some parent ∧ parent.components = p.components := by
  obtain ⟨parent, hparent, hcomponents, -⟩ := exists_parent?_of_fileName? (fileName?_join p h)
  rw [components_join_isName p h] at hcomponents
  exact ⟨parent, hparent, (List.append_cancel_right hcomponents).symm⟩

theorem text_eq_nil_iff : p.text = [] ↔ p.components = [] := by
  constructor
  · intro hp
    obtain rfl : p = ⟨[]⟩ := by cases p; simpa using hp
    rfl
  · intro hcomponents
    exact Decidable.byContradiction fun hp => components_ne_nil hp hcomponents

/-- Joining depends on the components of the first path only, when components are compared. -/
theorem components_join_congr (h : p.components = p'.components) (q : Path) :
    (p.join q).components = (p'.join q).components := by
  cases hq : q.isAbsolute with
  | true => rw [join_of_absolute hq, join_of_absolute hq]
  | false =>
    by_cases hp : p.text = []
    · have hp' : p'.text = [] := text_eq_nil_iff.2 (h ▸ text_eq_nil_iff.1 hp)
      rw [join, join, hp, hp']
    · have hp' : p'.text ≠ [] := fun hp' => hp (text_eq_nil_iff.2 (h ▸ text_eq_nil_iff.1 hp'))
      rw [components_join hp hq, components_join hp' hq, h]

theorem exists_pieces_join (p : Path) (h : IsName n) :
    ∃ before, (p.join ⟨n⟩).pieces = before ++ [n] := by
  have hpieces : (Path.mk n).pieces = [n] := List.splitOn_eq_singleton h.2
  by_cases hp : p.text = []
  · obtain rfl : p = ⟨[]⟩ := by cases p; simpa using hp
    exact ⟨[], by rw [nil_join, hpieces, List.nil_append]⟩
  · exact ⟨p.innerPieces, by rw [pieces_join hp h.isAbsolute, hpieces]⟩

end SassImports.Path
